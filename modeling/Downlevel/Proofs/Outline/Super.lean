import Downlevel.Proofs.Outline.Functions
/-!
# Proofs.Outline.Super — references to the base class, and their draft

The receiver of a call through the base class is read off the tree that was given, so both ways of lowering call the
same function; the expression `this` that stays what it is looks like the one that the draft builds.
-/
namespace Downlevel.LoweringContext

variable {c : LoweringContext} {W : Registry} {n n' m m' callee arguments : Node} {t t' : Token}

theorem draws_superReference : Draws W (superReference t) (Build.name "_super".toList) Node.Shows :=
  (Build.draws_identifier _).bind (fun _ _ _ _ hname => .left records_tokenWithLeading (fun _ _ _ hlaid =>
    Build.draws_nameExpression (hlaid.trans hname.outline)))

theorem draws_superPrototype : Draws W (superPrototype t) Draft.superPrototype Node.Shows :=
  draws_superReference.bind (fun _ _ _ _ hbase => (Build.draws_identifier _).bind (fun _ _ _ _ hname =>
    Build.draws_memberAccess (hbase.up (by order)) hname))

theorem draws_callMember (h : n.Shows W n') : Draws W (callMember n) (callMember n') Node.Shows :=
  (Build.draws_identifier _).bind (fun _ _ _ _ hname => Build.draws_memberAccess (h.up (by order)) hname)

/-- **The function that a call through the base class calls looks like its draft.** -/
theorem draws_superCallee (h : callee.Held W) :
    Draws W (superCallee? callee) (Draft.superCallee? callee.outline) (fun W' => Option.Rel (Node.Shows W')) := by
  have hsuper := h.reads (α := SuperExpression)
  have haccess := h.reads (α := MemberAccess)
  unfold superCallee? Draft.superCallee?
  generalize callee.view? SuperExpression = base at hsuper
  generalize callee.outline.view? SuperExpression = base' at hsuper
  cases hsuper with
  | some =>
    refine draws_superReference.bind (fun W₁ h₁ reference reference' hreference => ?_)
    refine (draws_callMember hreference).bind (fun W₂ h₂ target target' htarget => ?_)
    exact .left (records_withTrailing htarget) (fun W₃ h₃ laid hlaid => .pure (.some hlaid))
  | none =>
    generalize callee.view? MemberAccess = access at haccess
    generalize callee.outline.view? MemberAccess = access' at haccess
    cases haccess with
    | none => exact .pure .none
    | @some access hk hs hparts =>
      simp only [NodeView.toSlots, List.forall_mem_cons, Slot.held_token, Slot.held_node] at hparts
      obtain ⟨hexpression, -, hname, -⟩ := hparts
      have hsuper := hexpression.reads (α := SuperExpression)
      dsimp only
      rw [show (OutlineView.outline access).expression = access.expression.outline from rfl]
      generalize access.expression.view? SuperExpression = base at hsuper
      generalize access.expression.outline.view? SuperExpression = base' at hsuper
      cases hsuper with
      | none => exact .pure .none
      | some =>
        refine draws_superPrototype.bind (fun W₁ h₁ prototype prototype' hprototype => ?_)
        refine .left records_tokenWithTrailing (fun W₂ h₂ name hn => ?_)
        refine (Build.draws_memberAccess (hprototype.up (by order)) hn.bare).bind
          (fun W₃ h₃ method method' hmethod => ?_)
        refine (draws_callMember hmethod).bind (fun W₄ h₄ target target' htarget => ?_)
        exact .left (records_withTrailing htarget) (fun W₅ h₅ laid hlaid => .pure (.some hlaid))

namespace Drafted

variable {visit : Node → Draft Replacement} (h : c.Drafted visit)

include h

theorem callWithThis (htarget : m.Shows W m') (harguments : arguments.Held W) :
    Follows W (c.callWithThis m arguments) (Draft.callWithThis visit m' arguments.outline) Replacement.Shows := by
  unfold LoweringContext.callWithThis Draft.callWithThis
  refine (h.lower harguments).bind (fun W₁ h₁ lowered lowered' hlowered => ?_)
  refine .viewShown hlowered (fun v v' _ hv hparts => ?_)
  simp only [NodeView.toSlots, List.forall_mem_cons, Slot.known_token, Slot.known_separated] at hparts
  obtain ⟨hopen, ⟨hmembers, hseparators⟩, hclose, -⟩ := hparts
  have hlist : v.arguments.outline = v'.arguments.outline := congrArg ArgumentList.arguments hv
  have hmembers : Node.AllShow W₁ v.arguments.members v'.arguments.members :=
    .ofOutlines hmembers (congrArg SeparatedNodes.members hlist)
  have hseparators : Token.AllShow W₁ v.arguments.separators v'.arguments.separators :=
    .ofOutlines hseparators (congrArg SeparatedNodes.separators hlist)
  refine .lay (Build.draws_token _ 0) (fun W₂ h₂ keyword hkeyword => ?_)
  refine (Follows.thisReference hkeyword).bind (fun W₃ h₃ this this' hthis => ?_)
  rw [hmembers.isEmpty_eq]
  -- The comma behind `this` is there if there are other arguments; the call is built of it alike.
  have hrest : ∀ W₄, W₃ ≤ W₄ → ∀ comma comma' : List Token, Token.AllShow W₄ comma comma' → Follows W₄ (do
      let arguments ← NodeView.toNode
        { v with arguments := ⟨this :: v.arguments.members, comma ++ v.arguments.separators⟩ }
      return .one (← NodeView.toNode (Invocation.mk m arguments)) : Lowering Replacement) (do
      let arguments ← Draft.make (NodeView.toNode
        { v' with arguments := ⟨this' :: v'.arguments.members, comma' ++ v'.arguments.separators⟩ })
      return .one (← Draft.make (NodeView.toNode (Invocation.mk m' arguments)))) Replacement.Shows := by
    intro W₄ h₄ comma comma' hcomma
    refine .make (draws_toNode (
      .cons (Token.Shows.slot ⟨hopen.up (by order), congrArg ArgumentList.openParen hv⟩) <|
      .cons (Slot.shows_separated (.cons (hthis.1.up (by order)) (hmembers.up (by order)))
        (List.rel_append hcomma (hseparators.up (by order)))) <|
      .cons (Token.Shows.slot ⟨hclose.up (by order), congrArg ArgumentList.closeParen hv⟩) .nil) rfl)
        (fun W₅ h₅ list list' hl => ?_)
    exact .make (draws_toNode (.cons (htarget.up (by order)).slot <| .cons hl.1.slot .nil) rfl)
      (fun W₆ h₆ call call' hcall =>
      .pure (.one hcall.1))
  dsimp only
  split
  · exact hrest W₃ le_rfl [] [] .nil
  · exact .make (Build.draws_markThenSpace _) (fun W₄ h₄ comma comma' hcomma => hrest W₄ h₄ _ _ (.cons hcomma .nil))

theorem invocation (hn : n.Held W) :
    Follows W (c.invocation n) (Draft.invocation visit n.outline) Replacement.Shows := by
  unfold LoweringContext.invocation Draft.invocation
  refine .viewHeld hn (fun v hk hs hparts => ?_)
  simp only [NodeView.toSlots, List.forall_mem_cons, Slot.held_node] at hparts
  obtain ⟨hcallee, harguments, -⟩ := hparts
  refine .make (draws_superCallee hcallee) (fun W₁ h₁ target target' htarget => ?_)
  cases htarget with
  | none => exact (h.walk (hn.up (by order))).map (fun _ _ _ _ hm => .one hm)
  | some htarget => exact h.callWithThis htarget (harguments.up (by order))

theorem memberAccess (hn : n.Held W) :
    Follows W (c.memberAccess n) (Draft.memberAccess visit n.outline) Replacement.Shows := by
  unfold LoweringContext.memberAccess Draft.memberAccess
  refine .viewHeld hn (fun v hk hs hparts => ?_)
  simp only [NodeView.toSlots, List.forall_mem_cons, Slot.held_token, Slot.held_node] at hparts
  obtain ⟨hexpression, hdot, hname, -⟩ := hparts
  have hsuper := hexpression.reads (α := SuperExpression)
  rw [show (OutlineView.outline v).expression = v.expression.outline from rfl]
  generalize v.expression.view? SuperExpression = base at hsuper
  generalize v.expression.outline.view? SuperExpression = base' at hsuper
  cases hsuper with
  | none => exact (h.walk hn).map (fun _ _ _ _ hm => .one hm)
  | @some base =>
    rw [Draft.make_eq_pure, pure_bind]
    refine .lay (draws_superPrototype 0) (fun W₁ h₁ prototype hprototype => ?_)
    have haccess : Draws W₁ (NodeView.toNode (MemberAccess.mk prototype v.dot v.name))
        (NodeView.toNode (MemberAccess.mk (Draft.superPrototype 0).1 v.dot.outline v.name.outline))
        (fun W' m m' => m.Shows W' m' ∧ W₁.next ≤ m.id) :=
      draws_toNode (.cons hprototype.slot <| .cons (hdot.up (by order)).shows.slot <|
        .cons (hname.up (by order)).shows.slot .nil) rfl
    exact .lay (haccess (Draft.superPrototype 0).2) (fun W₂ h₂ m hm => .pure (.one hm.1))

omit h in
/-- **The expression `this` looks like its draft**, also if it is left as it is. -/
theorem thisExpression (hn : n.Held W) :
    Follows W (LoweringContext.thisExpression n) (Draft.thisExpression n.outline) Replacement.Shows := by
  unfold LoweringContext.thisExpression Draft.thisExpression
  refine .viewHeld hn (fun v hk hs hparts => ?_)
  simp only [NodeView.toSlots, List.forall_mem_cons, Slot.held_token] at hparts
  obtain ⟨hkeyword, -⟩ := hparts
  refine (Follows.thisReference hkeyword.shows).bind (fun W₁ h₁ reference reference' hreference => .pure (.one ?_))
  split
  · rename_i hsame
    refine ⟨hn.known.up (by order), ?_⟩
    rw [hreference.2 (hsame.trans hk), n.outline_eq, hs, hk]
    rfl
  · exact hreference.1

end Drafted

end Downlevel.LoweringContext
