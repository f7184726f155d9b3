import Downlevel.Proofs.Lowering.Parameters
/-!
# Proofs.Lowering.Super — references to the base class

A call through the base class lowers its arguments only, and a member of the base class nothing; any other call or
member is walked through.
-/
namespace Downlevel.LoweringContext

open Build

variable {c : LoweringContext} {L : Demand} {o : LayoutOptions} {i k levels : Nat} {cl : NodeClass} {n : Node} {t : Token}

theorem makes_superReference (hL : L.Suits o) (ht : t.Meets L k) :
    Makes k (superReference t) (fun j m => m.Plain L .expression j) := by
  refine (makes_identifier hL (by decide)).bind (fun i₁ h₁ name hname => ?_)
  exact (makes_tokenWithLeading hname ht.leading).bind (fun i₂ h₂ name hname => makes_nameExpression hname (by omega))

theorem makes_superPrototype (hL : L.Suits o) (ht : t.Meets L k) :
    Makes k (superPrototype t) (fun j m => m.Plain L .expression j) := by
  refine (makes_superReference hL ht).bind (fun i₁ h₁ base hbase => ?_)
  exact (makes_identifier hL (by decide)).bind (fun i₂ h₂ name hname => makes_memberAccess hL hbase hname (by omega)
    (by omega))

theorem makes_callMember (hL : L.Suits o) (h : n.Plain L .expression k) :
    Makes k (callMember n) (fun j m => m.Plain L .expression j) :=
  (makes_identifier hL (by decide)).bind (fun _ _ _ hname => makes_memberAccess hL h hname (by omega) (by omega))

/-- A node that is given reads as a word `super` if it is of that kind. -/
theorem view_super {F : Node → Prop} (h : n.Stands F L cl k) :
    (n.kind = .superExpression ∧ ∃ v, n.view? SuperExpression = some v ∧ v.keyword.Meets L k) ∨
      (n.kind ≠ .superExpression ∧ n.view? SuperExpression = none) := by
  by_cases hk : n.kind = .superExpression
  · obtain ⟨v, hv, -, hkeyword⟩ := h.superExpression hk
    exact .inl ⟨hk, v, hv, hkeyword⟩
  · exact .inr ⟨hk, Node.view?_eq_none hk⟩

/-- **A callee has another function to call in its place if it goes through the base class.** -/
theorem makes_superCallee (hL : L.Suits o) {callee : Node} (h : callee.Stands GivenForm L .expression k) :
    Makes k (superCallee? callee) (fun j r => r.isSome = callee.isSuperCallee ∧
      ∀ m, r = some m → m.Plain L .expression j) := by
  unfold superCallee? Node.isSuperCallee
  rcases view_super h with ⟨hk, v, hv, hkeyword⟩ | ⟨hk, hnone⟩
  · rw [hv]
    refine (makes_superReference hL hkeyword).bind (fun i₁ h₁ base hbase => ?_)
    refine (makes_callMember hL hbase).bind (fun i₂ h₂ target htarget => ?_)
    refine (makes_withTrailing htarget hkeyword.trailing (by omega)).bindPure (fun j hj m hm => ⟨by simp [hk], ?_⟩)
    rintro m' ⟨⟩
    exact hm
  · rw [hnone]
    have hno : (callee.kind == .superExpression) = false := beq_eq_false_iff_ne.2 hk
    rw [hno, Bool.false_or]
    by_cases haccess : callee.kind = .memberAccessExpression
    · obtain ⟨w, hw, -, hexpression, -, hname⟩ := h.memberAccess haccess
      rw [hw]
      dsimp only [Option.any_some]
      rcases view_super hexpression with ⟨hk', v, hv, hkeyword⟩ | ⟨hk', hnone'⟩
      · rw [hv]
        refine (makes_superPrototype hL hkeyword).bind (fun i₁ h₁ prototype hprototype => ?_)
        refine (makes_tokenWithTrailing hname .empty).bind (fun i₂ h₂ name hname' => ?_)
        refine (makes_memberAccess hL hprototype hname' (by omega) (by omega)).bind (fun i₃ h₃ method hmethod => ?_)
        refine (makes_callMember hL hmethod).bind (fun i₄ h₄ target htarget => ?_)
        refine (makes_withTrailing htarget hname.trailing (by omega)).bindPure (fun j hj m hm => ⟨by simp [hk'], ?_⟩)
        rintro m' ⟨⟩
        exact hm
      · rw [hnone']
        exact .pure (fun j hj => ⟨by simp [hk'], fun m hm => by cases hm⟩)
    · rw [Node.view?_eq_none haccess]
      exact .pure (fun j hj => ⟨rfl, fun m hm => by cases hm⟩)

/-- **A call with `this` in front of its arguments is made if they are intact.** -/
theorem ends_callWithThis (h : c.Sound L levels) (hleaves : n.leavesNothing = false) (hk : n.kind.isRewritten = true)
    {target arguments : Node} (htarget : target.Plain L .expression i)
    (harguments : arguments.Given L (.only .argumentList) i) (hi : k ≤ i) :
    Ends IsRefusal i (c.callWithThis target arguments) (arguments.Intact levels)
      (fun j r => r.Suits .lowering L k n j) := by
  have hone : n.kind.isSpread = false := by revert hk; cases n.kind <;> decide
  refine (h.lower harguments rfl).thenSure (fun i₁ h₁ lowered hlowered => ?_)
  obtain ⟨v, hv, -, hopen, hlist, hclose⟩ := hlowered.argumentList hlowered.kind_eq
  rw [Lowering.view_eq hv, pure_bind]
  refine .make (makes_token h.suits _) (fun i₂ h₂ keyword hkeyword => ?_)
  refine (Ends.thisReference h.suits hkeyword).sureThen (fun i₃ h₃ this hthis => ?_)
  -- A comma goes behind `this` exactly if there are arguments; with it the list is as long as it must be.
  have hrest : ∀ j, i₃ ≤ j → ∀ comma : List Token, ((∀ t ∈ comma, t.Meets L j) ∧
      comma.length = if v.arguments.members.isEmpty then 0 else 1) → Ends IsRefusal j (do
        let arguments ← NodeView.toNode
          { v with arguments := ⟨this :: v.arguments.members, comma ++ v.arguments.separators⟩ }
        return .one (← NodeView.toNode (Invocation.mk target arguments)) : Lowering Replacement) True
          (fun l r => r.Suits .lowering L k n l) := by
    rintro j hj comma ⟨hcomma, hlength⟩
    have harity : (this :: v.arguments.members).length = (comma ++ v.arguments.separators).length + 1 := by
      rw [List.length_cons, List.length_append, hlength]
      rcases hlist.arity with ⟨hnone, hnone'⟩ | hcount
      · simp [hnone, hnone']
      · have hne : v.arguments.members.isEmpty = false := by
          cases hm : v.arguments.members with
          | nil => rw [hm] at hcount; cases hcount
          | cons => rfl
        rw [hne, hcount]
        simp only [Bool.false_eq_true, if_false]
        omega
    have hslot : Slot.Stands PlainForm L j (.separated .expression)
        (.separated (this :: v.arguments.members) (comma ++ v.arguments.separators)) := by
      refine Slot.stands_separated.2 ⟨?_, fun t ht => ?_, .inr harity⟩
      · exact List.forall_mem_cons.2 ⟨hthis.1.up (by omega), fun m hm => (hlist.members m hm).up (by omega)⟩
      · rcases List.mem_append.1 ht with ht | ht
        · exact hcomma t ht
        · exact (hlist.separators t ht).up (by omega)
    have hnode : Slot.Row PlainForm L j NodeKind.argumentList.sorts (NodeView.toSlots
        { v with arguments := ⟨this :: v.arguments.members, comma ++ v.arguments.separators⟩ }) :=
      .cons (hopen.slot (by omega)) (.cons hslot (.cons (hclose.slot (by omega)) .nil))
    refine .make (makes_node (c := .only .argumentList) hnode (fun _ => rfl) rfl) (fun l hl list hlist' => ?_)
    have hcall : Slot.Row PlainForm L l NodeKind.invocationExpression.sorts
        (NodeView.toSlots (Invocation.mk target list)) := .cons (htarget.slot (by omega))
          (.cons (hlist'.slot (by omega)) .nil)
    exact ends_one (d := .expression) hleaves hone (makes_node hcall (fun _ => rfl) rfl) makes_new
      (fun kind hkind => .ofExpression hk hkind) (by omega)
  dsimp only
  split
  · rename_i hempty
    exact .sureThen (.pure (fun j hj => ⟨fun _ ht => (by cases ht), by rw [if_pos hempty]; rfl⟩)) hrest
  · rename_i hempty
    refine .make (makes_markThenSpace h.suits _) (fun j hj comma hcomma => ?_)
    refine .sureThen (.pure (fun l hl => ?_)) (fun l hl => hrest l (by omega))
    exact ⟨fun t ht => List.mem_singleton.1 ht ▸ hcomma.up (by omega), by rw [if_neg hempty]; rfl⟩

/-- **A call stays a call.** -/
theorem lowers_invocation (h : c.Sound L levels) (hn : n.Given L cl k)
    (hk : n.kind = .invocationExpression) : LowersTo L k (levels + 1) n (c.invocation n) := by
  obtain ⟨v, hv, hs, hcallee, harguments⟩ := hn.invocation hk
  have hrequired : n.kind.keepsRequired = true := by rw [hk]; rfl
  have hone : n.kind.isSpread = false := by rw [hk]; rfl
  have hleaves : n.leavesNothing = false := by simp [Node.leavesNothing, hk]
  have hparts : n.loweredParts = if v.callee.isSuperCallee then [v.arguments] else [v.callee, v.arguments] := by
    unfold Node.loweredParts
    rw [hk]
    exact Node.partsAs_eq hv _
  unfold invocation
  rw [Lowering.view_eq hv, pure_bind]
  refine .make (makes_superCallee h.suits hcallee) (fun j hj callee hcallee' => ?_)
  obtain ⟨hsome, hplain⟩ := hcallee'
  cases callee with
  | some target =>
    have hsuper : v.callee.isSuperCallee = true := hsome.symm
    refine (ends_callWithThis h hleaves (by rw [hk]; rfl) (hplain target rfl) (harguments.up (by omega)) (by omega)).iff ?_
    rw [Node.intact_of_parts hn.fits hrequired (by simp [hk]), hparts, hsuper]
    simp
  | none =>
    have hsuper : v.callee.isSuperCallee = false := hsome.symm
    have hchildren : n.loweredParts = n.children := by
      rw [hparts, hsuper]
      simp [Node.children, hs, NodeView.toSlots]
    refine ((h.walk (hn.up (k := j) (by omega))).iff (Node.intact_of_children hchildren (by simp [hk]))).map
      (fun l hl walked hwalked => ?_)
    have hwalked' := hwalked.since hj
    exact .ofWalked hleaves hone hwalked' (by simp [PlainForm, Node.isDialectForm, hwalked.kind, hk])

/-- **An access to a member stays one.** -/
theorem lowers_memberAccess (h : c.Sound L levels) (hn : n.Given L cl k)
    (hk : n.kind = .memberAccessExpression) : LowersTo L k (levels + 1) n (c.memberAccess n) := by
  obtain ⟨v, hv, hs, hexpression, hdot, hname⟩ := hn.memberAccess hk
  have hrequired : n.kind.keepsRequired = true := by rw [hk]; rfl
  have hone : n.kind.isSpread = false := by rw [hk]; rfl
  have hleaves : n.leavesNothing = false := by simp [Node.leavesNothing, hk]
  have hparts : n.loweredParts = if v.expression.kind == .superExpression then [] else [v.expression] := by
    unfold Node.loweredParts
    rw [hk]
    exact Node.partsAs_eq hv _
  unfold memberAccess
  rw [Lowering.view_eq hv, pure_bind]
  rcases view_super hexpression with ⟨hsuper, w, hw, hkeyword⟩ | ⟨hsuper, hnone⟩
  · rw [hw]
    refine (Ends.make (makes_superPrototype h.suits hkeyword) (fun j hj prototype hprototype => ?_)).iff ?_ (C := True)
    · have hnode : Slot.Row PlainForm L j NodeKind.memberAccessExpression.sorts
          (NodeView.toSlots (MemberAccess.mk prototype v.dot v.name)) :=
        .cons (hprototype.slot (by omega)) (.cons (hdot.slot (by omega)) (.cons (hname.slot (by omega)) .nil))
      exact ends_one (d := .expression) hleaves hone (makes_node hnode (fun _ => rfl) rfl) makes_new
        (fun kind hkind => by rw [hk]; exact .ofExpression rfl hkind) (by omega)
    · rw [Node.intact_of_parts hn.fits hrequired (by simp [hk]), hparts, hsuper]
      simp
  · rw [hnone]
    have hchildren : n.loweredParts = n.children := by
      rw [hparts, beq_eq_false_iff_ne.2 hsuper]
      simp [Node.children, hs, NodeView.toSlots]
    refine ((h.walk hn).iff (Node.intact_of_children hchildren (by simp [hk]))).map (fun l hl walked hwalked => ?_)
    exact .ofWalked hleaves hone hwalked (by simp [PlainForm, Node.isDialectForm, hwalked.kind, hk])

/-- **The word `this` becomes a reference to it.** -/
theorem lowers_thisExpression (h : c.Sound L levels) (hn : n.Given L cl k)
    (hk : n.kind = .thisExpression) : LowersTo L k (levels + 1) n (thisExpression n) := by
  obtain ⟨v, hv, hs, hkeyword⟩ := hn.thisExpression hk
  have hrequired : n.kind.keepsRequired = true := by rw [hk]; rfl
  have hone : n.kind.isSpread = false := by rw [hk]; rfl
  have hleaves : n.leavesNothing = false := by simp [Node.leavesNothing, hk]
  have hchildren : n.children = [] := by simp [Node.children, hs, NodeView.toSlots]
  have hparts : n.loweredParts = n.children := by unfold Node.loweredParts; rw [hk]
  have hintact : True ↔ n.Intact (levels + 1) := by
    rw [Node.intact_of_parts hn.fits hrequired (by simp [hk]), hparts, hchildren]
    simp
  unfold LoweringContext.thisExpression
  rw [Lowering.view_eq hv, pure_bind]
  refine ((Ends.thisReference h.suits hkeyword).map (fun j hj reference hreference => ?_)).iff hintact
  split
  · have hplain : n.Plain L cl j := hn.plain (by simp [PlainForm, Node.isDialectForm, hk])
      (fun m hm => by rw [hchildren] at hm; cases hm) (by omega)
    exact .ofSame hleaves hone hplain.sound
  · exact .ofOne hleaves hone hreference.1.sound (by rw [hk]; exact .ofExpression rfl hreference.1.kind)
      (.inr hreference.2)

end Downlevel.LoweringContext
