import Downlevel.Proofs.Outline.Classes
import Downlevel.Proofs.Outline.Parts
/-!
# Proofs.Outline.Program — the rules, and their draft

What becomes of a node looks like what its draft makes of the outline of the node (`drafted_visitUpTo`): the two fail
together or end well together, whatever the columns, the lines and the trivia of the tree are.  The rules that drop types
and modifiers come first; those of functions, classes, enums and namespaces have modules of their own.
-/
namespace Downlevel.LoweringContext.Drafted

variable {c : LoweringContext} {visit : Node → Draft Replacement} {W : Registry} {n : Node} (h : c.Drafted visit)

include h

theorem variableStatement (hn : n.Held W) :
    Follows W (c.variableStatement n) (Draft.variableStatement visit n.outline) Replacement.Shows := by
  unfold LoweringContext.variableStatement Draft.variableStatement
  refine .viewHeld hn (fun v hk hs hparts => ?_)
  simp only [OutlineView.outline, Option.isSome_map]
  split
  · exact .pure .removed
  · refine (h.walk hn).bind (fun W₁ h₁ walked walked' hwalked => ?_)
    cases v.exported with
    | none => exact .pure (.one hwalked)
    | some exported =>
      refine .viewShown hwalked (fun w w' _ hw hparts => ?_)
      simp only [NodeView.toSlots, List.forall_mem_cons, Slot.known_token, Slot.known_node] at hparts
      obtain ⟨-, -, hdeclaration, hsemicolon, -⟩ := hparts
      refine .lay (records_withLeading ⟨hdeclaration, congrArg VariableStatement.declaration hw⟩)
        (fun W₂ h₂ declaration hd => ?_)
      refine .make (draws_toNode (.cons Slot.shows_absent <| .cons Slot.shows_absent <| .cons hd.slot <|
        .cons (Token.Shows.slot ⟨hsemicolon.up (by order), congrArg VariableStatement.semicolon hw⟩) .nil) rfl)
        (fun W₃ h₃ m m' hm => .pure (.one hm.1))

theorem variableDeclarator (hn : n.Held W) :
    Follows W (c.variableDeclarator n) (Draft.variableDeclarator visit n.outline) Replacement.Shows := by
  unfold LoweringContext.variableDeclarator Draft.variableDeclarator
  refine .viewHeld hn (fun v hk hs hparts => ?_)
  simp only [NodeView.toSlots, List.forall_mem_cons, Slot.held_token, Slot.held_ofNode?] at hparts
  obtain ⟨hname, -, hvalue, -⟩ := hparts
  cases htype : v.type with
  | none =>
    simp only [OutlineView.outline, htype, Option.map_none]
    exact (h.walk hn).map (fun _ _ _ _ hm => .one hm)
  | some annotation =>
    simp only [OutlineView.outline, htype, Option.map_some]
    have hvalues : Option.Rel (fun m m' => m.Held W ∧ m' = m.outline) v.value (v.value.map Node.outline) := by
      cases hv : v.value with
      | none => exact .none
      | some m => exact .some ⟨hvalue m hv, rfl⟩
    refine (Follows.optionMapM hvalues (R := Node.Shows) (fun m m' hm => ?_)).bind (fun W₁ h₁ value value' hv => ?_)
    · obtain ⟨hm, rfl⟩ := hm
      exact h.lower hm
    · refine .lay records_tokenWithTrailing (fun W₂ h₂ name hname' => ?_)
      refine .make (draws_toNode (.cons hname'.bare.slot <| .cons Slot.shows_absent <|
        .cons (Slot.shows_ofNode? ?_) .nil) (Node.matchesSchema_iff.2 (.cons rfl <| .cons rfl <|
          .cons (Slot.fits_ofNode? _) .nil))) (fun W₃ h₃ m m' hm => .pure (.one hm.1))
      cases hv with
      | none => exact .none
      | some hv => exact .some (hv.up (by order))

theorem castExpression (hn : n.Held W) :
    Follows W (c.castExpression n) (Draft.castExpression visit n.outline) Replacement.Shows := by
  unfold LoweringContext.castExpression Draft.castExpression
  refine .viewHeld hn (fun v hk hs hparts => ?_)
  simp only [NodeView.toSlots, List.forall_mem_cons, Slot.held_token, Slot.held_node] at hparts
  obtain ⟨-, -, -, hexpression, -⟩ := hparts
  refine (h.lower hexpression).bind (fun W₁ h₁ m m' hm => ?_)
  exact .lay (records_withLeading hm) (fun W₂ h₂ moved hmoved => .pure (.one hmoved))

end Downlevel.LoweringContext.Drafted

namespace Downlevel

variable {W : Registry} {n n' : Node} {ns ns' : List Node}

namespace LoweringContext

variable {c : LoweringContext}

/-- A captured `this` stands in front of a program, behind the comments at its head. -/
theorem draws_captureAtHead (h : Node.AllShow W ns ns') :
    Draws W (c.captureAtHead ns) (Draft.withCapture true ns') Node.AllShow := by
  unfold captureAtHead Draft.withCapture
  simp only [if_true]
  cases h with
  | nil => exact draws_captureStatement.map (fun _ _ _ _ hs => .cons hs .nil)
  | @cons first first' rest rest' hfirst hrest =>
    refine draws_captureStatement.bind (fun W₁ h₁ capture capture' hcapture => ?_)
    refine .left (records_withLeading hcapture) (fun W₂ h₂ capture hcapture => ?_)
    exact .left (records_withLeading (hfirst.up (by order))) (fun W₃ h₃ moved hmoved =>
      .pure (.cons (hcapture.up (by order)) <| .cons hmoved (Node.AllShow.up hrest (by order))))

namespace Drafted

variable {visit : Node → Draft Replacement} (h : c.Drafted visit)

include h

/-- **A whole program follows its draft**, with no scope around it. -/
theorem sourceUnit_alone (hn : n.Held W) :
    FollowsAlone W (c.sourceUnit n) (Draft.sourceUnit visit n.outline) Replacement.Shows := by
  have hreads := hn.reads (α := SourceUnit)
  unfold LoweringContext.sourceUnit Draft.sourceUnit Lowering.view Draft.view
  generalize n.view? SourceUnit = o at hreads
  generalize n.outline.view? SourceUnit = o' at hreads
  cases hreads with
  | none => exact fun _ _ => .error
  | @some v hk hs hparts =>
    simp only [NodeView.toSlots, List.forall_mem_cons, Slot.held_list, Slot.held_token] at hparts
    obtain ⟨helements, hend, -⟩ := hparts
    dsimp only
    rw [pure_bind, pure_bind]
    refine (Follows.inScope_alone (h.walkList helements)).bind (fun W₁ h₁ p q hp => ?_)
    obtain ⟨hwalked, hcaptured⟩ := hp
    rw [hcaptured]
    have hgoes : ∀ W₂, W₁ ≤ W₂ → ∀ statements statements' : List Node, Node.AllShow W₂ statements statements' →
        FollowsAlone W₂ (do return .one (← NodeView.toNode (SourceUnit.mk statements v.endOfFile)) : Lowering Replacement)
          (do return .one (← Draft.make (NodeView.toNode (SourceUnit.mk statements' (OutlineView.outline v).endOfFile))))
          Replacement.Shows := fun W₂ h₂ statements statements' hs =>
      (FollowsAlone.lift (draws_toNode (.cons hs.slot <| .cons (hend.up (by order)).shows.slot .nil) rfl)).bind
        (fun W₃ h₃ m m' hm => .pure (.one hm.1))
    cases q.2 with
    | true =>
      have hstatements : FollowsAlone W₁ (Work.lift (c.captureAtHead p.1.value) : Lowering (List Node))
          (Draft.make (Draft.withCapture true q.1)) Node.AllShow := .lift (draws_captureAtHead hwalked.value)
      exact hstatements.bind hgoes
    | false =>
      rw [Draft.make_eq_pure, pure_bind, pure_bind]
      -- A program of which no statement changed comes back, and its outline is that of the draft.
      cases hchanged : p.1.changed with
      | true => exact hgoes W₁ le_rfl _ _ hwalked.value
      | false =>
        rw [Draft.make_eq_pure, pure_bind]
        refine .pure (.one ⟨hn.known.up (by order), ?_⟩)
        show n.outline = (Node.mk 0 .sourceUnit (NodeView.toSlots (SourceUnit.mk q.1 v.endOfFile.outline))).outline
        rw [n.outline_eq, Node.outline_mk, hk, hs]
        simp only [NodeView.toSlots, List.map_cons, List.map_nil, Slot.outline_list, Slot.outline_token,
          hwalked.same hchanged]
        rfl

omit h in
/-- **A signature follows its draft.** -/
theorem callSignature (hn : n.Held W) :
    Follows W (LoweringContext.callSignature n) (Draft.callSignature n.outline) Replacement.Shows := by
  unfold LoweringContext.callSignature Draft.callSignature
  refine .viewHeld hn (fun signature hk hs hparts => ?_)
  simp only [NodeView.toSlots, List.forall_mem_cons, Slot.held_node] at hparts
  obtain ⟨hparameters, -, -⟩ := hparts
  refine (follows_parameterList hparameters signature.resultType).bind (fun W₁ h₁ p q hp => ?_)
  obtain ⟨⟨hlist, hnew⟩, -⟩ := hp
  dsimp only
  split
  · rename_i hsame
    have htype := resultType_eq_none hparameters.known hnew hsame
    rw [Draft.make_eq_pure, pure_bind]
    exact .pure (.one ⟨hn.known.up (by order), outline_callSignature hk hs hlist (hparameters.known.up (by order))
      hsame htype⟩)
  · exact .make (Build.draws_callSignature hlist) (fun W₂ h₂ s s' hs => .pure (.one hs))

/-- **What becomes of a node follows the draft.** -/
theorem rule (hn : n.Held W) : Follows W (c.rule n) (Draft.rule visit n.outline) Replacement.Shows := by
  have hwalk : Follows W (do return .one (← c.walk n) : Lowering Replacement)
      (do return .one (← Draft.walk visit n.outline)) Replacement.Shows := (h.walk hn).map (fun _ _ _ _ hm => .one hm)
  unfold LoweringContext.rule Draft.rule
  rw [Node.kind_outline]
  cases hk : n.kind with
  | sourceUnit => exact (h.sourceUnit_alone hn).follows
  | interfaceDeclaration => exact .pure .removed
  | classDeclaration => exact h.classDeclaration hn
  | moduleDeclaration => exact h.moduleDeclaration hn
  | enumDeclaration => exact h.enumDeclaration hn
  | functionDeclaration => exact h.functionDeclaration hn
  | variableStatement => exact h.variableStatement hn
  | variableDeclarator => exact h.variableDeclarator hn
  | typeClause => exact .pure .removed
  | callSignature => exact callSignature hn
  | parameterList => exact (follows_parameterList hn none).map (fun _ _ _ _ hp => .one hp.1.1)
  | parameter => exact (follows_eraseParameter hn).map (fun _ _ _ _ hm => .one hm)
  | expressionStatement => exact h.expressionStatement hn hk
  | thisExpression => exact thisExpression hn
  | castExpression => exact h.castExpression hn
  | invocationExpression => exact h.invocation hn
  | memberAccessExpression => exact h.memberAccess hn
  | functionExpression => exact h.functionExpression hn
  | getAccessorPropertyAssignment => exact h.objectAccessor hn
  | setAccessorPropertyAssignment => exact h.objectAccessor hn
  | simpleArrowFunctionExpression => exact h.simpleArrow hn
  | parenthesizedArrowFunctionExpression => exact h.parenthesizedArrow hn
  | _ => exact hwalk

end Drafted

end LoweringContext

/-- **The rules, so many levels deep, follow the draft of so many levels.** -/
theorem drafted_visitUpTo (positions : Positions) (layout : LayoutOptions) : ∀ levels,
    LoweringContext.Drafted ⟨positions, layout, visitUpTo positions layout levels⟩ (Draft.visitUpTo levels)
  | 0 => ⟨fun _ _ _ _ _ _ _ => .error, Draft.keepsOpen_visitUpTo 0⟩
  | levels + 1 =>
    ⟨fun _ _ hn => (drafted_visitUpTo positions layout levels).rule hn, Draft.keepsOpen_visitUpTo (levels + 1)⟩

end Downlevel
