import Downlevel.Lowering.Program
import Downlevel.Proofs.Lowering.Super
import Downlevel.Proofs.Outline.Gives
import Downlevel.Proofs.Tree.Answers
/-!
# Proofs.Lowering.Untouched — plain code is given back

Outside of arrow functions, a rule gives a node back as the object that it was, and leaves the state as it was, if the
node and what stands in it are plain and no `super` is among them.  It may hand out numbers on the way, for objects that
it does not use in the end.  This is established rule by rule (`givesBack_rule`), given that it is so of the parts of the
node, and from that for trees of any height (`givesBack_visitUpTo`).
-/
namespace Downlevel

/-! ## Computations that give a value back -/

/-- The current place does not lie in an arrow function of its scope. -/
def LoweringState.OutsideArrow (s : LoweringState) : Prop :=
  s.scopes.head?.any (fun scope => decide (0 < scope.arrowDepth)) = false

/-- Started outside of an arrow function, the computation ends with the value and with the state that it found. -/
def GivesBack {α : Type} (w : Lowering α) (a : α) : Prop :=
  ∀ s : Supplied LoweringState, s.own.OutsideArrow → ∃ next, s.next ≤ next ∧ w s = .ok a ⟨next, s.own⟩

namespace GivesBack

variable {α β : Type} {w : Lowering α} {f : α → Lowering β} {a : α} {b : β}

theorem pure : GivesBack (pure a) a := fun s _ => ⟨s.next, Nat.le_refl _, rfl⟩

theorem bind (hw : GivesBack w a) (hf : GivesBack (f a) b) : GivesBack (w >>= f) b := by
  intro s hs
  obtain ⟨k, hk, hrun⟩ := hw s hs
  obtain ⟨l, hl, hrun'⟩ := hf ⟨k, s.own⟩ hs
  exact ⟨l, Nat.le_trans hk hl, (Work.bind_of_ok hrun).trans hrun'⟩

/-- A last step that only changes what came out. -/
theorem map {g : α → β} (hw : GivesBack w a) : GivesBack (w >>= fun a => Pure.pure (g a)) (g a) := hw.bind .pure

/-- What makes no object. -/
theorem lift : GivesBack (liftM (Pure.pure a : Fresh α)) a := fun s _ => ⟨s.next, Nat.le_refl _, rfl⟩

/-- **In a scope of its own the value is given back as well, and nothing is captured.** -/
theorem inScope (hw : GivesBack w a) : GivesBack (Lowering.inScope w) (a, false) := by
  intro s _
  obtain ⟨k, hk, hrun⟩ := hw ⟨s.next, { s.own with scopes := ⟨0, false⟩ :: s.own.scopes }⟩ rfl
  refine ⟨k, hk, ?_⟩
  unfold Lowering.inScope
  rw [hrun]
  rfl

end GivesBack

/-! ## Plain code -/

/-- A node that no rule changes if that is so of what stands in it. -/
structure UntouchedForm (n : Node) : Prop where
  plain : n.isDialectForm = false
  notSuper : n.kind ≠ .superExpression
  opens : OpenForm n
  /-- An expression that is a statement does not start with `function`. -/
  starts : n.kind = .expressionStatement → ∀ t ∈ n.tokens.head?, t.kind ≠ .keyword .functionKw

/-- A tree of such nodes that fit their kinds. -/
abbrev Node.Untouched (c : NodeClass) (k : ObjectId) (n : Node) : Prop := n.Stands UntouchedForm Demand.any c k

theorem Node.isSame_self (n : Node) : n.isSame n = true := beq_self_eq_true _

/-- There are no types in plain code. -/
theorem no_typeClause {k : ObjectId} {o : Option Node} (h : ∀ m, o = some m → m.Untouched (.only .typeClause) k) :
    o = none := by
  cases o with
  | none => rfl
  | some m =>
    have hform := (h m rfl).form.plain
    rw [Node.isDialectForm, (h m rfl).kind_eq] at hform
    cases hform

namespace LoweringContext

/-- In the context plain trees of so many levels are given back. -/
def GivesBackPlain (c : LoweringContext) (levels : Nat) : Prop :=
  ∀ {n : Node} {cl : NodeClass} {k : ObjectId}, n.Untouched cl k → n.height ≤ levels → GivesBack (c.visit n) (.one n)

variable {c : LoweringContext} {levels : Nat} {cl : NodeClass} {k : ObjectId} {n : Node}

namespace GivesBackPlain

variable (h : c.GivesBackPlain levels)

include h

theorem lower (hn : n.Untouched cl k) (hheight : n.height ≤ levels) : GivesBack (c.lower n) n :=
  (h hn hheight).bind .pure

/-- Parts that are all given back are answered by themselves. -/
theorem answered (parent : NodeKind) : ∀ {ps : List Child} {s : Supplied LoweringState}, s.own.OutsideArrow →
    (∀ p ∈ ps, ∀ m room, p = .node m room → m.Untouched (.only m.kind) k ∧ m.height ≤ levels) →
      ∃ answers next, s.next ≤ next ∧ c.transformer.Answered parent ps s answers ⟨next, s.own⟩ ∧
        List.Forall₂ Child.KeptBy ps answers
  | [], s, _, _ => ⟨[], s.next, Nat.le_refl _, .nil s, .nil⟩
  | p :: ps, s, hs, hps => by
    have hp := hps p List.mem_cons_self
    have hask : ∃ a next, s.next ≤ next ∧ c.transformer.ask p s = .ok a ⟨next, s.own⟩ ∧ p.refusal? parent a = none ∧
        p.KeptBy a := by
      cases p with
      | token t => exact ⟨.token t, s.next, Nat.le_refl _, rfl, rfl, beq_self_eq_true _⟩
      | node m room =>
        obtain ⟨hm, hheight⟩ := hp m room rfl
        obtain ⟨next, hle, hrun⟩ := h hm hheight s hs
        refine ⟨.node (.one m), next, hle, Work.bind_of_ok hrun, ?_, ?_⟩
        · cases room <;> rfl
        · cases room <;> exact ⟨m, rfl, beq_self_eq_true _⟩
    obtain ⟨a, next, hle, hrun, htaken, hkept⟩ := hask
    obtain ⟨answers, next', hle', hrest, hkepts⟩ := answered (s := ⟨next, s.own⟩) parent hs
      (fun q hq => hps q (List.mem_cons_of_mem _ hq))
    exact ⟨a :: answers, next', Nat.le_trans hle hle', .cons hrun htaken hrest, .cons hkept hkepts⟩

/-- **A plain node is walked to itself.** -/
theorem walk (hn : n.Untouched cl k) (hheight : n.height ≤ levels + 1) : GivesBack (c.walk n) n := by
  intro s hs
  have hschematic : n.matchesSchema = true := hn.fits.matchesSchema
  have hparts : ∀ p ∈ n.parts, ∀ m room, p = .node m room → m.Untouched (.only m.kind) k ∧ m.height ≤ levels := by
    rintro p hp m room rfl
    rcases Node.mem_parts hp with ⟨_, _, _, _, heq⟩ | ⟨m', hm, room', heq⟩
    · cases heq
    · cases heq
      have hlow := Node.height_lt_of_mem_children hm
      exact ⟨⟨beq_self_eq_true _, Node.Every.child hn.sound hm⟩, by omega⟩
  obtain ⟨answers, next, hle, hanswered, hkept⟩ := h.answered n.kind hs hparts
  rcases Transformer.walk_cases (r := c.transformer) hschematic s with
    ⟨answers', s₁, slots, hanswered', -, ⟨-, hrun⟩ | ⟨hnot, -⟩⟩ | ⟨e, s', hstop, -⟩
  · obtain ⟨-, rfl⟩ := hanswered.unique hanswered'
    exact ⟨next, hle, hrun⟩
  · obtain ⟨rfl, -⟩ := hanswered.unique hanswered'
    exact absurd hkept hnot
  · exact absurd hanswered (hstop.unique.2 _ _)

end GivesBackPlain

/-! ## Parameters -/

/-- A plain parameter is a name. -/
theorem parameter_untouched (hn : n.Untouched cl k) (hk : n.kind = .parameter) : ∃ v, n.view? Parameter = some v ∧
    v.dots = none ∧ v.access = none ∧ v.value = none ∧ eraseParameter n = pure n := by
  obtain ⟨v, hv, hs, -⟩ := hn.parameter hk
  have hplain : v.dots = none ∧ v.access = none ∧ v.question = none ∧ v.type = none ∧ v.value = none := by
    have hform := hn.form.plain
    simp only [Node.isDialectForm, hk, Node.has_eq, hs, NodeView.toSlots, List.map_cons, List.map_nil,
      Slot.isFilled_ofToken?, Slot.isFilled_ofNode?, Slot.isFilled_token] at hform
    simpa [and_assoc] using hform
  obtain ⟨hdots, haccess, hquestion, htype, hvalue⟩ := hplain
  refine ⟨v, hv, hdots, haccess, hvalue, ?_⟩
  unfold eraseParameter
  rw [Lowering.view_eq hv, pure_bind]
  simp [hdots, haccess, hquestion, htype, hvalue]

theorem givesBack_parametersFrom : ∀ {ns : List Node} {index : Nat}, (∀ n ∈ ns, n.Untouched (.only .parameter) k) →
    GivesBack (parametersFrom index ns) ⟨ns, .none, false⟩
  | [], _, _ => .pure
  | n :: ns, index, hns => by
    have hn := hns n List.mem_cons_self
    obtain ⟨v, hv, hdots, haccess, hvalue, herased⟩ := parameter_untouched hn hn.kind_eq
    have hdefault : defaultValue? v = pure [] := by
      unfold defaultValue?
      rw [hvalue]
      rfl
    have hproperty : property? v = pure [] := by
      unfold property?
      rw [haccess]
      rfl
    unfold parametersFrom
    rw [Lowering.view_eq hv, pure_bind, hdots, if_neg (by simp), hdefault, pure_bind, hproperty, herased]
    refine GivesBack.lift.bind ?_
    rw [pure_bind]
    refine (givesBack_parametersFrom (fun m hm => hns m (List.mem_cons_of_mem _ hm))).bind ?_
    rw [n.isSame_self]
    exact .pure

/-- **A plain list of parameters leaves nothing to do.** -/
theorem givesBack_parameterList (hn : n.Untouched (.only .parameterList) k) :
    GivesBack (parameterList n none) (n, .none) := by
  obtain ⟨v, hv, -, -, hparameters, -⟩ := hn.parameterList hn.kind_eq
  unfold parameterList
  rw [Lowering.view_eq hv, pure_bind]
  exact (givesBack_parametersFrom hparameters.members).bind .pure

theorem parameterPrologue_none (bodyColumn : Nat) : c.parameterPrologue .none bodyColumn = pure [] := rfl

/-- A plain signature has no type of its result. -/
theorem signature_untouched (hn : n.Untouched cl k) (hk : n.kind = .callSignature) : ∃ v, n.view? CallSignature = some v ∧
    n.slots = NodeView.toSlots v ∧ v.resultType = none ∧ v.parameters.Untouched (.only .parameterList) k := by
  obtain ⟨v, hv, hs, hparameters, htype⟩ := hn.callSignature hk
  exact ⟨v, hv, hs, no_typeClause htype, hparameters⟩

namespace GivesBackPlain

variable (h : c.GivesBackPlain levels)

include h

/-! ## Functions -/

/-- **The parameters and the body of a plain function are given back.** -/
theorem functionLike {parameters block : Node} (hparameters : parameters.Untouched (.only .parameterList) k)
    (hblock : block.Untouched (.only .block) k) (hheight : block.height ≤ levels) (column : Nat) :
    GivesBack (c.functionLike parameters none block column) (parameters, block) := by
  unfold LoweringContext.functionLike
  refine (GivesBack.inScope (a := (parameters, [], block)) ?_).bind ?_
  · refine (givesBack_parameterList hparameters).bind ?_
    dsimp only
    rw [parameterPrologue_none, pure_bind]
    exact (h.lower hblock hheight).map
  dsimp only [withCapture]
  refine GivesBack.lift.bind ?_
  exact .pure

theorem functionDeclaration (hn : n.Untouched cl k) (hheight : n.height ≤ levels + 1)
    (hk : n.kind = .functionDeclaration) : GivesBack (c.functionDeclaration n) (.one n) := by
  obtain ⟨v, hv, hs, -, -, -, -, hsignature, hblock, -⟩ := hn.functionDeclaration hk
  have hplain : v.exported = none ∧ v.declared = none ∧ v.block.isSome = true := by
    have hform := hn.form.plain
    simp only [Node.isDialectForm, hk, Node.has_eq, hs, NodeView.toSlots, List.map_cons, List.map_nil,
      Slot.isFilled_ofToken?, Slot.isFilled_ofNode?, Slot.isFilled_token] at hform
    simpa [and_assoc] using hform
  obtain ⟨hexported, hdeclared, hbody⟩ := hplain
  obtain ⟨block, hsome⟩ := Option.isSome_iff_exists.1 hbody
  obtain ⟨signature, hview, -, htype, hparameters⟩ := signature_untouched hsignature hsignature.kind_eq
  have hlow : block.height ≤ levels := by
    have hchild : block ∈ n.children := by simp [Node.children, hs, NodeView.toSlots, hsome]
    have := Node.height_lt_of_mem_children hchild
    omega
  unfold LoweringContext.functionDeclaration
  rw [Lowering.view_eq hv, pure_bind, hdeclared, if_neg (by simp), hsome]
  dsimp only
  rw [Lowering.view_eq hview, pure_bind, htype]
  refine (h.functionLike hparameters (hblock block hsome) hlow _).bind ?_
  dsimp only
  rw [hexported, Node.isSame_self, Node.isSame_self]
  exact .pure

theorem functionExpression (hn : n.Untouched cl k) (hheight : n.height ≤ levels + 1)
    (hk : n.kind = .functionExpression) : GivesBack (c.functionExpression n) (.one n) := by
  obtain ⟨v, hv, hs, -, -, hsignature, hblock⟩ := hn.functionExpression hk
  obtain ⟨signature, hview, -, htype, hparameters⟩ := signature_untouched hsignature hsignature.kind_eq
  have hlow : v.block.height ≤ levels := by
    have hchild : v.block ∈ n.children := by simp [Node.children, hs, NodeView.toSlots]
    have := Node.height_lt_of_mem_children hchild
    omega
  unfold LoweringContext.functionExpression
  rw [Lowering.view_eq hv, pure_bind, Lowering.view_eq hview, pure_bind, htype]
  refine (h.functionLike hparameters hblock hlow _).bind ?_
  dsimp only
  rw [Node.isSame_self, Node.isSame_self]
  exact .pure

omit h in
theorem callSignature (hn : n.Untouched cl k) (hk : n.kind = .callSignature) :
    GivesBack (LoweringContext.callSignature n) (.one n) := by
  obtain ⟨v, hv, -, htype, hparameters⟩ := signature_untouched hn hk
  unfold LoweringContext.callSignature
  rw [Lowering.view_eq hv, pure_bind, htype]
  refine (givesBack_parameterList hparameters).bind ?_
  dsimp only
  rw [Node.isSame_self]
  exact .pure

theorem objectAccessor (hn : n.Untouched cl k) (hheight : n.height ≤ levels + 1)
    (hk : n.kind = .getAccessorPropertyAssignment ∨ n.kind = .setAccessorPropertyAssignment) :
    GivesBack (c.objectAccessor n) (.one n) := by
  unfold LoweringContext.objectAccessor
  refine (h.walk hn hheight).inScope.bind ?_
  dsimp only
  rcases hk with hk | hk
  · obtain ⟨v, hv, hs, -, -, -, -, htype, -⟩ := hn.objectGetter hk
    rw [if_pos hk]
    unfold objectGetter
    rw [Lowering.view_eq hv, pure_bind, pure_bind, no_typeClause htype]
    exact .pure
  · rw [if_neg (by rw [hk]; decide)]
    exact .pure

/-! ## Statements and expressions -/

theorem variableStatement (hn : n.Untouched cl k) (hheight : n.height ≤ levels + 1) (hk : n.kind = .variableStatement) :
    GivesBack (c.variableStatement n) (.one n) := by
  obtain ⟨v, hv, hs, -⟩ := hn.variableStatement hk
  have hplain : v.exported = none ∧ v.declared = none := by
    have hform := hn.form.plain
    simp only [Node.isDialectForm, hk, Node.has_eq, hs, NodeView.toSlots, List.map_cons, List.map_nil,
      Slot.isFilled_ofToken?, Slot.isFilled_token] at hform
    simpa using hform
  unfold LoweringContext.variableStatement
  rw [Lowering.view_eq hv, pure_bind, hplain.1, hplain.2, if_neg (by simp)]
  exact (h.walk hn hheight).bind .pure

theorem variableDeclarator (hn : n.Untouched cl k) (hheight : n.height ≤ levels + 1)
    (hk : n.kind = .variableDeclarator) : GivesBack (c.variableDeclarator n) (.one n) := by
  obtain ⟨v, hv, -, -, htype, -⟩ := hn.variableDeclarator hk
  unfold LoweringContext.variableDeclarator
  rw [Lowering.view_eq hv, pure_bind, no_typeClause htype]
  exact (h.walk hn hheight).map

theorem expressionStatement (hn : n.Untouched cl k) (hheight : n.height ≤ levels + 1)
    (hk : n.kind = .expressionStatement) : GivesBack (c.expressionStatement n) (.one n) := by
  obtain ⟨v, hv, hs, hexpression, -⟩ := hn.expressionStatement hk
  have hstarts : v.expression.firstToken?.any (fun t => t.kind == .keyword .functionKw) = false := by
    have hopens := hexpression.form.opens hexpression.kind
    obtain ⟨t, ts, htokens, -⟩ := id hopens
    have hhead : n.tokens.head? = some t := by
      rw [Node.tokens_eq, hs]
      simp [NodeView.toSlots, htokens]
    rw [hopens.firstToken?, htokens]
    exact beq_eq_false_iff_ne.2 (hn.form.starts hk t hhead)
  unfold LoweringContext.expressionStatement
  refine (h.walk hn hheight).bind ?_
  rw [Lowering.view_eq hv, pure_bind, hstarts]
  exact .pure

omit h in
theorem thisExpression (hn : n.Untouched cl k) (hk : n.kind = .thisExpression) :
    GivesBack (LoweringContext.thisExpression n) (.one n) := by
  obtain ⟨v, hv, -⟩ := hn.thisExpression hk
  intro s hs
  have hreference : Lowering.thisReference v.keyword s =
      .ok (.mk s.next .thisExpression [.token v.keyword]) ⟨s.next + 1, s.own⟩ := by
    have hrun : Lowering.thisReference v.keyword s =
        (if s.own.scopes.head?.any (fun scope => decide (0 < scope.arrowDepth)) then (do
          Work.modifyOwn (LoweringState.mapScope (fun scope => { scope with captured := true }))
          let name ← Build.identifier "_this".toList
          Build.nameExpression (← name.withTrivia v.keyword.leading v.keyword.trailing) : Lowering Node)
        else NodeView.toNode (ThisExpression.mk v.keyword)) s := rfl
    rw [hrun, show s.own.scopes.head?.any _ = false from hs]
    rfl
  refine ⟨s.next + 1, Nat.le_succ _, ?_⟩
  unfold LoweringContext.thisExpression
  rw [Lowering.view_eq hv, pure_bind, Work.bind_of_ok hreference]
  rw [if_pos (show (Node.mk s.next .thisExpression [.token v.keyword]).kind = n.kind from hk.symm)]
  rfl

theorem memberAccess (hn : n.Untouched cl k) (hheight : n.height ≤ levels + 1)
    (hk : n.kind = .memberAccessExpression) : GivesBack (c.memberAccess n) (.one n) := by
  obtain ⟨v, hv, -, hexpression, -⟩ := hn.memberAccess hk
  unfold LoweringContext.memberAccess
  rw [Lowering.view_eq hv, pure_bind, Node.view?_eq_none hexpression.form.notSuper]
  exact (h.walk hn hheight).map

theorem invocation (hn : n.Untouched cl k) (hheight : n.height ≤ levels + 1)
    (hk : n.kind = .invocationExpression) : GivesBack (c.invocation n) (.one n) := by
  obtain ⟨v, hv, -, hcallee, -⟩ := hn.invocation hk
  have hnone : superCallee? v.callee = pure none := by
    unfold superCallee?
    rw [Node.view?_eq_none hcallee.form.notSuper]
    cases haccess : v.callee.view? MemberAccess with
    | none => rfl
    | some access =>
      obtain ⟨w, hw, -, hexpression, -⟩ := hcallee.memberAccess (Node.kind_of_view? haccess)
      rw [hw] at haccess
      cases haccess
      dsimp only
      rw [Node.view?_eq_none hexpression.form.notSuper]
  unfold LoweringContext.invocation
  rw [Lowering.view_eq hv, pure_bind, hnone]
  refine GivesBack.lift.bind ?_
  exact (h.walk hn hheight).map

/-! ## Programs -/

/-- Plain members of a list stay what they are. -/
theorem walkList : ∀ {ns : List Node}, (∀ m ∈ ns, m.Untouched (.only m.kind) k ∧ m.height ≤ levels) →
    GivesBack (c.transformer.walkList ns) ⟨ns, false⟩
  | [], _ => .pure
  | n :: ns, hns => by
    obtain ⟨hn, hheight⟩ := hns n List.mem_cons_self
    unfold Transformer.walkList
    refine GivesBack.bind (h hn hheight) ?_
    refine (walkList (fun m hm => hns m (List.mem_cons_of_mem _ hm))).bind ?_
    dsimp only
    rw [Node.isSame_self]
    exact .pure

theorem sourceUnit (hn : n.Untouched cl k) (hheight : n.height ≤ levels + 1) (hk : n.kind = .sourceUnit) :
    GivesBack (c.sourceUnit n) (.one n) := by
  obtain ⟨v, hv, hs, helements, -⟩ := hn.sourceUnit hk
  unfold LoweringContext.sourceUnit
  rw [Lowering.view_eq hv, pure_bind]
  have hlow : ∀ m ∈ v.elements, m.Untouched (.only m.kind) k ∧ m.height ≤ levels := fun m hm => by
    have hchild : m ∈ n.children := by simp [Node.children, hs, NodeView.toSlots, hm]
    have := Node.height_lt_of_mem_children hchild
    exact ⟨⟨beq_self_eq_true _, (helements m hm).sound⟩, by omega⟩
  exact (h.walkList hlow).inScope.bind .pure

/-! ## All rules -/

/-- **A rule gives a plain node back.** -/
theorem rule (hn : n.Untouched cl k) (hheight : n.height ≤ levels + 1) : GivesBack (c.rule n) (.one n) := by
  have hplain := hn.form.plain
  have hwalk : GivesBack (do return .one (← c.walk n) : Lowering Replacement) (.one n) := (h.walk hn hheight).map
  unfold LoweringContext.rule
  cases hk : n.kind with
  | sourceUnit => exact h.sourceUnit hn hheight hk
  | functionDeclaration => exact h.functionDeclaration hn hheight hk
  | variableStatement => exact h.variableStatement hn hheight hk
  | variableDeclarator => exact h.variableDeclarator hn hheight hk
  | callSignature => exact callSignature hn hk
  | parameterList =>
    exact (givesBack_parameterList ⟨beq_iff_eq.2 hk, hn.sound⟩).map
  | parameter =>
    obtain ⟨-, -, -, -, -, herased⟩ := parameter_untouched hn hk
    rw [herased, pure_bind]
    exact .pure
  | expressionStatement => exact h.expressionStatement hn hheight hk
  | thisExpression => exact thisExpression hn hk
  | invocationExpression => exact h.invocation hn hheight hk
  | memberAccessExpression => exact h.memberAccess hn hheight hk
  | functionExpression => exact h.functionExpression hn hheight hk
  | getAccessorPropertyAssignment => exact h.objectAccessor hn hheight (.inl hk)
  | setAccessorPropertyAssignment => exact h.objectAccessor hn hheight (.inr hk)
  | interfaceDeclaration | classDeclaration | moduleDeclaration | enumDeclaration | typeClause | castExpression
  | simpleArrowFunctionExpression | parenthesizedArrowFunctionExpression =>
    rw [Node.isDialectForm, hk] at hplain
    cases hplain
  | _ => exact hwalk

end GivesBackPlain

end LoweringContext

/-- **Plain code that is not too high is given back**, whatever its columns and its layout. -/
theorem givesBack_visitUpTo (positions : Positions) (layout : LayoutOptions) {cl : NodeClass} {k : ObjectId} {n : Node} :
    ∀ {levels : Nat}, n.Untouched cl k → n.height ≤ levels → GivesBack (visitUpTo positions layout levels n) (.one n)
  | 0, _, hheight => absurd hheight (Nat.not_le.2 (by cases n; exact Nat.succ_pos _))
  | levels + 1, hn, hheight => by
    have h : LoweringContext.GivesBackPlain ⟨positions, layout, visitUpTo positions layout levels⟩ levels :=
      fun hm hlow => givesBack_visitUpTo positions layout hm hlow
    exact h.rule hn hheight

end Downlevel
