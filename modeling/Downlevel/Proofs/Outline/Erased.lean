import Downlevel.Proofs.Outline.Quiet
import Downlevel.Proofs.Outline.Shaped
import Downlevel.Proofs.Tree.Answers
/-!
# Proofs.Outline.Erased — where only types are to be lowered, exactly the types are erased

Rule by rule, what the draft makes of a form is written as what is left of the form (`Draft.leaves_rule`), so it is for
every tree (`Draft.keepsSpelling_visitUpTo`).  With what is known of drafts and of the checks behind the rules this says
how the code is written that comes out (`lower_erases`).
-/
namespace Downlevel

variable {k : Nat} {n m : Node} {ns : List Node}

/-! ## Parameters -/

/-- **A parameter of which only the type is to be lowered is a name with or without a question mark.** -/
theorem Node.OnlyTyped.parameter (hn : n.OnlyTyped k) (hk : n.kind = .parameter) :
    ∃ p : Parameter, n.view? Parameter = some p ∧ p.dots = none ∧ p.access = none ∧ p.value = none ∧
      n.leftSpelling = (Slot.token p.name).spelling := by
  obtain ⟨⟨dots, access, name, question, type, value⟩, hv, hs, -, -, -, -, htype, hvalue⟩ :=
    (hn.stands hk).parameter hk
  have hkept : n.isErased = false := by simp [Node.isErased, hk]
  have hbare := hn.isBare hkept
  have hslots : n.untyped.slots = [.ofToken? dots, .ofToken? access, .token name, .absent,
      (Slot.ofNode? type).untyped, (Slot.ofNode? value).untyped] := by
    rw [Node.slots_untyped, hk, hs]
    simp [NodeView.toSlots, Slot.untypedFrom, NodeKind.leavesOut]
  obtain rfl : value = none := by
    cases value with
    | none => rfl
    | some m =>
      have hm : m.isErased = false := by simp [Node.isErased, (hvalue m rfl).kind_eq]
      simp [Node.isBare, hk, Node.has, hslots, Slot.ofNode?, Slot.untyped_of_not_isErased hm] at hbare
  have hrest : dots = none ∧ access = none := by
    cases dots <;> cases access <;> simp [Node.isBare, hk, Node.has, hslots, Slot.ofToken?] at hbare ⊢
  obtain ⟨rfl, rfl⟩ := hrest
  refine ⟨_, hv, rfl, rfl, rfl, ?_⟩
  rw [Node.leftSpelling_of_not_isErased hkept, Node.spelling_eq, hslots]
  simp [Slot.ofToken?, leftSpelling_typeClause htype]

namespace Draft

theorem leaves_eraseParameter {p : Parameter} (hv : n.view? Parameter = some p)
    (hp : n.leftSpelling = (Slot.token p.name).spelling) :
    (eraseParameter n).Quiet (fun m => m.spelling = n.leftSpelling) := by
  refine .view hv (.make ?_)
  rw [hp]
  exact (Node.spelling_mk ..).trans (by simp)

/-- Parameters are written as their names, and leave nothing for the body. -/
theorem leaves_parametersFrom : ∀ (index : Nat) {ns : List Node},
    (∀ n ∈ ns, n.OnlyTyped k ∧ n.kind = .parameter) →
    (parametersFrom index ns).Quiet (fun p => p.1.map Node.spelling = ns.map Node.leftSpelling ∧ p.2 = .none)
  | _, [], _ => .pure ⟨rfl, rfl⟩
  | index, n :: ns, hns => by
    obtain ⟨⟨hn, hk⟩, hns⟩ := List.forall_mem_cons.1 hns
    obtain ⟨p, hv, hdots, haccess, hvalue, hp⟩ := hn.parameter hk
    refine .view hv ?_
    have hdefaults : defaultValue? p = pure [] := by
      unfold defaultValue?
      rw [hvalue, viewOption, pure_bind]
    have hproperties : property? p = [] := by rw [property?, haccess]; rfl
    rw [hdots, if_neg (by simp), hdefaults, pure_bind, hproperties]
    refine (leaves_eraseParameter hv hp).bind (fun m hm => (leaves_parametersFrom (index + 1) hns).bind (fun rest hrest => ?_))
    obtain ⟨ms, facts⟩ := rest
    obtain ⟨hms, rfl⟩ := hrest
    exact .pure ⟨by rw [List.map_cons, hm, hms, List.map_cons], rfl⟩

/-- **A list of parameters is written without their types, and leaves nothing for the body.** -/
theorem leaves_parameterList (hn : n.OnlyTyped k) (hk : n.kind = .parameterList) :
    (parameterList n).Quiet (fun p => p.1.spelling = n.leftSpelling ∧ p.2 = .none) := by
  obtain ⟨v, hv, hs, -, hparameters, -⟩ := (hn.stands hk).parameterList hk
  have hkept : n.isErased = false := by simp [Node.isErased, hk]
  have hpart : (Slot.separated v.parameters.members v.parameters.separators).OnlyTyped k :=
    hn.part hkept 1 hs rfl (by rw [hk]; rfl)
  refine .view hv ((leaves_parametersFrom 0 (fun p hp => ⟨hpart p hp, (hparameters.members p hp).kind_eq⟩)).bind
    (fun q hq => ?_))
  obtain ⟨ms, facts⟩ := q
  obtain ⟨hms, rfl⟩ := hq
  have hlength : ms.length = v.parameters.members.length := by simpa using congrArg List.length hms
  have hseparators : v.parameters.separators.take (ms.length - 1) = v.parameters.separators := by
    rcases hparameters.arity with ⟨-, hnone⟩ | harity
    · rw [hnone, List.take_nil]
    · exact List.take_of_length_le (by omega)
  have hmembers : ∀ m ∈ v.parameters.members, m.isErased = false := fun m hm => by
    simp [Node.isErased, (hparameters.members m hm).kind_eq]
  refine (Quiet.make (P := fun m => m.spelling = n.leftSpelling) ?_).bind (fun list hlist => .pure ⟨hlist, rfl⟩)
  rw [hseparators, Node.leftSpelling_eq hkept hk hs]
  refine (Node.spelling_mk ..).trans ?_
  simp [NodeView.toSlots, Slot.untypedFrom, NodeKind.leavesOut, Slot.spelling_separated_of_kept hmembers hms]

/-- Nothing runs in front of a body that parameters left nothing for. -/
theorem parameterPrologue_none (visit : Node → Draft Replacement) : parameterPrologue visit .none = pure [] := by
  unfold parameterPrologue
  rw [show ParameterFacts.none.defaults = [] from rfl, List.mapM_nil, pure_bind]
  rfl

theorem assembleBlock_nil (block : Node) : assembleBlock block [] = pure block := rfl

section Rules

variable {visit : Node → Draft Replacement} (h : KeepsSpelling visit)

/-! ## Functions -/

include h

theorem leaves_functionLike {parameters block : Node} (hp : parameters.OnlyTyped k)
    (hk : parameters.kind = .parameterList) (hb : block.OnlyTyped k) :
    (functionLike visit parameters block).Quiet (fun p =>
      p.1.spelling = parameters.leftSpelling ∧ p.2.spelling = block.leftSpelling) := by
  unfold functionLike
  refine (Quiet.inScope (P := fun p =>
    p.1.spelling = parameters.leftSpelling ∧ p.2.1 = [] ∧ p.2.2.spelling = block.leftSpelling) ?_).bind (fun p hp => ?_)
  · refine (leaves_parameterList hp hk).bind (fun p hp => ?_)
    obtain ⟨list, facts⟩ := p
    obtain ⟨hlist, rfl⟩ := hp
    dsimp only
    rw [parameterPrologue_none, pure_bind]
    exact (leaves_lower h hb).bind (fun b hb => .pure ⟨hlist, rfl, hb⟩)
  · obtain ⟨⟨parameters', prologue, lowered⟩, captured⟩ := p
    obtain ⟨⟨hparameters, rfl, hlowered⟩, rfl⟩ := hp
    refine (Quiet.make (P := (· = [])) rfl).bind (fun prologue hnil => ?_)
    rw [hnil, assembleBlock_nil]
    exact .pure ⟨hparameters, hlowered⟩

omit h in
theorem signature_left (hn : n.OnlyTyped k) (hk : n.kind = .callSignature) :
    ∃ v : CallSignature, n.view? CallSignature = some v ∧ v.parameters.OnlyTyped k ∧
      v.parameters.kind = .parameterList ∧ n.leftSpelling = v.parameters.leftSpelling := by
  obtain ⟨v, hv, hs, hparameters, hresult⟩ := (hn.stands hk).callSignature hk
  have hkept : n.isErased = false := by simp [Node.isErased, hk]
  have hpart : (Slot.node v.parameters).OnlyTyped k := hn.part hkept 0 hs rfl (by rw [hk]; rfl)
  refine ⟨v, hv, hpart _ (List.mem_singleton.2 rfl), hparameters.kind_eq, ?_⟩
  rw [Node.leftSpelling_eq hkept hk hs]
  simp [NodeView.toSlots, Slot.untypedFrom, NodeKind.leavesOut, leftSpelling_typeClause hresult]

/-- A function without a body and an ambient one are dropped; another one loses `export` and its types. -/
theorem leaves_functionStatement (hn : n.OnlyTyped k) (hk : n.kind = .functionDeclaration) :
    (functionStatement visit n).Quiet (Replacement.Leaves n) := by
  obtain ⟨v, hv, hs, -, -, -, -, hsignature, -, -⟩ := (hn.stands hk).functionDeclaration hk
  have herased : n.isErased = (v.declared.isSome || !v.block.isSome) := by
    unfold Node.isErased
    rw [hk]
    exact congrArg₂ (fun a b => a || !b) (Node.has_of_slots (by rw [hs]; rfl)) (Node.has_of_nodeSlot (by rw [hs]; rfl))
  refine .view hv ?_
  cases hdeclared : v.declared with
  | some t => exact .pure (Replacement.leaves_removed (by rw [herased, hdeclared]; rfl))
  | none =>
    cases hblock : v.block with
    | none => exact .pure (Replacement.leaves_removed (by rw [herased, hblock, hdeclared]; rfl))
    | some block =>
      have hkept : n.isErased = false := by rw [herased, hblock, hdeclared]; rfl
      have hsignatureTyped : (Slot.node v.signature).OnlyTyped k := hn.part hkept 4 hs rfl (by rw [hk]; rfl)
      have hblockTyped : (Slot.ofNode? v.block).OnlyTyped k := hn.part hkept 5 hs rfl (by rw [hk]; rfl)
      rw [hblock] at hblockTyped
      obtain ⟨s, hsv, hparameters, hpk, hleft⟩ := signature_left (hsignatureTyped _ (List.mem_singleton.2 rfl))
        hsignature.kind_eq
      refine .view hsv ((leaves_functionLike h hparameters hpk (hblockTyped _ (List.mem_singleton.2 rfl))).bind
        (fun p hp => ?_))
      refine (Quiet.make (P := fun m => m.spelling = v.signature.leftSpelling) ?_).bind (fun signature hs' => ?_)
      · exact (Node.spelling_mk ..).trans (by simp [hleft, hp.1])
      refine leaves_made hkept ?_
      rw [spelling_toNode, Node.leftSpelling_eq hkept hk hs]
      simp [NodeView.toSlots, Slot.untypedFrom, NodeKind.leavesOut, hs', hp.2, hblock, hdeclared]

theorem leaves_functionValue (hn : n.OnlyTyped k) (hk : n.kind = .functionExpression) :
    (functionValue visit n).Quiet (Replacement.Leaves n) := by
  obtain ⟨v, hv, hs, -, -, hsignature, -⟩ := (hn.stands hk).functionExpression hk
  have hkept : n.isErased = false := by simp [Node.isErased, hk]
  have hsignatureTyped : (Slot.node v.signature).OnlyTyped k := hn.part hkept 2 hs rfl (by rw [hk]; rfl)
  have hblock : (Slot.node v.block).OnlyTyped k := hn.part hkept 3 hs rfl (by rw [hk]; rfl)
  obtain ⟨s, hsv, hparameters, hpk, hleft⟩ := signature_left (hsignatureTyped _ (List.mem_singleton.2 rfl))
    hsignature.kind_eq
  refine .view hv (.view hsv ((leaves_functionLike h hparameters hpk (hblock _ (List.mem_singleton.2 rfl))).bind
    (fun p hp => ?_)))
  refine (Quiet.make (P := fun m => m.spelling = v.signature.leftSpelling) ?_).bind (fun signature hs' => ?_)
  · exact (Node.spelling_mk ..).trans (by simp [hleft, hp.1])
  refine leaves_made hkept ?_
  rw [spelling_toNode, Node.leftSpelling_eq hkept hk hs]
  simp [NodeView.toSlots, Slot.untypedFrom, NodeKind.leavesOut, hs', hp.2]

/-! ## Accessors -/

/-- A getter loses the type of its result; a setter the type of its parameter. -/
theorem leaves_objectAccessor (hn : n.OnlyTyped k)
    (hk : n.kind = .getAccessorPropertyAssignment ∨ n.kind = .setAccessorPropertyAssignment) :
    (objectAccessor visit n).Quiet (Replacement.Leaves n) := by
  have hkept : n.isErased = false := by rcases hk with hk | hk <;> simp [Node.isErased, hk]
  have hkeep : ∀ i, n.kind.leavesOut i = false := fun i => by rcases hk with hk | hk <;> rw [hk] <;> rfl
  refine (leaves_walk h hn hkept hkeep).inScope.bind (fun p hp => ?_)
  obtain ⟨walked, captured⟩ := p
  obtain ⟨⟨⟨hkind, hrow⟩, hwalked⟩, rfl⟩ := hp
  have hone : (pure (.one walked) : Draft Replacement).Quiet (Replacement.Leaves n) :=
    .pure (Replacement.leaves_one hkept hwalked)
  dsimp only at hkind hrow ⊢
  split
  · rename_i hget
    have hk : n.kind = .getAccessorPropertyAssignment := hkind.symm.trans hget
    obtain ⟨before, hbefore, hs, -, -, -, -, htype, -⟩ := (hn.stands hk).objectGetter hk
    refine .viewAny (fun accessor haccessor => .view hbefore ?_)
    split
    · exact hone
    · rename_i htyped
      have hsome : before.resultType.isSome = true := by simpa [Option.isSome_iff_ne_none] using htyped
      obtain ⟨s, hslots, -⟩ := Node.slots_of_objectGetter haccessor
      -- the type is gone already: nothing is left of it in what was walked through
      have hnone : s.spelling = [] := by
        rw [hs, hslots] at hrow
        simp only [NodeView.toSlots, List.forall₂_cons] at hrow
        rw [hrow.2.2.2.2.1, Slot.spelling_untyped_ofNode?, leftSpelling_typeClause htype]
      have hblock : accessorBody accessor.block false = pure accessor.block := rfl
      rw [hblock, pure_bind]
      refine leaves_made hkept ?_
      rw [spelling_toNode, ← hwalked, Node.spelling_eq, hslots]
      simp [NodeView.toSlots, hsome, hnone, Slot.ofNode?]
  · exact hone

/-! ## Statements and expressions -/

/-- An ambient declaration of variables is dropped; another one loses `export`. -/
theorem leaves_variableStatement (hn : n.OnlyTyped k) (hk : n.kind = .variableStatement) :
    (variableStatement visit n).Quiet (Replacement.Leaves n) := by
  obtain ⟨v, hv, hs, -, -, hdeclaration, -⟩ := (hn.stands hk).variableStatement hk
  have herased : n.isErased = v.declared.isSome := by
    unfold Node.isErased
    rw [hk]
    exact Node.has_of_slots (by rw [hs]; rfl)
  refine .view hv ?_
  cases hdeclared : v.declared with
  | some t => exact .pure (Replacement.leaves_removed (by rw [herased, hdeclared]; rfl))
  | none =>
    have hkept : n.isErased = false := by rw [herased, hdeclared]; rfl
    have hdeclarationTyped : (Slot.node v.declaration).OnlyTyped k := hn.part hkept 2 hs rfl (by rw [hk]; rfl)
    have hslots : ∀ s ∈ n.slots, s.OnlyTyped k := by
      rw [hs]
      simp only [NodeView.toSlots, List.forall_mem_cons, List.not_mem_nil, false_imp_iff, implies_true, and_true]
      exact ⟨fun _ hm => by simp at hm, fun _ hm => by simp at hm, hdeclarationTyped, fun _ hm => by cases hm⟩
    have hleft : n.leftSpelling = v.declaration.leftSpelling ++ (Slot.token v.semicolon).spelling := by
      rw [Node.leftSpelling_eq hkept hk hs]
      simp [NodeView.toSlots, Slot.untypedFrom, NodeKind.leavesOut, hdeclared]
    refine (leaves_walk_slots h hslots).bind (fun walked hwalked => ?_)
    obtain ⟨-, hrow⟩ := hwalked
    cases hexported : v.exported with
    | none =>
      refine .pure (Replacement.leaves_one hkept ?_)
      rw [Node.spelling_eq, flatMap_spelling_eq hrow, hs, hleft]
      simp [NodeView.toSlots, hdeclared, hexported]
    | some t =>
      refine .viewAny (fun lowered hlowered => ?_)
      obtain ⟨exported, declared, hslots'⟩ := Node.slots_of_variableStatement hlowered
      rw [hs, hslots'] at hrow
      simp only [NodeView.toSlots, List.forall₂_cons, Slot.spelling_node, Slot.spelling_untyped_node] at hrow
      refine leaves_made hkept ?_
      rw [spelling_toNode, hleft]
      simp [NodeView.toSlots, hrow.2.2.1, hrow.2.2.2.1]

theorem leaves_variableDeclarator (hn : n.OnlyTyped k) (hk : n.kind = .variableDeclarator) :
    (variableDeclarator visit n).Quiet (Replacement.Leaves n) := by
  obtain ⟨v, hv, hs, -, htype, -⟩ := (hn.stands hk).variableDeclarator hk
  have hkept : n.isErased = false := by simp [Node.isErased, hk]
  have hvalue : (Slot.ofNode? v.value).OnlyTyped k := hn.part hkept 2 hs rfl (by rw [hk]; rfl)
  refine .view hv ?_
  cases ht : v.type with
  | none =>
    exact (leaves_walk h hn hkept (fun _ => by rw [hk]; rfl)).bind (fun m hm =>
      .pure (Replacement.leaves_one hkept hm.2))
  | some t =>
    refine (leaves_lowerOption h (fun m hm => hvalue m (by simpa using hm))).bind (fun o ho => ?_)
    refine leaves_made hkept ?_
    rw [spelling_toNode, Node.leftSpelling_eq hkept hk hs]
    simp [NodeView.toSlots, Slot.untypedFrom, NodeKind.leavesOut, ho, leftSpelling_typeClause htype]

theorem leaves_castExpression (hn : n.OnlyTyped k) (hk : n.kind = .castExpression) :
    (castExpression visit n).Quiet (Replacement.Leaves n) := by
  obtain ⟨v, hv, hs, -⟩ := (hn.stands hk).cast hk
  have hkept : n.isErased = false := by simp [Node.isErased, hk]
  have hexpression : (Slot.node v.expression).OnlyTyped k := hn.part hkept 3 hs rfl (by rw [hk]; rfl)
  refine .view hv ((leaves_lower h (hexpression _ (List.mem_singleton.2 rfl))).bind (fun m hm =>
    .pure (Replacement.leaves_one hkept ?_)))
  rw [hm, Node.leftSpelling_eq hkept hk hs]
  simp [NodeView.toSlots, Slot.untypedFrom, NodeKind.leavesOut]

omit h in
/-- Outside of arrow functions `this` stays. -/
theorem leaves_thisExpression (hn : n.OnlyTyped k) (hk : n.kind = .thisExpression) :
    (thisExpression n).Quiet (Replacement.Leaves n) := by
  obtain ⟨v, hv, hs, -⟩ := (hn.stands hk).thisExpression hk
  have hkept : n.isErased = false := by simp [Node.isErased, hk]
  have hthis : (thisReference v.keyword).Quiet (fun m => m.spelling = n.leftSpelling) := by
    intro m marks heq
    cases heq
    refine ⟨rfl, (spelling_toNode _ _).trans ?_⟩
    rw [Node.leftSpelling_eq hkept hk hs]
    simp [NodeView.toSlots, Slot.untypedFrom, NodeKind.leavesOut]
  exact .view hv (hthis.bind (fun m hm => .pure (Replacement.leaves_one hkept hm)))

omit h in
/-- What is no reference to the base class reads as none. -/
theorem no_super (hn : n.OnlyTyped k) : n.view? SuperExpression = none := Node.view?_eq_none hn.not_super

omit h in
theorem superCallee?_none (hn : n.OnlyTyped k) : superCallee? n = pure none := by
  unfold superCallee?
  rw [no_super hn]
  cases haccess : n.view? MemberAccess with
  | none => rfl
  | some access =>
    have hk : n.kind = .memberAccessExpression := Node.kind_of_view? haccess
    have hkept : n.isErased = false := by simp [Node.isErased, hk]
    obtain ⟨v, hv, hs, -⟩ := (hn.stands hk).memberAccess hk
    obtain rfl : v = access := Option.some.inj (hv.symm.trans haccess)
    have hexpression : (Slot.node v.expression).OnlyTyped k := hn.part hkept 0 hs rfl (by rw [hk]; rfl)
    dsimp only
    rw [no_super (hexpression _ (List.mem_singleton.2 rfl))]

/-- A form that is only walked through. -/
theorem leaves_walked (hn : n.OnlyTyped k) (hkept : n.isErased = false) (hkeep : ∀ i, n.kind.leavesOut i = false) :
    (do return .one (← walk visit n) : Draft Replacement).Quiet (Replacement.Leaves n) :=
  (leaves_walk h hn hkept hkeep).bind (fun _ hm => .pure (Replacement.leaves_one hkept hm.2))

theorem leaves_invocation (hn : n.OnlyTyped k) (hk : n.kind = .invocationExpression) :
    (invocation visit n).Quiet (Replacement.Leaves n) := by
  obtain ⟨v, hv, hs, -⟩ := (hn.stands hk).invocation hk
  have hkept : n.isErased = false := by simp [Node.isErased, hk]
  have hcallee : (Slot.node v.callee).OnlyTyped k := hn.part hkept 0 hs rfl (by rw [hk]; rfl)
  refine .view hv ((Quiet.make (P := (· = none)) ?_).bind (fun o ho => ?_))
  · rw [superCallee?_none (hcallee _ (List.mem_singleton.2 rfl))]
    rfl
  · subst ho
    exact leaves_walked h hn hkept (fun _ => by rw [hk]; rfl)

theorem leaves_memberAccess (hn : n.OnlyTyped k) (hk : n.kind = .memberAccessExpression) :
    (memberAccess visit n).Quiet (Replacement.Leaves n) := by
  obtain ⟨v, hv, hs, -⟩ := (hn.stands hk).memberAccess hk
  have hkept : n.isErased = false := by simp [Node.isErased, hk]
  have hexpression : (Slot.node v.expression).OnlyTyped k := hn.part hkept 0 hs rfl (by rw [hk]; rfl)
  refine .view hv ?_
  rw [no_super (hexpression _ (List.mem_singleton.2 rfl))]
  exact leaves_walked h hn hkept (fun _ => by rw [hk]; rfl)

/-! ## Statements that are expressions -/

omit h in
theorem isErased_of_isExpression (hk : n.kind.isExpression = true) : n.isErased = false := by
  unfold Node.isErased
  split <;> simp_all [NodeKind.isExpression]

omit h in
/-- **What does not open with a cast starts as before once types are erased.** -/
theorem head_untyped (hn : n.OnlyTyped k) (hk : n.kind.isExpression = true) (hcast : n.untyped.opensWithCast = false) :
    n.untyped.tokens.head? = n.tokens.head? := by
  induction n using Node.induction with
  | step n ih =>
    have hkept := isErased_of_isExpression hk
    have harrow : n.kind ≠ .parenthesizedArrowFunctionExpression := fun hkind =>
      absurd (hn.isErased_of_kind (by simp [hkind])) (by simp [hkept])
    obtain ⟨id, kind, slots⟩ := n
    rw [Node.untyped, Node.opensWithCast, Bool.or_eq_false_iff] at hcast
    obtain ⟨hnotCast, hfirst⟩ := hcast
    have hkeep : kind.leavesOut 0 = false := by
      change kind.isExpression = true at hk
      cases kind <;> first | rfl | exact absurd hnotCast (by decide) | cases hk
    have hrow := (hn.stands rfl).row
    -- An expression begins with a token of its own or with another expression, which is where the induction goes.
    rcases sorts_expression hk harrow with ⟨sorts, hsorts⟩ | ⟨sorts, hsorts⟩
    · rw [hsorts] at hrow
      obtain ⟨t, rest, hs, -⟩ := Slot.row_token.1 hrow
      obtain rfl : slots = .token t :: rest := hs
      rw [Node.untyped, Slot.untypedFrom, hkeep, Node.tokens_mk, Node.tokens_mk]
      rfl
    · rw [hsorts] at hrow
      obtain ⟨e, rest, hs, he, -⟩ := Slot.row_node.1 hrow
      obtain rfl : slots = .node e :: rest := hs
      have heTyped : (Slot.node e).OnlyTyped k := hn.part hkept 0 rfl rfl hkeep
      have heKept := isErased_of_isExpression he.kind
      rw [Slot.untypedFrom, hkeep, if_neg Bool.false_ne_true, Slot.untyped_of_not_isErased heKept] at hfirst
      have hhead := ih e (List.mem_flatMap.2 ⟨_, List.mem_cons_self .., List.mem_singleton.2 rfl⟩)
        (heTyped _ (List.mem_singleton.2 rfl)) he.kind hfirst
      obtain ⟨t, ts, htokens, -⟩ := he.form he.kind
      rw [htokens] at hhead
      obtain ⟨us, hus⟩ := List.head?_eq_some_iff.1 hhead
      rw [Node.untyped, Slot.untypedFrom, hkeep, if_neg Bool.false_ne_true, Slot.untyped_of_not_isErased heKept,
        Node.tokens_mk, Node.tokens_mk, List.flatMap_cons, List.flatMap_cons, Slot.tokens_node, Slot.tokens_node,
        hus, htokens]
      rfl

/-- **No parentheses are needed around a statement**: it does not start with `function`, since it did not before and no
cast is erased in front. -/
theorem leaves_expressionStatement (hopen : KeepsOpen visit) (hn : n.OnlyTyped k)
    (hk : n.kind = .expressionStatement) : (expressionStatement visit n).Quiet (Replacement.Leaves n) := by
  obtain ⟨v, hv, hs, hexpression, -⟩ := (hn.stands hk).expressionStatement hk
  have hkept : n.isErased = false := by simp [Node.isErased, hk]
  have htyped : (Slot.node v.expression).OnlyTyped k := hn.part hkept 0 hs rfl (by rw [hk]; rfl)
  have heKept := isErased_of_isExpression hexpression.kind
  have hcast : v.expression.untyped.opensWithCast = false := by
    have hbare := hn.isBare hkept
    obtain ⟨id, kind, slots⟩ := n
    obtain rfl : kind = .expressionStatement := hk
    obtain rfl : slots = NodeView.toSlots v := hs
    simpa [Node.isBare, Node.untyped, Node.kind, Node.opensWithCast, NodeView.toSlots, Slot.untypedFrom,
      NodeKind.leavesOut, Slot.firstOpensWithCast, Slot.untyped_of_not_isErased heKept, Slot.opensWithCast] using hbare
  obtain ⟨t, ts, htokens, ht⟩ := hexpression.form hexpression.kind
  have hstart : t.kind ≠ .keyword .functionKw := by
    refine hn.starts.self hk t ?_
    rw [Node.tokens_eq, hs]
    simp [NodeView.toSlots, htokens]
  have hleft : ∃ rest, v.expression.leftSpelling = (t.kind, t.text) :: rest := by
    have hhead := head_untyped (htyped _ (List.mem_singleton.2 rfl)) hexpression.kind hcast
    rw [htokens] at hhead
    obtain ⟨us, hus⟩ := List.head?_eq_some_iff.1 hhead
    exact ⟨_, by rw [Node.leftSpelling_of_not_isErased heKept, Node.spelling, hus, Token.spellings_cons_of_text ht]⟩
  refine ((leaves_walk h hn hkept (fun _ => by rw [hk]; rfl)).and (opens_walk_statement hopen (hn.stands hk) hk)).bind
    (fun walked hwalked => ?_)
  obtain ⟨⟨⟨-, hrow⟩, hspelling⟩, hopens⟩ := hwalked
  refine .viewAny (fun statement hstatement => ?_)
  rw [hs, Node.slots_of_view? hstatement] at hrow
  simp only [NodeView.toSlots, List.forall₂_cons, Slot.spelling_node, Slot.spelling_untyped_node] at hrow
  obtain ⟨t', ts', htokens', ht'⟩ := hopens statement hstatement
  obtain ⟨rest, hrest⟩ := hleft
  -- The first token of what is left is the first token of the expression, since both are written alike.
  have hsame : t'.kind = t.kind := by
    have heq := hrow.1
    rw [hrest, Node.spelling, htokens', Token.spellings_cons_of_text ht'] at heq
    exact congrArg Prod.fst (List.cons.inj heq).1
  have hplain : (statement.expression.tokens.head?.any (fun t => t.kind == .keyword .functionKw)) = false := by
    rw [htokens']
    simpa [hsame] using hstart
  rw [hplain]
  exact .pure (Replacement.leaves_one hkept hspelling)

/-! ## Programs -/

theorem leaves_sourceUnit (hn : n.OnlyTyped k) (hk : n.kind = .sourceUnit) :
    (sourceUnit visit n).Quiet (Replacement.Leaves n) := by
  obtain ⟨v, hv, hs, -⟩ := (hn.stands hk).sourceUnit hk
  have hkept : n.isErased = false := by simp [Node.isErased, hk]
  have helements : (Slot.list v.elements).OnlyTyped k := hn.part hkept 0 hs rfl (by rw [hk]; rfl)
  refine .view hv ((leaves_walkList h (show ∀ e ∈ v.elements, e.OnlyTyped k from helements)).inScope.bind (fun p hp => ?_))
  obtain ⟨elements, captured⟩ := p
  obtain ⟨hleft, rfl⟩ := hp
  refine (Quiet.make (P := (· = elements)) rfl).bind (fun statements heq => ?_)
  subst heq
  refine leaves_made hkept ?_
  rw [spelling_toNode, Node.leftSpelling_eq hkept hk hs]
  simp [NodeView.toSlots, Slot.untypedFrom, NodeKind.leavesOut, hleft]

omit h in
/-- A class, an enum or a namespace is ambient where types are all that there is to lower. -/
theorem declared_of_isErased {o : Option Token} (hn : n.OnlyTyped k)
    (hk : n.kind = .classDeclaration ∨ n.kind = .enumDeclaration ∨ n.kind = .moduleDeclaration)
    (ho : n.slots[1]? = some (.ofToken? o)) : o.isSome = true ∧ Replacement.removed.Leaves n := by
  have herased : n.isErased = true := hn.isErased_of_kind (by rcases hk with hk | hk | hk <;> simp [hk])
  refine ⟨?_, Replacement.leaves_removed herased⟩
  unfold Node.isErased at herased
  rw [← Node.has_of_slots ho]
  rcases hk with hk | hk | hk <;> rwa [hk] at herased

/-- **What the draft makes of a form is written as what is left of the form.** -/
theorem leaves_rule (hopen : KeepsOpen visit) (hn : n.OnlyTyped k) :
    (rule visit n).Quiet (Replacement.Leaves n) := by
  unfold rule
  cases hk : n.kind with
  | sourceUnit => exact leaves_sourceUnit h hn hk
  | interfaceDeclaration => exact .pure (Replacement.leaves_removed (by simp [Node.isErased, hk]))
  | typeClause => exact .pure (Replacement.leaves_removed (by simp [Node.isErased, hk]))
  -- A class, an enum or a namespace in code that is only typed is ambient, so nothing may be left of it.
  | classDeclaration =>
    obtain ⟨v, hv, hs, -⟩ := (hn.stands hk).classDeclaration hk
    obtain ⟨hdeclared, hremoved⟩ := declared_of_isErased hn (.inl hk) (o := v.declared) (by rw [hs]; rfl)
    refine .view hv ?_
    rw [if_pos hdeclared]
    exact .pure hremoved
  | enumDeclaration =>
    obtain ⟨v, hv, hs, -⟩ := (hn.stands hk).enumDeclaration hk
    obtain ⟨hdeclared, hremoved⟩ := declared_of_isErased hn (.inr (.inl hk)) (o := v.declared) (by rw [hs]; rfl)
    refine .view hv ?_
    rw [if_pos hdeclared]
    exact .pure hremoved
  | moduleDeclaration =>
    obtain ⟨v, hv, hs, -⟩ := (hn.stands hk).moduleDeclaration hk
    obtain ⟨hdeclared, hremoved⟩ := declared_of_isErased hn (.inr (.inr hk)) (o := v.declared) (by rw [hs]; rfl)
    refine .view hv ?_
    rw [hdeclared, Bool.true_or, if_pos rfl]
    exact .pure hremoved
  | functionDeclaration => exact leaves_functionStatement h hn hk
  | variableStatement => exact leaves_variableStatement h hn hk
  | variableDeclarator => exact leaves_variableDeclarator h hn hk
  | callSignature =>
    have hkept : n.isErased = false := by simp [Node.isErased, hk]
    obtain ⟨v, hv, hparameters, hpk, hleft⟩ := signature_left hn hk
    refine .view hv ((leaves_parameterList hparameters hpk).bind (fun p hp => ?_))
    refine leaves_made hkept ?_
    exact (Node.spelling_mk ..).trans (by simp [hleft, hp.1])
  | parameterList =>
    exact (leaves_parameterList hn hk).bind (fun p hp =>
      .pure (Replacement.leaves_one (by simp [Node.isErased, hk]) hp.1))
  | parameter =>
    obtain ⟨p, hv, -, -, -, hp⟩ := hn.parameter hk
    exact (leaves_eraseParameter hv hp).bind (fun m hm =>
      .pure (Replacement.leaves_one (by simp [Node.isErased, hk]) hm))
  | expressionStatement => exact leaves_expressionStatement h hopen hn hk
  | thisExpression => exact leaves_thisExpression hn hk
  | castExpression => exact leaves_castExpression h hn hk
  | invocationExpression => exact leaves_invocation h hn hk
  | memberAccessExpression => exact leaves_memberAccess h hn hk
  | functionExpression => exact leaves_functionValue h hn hk
  | getAccessorPropertyAssignment => exact leaves_objectAccessor h hn (.inl hk)
  | setAccessorPropertyAssignment => exact leaves_objectAccessor h hn (.inr hk)
  -- Arrow functions are not erased, so in code that is only typed there are none.
  | simpleArrowFunctionExpression =>
    exact absurd (hn.isErased_of_kind (by simp [hk])) (by simp [Node.isErased, hk])
  | parenthesizedArrowFunctionExpression =>
    exact absurd (hn.isErased_of_kind (by simp [hk])) (by simp [Node.isErased, hk])
  | _ => exact leaves_walked h hn (by simp [Node.isErased, hk]) (fun _ => by rw [hk]; rfl)

end Rules

/-- Whatever the draft makes of a tree is written as what is left of the tree. -/
theorem keepsSpelling_visitUpTo : ∀ levels, KeepsSpelling (visitUpTo levels)
  | 0 => fun _ _ _ => .fail
  | levels + 1 => fun _ _ hn => leaves_rule (keepsSpelling_visitUpTo levels) (keepsOpen_visitUpTo levels) hn

end Draft

/-! ## What comes out -/

theorem startsForm_outline (h : StartsForm n) : StartsForm n.outline := by
  intro hk t ht
  rw [Node.kind_outline] at hk
  rw [Node.tokens_outline, List.head?_map] at ht
  obtain ⟨t', ht', rfl⟩ := Option.map_eq_some_iff.1 ht
  exact h hk t' ht'

variable {text : List Char} {tree u : Node} {i j next : ObjectId} {o : LoweringOptions} {s : Supplied LoweringState}

/-- A tree that was read has an outline of which types are all that there is to lower, if without types it is bare. -/
theorem onlyTyped_outline (hparse : parseFrom text i = (.ok tree, j))
    (hbare : tree.untyped.Every (fun m => m.isBare = true)) : tree.outline.OnlyTyped 1 where
  sound :=
    Node.sound_outline (parseFrom_isProgram hparse).2.wellFormed ((parseFrom_formed hparse).mono (fun _ hm => hm.opens))
  starts := Node.every_outline.2 ((parseFrom_formed hparse).mono (fun _ hm => startsForm_outline hm.starts))
  bare _ := by
    rw [Node.untyped_outline]
    exact Node.every_outline.2 (hbare.mono (fun m hm => (Node.isBare_outline m).trans hm))

/-- What is made of a tree of the dialect is written without its types; there is no class with a base, so there is no
helper in front. -/
theorem spelling_lowerSpecific (hparse : parseFrom text i = (.ok tree, j)) (hnext : j ≤ next)
    (hbare : tree.untyped.Every (fun m => m.isBare = true))
    (h : tree.lowerSpecific o ⟨next, .initial⟩ = .ok u s) : u.spelling = tree.untyped.spelling := by
  obtain ⟨lowered, s₁, helped, s₂, hrules, hhelped, hunique⟩ := Node.lowerSpecific_eq_ok h
  obtain ⟨hle, hprogram⟩ := parseFrom_isProgram hparse
  let W := Registry.empty.withTree tree next (Nat.zero_le _)
  have hheld : tree.Held W :=
    hprogram.held ((parseFrom_formed hparse).mono (fun _ hm => hm.opens)) (Nat.zero_le _) hnext (Nat.zero_le _)
  have htyped := onlyTyped_outline hparse hbare
  have hlowered : ∃ W₁, s₁.next = W₁.next ∧ s₁.own.derived = false ∧ lowered.Known W₁ ∧
      lowered.spelling = tree.untyped.spelling := by
    have hfollows := hheld.follows_lowerByRules hprogram.kind o.layout .initial false
    rw [show W.next = next from rfl, hrules] at hfollows
    generalize hd : Draft.ofTree tree.outline false = d at hfollows
    cases hfollows with
    | ok hW hs hshows hown =>
      obtain ⟨hmarks, hspelling⟩ := Draft.leaves_lower (Draft.keepsSpelling_visitUpTo _) htyped _ _ hd
      refine ⟨_, hs, by rw [hown, (Marks.mk.inj hmarks).2]; rfl, hshows.known, ?_⟩
      have hkept : tree.outline.isErased = false := by simp [Node.isErased, hprogram.kind]
      rw [← Node.spelling_outline, hshows.outline, Node.spelling_outline, hspelling,
        Node.leftSpelling_of_not_isErased hkept, Node.untyped_outline, Node.spelling_outline]
  obtain ⟨W₁, hs₁, hderived, hknown, hspelling⟩ := hlowered
  obtain ⟨-, rfl, rfl⟩ := hhelped.resolve_right (fun hhelp => by
    rw [hderived, Bool.and_false] at hhelp
    exact Bool.false_ne_true hhelp.1)
  obtain ⟨W₃, h₃, -, m, hm, hshows⟩ := records_uniqueTokens hknown
  rw [← hs₁, hunique] at hm
  cases hm
  rw [← Node.spelling_outline, hshows.outline, Node.spelling_outline, hspelling]

/-- **Type erasure removes exactly the types.**  Where without types a text is plain code, and no statement of it opens
with a cast, the tokens of what becomes of it are those of the text without its types, and not one token more or less. -/
theorem lower_erases (text : List Char) (o : LoweringOptions) (tree u : Node) (i j next : ObjectId)
    (hparse : parseFrom text i = (.ok tree, j)) (hnext : j ≤ next)
    (hbare : tree.untyped.Every (fun m => m.isBare = true)) (hlower : (tree.lower o next).1 = .ok u) :
    u.spelling = tree.untyped.spelling := by
  rcases Node.lower_eq_ok hlower with ⟨-, s, hrun⟩ | ⟨hspecific, rfl⟩
  · exact spelling_lowerSpecific hparse hnext hbare hrun
  · rw [Node.untyped_of_not_isSpecific hspecific]

/-- An interface, a function without a body, an exported function with a parameter that may be left out and a cast, and
two variables, one of which is ambient. -/
theorem lower_erases_declarations : ∃ tree j u,
    parseFrom ("interface I \x7b a: I; \x7d export function f(x?: I): any \x7b return <I>x; \x7d function g(); " ++
      "declare var y; var z: I = 1;").toList 0 = (.ok tree, j) ∧
    tree.untyped.Every (fun m => m.isBare = true) ∧ (tree.lower .standard j).1 = .ok u ∧
    u.spelling = tree.untyped.spelling ∧
    tree.untyped.spelling.map Prod.snd = ["function", "f", "(", "x", ")", "\x7b", "return", "x", ";", "\x7d", "var", "z", "=",
      "1", ";"].map String.toList := by
  have hok : lowersInto .standard (fun tree _ => tree.untyped.all.all Node.isBare &&
      decide (tree.untyped.spelling.map Prod.snd = ["function", "f", "(", "x", ")", "\x7b", "return", "x", ";", "\x7d",
        "var", "z", "=", "1", ";"].map String.toList))
      ("interface I \x7b a: I; \x7d export function f(x?: I): any \x7b return <I>x; \x7d function g(); " ++
        "declare var y; var z: I = 1;").toList = true := by decide +kernel
  obtain ⟨tree, j, u, hparse, hlower, htest⟩ := exists_of_lowersInto _ _ _ hok
  simp only [Bool.and_eq_true, decide_eq_true_eq] at htest
  obtain ⟨hbare, hspelling⟩ := htest
  have hbare : tree.untyped.Every (fun m => m.isBare = true) := List.all_eq_true.1 hbare
  exact ⟨tree, j, u, hparse, hbare, hlower, lower_erases _ _ tree u 0 j j hparse le_rfl hbare hlower, hspelling⟩

end Downlevel
