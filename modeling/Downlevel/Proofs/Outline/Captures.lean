import Downlevel.Proofs.Outline.Bodies
/-!
# Proofs.Outline.Captures — statements and expressions keep to what is written down of their `this`

Functions and accessors are scopes, arrow functions and enums are not; a call of the base class is given `this`, or
`_this` within an arrow function; types leave nothing.
-/
namespace Downlevel

namespace Draft

open LoweringContext

variable {visit : Node → Draft Replacement} {account : Bool → Node → Account} (h : Keeps visit account)
  {a : Account} {n parameters block : Node} {i : Bool} {j k : Nat} {ns : List Node} {t : Token}
include h

/-! ## Functions -/

theorem notes_functionStatement (hn : n.Unnamed k) (hk : n.kind = .functionDeclaration) :
    (functionStatement visit n).Notes i (Replacement.Meets (Account.scope 0 (Account.each account false n.loweredParts))) := by
  refine .viewUnnamed hn (fun v hv _ hparts => ?_)
  have hlowered : n.loweredParts = if v.declared.isSome then [] else (v.block.map (Node.signatureParts v.signature)).getD [] := by
    rw [Node.loweredParts, hk]
    exact Node.partsAs_eq hv _
  simp only [NodeView.toSlots, List.forall_mem_cons, Slot.each_node, Slot.each_ofNode?] at hparts
  obtain ⟨-, -, -, -, hsignature, hblock, -⟩ := hparts
  refine .ite (fun hdeclared => .pure (by rw [hlowered, if_pos hdeclared]; rfl)) (fun hdeclared => ?_)
  rw [hlowered, if_neg hdeclared]
  split
  · rename_i hnone
    exact .pure (by rw [hnone]; rfl)
  · rename_i block hsome
    rw [hsome, Option.map_some, Option.getD_some]
    refine notes_signature h hsignature (hblock block hsome) (fun s p hlist hbody => .made (.made (.pure ⟨rfl, ?_⟩)))
    refine Replacement.meets_one (Account.mk_eq rfl (hbody.references_toNode rfl ?_ ?_))
    · simp [NodeView.toSlots, blockStatements_callSignature]
    · simp [NodeView.toSlots, hlist]

theorem notes_functionValue (hn : n.Unnamed k) (hk : n.kind = .functionExpression) :
    (functionValue visit n).Notes i (Replacement.Meets (Account.scope 0 (Account.each account false n.loweredParts))) := by
  refine .viewUnnamed hn (fun v hv _ hparts => ?_)
  have hlowered : n.loweredParts = Node.signatureParts v.signature v.block := by
    rw [Node.loweredParts, hk]
    exact Node.partsAs_eq hv _
  simp only [NodeView.toSlots, List.forall_mem_cons, Slot.each_node] at hparts
  obtain ⟨-, -, hsignature, hblock, -⟩ := hparts
  rw [hlowered]
  refine notes_signature h hsignature hblock (fun s p hlist hbody => .made (.made (.pure ⟨rfl, ?_⟩)))
  refine Replacement.meets_one (Account.mk_eq rfl (hbody.references_toNode rfl ?_ ?_))
  · simp [NodeView.toSlots, blockStatements_callSignature]
  · simp [NodeView.toSlots, hlist]

/-! ## Arrow functions -/

theorem notes_arrowBody {facts : ParameterFacts} (hf : facts.Of k ns) (hb : block.Unnamed k) :
    (arrowBody visit facts block).Notes i (fun b m =>
      Account.mk m b.references = Account.each account i (facts.defaults.map DefaultValue.value ++ [block])) := by
  refine (notes_parameterPrologue h hf).bind (fun prologue m hprologue => ?_)
  refine (notes_lower h hb).andThen (fun lowered m' hlowered => ?_)
  have hboth : Account.mk (m.and m') (prologue.flatMap Node.references ++ lowered.references) =
      Account.each account i (facts.defaults.map DefaultValue.value ++ [block]) := by
    rw [Account.each_append, Account.each_singleton, ← hprologue, ← hlowered]
    rfl
  refine .ite (fun _ => ?_) (fun _ => .made (.make ⟨rfl, ?_⟩))
  · exact notes_assembleBlock_before.mono (fun b m hb => ⟨hb.1, by rw [hb.2, hboth]⟩)
  · simpa using hboth

/-- **An arrow function becomes a function that has no `this` of its own to declare.** -/
theorem notes_arrowFunction {facts : ParameterFacts} (hp : parameters.references = []) (hf : facts.Of k ns)
    (hb : block.Unnamed k) : (arrowFunction visit parameters facts block).Notes i (Replacement.Meets
      (Account.around (Account.each account true (facts.defaults.map DefaultValue.value ++ [block])))) := by
  refine (notes_arrowBody h hf hb).inArrow.andThen (fun b m hb => .made (.pure ⟨rfl, ?_⟩))
  have hmarks := congrArg Account.marks hb
  exact Replacement.meets_one (Account.mk_eq hmarks
    (references_functionExpression_around (Account.proper_each h.proper) hp (congrArg Account.references hb)))

theorem notes_simpleArrow (hn : n.Unnamed k) (hk : n.kind = .simpleArrowFunctionExpression) :
    (simpleArrow visit n).Notes i (Replacement.Meets (Account.around (Account.each account true n.loweredParts))) := by
  refine .viewUnnamed hn (fun v hv _ hparts => .made ?_)
  have hlowered : n.loweredParts = [v.body] := by
    rw [Node.loweredParts, hk]
    exact Node.partsAs_eq hv _
  simp only [NodeView.toSlots, List.forall_mem_cons, Slot.each_node] at hparts
  have hfacts : ParameterFacts.none.Of k [] :=
    ⟨rfl, rfl, fun _ hd => (by cases hd), fun _ ht => (by cases ht), fun _ hr => by cases hr⟩
  rw [hlowered]
  exact notes_arrowFunction h (by simp [Fresh.bind_apply]) hfacts hparts.2.2.1

theorem notes_parenthesizedArrow (hn : n.Unnamed k) (hk : n.kind = .parenthesizedArrowFunctionExpression) :
    (parenthesizedArrow visit n).Notes i (Replacement.Meets (Account.around (Account.each account true n.loweredParts))) := by
  refine .viewUnnamed hn (fun v hv _ hparts => ?_)
  have hlowered : n.loweredParts = Node.signatureParts v.signature v.body := by
    rw [Node.loweredParts, hk]
    exact Node.partsAs_eq hv _
  simp only [NodeView.toSlots, List.forall_mem_cons, Slot.each_node] at hparts
  refine .viewUnnamed hparts.1 (fun s hs _ hsparts => ?_)
  simp only [NodeView.toSlots, List.forall_mem_cons, Slot.each_node] at hsparts
  refine (notes_parameterList hsparts.1).given (fun p hp => ?_)
  have harrow := notes_arrowFunction (i := i) h hp.1 hp.2 hparts.2.2.1
  rw [hp.2.values, defaultValues_listedParameters] at harrow
  rw [hlowered, Node.signatureParts, Node.partsAs_eq hs]
  exact harrow

/-! ## Accessors of object literals -/

omit h in
/-- A body that is left as it was walked through declares no `_this`. -/
theorem references_walked_scope {slots : List Slot} (ha : a.Proper) (hbody : n.kind.isBody = true)
    (hr : slots.flatMap Slot.references = a.references) (hc : a.marks.captured = false) :
    (Node.mk 0 n.kind slots).references = (a.scope 0).references := by
  have hfree : .capture ∉ (slots.flatMap Slot.statements).flatMap Node.references := fun hmem => by
    obtain ⟨b, hb, hmem⟩ := List.mem_flatMap.1 hmem
    obtain ⟨s, hs, hb⟩ := List.mem_flatMap.1 hb
    have hin : .capture ∈ s.references := Node.mem_references_of_statements (List.mem_flatMap.2 ⟨b, hb, hmem⟩)
    exact ha.free (hr ▸ List.mem_flatMap.2 ⟨s, hs, hin⟩)
  rw [Node.references_body hbody, Node.capturesFrom_eq_nil hfree, hr]
  simp [Account.scope, Account.captures, Account.opened, hc]

omit h in
/-- The body of an accessor, with a captured `this` in front if there is one, holds the scope. -/
theorem notes_accessorBody (ha : a.Proper) (hb : block.references = a.references) :
    (accessorBody block a.marks.captured).Notes i (fun b m => m = .none ∧ b.Holds a) := by
  rw [accessorBody_eq]
  exact notes_assembleBlock ha hb.symm

/-- What takes the place of a type or a parameter refers to nothing. -/
theorem references_aside {s : Slot} (hw : Slot.WalksTo account i (.node n) s) (hn : n.IsAside) : s.references = [] := by
  rw [hw.references]
  simp [h.aside i hn, Account.none]

theorem notes_objectGetter (hn : n.Unnamed k) (hk : n.kind = .getAccessorPropertyAssignment) {slots : List Slot}
    (ha : a.Proper) (hw : List.Forall₂ (Slot.WalksTo account false) n.slots slots)
    (hr : slots.flatMap Slot.references = a.references)
    (hwalked : a.marks.captured = false → (Node.mk 0 n.kind slots).references = (a.scope 0).references) :
    (objectGetter n (.mk 0 n.kind slots) a.marks.captured).Notes i (fun r m =>
      m = .none ∧ r.nodes.flatMap Node.references = (a.scope 0).references) := by
  obtain ⟨before, hbefore, hs, -, -, -, -, htype, -⟩ := hn.stands.objectGetter hk
  refine .viewAny (fun accessor haccessor => .view hbefore (.ite (fun hc => .pure ⟨rfl, ?_⟩) (fun _ => ?_)))
  · have hcaptured : a.marks.captured = false := by simpa using (Bool.and_eq_true_iff.1 hc).2
    exact Replacement.references_one.trans (hwalked hcaptured)
  obtain ⟨s, hslots, hresult⟩ := Node.slots_of_objectGetter haccessor
  obtain rfl : slots = _ := hslots
  rw [hs] at hw
  simp only [NodeView.toSlots, List.forall₂_cons] at hw
  obtain ⟨-, -, -, -, hwtype, -⟩ := hw
  -- nothing is left of the type of the result
  have hnone : s.references = [] ∧ (if before.resultType.isSome then none else accessor.resultType) = none := by
    cases hrt : before.resultType with
    | none =>
      rw [hrt] at hwtype
      rw [hresult, hwtype.absent rfl]
      exact ⟨rfl, rfl⟩
    | some type =>
      rw [hrt] at hwtype
      exact ⟨references_aside h hwtype (.inl (htype type hrt).kind_eq), rfl⟩
  have hblock : accessor.block.references = a.references := by simpa [hnone.1] using hr
  rw [hnone.2]
  refine (notes_accessorBody ha hblock).given (fun b hb => .made (.pure ⟨rfl, ?_⟩))
  have hscope := hb.references_toNode (j := 0)
    (v := (⟨accessor.keyword, accessor.name, accessor.openParen, accessor.closeParen, none, b⟩ : ObjectGetter)) rfl
    (by simp [NodeView.toSlots]) (by simp [NodeView.toSlots])
  exact Replacement.references_one.trans hscope

theorem notes_objectSetter (hn : n.Unnamed k) (hk : n.kind = .setAccessorPropertyAssignment) {slots : List Slot}
    (ha : a.Proper) (hw : List.Forall₂ (Slot.WalksTo account false) n.slots slots)
    (hr : slots.flatMap Slot.references = a.references)
    (hwalked : a.marks.captured = false → (Node.mk 0 n.kind slots).references = (a.scope 0).references) :
    (objectSetter (.mk 0 n.kind slots) a.marks.captured).Notes i (fun r m =>
      m = .none ∧ r.nodes.flatMap Node.references = (a.scope 0).references) := by
  obtain ⟨before, -, hs, -, -, -, hparameter, -⟩ := hn.stands.objectSetter hk
  refine .ite (fun hc => .pure ⟨rfl, ?_⟩) (fun _ => .viewAny (fun accessor haccessor => ?_))
  · exact Replacement.references_one.trans (hwalked (by simpa using hc))
  obtain rfl : slots = NodeView.toSlots accessor := Node.slots_of_view? haccessor
  rw [hs] at hw
  simp only [NodeView.toSlots, List.forall₂_cons] at hw
  obtain ⟨-, -, -, hwparameter, -⟩ := hw
  have haside : before.parameter.IsAside := .inr hparameter.kind_eq
  have hnone : accessor.parameter.references = [] := references_aside h hwparameter haside
  have hbare : accessor.parameter.blockStatements = [] := hwparameter.bare _ rfl haside
  have hblock : accessor.block.references = a.references := by simpa [NodeView.toSlots, hnone] using hr
  refine (notes_accessorBody ha hblock).given (fun b hb => .made (.pure ⟨rfl, ?_⟩))
  have hscope := hb.references_toNode (j := 0) (v := { accessor with block := b }) rfl
    (by simp [NodeView.toSlots, hbare]) (by simp [NodeView.toSlots, hnone])
  exact Replacement.references_one.trans hscope

/-- **A getter or setter of an object literal is a scope.** -/
theorem notes_objectAccessor (hn : n.Unnamed k)
    (hk : n.kind = .getAccessorPropertyAssignment ∨ n.kind = .setAccessorPropertyAssignment) :
    (objectAccessor visit n).Notes i (Replacement.Meets (Account.scope 0 (Account.each account false n.loweredParts))) := by
  have hlowered : n.loweredParts = n.children := by rcases hk with hk | hk <;> rw [Node.loweredParts, hk]
  have hbody : n.kind.isBody = true := by rcases hk with hk | hk <;> rw [hk] <;> rfl
  have hproper : (Account.each account false n.children).Proper := Account.proper_each h.proper
  rw [hlowered]
  refine (notes_walk_slots h hn).inScope.andThen (fun p m hp => ?_)
  obtain ⟨walked, captured⟩ := p
  obtain ⟨m', hm, hcaptured, rfl, slots, rfl, hw⟩ := hp
  dsimp only at hcaptured ⊢
  subst hcaptured
  have hr : slots.flatMap Slot.references = (Account.each account false n.children).references := references_walked hw
  have hwalked := references_walked_scope hproper hbody hr
  refine .ite (fun hget => ?_) (fun hset => ?_)
  · exact (notes_objectGetter h hn hget hproper hw hr hwalked).mono (fun r _ hr => ⟨hr.1, Account.mk_eq hm hr.2⟩)
  · exact (notes_objectSetter h hn (hk.resolve_left hset) hproper hw hr hwalked).mono
      (fun r _ hr => ⟨hr.1, Account.mk_eq hm hr.2⟩)

/-! ## Statements and expressions -/

/-- **A form that is walked through** is what is written down of its parts. -/
theorem notes_walked (hn : n.Unnamed k) (hbody : n.kind.isBody = false) (hthis : n.kind ≠ .thisExpression)
    (hlowered : n.loweredParts = n.children) : (do return .one (← walk visit n) : Draft Replacement).Notes i
      (Replacement.Meets (Account.each account i n.loweredParts)) := by
  rw [hlowered]
  exact (notes_walk h hn hbody hthis).andThen (fun walked m hwalked => .pure ⟨rfl, Replacement.meets_one hwalked.1⟩)

theorem notes_variableStatement (hn : n.Unnamed k) (hk : n.kind = .variableStatement) :
    (variableStatement visit n).Notes i (Replacement.Meets (Account.each account i n.loweredParts)) := by
  refine .viewUnnamed hn (fun v hv hs _ => ?_)
  have hlowered : n.loweredParts = if v.declared.isSome then [] else [v.declaration] := by
    rw [Node.loweredParts, hk]
    exact Node.partsAs_eq hv _
  refine .ite (fun hdeclared => .pure (by rw [hlowered, if_pos hdeclared]; rfl)) (fun hdeclared => ?_)
  have hchildren : n.children = [v.declaration] := by simp [Node.children, hs, NodeView.toSlots]
  rw [hlowered, if_neg hdeclared, ← hchildren]
  refine (notes_walk h hn (by rw [hk]; rfl) (by rw [hk]; decide)).andThen (fun walked m hwalked => ?_)
  obtain ⟨hwalked, hw⟩ := hwalked
  split
  · exact .pure ⟨rfl, Replacement.meets_one hwalked⟩
  · refine .viewAny (fun lowered hview => .made (.pure ⟨rfl, Replacement.meets_one ?_⟩))
    obtain ⟨exported, declared, hslots⟩ := Node.slots_of_variableStatement hview
    rw [hs, hslots] at hw
    simp only [NodeView.toSlots, List.forall₂_cons] at hw
    have hnone : exported.references = [] ∧ declared.references = [] :=
      ⟨by simpa using hw.1.references, by simpa using hw.2.1.references⟩
    have hinner : walked.references = lowered.declaration.references := by
      obtain ⟨id, kind, slots⟩ := walked
      obtain rfl : kind = .variableStatement := Node.kind_of_view? hview
      obtain rfl : slots = _ := hslots
      rw [Node.references_inner rfl]
      simp [hnone]
    rw [← hwalked, hinner, references_toNode _ rfl]
    simp [NodeView.toSlots]

theorem notes_variableDeclarator (hn : n.Unnamed k) (hk : n.kind = .variableDeclarator) :
    (variableDeclarator visit n).Notes i (Replacement.Meets (Account.each account i n.loweredParts)) := by
  refine .viewUnnamed hn (fun v hv hs hparts => ?_)
  simp only [NodeView.toSlots, List.forall_mem_cons, Slot.each_token, Slot.each_ofNode?] at hparts
  obtain ⟨hname, -, hvalue, -⟩ := hparts
  have hlowered : n.loweredParts = v.value.toList := by
    rw [Node.loweredParts, hk]
    exact Node.partsAs_eq hv _
  split
  · rename_i hnone
    refine notes_walked h hn (by rw [hk]; rfl) (by rw [hk]; decide) ?_
    rw [hlowered]
    simp [Node.children, hs, NodeView.toSlots, hnone]
  · refine (notes_lowerOption h hvalue).andThen (fun value m hvalue => .made (.pure ⟨rfl, Replacement.meets_one ?_⟩))
    rw [hlowered, ← hvalue]
    exact congrArg (Account.mk m) ((Build.references_declarator hname).trans (by simp))

theorem notes_castExpression (hn : n.Unnamed k) (hk : n.kind = .castExpression) :
    (castExpression visit n).Notes i (Replacement.Meets (Account.each account i n.loweredParts)) := by
  refine .viewUnnamed hn (fun v hv _ hparts => ?_)
  have hlowered : n.loweredParts = [v.expression] := by
    rw [Node.loweredParts, hk]
    exact Node.partsAs_eq hv _
  rw [hlowered, Account.each_singleton]
  simp only [NodeView.toSlots, List.forall_mem_cons, Slot.each_node] at hparts
  exact (notes_lower h hparts.2.2.2.1).andThen (fun m _ hm => .pure ⟨rfl, Replacement.meets_one hm⟩)

theorem notes_expressionStatement (hn : n.Unnamed k) (hk : n.kind = .expressionStatement) :
    (expressionStatement visit n).Notes i (Replacement.Meets (Account.each account i n.loweredParts)) := by
  rw [show n.loweredParts = n.children by rw [Node.loweredParts, hk]]
  refine (notes_walk h hn (by rw [hk]; rfl) (by rw [hk]; decide)).andThen
    (fun walked m hwalked => .viewAny (fun statement hstatement => ?_))
  refine .ite (fun _ => .pure ⟨rfl, Replacement.meets_one hwalked.1⟩)
    (fun _ => .made (.made (.pure ⟨rfl, Replacement.meets_one ?_⟩)))
  have hinner : walked.references = statement.expression.references := by
    have hslots := Node.slots_of_view? hstatement
    obtain ⟨id, kind, slots⟩ := walked
    obtain rfl : kind = .expressionStatement := Node.kind_of_view? hstatement
    obtain rfl : slots = NodeView.toSlots statement := hslots
    rw [Node.references_inner rfl]
    simp [NodeView.toSlots]
  rw [← hwalked.1, hinner, references_toNode _ rfl]
  simp [NodeView.toSlots]

omit h in
/-- **A place that refers to `this`** does so through `_this` in an arrow function. -/
theorem notes_thisReference : (thisReference t).Notes i (fun n m => Account.mk m n.references = Account.reference i) := by
  intro n m heq
  cases i <;> cases heq <;> rfl

omit h in
theorem notes_thisExpression : (thisExpression n).Notes i (Replacement.Meets (Account.reference i)) :=
  .viewAny (fun _ _ => notes_thisReference.andThen (fun _ _ hm => .pure ⟨rfl, Replacement.meets_one hm⟩))

/-! ## References to the base class -/

omit h in
theorem references_callMember : (callMember n j).1.references = n.references := by
  simp [callMember, Fresh.bind_apply]

omit h in
theorem references_superPrototype : (superPrototype j).1.references = [] := by
  simp [superPrototype, Fresh.bind_apply, Build.references_name]

omit h in
/-- What is called in place of the base class refers to nothing. -/
theorem references_superCallee (hn : n.Unnamed k) : (superCallee? n j).1.isSome = n.isSuperCallee ∧
    ∀ m ∈ (superCallee? n j).1, m.references = [] := by
  have hkind : (n.kind == .superExpression) = (n.view? SuperExpression).isSome :=
    (Node.Unnamed.isSome_view? (α := SuperExpression) hn).symm
  unfold superCallee? Node.isSuperCallee
  rw [hkind]
  cases n.view? SuperExpression with
  | some v =>
    refine ⟨rfl, fun m hm => ?_⟩
    rw [← Option.some.inj hm]
    exact references_callMember.trans (Build.references_name (by decide))
  | none =>
    cases hv : n.view? MemberAccess with
    | none => exact ⟨rfl, fun m hm => by cases hm⟩
    | some v =>
      have hexpression : v.expression.Unnamed k := Slot.each_node.1 (hn.parts hv _ (by simp [NodeView.toSlots]))
      have hkind : (v.expression.kind == .superExpression) = (v.expression.view? SuperExpression).isSome :=
        (Node.Unnamed.isSome_view? (α := SuperExpression) hexpression).symm
      dsimp only [Option.any_some]
      rw [hkind]
      cases v.expression.view? SuperExpression with
      | none => exact ⟨rfl, fun m hm => by cases hm⟩
      | some w =>
        refine ⟨rfl, fun m hm => ?_⟩
        rw [← Option.some.inj hm]
        exact references_callMember.trans (Build.references_memberAccess.trans references_superPrototype)

/-- **A call of the base class is given the reference to `this`** in front of its arguments. -/
theorem notes_callWithThis {target arguments : Node} (ht : target.references = []) (ha : arguments.Unnamed k) :
    (callWithThis visit target arguments).Notes i (Replacement.Meets (Account.reference i ++ account i arguments)) := by
  refine (notes_lower h ha).bind (fun lowered m hlowered => .viewAny (fun list hlist => ?_))
  have hinner : lowered.references = list.arguments.members.flatMap Node.references := by
    have hslots := Node.slots_of_view? hlist
    obtain ⟨id, kind, slots⟩ := lowered
    obtain rfl : kind = .argumentList := Node.kind_of_view? hlist
    obtain rfl : slots = NodeView.toSlots list := hslots
    rw [Node.references_inner rfl]
    simp [NodeView.toSlots]
  refine notes_thisReference.andThen (fun this m' hthis => ?_)
  have hboth : Account.mk (m.and m') (this.references ++ list.arguments.members.flatMap Node.references) =
      Account.reference i ++ account i arguments := by
    rw [← hthis, ← hlowered, hinner, Marks.and_comm]
    rfl
  extract_lets finish
  have hfinish : ∀ comma : List Token, (finish comma).Notes i (fun r m'' =>
      m'' = .none ∧ r.Meets (Account.reference i ++ account i arguments) (m.and m')) := fun comma => by
    refine .made (.made (.pure ⟨rfl, Replacement.meets_one ?_⟩))
    have harguments : ∀ v : ArgumentList, (NodeView.toNode v 0).1.references = v.arguments.members.flatMap Node.references :=
      fun v => (references_toNode v rfl).trans (by simp [NodeView.toSlots])
    rw [← hboth, references_toNode _ rfl]
    simp [NodeView.toSlots, harguments, ht]
  exact .ite (fun _ => .given (R := fun _ => True) (.pure ⟨rfl, trivial⟩) (fun comma _ => hfinish comma))
    (fun _ => .made (.given (R := fun _ => True) (.pure ⟨rfl, trivial⟩) (fun comma _ => hfinish comma)))

theorem notes_invocation (hn : n.Unnamed k) (hk : n.kind = .invocationExpression) :
    (invocation visit n).Notes i (Replacement.Meets
      (Account.ofView Invocation n (fun v => if v.callee.isSuperCallee then Account.reference i else .none) ++
        Account.each account i n.loweredParts)) := by
  refine .viewUnnamed hn (fun v hv hs hparts => .made ?_)
  have hlowered : n.loweredParts = if v.callee.isSuperCallee then [v.arguments] else [v.callee, v.arguments] := by
    rw [Node.loweredParts, hk]
    exact Node.partsAs_eq hv _
  rw [Account.ofView_eq hv]
  simp only [NodeView.toSlots, List.forall_mem_cons, Slot.each_node] at hparts
  obtain ⟨hsome, hnone⟩ := references_superCallee hparts.1 (j := 0)
  split
  · rename_i target htarget
    have hsuper : v.callee.isSuperCallee = true := by rw [← hsome, htarget]; rfl
    rw [if_pos hsuper, hlowered, if_pos hsuper, Account.each_singleton]
    exact notes_callWithThis h (hnone target htarget) hparts.2.1
  · rename_i htarget
    have hsuper : ¬ v.callee.isSuperCallee = true := by rw [← hsome, htarget]; decide
    rw [if_neg hsuper, Account.none_append]
    refine notes_walked h hn (by rw [hk]; rfl) (by rw [hk]; decide) ?_
    rw [hlowered, if_neg hsuper]
    simp [Node.children, hs, NodeView.toSlots]

theorem notes_memberAccess (hn : n.Unnamed k) (hk : n.kind = .memberAccessExpression) :
    (memberAccess visit n).Notes i (Replacement.Meets (Account.each account i n.loweredParts)) := by
  refine .viewUnnamed hn (fun v hv hs hparts => ?_)
  simp only [NodeView.toSlots, List.forall_mem_cons, Slot.each_node] at hparts
  have hkind : (v.expression.kind == .superExpression) = (v.expression.view? SuperExpression).isSome :=
    (Node.Unnamed.isSome_view? (α := SuperExpression) hparts.1).symm
  have hlowered : n.loweredParts = if (v.expression.view? SuperExpression).isSome then [] else [v.expression] := by
    rw [Node.loweredParts, hk, ← hkind]
    exact Node.partsAs_eq hv _
  split
  · rename_i w hw
    rw [hlowered, if_pos (by rw [hw]; rfl)]
    refine .made (.pure (Replacement.meets_one (Account.mk_eq rfl ?_)))
    show (NodeView.toNode (MemberAccess.mk (superPrototype 0).1 v.dot v.name) (superPrototype 0).2).1.references = []
    rw [references_toNode _ rfl]
    simp [NodeView.toSlots, references_superPrototype]
  · rename_i hw
    refine notes_walked h hn (by rw [hk]; rfl) (by rw [hk]; decide) ?_
    rw [hlowered, if_neg (by rw [hw]; decide)]
    simp [Node.children, hs, NodeView.toSlots]

end Draft
end Downlevel
