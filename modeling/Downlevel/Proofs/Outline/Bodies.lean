import Downlevel.Proofs.Outline.Notes
/-!
# Proofs.Outline.Bodies — functions keep to what is written down of their `this`

A block holds a scope if it has what is written down of the scope, and `var _this = this;` in front if and only if an
arrow function of the scope refers to `this` (`Node.Holds`).  The body that a function gets holds the scope of its
default values and its statements (`Draft.notes_functionLike`), and the function that an arrow function becomes holds
what is written down of the arrow function, with nothing in front (`Draft.notes_arrowFunction`).
-/
namespace Downlevel

variable {a : Account} {b n parameters block : Node} {i captured : Bool} {j k position : Nat} {slots : List Slot}
  {ns ms : List Node} {t : Token}

/-! ## Blocks -/

namespace Node

theorem references_of_viewBlock {v : Block} (hv : n.view? Block = some v) :
    n.references = v.statements.flatMap references := by
  have hslots := slots_of_view? hv
  obtain ⟨id, kind, slots⟩ := n
  obtain rfl : kind = .block := kind_of_view? hv
  obtain rfl : slots = NodeView.toSlots v := hslots
  rw [references_inner rfl]
  simp [NodeView.toSlots]

theorem mem_references_of_blockStatements {r : Reference} (h : r ∈ n.blockStatements.flatMap references) :
    r ∈ n.references := by
  obtain ⟨m, hm, hr⟩ := List.mem_flatMap.1 h
  obtain ⟨v, hv, hm⟩ := mem_partsAs.1 hm
  exact references_of_viewBlock hv ▸ List.mem_flatMap.2 ⟨m, hm, hr⟩

theorem mem_references_of_statements {r : Reference} {s : Slot} (h : r ∈ s.statements.flatMap references) :
    r ∈ s.references := by
  cases s with
  | node b => exact mem_references_of_blockStatements h
  | list ns => exact Slot.references_list ns ▸ h
  | _ => cases h

/-- The block holds the scope that is written down. -/
structure Holds (a : Account) (block : Node) : Prop where
  captures : capturesFrom 0 block.blockStatements = a.captures 0
  references : block.references = a.opened

/-- **A function whose block holds a scope is that scope.** -/
theorem Holds.references_mk {id : ObjectId} {kind : NodeKind} (h : b.Holds a) (hbody : kind.isBody = true)
    (hs : slots.flatMap Slot.statements = b.blockStatements) (hr : slots.flatMap Slot.references = b.references) :
    (Node.mk id kind slots).references = (a.scope 0).references := by
  rw [Node.references_body hbody, hs, hr, h.captures, h.references]
  rfl

theorem Holds.references_toNode {α : Type} [NodeView α] {v : α} (h : b.Holds a)
    (hbody : (NodeView.kind α).isBody = true) (hs : (NodeView.toSlots v).flatMap Slot.statements = b.blockStatements)
    (hr : (NodeView.toSlots v).flatMap Slot.references = b.references) :
    (NodeView.toNode v j).1.references = (a.scope 0).references := h.references_mk hbody hs hr

end Node

namespace Draft

/-! ## A captured `this` -/

theorem declaresThis_captureStatement : (captureStatement j).1.declaresThis = true := rfl

theorem references_captureStatement : (captureStatement j).1.references = [.capture, .this] := rfl

theorem capturesFrom_withCapture (h : .capture ∉ ns.flatMap Node.references) :
    Node.capturesFrom position (withCapture captured ns j).1 = if captured then [position] else [] := by
  cases captured with
  | false => exact Node.capturesFrom_eq_nil h
  | true =>
    show (if (captureStatement j).1.declaresThis then _ else _) = _
    rw [declaresThis_captureStatement, if_pos rfl, if_pos rfl]
    exact congrArg _ (Node.capturesFrom_eq_nil h)

theorem references_withCapture : (withCapture captured ns j).1.flatMap Node.references =
    if captured then .capture :: .this :: ns.flatMap Node.references else ns.flatMap Node.references := by
  cases captured with
  | false => rfl
  | true =>
    show (captureStatement j).1.references ++ ns.flatMap Node.references = _
    rw [references_captureStatement]
    rfl

/-- **Statements with a captured `this` in front hold the scope.** -/
theorem holds_withCapture (position j : Nat) (ha : a.Proper) (hr : ns.flatMap Node.references = a.references) :
    Node.capturesFrom position (withCapture a.marks.captured ns j).1 = a.captures position ∧
      (withCapture a.marks.captured ns j).1.flatMap Node.references = a.opened := by
  refine ⟨capturesFrom_withCapture (hr ▸ ha.free), ?_⟩
  rw [references_withCapture, hr]
  rfl

/-- A block with what runs in front of it, and a captured `this` before that. -/
theorem notes_assembleBlock (ha : a.Proper) (hr : a.references = ns.flatMap Node.references ++ b.references) :
    (assembleBlock b (withCapture a.marks.captured ns j).1).Notes i (fun b' m => m = .none ∧ b'.Holds a) := by
  have hfree := hr ▸ ha.free
  rw [List.mem_append, not_or] at hfree
  have hb : .capture ∉ b.blockStatements.flatMap Node.references := fun h =>
    hfree.2 (Node.mem_references_of_blockStatements h)
  refine .ite (fun hempty => .pure ⟨rfl, ?_⟩) (fun _ => .viewAny (fun v hv => .make ⟨rfl, ?_⟩))
  · -- nothing stands in front, so nothing is captured
    cases hc : a.marks.captured with
    | true =>
      rw [hc] at hempty
      cases hempty
    | false =>
      rw [hc] at hempty
      have hnil : ns = [] := List.isEmpty_iff.1 hempty
      refine ⟨?_, ?_⟩
      · rw [Node.capturesFrom_eq_nil hb, Account.captures, hc]
        rfl
      · rw [Account.opened, hc, hr, hnil]
        rfl
  · have hblock : b.references = v.statements.flatMap Node.references := Node.references_of_viewBlock hv
    have hstatements : .capture ∉ v.statements.flatMap Node.references := hblock ▸ hfree.2
    refine ⟨?_, ?_⟩
    · show Node.capturesFrom 0 ((withCapture a.marks.captured ns j).1 ++ v.statements) = _
      rw [Node.capturesFrom_append, capturesFrom_withCapture hfree.1, Node.capturesFrom_eq_nil hstatements, List.append_nil]
      rfl
    · rw [Build.references_block, List.flatMap_append, references_withCapture, Account.opened, hr, hblock]
      split <;> rfl

/-- A block with statements in front. -/
theorem notes_assembleBlock_before : (assembleBlock b ns).Notes i (fun b' m =>
    m = .none ∧ b'.references = ns.flatMap Node.references ++ b.references) := by
  refine .ite (fun hempty => .pure ⟨rfl, ?_⟩) (fun _ => .viewAny (fun v hv => .make ⟨rfl, ?_⟩))
  · rw [List.isEmpty_iff.1 hempty]
    rfl
  · rw [Build.references_block, List.flatMap_append, Node.references_of_viewBlock hv]

/-! ## Functions that are built -/

theorem blockStatements_callSignature : (Build.callSignature parameters j).1.blockStatements = [] := rfl

theorem references_functionExpression (hp : parameters.references = []) : (functionExpression parameters b j).1.references =
    Reference.ofBody (Node.capturesFrom 0 b.blockStatements) b.references := by
  show (Node.mk _ .functionExpression [.token _, .absent, .node (Build.callSignature parameters _).1, .node b]).references = _
  rw [Node.references_body rfl]
  simp [blockStatements_callSignature, hp]

theorem references_functionDeclaration (hp : parameters.references = []) :
    (functionDeclaration t parameters b j).1.references =
      Reference.ofBody (Node.capturesFrom 0 b.blockStatements) b.references := by
  show (Node.mk _ .functionDeclaration [.absent, .absent, .token _, .token t, .node (Build.callSignature parameters _).1,
    .node b, .absent]).references = _
  rw [Node.references_body rfl]
  simp [blockStatements_callSignature, hp]

/-- The statements of a block that declares no `_this`. -/
theorem capturesFrom_of_proper (ha : a.Proper) (hb : b.references = a.references) :
    Node.capturesFrom position b.blockStatements = [] :=
  Node.capturesFrom_eq_nil (fun h => ha.free (hb ▸ Node.mem_references_of_blockStatements h))

/-- A function whose body declares no `_this`. -/
theorem references_functionExpression_around (ha : a.Proper) (hp : parameters.references = [])
    (hb : b.references = a.references) : (functionExpression parameters b j).1.references = a.around.references := by
  rw [references_functionExpression hp, capturesFrom_of_proper ha hb, hb]
  rfl

theorem blockStatements_braced : (braced ns j).1.blockStatements = ns := rfl

@[simp] theorem references_braced : (braced ns j).1.references = ns.flatMap Node.references := Build.references_block

/-- A block with a captured `this` in front holds the scope. -/
theorem holds_braced (ha : a.Proper) (hr : ns.flatMap Node.references = a.references) {l : Nat} :
    (braced (withCapture a.marks.captured ns j).1 l).1.Holds a := by
  obtain ⟨hcaptures, hopened⟩ := holds_withCapture 0 j ha hr
  exact ⟨hcaptures, by rw [references_braced, hopened]⟩

/-- A function that stands around a body. -/
theorem references_wrapperCall {arguments : List Node} (hp : ns.flatMap Node.references = [])
    (hargs : arguments.flatMap Node.references = []) : (wrapperCall ns b arguments j).1.references =
      Reference.ofBody (Node.capturesFrom 0 b.blockStatements) b.references := by
  show (Build.invocation (Build.parenthesized (functionExpression (Build.parameterList ns j).1 b _).1 _).1 arguments
    _).1.references = _
  rw [Build.references_invocation, Build.references_parenthesized, hargs, List.append_nil]
  exact references_functionExpression (by rw [Build.references_parameterList, hp])

/-- A function that stands around a body that declares no `_this`. -/
theorem references_wrapperCall_around {arguments : List Node} (ha : a.Proper) (hp : ns.flatMap Node.references = [])
    (hargs : arguments.flatMap Node.references = []) (hb : b.references = a.references) :
    (wrapperCall ns b arguments j).1.references = a.around.references := by
  rw [references_wrapperCall hp hargs, capturesFrom_of_proper ha hb, hb]
  rfl

end Draft

/-! ## Parameters -/

/-- What parameters in a row leave for the body, if no name is `_this`. -/
structure ParameterFacts.Of (k : Nat) (ns : List Node) (facts : ParameterFacts) : Prop where
  values : facts.defaults.map DefaultValue.value = Node.defaultValues ns
  properties : facts.properties.length = Node.countProperties ns
  defaults : ∀ d ∈ facts.defaults, d.name.isCapture = false ∧ d.value.Unnamed k
  fields : ∀ t ∈ facts.properties, t.isCapture = false
  rest : ∀ r ∈ facts.rest, r.name.isCapture = false

namespace LoweringContext

theorem references_isUndefined (ht : t.isCapture = false) : (isUndefined t j).1.references = [] := by
  unfold isUndefined
  simp [Fresh.bind_apply, Build.references_nameExpression ht]

@[simp] theorem references_argumentCounter : (argumentCounter j).1.references = [] := Build.references_name (by decide)

theorem references_copyArgument {rest : RestParameter} (ht : rest.name.isCapture = false) :
    (copyArgument rest j).1.references = [] := by
  unfold copyArgument
  split <;> simp [Fresh.bind_apply, Build.references_nameExpression ht, Build.references_name]

theorem references_argumentLoop {index : Nat} : (argumentLoop index b j).1.references = b.references := by
  have hloop : NodeKind.isInner .forStatement = true := rfl
  unfold argumentLoop
  simp [Fresh.bind_apply, Build.references_fresh hloop, Build.references_variableDeclaration, Build.isCapture_identifier,
    Build.references_name]

end LoweringContext

namespace Draft

open LoweringContext

theorem references_setDefault (ht : t.isCapture = false) : (setDefault t n j).1.references = n.references := by
  unfold setDefault
  simp [Fresh.bind_apply, Build.references_nameExpression ht, references_isUndefined ht]

theorem references_restStatements {rest : RestParameter} (ht : rest.name.isCapture = false) :
    (restStatements rest j).1.flatMap Node.references = [] := by
  simp only [restStatements, Fresh.bind_apply, Fresh.pure_apply]
  simp [Build.references_variableStatement ht, references_argumentLoop, references_copyArgument ht]

/-- The value that is read behind an equals sign. -/
theorem notes_viewClause (o : Option Node) : (viewOption EqualsValueClause o).Notes i (fun c m =>
    m = .none ∧ (c.map EqualsValueClause.value).toList = Node.clauseValue o) := by
  cases o with
  | none => exact .pure ⟨rfl, rfl⟩
  | some n =>
    show (some <$> view EqualsValueClause n).Notes i _
    rw [map_eq_pure_bind]
    refine .viewAny (fun v hv => .pure ⟨rfl, ?_⟩)
    rw [Node.clauseValue, Option.bind_some, hv]

theorem notes_defaultValue {p : Parameter} (hname : p.name.isCapture = false) (hvalue : ∀ n ∈ p.value, n.Unnamed k) :
    (defaultValue? p).Notes i (fun ds m => m = .none ∧ ds.map DefaultValue.value = Node.clauseValue p.value ∧
      ∀ d ∈ ds, d.name.isCapture = false ∧ d.value.Unnamed k) := by
  refine (notes_viewClause p.value).given (fun c hc => ?_)
  have hvalues := hc ▸ Node.Sound.clauseValue hvalue
  cases c with
  | none => exact .pure ⟨rfl, hc, fun _ hd => by cases hd⟩
  | some c => exact .pure ⟨rfl, hc, List.forall_mem_singleton.2 ⟨hname, hvalues _ (List.mem_singleton.2 rfl)⟩⟩

/-- A parameter without its type refers to nothing, and is no block. -/
theorem notes_eraseParameter : (eraseParameter n).Notes i (fun n' m =>
    m = .none ∧ n'.references = [] ∧ n'.blockStatements = []) :=
  .viewAny (fun _ _ => .make ⟨rfl, Build.references_parameter, rfl⟩)

theorem notes_parametersFrom : ∀ (index : Nat) {ns : List Node}, (∀ n ∈ ns, n.Unnamed k) →
    (parametersFrom index ns).Notes i (fun p m => m = .none ∧ p.1.flatMap Node.references = [] ∧ p.2.Of k ns)
  | _, [], _ => .pure ⟨rfl, rfl, rfl, rfl, fun _ h => (by cases h), fun _ h => (by cases h), fun _ h => by cases h⟩
  | index, n :: ns, hns => by
    obtain ⟨hn, hns⟩ := List.forall_mem_cons.1 hns
    refine .viewUnnamed hn (fun p hv _ hparts => ?_)
    simp only [NodeView.toSlots, List.forall_mem_cons, Slot.each_token, Slot.each_ofNode?] at hparts
    obtain ⟨-, -, hname, -, -, hvalue, -⟩ := hparts
    refine .ite (fun hdots => .pure ⟨rfl, rfl, ?_, ?_, ?_, ?_, ?_⟩) (fun hdots => ?_)
    · rw [Node.defaultValues_cons hv, if_pos hdots]
      rfl
    · rw [Node.countProperties_cons hv, if_pos hdots]
      rfl
    · exact fun _ h => by cases h
    · exact fun _ h => by cases h
    · exact fun r hr => Option.some.inj hr ▸ hname
    · refine (notes_defaultValue hname hvalue).given (fun ds hds => notes_eraseParameter.given (fun erased herased => ?_))
      refine (notes_parametersFrom (index + 1) hns).given (fun rest hrest => ?_)
      obtain ⟨ms, facts⟩ := rest
      obtain ⟨hms, hfacts⟩ := hrest
      refine .pure ⟨rfl, ?_, ?_, ?_, ?_, ?_, hfacts.rest⟩
      · rw [List.flatMap_cons, herased.1, List.nil_append, hms]
      · rw [List.map_append, Node.defaultValues_cons hv, if_neg hdots, hds.1, hfacts.values]
      · rw [List.length_append, Node.countProperties_cons hv, if_neg hdots, hfacts.properties, property?]
        cases p.access.isSome <;> rfl
      · exact List.forall_mem_append.2 ⟨hds.2, hfacts.defaults⟩
      · refine List.forall_mem_append.2 ⟨fun t ht => ?_, hfacts.fields⟩
        unfold property? at ht
        split at ht
        · exact List.mem_singleton.1 ht ▸ hname
        · cases ht

/-- **A list of parameters refers to nothing**, and leaves its default values for the body. -/
theorem notes_parameterList (hn : n.Unnamed k) : (parameterList n).Notes i (fun p m =>
    m = .none ∧ p.1.references = [] ∧ p.2.Of k n.listedParameters) := by
  refine .viewUnnamed hn (fun v hv _ hparts => ?_)
  simp only [NodeView.toSlots, List.forall_mem_cons, Slot.each_separated] at hparts
  obtain ⟨-, ⟨hmembers, -⟩, -⟩ := hparts
  have hlisted : n.listedParameters = v.parameters.members := Node.partsAs_eq hv _
  refine (notes_parametersFrom 0 hmembers).given (fun p hp => .made (.pure ⟨rfl, ?_, hlisted ▸ hp.2⟩))
  rw [references_toNode _ rfl]
  simp [NodeView.toSlots, hp.1]

theorem defaultValues_listedParameters : Node.defaultValues n.listedParameters = n.listedDefaults := by
  unfold Node.listedParameters Node.listedDefaults Node.partsAs
  cases n.view? ParameterList <;> rfl

section Rules

variable {visit : Node → Draft Replacement} {account : Bool → Node → Account} (h : Keeps visit account)
include h

/-! ## What runs in front of a body -/

theorem notes_parameterPrologue {facts : ParameterFacts} (hf : facts.Of k ns) : (parameterPrologue visit facts).Notes i
    (fun ms m => Account.mk m (ms.flatMap Node.references) =
      Account.each account i (facts.defaults.map DefaultValue.value)) := by
  have hdefaults : (facts.defaults.mapM (defaultValueStatement visit)).Notes i
      (fun ms m => Account.mk m (ms.flatMap Node.references) = Account.all (facts.defaults.map (fun d => account i d.value))) :=
    Notes.mapM (fun d hd => (notes_lower h (hf.defaults d hd).2).andThen (fun value m hvalue => .make ⟨rfl, by
      rw [references_setDefault (hf.defaults d hd).1, hvalue]⟩))
  refine hdefaults.andThen (fun ms m hms => ?_)
  have hall : Account.mk m (ms.flatMap Node.references) = Account.each account i (facts.defaults.map DefaultValue.value) := by
    rw [hms, Account.each, List.map_map]
    rfl
  split
  · rename_i rest hrest
    refine .made (.pure ⟨rfl, ?_⟩)
    rw [List.flatMap_append, references_restStatements (hf.rest rest hrest), List.append_nil, hall]
  · exact .pure ⟨rfl, hall⟩

/-- **The body of a function holds the scope of its default values and its statements.** -/
theorem notes_functionLike (hp : parameters.Unnamed k) (hb : block.Unnamed k) :
    (functionLike visit parameters block).Notes i (fun p m =>
      m = ⟨false, (Account.each account false (Node.functionParts parameters block)).marks.derived⟩ ∧
      p.1.references = [] ∧ p.2.Holds (Account.each account false (Node.functionParts parameters block))) := by
  unfold functionLike
  refine (Notes.inScope (P := fun (p : Node × List Node × Node) m => p.1.references = [] ∧
    Account.mk m (p.2.1.flatMap Node.references ++ p.2.2.references) =
      Account.each account false (Node.functionParts parameters block)) ?_).andThen (fun p m hp => ?_)
  · refine (notes_parameterList hp).given (fun p hp => ?_)
    obtain ⟨hlist, hfacts⟩ := hp
    refine (notes_parameterPrologue h hfacts).bind (fun prologue m hprologue => ?_)
    refine (notes_lower h hb).andThen (fun lowered m' hlowered => .pure ⟨rfl, hlist, ?_⟩)
    show Account.mk m (prologue.flatMap Node.references) ++ Account.mk m' lowered.references = _
    rw [hprologue, hlowered, hfacts.values, defaultValues_listedParameters, Node.functionParts, Account.each_append,
      Account.each_singleton]
  obtain ⟨⟨list, prologue, lowered⟩, captured⟩ := p
  obtain ⟨m', rfl, hcaptured, hlist, hbody⟩ := hp
  have hproper : (Account.each account false (Node.functionParts parameters block)).Proper := Account.proper_each h.proper
  have hmarks : m' = (Account.each account false (Node.functionParts parameters block)).marks := congrArg Account.marks hbody
  dsimp only at hcaptured hlist hbody ⊢
  refine .made ?_
  rw [hcaptured, hmarks]
  exact (notes_assembleBlock hproper (congrArg Account.references hbody).symm).given (fun b hb => .pure ⟨rfl, rfl, hlist, hb⟩)

/-- **A function with a signature**: its body holds the scope, whatever is built around it next. -/
theorem notes_signature {signature : Node} {β : Type} {f : CallSignature → Node × Node → Draft β} {Q : β → Marks → Prop}
    (hs : signature.Unnamed k) (hb : block.Unnamed k)
    (hf : ∀ s p, p.1.references = [] → p.2.Holds (Account.each account false (Node.signatureParts signature block)) →
      (f s p).Notes i (fun b m => m = .none ∧
        Q b ⟨false, (Account.each account false (Node.signatureParts signature block)).marks.derived⟩)) :
    (Draft.view CallSignature signature >>= fun s => functionLike visit s.parameters block >>= f s).Notes i Q := by
  refine .viewUnnamed hs (fun s hv _ hparts => ?_)
  simp only [NodeView.toSlots, List.forall_mem_cons, Slot.each_node] at hparts
  have hread : Node.signatureParts signature block = Node.functionParts s.parameters block := by
    rw [Node.signatureParts, Node.partsAs_eq hv]
  rw [hread] at hf
  refine (notes_functionLike h hparts.1 hb).andThen (fun p m hp => ?_)
  obtain ⟨rfl, hlist, hbody⟩ := hp
  exact hf s p hlist hbody

end Rules

/-- The body of an accessor is one that nothing runs in front of. -/
theorem accessorBody_eq : accessorBody b captured = assembleBlock b (withCapture captured [] 0).1 := by
  cases captured with
  | false => rfl
  | true => exact pure_bind (captureStatement 0).1 (fun capture => assembleBlock b [capture])

end Draft
end Downlevel
