import Downlevel.Lowering.Program
import Downlevel.Proofs.Tree.Walks
/-!
# Proofs.Lowering.Reach — which nodes lowering reaches, and which of them it drops

A declaration that is written for the type checker only leaves nothing behind (`Node.leavesNothing`), and what it holds
is never lowered.  `Node.loweredParts` are the nodes that the rule of a node lowers in turn.  A tree is intact for so
many levels (`Node.Intact`) if the nodes that are reached so lie on no more levels, none of them has a slot for one node
that holds a declaration of that sort, and none is a namespace whose name has too many parts; this is what lowering
needs of a tree.
-/
namespace Downlevel

/-! ## What is dropped -/

/-- Nothing takes the place of the node: it is a type, or a declaration that nothing runs for. -/
def Node.leavesNothing (n : Node) : Bool :=
  match n.kind with
  | .interfaceDeclaration | .typeClause => true
  | .functionDeclaration => n.has 1 || !n.has 5
  | .variableStatement => n.has 1
  | _ => false

/-- A declaration in whose place any number of statements stand. -/
def NodeKind.isSpread : NodeKind → Bool
  | classDeclaration | moduleDeclaration | enumDeclaration => true
  | _ => false

/-! ## What is lowered -/

def Node.clauseValue (clause : Option Node) : List Node :=
  ((clause.bind (·.view? EqualsValueClause)).map EqualsValueClause.value).toList

/-- The default values that a function sets: those of the parameters in front of the rest parameter. -/
def Node.defaultValues : List Node → List Node
  | [] => []
  | n :: ns =>
    match n.view? Parameter with
    | none => Node.defaultValues ns
    | some p => if p.dots.isSome then [] else Node.clauseValue p.value ++ Node.defaultValues ns

/-- The parts of a node that is read as a view. -/
def Node.partsAs (α : Type) [NodeView α] (parts : α → List Node) (n : Node) : List Node :=
  ((n.view? α).map parts).getD []

/-- The default values of a list of parameters. -/
def Node.listedDefaults (parameters : Node) : List Node :=
  parameters.partsAs ParameterList (fun v => Node.defaultValues v.parameters.members)

/-- The parts of a function with the given parameters and body. -/
def Node.functionParts (parameters body : Node) : List Node := parameters.listedDefaults ++ [body]

/-- The parts of a function with the given signature and body. -/
def Node.signatureParts (signature body : Node) : List Node :=
  signature.partsAs CallSignature (fun v => Node.functionParts v.parameters body)

/-- The value of a field. -/
def MemberVariable.parts (v : MemberVariable) : List Node :=
  v.declarator.partsAs VariableDeclarator (fun d => Node.clauseValue d.value)

/-- The parts of a method, which has none without a body. -/
def MemberFunction.parts (v : MemberFunction) : List Node := (v.block.map (Node.signatureParts v.signature)).getD []

/-- The parts of a getter or setter of a class. -/
def Node.accessorParts (n : Node) : List Node :=
  match n.view? MemberGetter, n.view? MemberSetter with
  | some getter, _ => Node.functionParts getter.parameters getter.block
  | none, some setter => Node.functionParts setter.parameters setter.block
  | none, none => []

/-- The parts of the constructor of a class: those of the first one that has a body. -/
def Node.constructorParts (members : List Node) : List Node :=
  match LoweringContext.firstConstructor? members with
  | some (_, v, block) =>
    v.parameters.listedDefaults ++ block.partsAs Block Block.statements
  | none => []

/-- The parts of a member of a class that is neither its constructor nor an accessor. -/
def Node.memberParts (n : Node) : List Node :=
  n.partsAs MemberFunction MemberFunction.parts ++ n.partsAs MemberVariable MemberVariable.parts

/-- The parts of the accessors of a property, of which there are two at most. -/
def Node.propertyParts (members : List Node) (key : AccessorKey) : List Node :=
  (LoweringContext.accessorsOf members key).flatMap (fun accessor => accessor.2.accessorParts)

namespace ClassDeclaration

def bodyParts (v : ClassDeclaration) : List Node :=
  Node.constructorParts v.members ++ v.members.flatMap Node.memberParts
    ++ (v.members.filterMap Node.accessorKey?).flatMap (Node.propertyParts v.members)

end ClassDeclaration

def Node.enumParts (members : List Node) : List Node :=
  members.flatMap (fun m => m.partsAs EnumElement (fun e => Node.clauseValue e.value))

/-- The callee of a call through the base class. -/
def Node.isSuperCallee (n : Node) : Bool :=
  n.kind == .superExpression || (n.view? MemberAccess).any (fun v => v.expression.kind == .superExpression)

/-- The nodes that are lowered in turn when a node is lowered. -/
def Node.loweredParts (n : Node) : List Node :=
  match n.kind with
  | .interfaceDeclaration | .typeClause | .callSignature | .parameterList | .parameter => []
  | .classDeclaration => n.partsAs ClassDeclaration (fun v => if v.declared.isSome then [] else v.bodyParts)
  | .moduleDeclaration => n.partsAs ModuleDeclaration (fun v =>
      if v.declared.isSome || v.name.kind == .literalExpression then [] else v.elements)
  | .enumDeclaration => n.partsAs EnumDeclaration (fun v =>
      if v.declared.isSome then []
      else Node.enumParts v.members.members)
  | .functionDeclaration => n.partsAs FunctionDeclaration (fun v =>
      if v.declared.isSome then [] else (v.block.map (Node.signatureParts v.signature)).getD [])
  | .functionExpression => n.partsAs FunctionExpression (fun v => Node.signatureParts v.signature v.block)
  | .simpleArrowFunctionExpression => n.partsAs SimpleArrow (fun v => [v.body])
  | .parenthesizedArrowFunctionExpression => n.partsAs ParenthesizedArrow (fun v =>
      Node.signatureParts v.signature v.body)
  | .variableStatement => n.partsAs VariableStatement (fun v => if v.declared.isSome then [] else [v.declaration])
  | .variableDeclarator => n.partsAs VariableDeclarator (fun v => v.value.toList)
  | .castExpression => n.partsAs Cast (fun v => [v.expression])
  | .invocationExpression => n.partsAs Invocation (fun v =>
      if v.callee.isSuperCallee then [v.arguments] else [v.callee, v.arguments])
  | .memberAccessExpression => n.partsAs MemberAccess (fun v =>
      if v.expression.kind == .superExpression then [] else [v.expression])
  | _ => n.children

/-- The node is no namespace that becomes wrappers, or its name has not too many parts. -/
def Node.NameFits (n : Node) : Prop := ∀ v, n.view? ModuleDeclaration = some v →
  (v.declared.isSome || v.name.kind == .literalExpression) = true ∨ v.name.nameParts.length ≤ LoweringFault.maxNameParts

/-- **Lowering the node, so many levels down, loses no node that must stay**, and meets no name that is too long. -/
def Node.Intact (levels : Nat) (n : Node) : Prop :=
  match levels with
  | 0 => False
  | levels + 1 => ((∀ s ∈ n.required, s.leavesNothing = false) ∧ n.NameFits) ∧ ∀ p ∈ n.loweredParts, p.Intact levels

theorem Node.nameFits_of_kind {n : Node} (h : n.kind ≠ .moduleDeclaration) : n.NameFits :=
  fun _ hv => absurd (Node.kind_of_view? hv) h

/-! ## Where what is dropped may stand -/

namespace NodeClass

def mayLeaveNothing (c : NodeClass) : Bool :=
  c.includes .interfaceDeclaration || c.includes .typeClause || c.includes .functionDeclaration
    || c.includes .variableStatement

/-- A node of the class may make room for any number of statements. -/
def maySpread (c : NodeClass) : Bool :=
  c.includes .classDeclaration || c.includes .moduleDeclaration || c.includes .enumDeclaration

theorem leavesNothing_eq_false {c : NodeClass} {n : Node} (hc : c.mayLeaveNothing = false)
    (h : c.includes n.kind = true) : n.leavesNothing = false := by
  simp only [mayLeaveNothing, Bool.or_eq_false_iff] at hc
  obtain ⟨⟨⟨hinterface, htype⟩, hfunction⟩, hvariable⟩ := hc
  unfold Node.leavesNothing
  split
  · rename_i hk
    rw [hk, hinterface] at h
    cases h
  · rename_i hk
    rw [hk, htype] at h
    cases h
  · rename_i hk
    rw [hk, hfunction] at h
    cases h
  · rename_i hk
    rw [hk, hvariable] at h
    cases h
  · rfl

theorem isSpread_eq_false {c : NodeClass} {k : NodeKind} (hc : c.maySpread = false) (h : c.includes k = true) :
    k.isSpread = false := by
  simp only [maySpread, Bool.or_eq_false_iff] at hc
  obtain ⟨⟨hclass, hmodule⟩, henum⟩ := hc
  cases k with
  | classDeclaration => rw [hclass] at h; cases h
  | moduleDeclaration => rw [hmodule] at h; cases h
  | enumDeclaration => rw [henum] at h; cases h
  | _ => rfl

end NodeClass

/-- The slots of a kind that must hold one node hold none that leaves nothing. -/
def NodeKind.keepsRequired (kind : NodeKind) : Bool :=
  kind.sorts.all (fun sort => match sort with
    | .node c => !c.mayLeaveNothing
    | _ => true)

theorem Node.required_stay {n : Node} (h : n.FitsKind) (hk : n.kind.keepsRequired = true) :
    ∀ m ∈ n.required, m.leavesNothing = false := by
  have hrow : ∀ {sorts : List SlotSort} {slots : List Slot}, List.Forall₂ SlotSort.Admits sorts slots →
      (sorts.all (fun sort => match sort with
        | .node c => !c.mayLeaveNothing
        | _ => true)) = true →
      ∀ m ∈ Slot.required (sorts.map SlotSort.shape) slots, m.leavesNothing = false := by
    intro sorts slots hfits
    induction hfits with
    | nil => exact fun _ m hm => by cases hm
    | @cons sort slot _ _ hslot _ ih =>
      intro hall m hm
      rw [List.all_cons, Bool.and_eq_true] at hall
      rcases List.mem_append.1 hm with hm | hm
      · cases sort with
        | node c =>
          cases slot with
          | node m' =>
            rw [List.mem_singleton.1 hm]
            exact NodeClass.leavesNothing_eq_false (by simpa using hall.1) hslot
          | _ => exact hslot.elim
        | _ => cases hm
      · exact ih hall.2 m hm
  have hall := hrow h hk
  rwa [n.kind.map_shape_sorts] at hall

/-- A node whose required slots keep what they hold is intact if its name fits and the parts that are lowered are. -/
theorem Node.intact_succ {n : Node} {levels : Nat} (h : n.FitsKind) (hk : n.kind.keepsRequired = true) :
    n.Intact (levels + 1) ↔ n.NameFits ∧ ∀ p ∈ n.loweredParts, p.Intact levels := by
  rw [Node.Intact, and_iff_right (n.required_stay h hk)]

/-- A node that is no namespace has no name to fit. -/
theorem Node.intact_of_parts {n : Node} {levels : Nat} (h : n.FitsKind) (hk : n.kind.keepsRequired = true)
    (hname : n.kind ≠ .moduleDeclaration) : n.Intact (levels + 1) ↔ ∀ p ∈ n.loweredParts, p.Intact levels := by
  rw [Node.intact_succ h hk, and_iff_right (Node.nameFits_of_kind hname)]

/-! ## What becomes of a node -/

/-- What the rules do with nodes. -/
def Treatment.lowering : Treatment where
  removes := Node.leavesNothing
  spreads := NodeKind.isSpread
  back m k n := n ∈ m.all ∨ k ≤ n.id

/-- Whatever may stand in a slot of the sort may become what the rules make of it. -/
def SlotSort.isSteady (sort : SlotSort) : Bool :=
  match sort with
  | list c => c == .element || !c.maySpread
  | separated c => !c.maySpread && !c.mayLeaveNothing
  | nonempty c => !c.maySpread && !c.mayLeaveNothing
  | _ => !sort.among.maySpread

theorem Treatment.lowering_steady {k : NodeKind} : ∀ sort ∈ k.sorts, SlotSort.Steady lowering sort := by
  have hall : k.sorts.all SlotSort.isSteady = true := by cases k <;> rfl
  intro sort hsort
  have hsteady := List.all_eq_true.1 hall sort hsort
  refine ⟨fun _ _ => NodeClass.includes_of_becomes (NodeClass.isSettled_of_mem_sorts sort hsort), ?_, ?_, ?_⟩
  · rintro c rfl k hk hspreads k' hk'
    simp only [SlotSort.isSteady, Bool.or_eq_true] at hsteady
    rcases hsteady with hc | hc
    · rw [eq_of_beq hc]
      exact NodeClass.statement_element k' hk'
    · rw [show lowering.spreads k = false from NodeClass.isSpread_eq_false (by simpa using hc) hk] at hspreads
      cases hspreads
  · intro hlist k hk
    refine NodeClass.isSpread_eq_false ?_ hk
    cases sort with
    | list c => exact absurd rfl (hlist c)
    | separated c =>
      simp only [SlotSort.isSteady, Bool.and_eq_true, Bool.not_eq_true'] at hsteady
      exact hsteady.1
    | nonempty c =>
      simp only [SlotSort.isSteady, Bool.and_eq_true, Bool.not_eq_true'] at hsteady
      exact hsteady.1
    | _ => simpa [SlotSort.isSteady] using hsteady
  · rintro c (rfl | rfl) m hm
    all_goals
      simp only [SlotSort.isSteady, Bool.and_eq_true, Bool.not_eq_true'] at hsteady
      exact NodeClass.leavesNothing_eq_false hsteady.2 hm

end Downlevel
