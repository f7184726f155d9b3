import Downlevel.Lowering.Program
import Downlevel.Proofs.Lowering.Balance
/-!
# Proofs.Lowering.BalancedRules — every rule puts the state back

If the parts of a tree are lowered by computations that restore the state, every rule restores it (`restores_rule`): the
rules change the state by the forms of `Proofs.Lowering.Balance` only, and what they make is no part of it.
-/
namespace Downlevel

open Lowering (Restores)

/-! ## Walks -/

/-- Tokens and nodes are transformed by computations that restore the state. -/
structure Transformer.Restoring (r : Transformer LoweringError LoweringState) : Prop where
  token : ∀ t, Restores (r.token t)
  node : ∀ n, Restores (r.node n)

namespace Transformer.Restoring

variable {r : Transformer LoweringError LoweringState} {parent : NodeKind} {slot : Nat}

theorem single {optional : Bool} {replacement : Replacement} : Restores (r.single parent slot optional replacement) := by
  unfold Transformer.single
  split
  · exact .pure
  · split
    · exact .pure
    · exact .fail
  · exact .pure
  · exact .fail

theorem walkToken (h : r.Restoring) (t : Token) : Restores (r.walkToken t) := (h.token t).bind fun _ => .pure

theorem walkMember (h : r.Restoring) (n : Node) : Restores (r.walkMember parent slot n) := by
  refine (h.node n).bind fun _ => single.bind fun found => ?_
  cases found with
  | none => exact .fail
  | some n' => exact .pure

theorem walkList (h : r.Restoring) (ns : List Node) : Restores (r.walkList ns) := by
  induction ns with
  | nil => exact .pure
  | cons n ns ih =>
    refine (h.node n).bind fun replacement => ih.bind fun rest => ?_
    cases replacement <;> exact .pure

theorem walkSeparators (h : r.Restoring) (ts : List Token) : Restores (r.walkSeparators ts) := by
  induction ts with
  | nil => exact .pure
  | cons t ts ih => exact (h.walkToken t).bind fun _ => ih.bind fun _ => .pure

theorem walkSeparated (h : r.Restoring) (ns : List Node) (ts : List Token) :
    Restores (r.walkSeparated parent slot ns ts) := by
  induction ns generalizing ts with
  | nil =>
    unfold Transformer.walkSeparated
    exact (h.walkSeparators ts).bind fun _ => .pure
  | cons n ns ih =>
    cases ts with
    | nil => exact (h.walkMember n).bind fun _ => (ih []).bind fun _ => .pure
    | cons t ts => exact (h.walkMember n).bind fun _ => (h.walkToken t).bind fun _ => (ih ts).bind fun _ => .pure

theorem walkSlot (h : r.Restoring) {optional : Bool} (s : Slot) : Restores (r.walkSlot parent slot optional s) := by
  cases s with
  | absent => exact .pure
  | token t => exact (h.walkToken t).bind fun _ => .pure
  | node n =>
    refine (h.node n).bind fun _ => single.bind fun found => ?_
    cases found <;> exact .pure
  | list ns => exact (h.walkList ns).bind fun _ => .pure
  | separated ns ts => exact (h.walkSeparated ns ts).bind fun _ => .pure

theorem walkSlots (h : r.Restoring) (index : Nat) (slots : List Slot) : Restores (r.walkSlots parent index slots) := by
  induction slots generalizing index with
  | nil => exact .pure
  | cons s slots ih => exact (h.walkSlot s).bind fun _ => (ih (index + 1)).bind fun _ => .pure

theorem make {kind : NodeKind} {slots : List Slot} : Restores (r.make kind slots) := by
  refine .make fun outcome => ?_
  cases outcome with
  | ok n => exact .pure
  | error e => exact .fail

theorem walk (h : r.Restoring) (n : Node) : Restores (r.walk n) := by
  refine (h.walkSlots 0 n.slots).bind fun slots => ?_
  split
  · exact make
  · exact .pure

theorem root (h : r.Restoring) (n : Node) : Restores (r.root n) := by
  refine (h.node n).bind fun replacement => ?_
  split
  · exact .pure
  · exact .fail
  · exact .pure
  · exact .fail

end Transformer.Restoring

namespace LoweringContext

/-- Parts of the tree are lowered by computations that restore the state. -/
def Restoring (c : LoweringContext) : Prop := ∀ n, Restores (c.visit n)

section Rules

variable {c : LoweringContext}

theorem Restoring.transformer (h : c.Restoring) : c.transformer.Restoring := ⟨fun _ => .pure, h⟩

theorem Restoring.lower (h : c.Restoring) (n : Node) : Restores (c.lower n) := h.transformer.root n

theorem Restoring.walk (h : c.Restoring) (n : Node) : Restores (c.walk n) := h.transformer.walk n

theorem Restoring.lowerAtLine (h : c.Restoring) (n : Node) (column : Nat) : Restores (c.lowerAtLine n column) := by
  unfold LoweringContext.lowerAtLine
  split
  · exact (h.lower n).atLine
  · exact h.lower n

/-! ## Layout -/

theorem restores_laidOutIndentationOf {n : Node} : Restores (c.laidOutIndentationOf n) := .bind .own fun _ => .pure

theorem restores_reindent {n : Node} {first : Bool} {delta : Int} : Restores (c.reindent n first delta) := .ofTransformed

theorem restores_assembleBlock {block : Node} {prologue : List Node} {bodyColumn closeColumn : Nat} :
    Restores (c.assembleBlock block prologue bodyColumn closeColumn) := by
  unfold assembleBlock
  split
  · exact .pure
  · exact .bind .view fun _ => .make fun _ => .make fun _ => .make fun _ => .make fun _ => .make fun _ => .lift

/-! ## Parameters -/

theorem restores_eraseParameter {n : Node} : Restores (eraseParameter n) := by
  unfold eraseParameter
  refine .bind .view fun p => ?_
  extract_lets hasSuffix hasPrefix
  split
  · exact .pure
  · exact .make fun _ => .lift

theorem restores_defaultValue? {p : Parameter} : Restores (defaultValue? p) := by
  unfold defaultValue?
  refine .bind .viewOption fun clause => ?_
  split
  · exact .make fun _ => .pure
  · exact .pure

theorem restores_parametersFrom {index : Nat} {ns : List Node} : Restores (parametersFrom index ns) := by
  induction ns generalizing index with
  | nil => exact .pure
  | cons n ns ih =>
    refine .bind .view fun p => ?_
    split
    · exact .make fun _ => .pure
    · exact restores_defaultValue?.bind fun _ => .make fun _ => restores_eraseParameter.bind fun _ =>
        ih.bind fun _ => .pure

theorem restores_parameterList {list : Node} {resultType : Option Node} : Restores (parameterList list resultType) := by
  unfold parameterList
  refine .bind .view fun view => restores_parametersFrom.bind fun lowered => ?_
  split
  · exact .pure
  · split
    · exact .make fun _ => .make fun _ => .pure
    · exact .bind .pure fun _ => .make fun _ => .pure

theorem Restoring.defaultValueStatement (h : c.Restoring) {bodyColumn : Nat} {d : DefaultValue} :
    Restores (c.defaultValueStatement bodyColumn d) :=
  (h.lower d.value).bind fun _ => .make fun _ => restores_reindent.bind fun _ => .make fun _ => .lift

theorem Restoring.parameterPrologue (h : c.Restoring) {facts : ParameterFacts} {bodyColumn : Nat} :
    Restores (c.parameterPrologue facts bodyColumn) := by
  unfold LoweringContext.parameterPrologue
  refine (Restores.mapM fun _ _ => h.defaultValueStatement).bind fun _ => ?_
  split
  · exact .make fun _ => .pure
  · exact .pure

/-! ## Functions -/

theorem Restoring.functionLike (h : c.Restoring) {parameters block : Node} {resultType : Option Node} {column : Nat} :
    Restores (c.functionLike parameters resultType block column) := by
  refine .bind (.inScope ?_) fun _ => .make fun _ => restores_assembleBlock.bind fun _ => .pure
  exact restores_parameterList.bind fun _ => h.parameterPrologue.bind fun _ => (h.lower block).bind fun _ => .pure

theorem Restoring.functionDeclaration (h : c.Restoring) {n : Node} : Restores (c.functionDeclaration n) := by
  unfold LoweringContext.functionDeclaration
  refine .bind .view fun function => ?_
  split
  · exact .pure
  split
  · exact .pure
  refine .bind .view fun signature => h.functionLike.bind fun _ => ?_
  dsimp only
  split
  · exact .pure
  split
  · exact .make fun _ => .make fun _ => .make fun _ => .pure
  · exact .bind .pure fun _ => .make fun _ => .make fun _ => .pure

theorem Restoring.functionExpression (h : c.Restoring) {n : Node} : Restores (c.functionExpression n) := by
  refine .bind .view fun function => .bind .view fun signature => h.functionLike.bind fun _ => ?_
  dsimp only
  split
  · exact .pure
  · exact .make fun _ => .make fun _ => .pure

/-! ## Accessors of object literals, and statements -/

theorem restores_accessorBody {n block : Node} {captured : Bool} : Restores (c.accessorBody n block captured) := by
  unfold accessorBody
  split
  · exact .pure
  · exact .make fun _ => restores_assembleBlock

theorem restores_objectGetter {n walked : Node} {captured : Bool} : Restores (c.objectGetter n walked captured) := by
  refine .bind .view fun accessor => .bind .view fun before => ?_
  split
  · exact .pure
  extract_lets resultType finish
  have hfinish : ∀ closeParen, Restores (finish closeParen) :=
    fun _ => restores_accessorBody.bind fun _ => .make fun _ => .pure
  split
  · exact .make hfinish
  · exact .bind .pure hfinish

theorem restores_objectSetter {n walked : Node} {captured : Bool} : Restores (c.objectSetter n walked captured) := by
  unfold objectSetter
  split
  · exact .pure
  · exact .bind .view fun _ => restores_accessorBody.bind fun _ => .make fun _ => .pure

theorem Restoring.objectAccessor (h : c.Restoring) {n : Node} : Restores (c.objectAccessor n) := by
  refine (h.walk n).inScope.bind fun _ => ?_
  dsimp only
  split
  · exact restores_objectGetter
  · exact restores_objectSetter

theorem Restoring.expressionStatement (h : c.Restoring) {n : Node} : Restores (c.expressionStatement n) := by
  refine (h.walk n).bind fun _ => .bind .view fun statement => ?_
  split
  · exact .pure
  · exact .make fun _ => .make fun _ => .pure

/-! ## Arrow functions -/

theorem Restoring.arrowBlock (h : c.Restoring) {n : Node} {parts : ArrowParts} {column : Nat} :
    Restores (c.arrowBlock n parts column) :=
  h.parameterPrologue.bind fun _ => (h.lower parts.body).bind fun _ => restores_reindent.bind fun _ =>
    restores_assembleBlock

theorem Restoring.arrowExpression (h : c.Restoring) {n : Node} {parts : ArrowParts} {column : Nat} :
    Restores (c.arrowExpression n parts column) :=
  h.parameterPrologue.bind fun _ => (h.lowerAtLine parts.body _).bind fun _ => .make fun _ =>
    restores_reindent.bind fun _ => .make fun _ => .make fun _ => .make fun _ => .make fun _ => .make fun _ =>
      .make fun _ => .lift

theorem Restoring.arrowFunction (h : c.Restoring) {n : Node} {parts : ArrowParts} :
    Restores (c.arrowFunction n parts) := by
  refine restores_laidOutIndentationOf.bind fun column => .make fun _ => .bind (.inArrow ?_) fun _ =>
    .make fun _ => .make fun _ => .make fun _ => .make fun _ => .pure
  split
  · exact h.arrowBlock
  · exact h.arrowExpression

theorem Restoring.simpleArrow (h : c.Restoring) {n : Node} : Restores (c.simpleArrow n) :=
  .bind .view fun _ => .make fun _ => .make fun _ => .make fun _ => .make fun _ => h.arrowFunction

theorem Restoring.parenthesizedArrow (h : c.Restoring) {n : Node} : Restores (c.parenthesizedArrow n) :=
  .bind .view fun _ => .bind .view fun _ => restores_parameterList.bind fun _ => h.arrowFunction

/-! ## What is erased, and the base class -/

theorem Restoring.variableStatement (h : c.Restoring) {n : Node} : Restores (c.variableStatement n) := by
  refine .bind .view fun statement => ?_
  split
  · exact .pure
  refine (h.walk n).bind fun walked => ?_
  split
  · exact .pure
  · exact .bind .view fun _ => .make fun _ => .make fun _ => .pure

theorem Restoring.variableDeclarator (h : c.Restoring) {n : Node} : Restores (c.variableDeclarator n) := by
  refine .bind .view fun declarator => ?_
  split
  · exact (h.walk n).bind fun _ => .pure
  · exact (Restores.optionMapM fun m _ => h.lower m).bind fun _ => .make fun _ => .make fun _ => .pure

theorem Restoring.castExpression (h : c.Restoring) {n : Node} : Restores (c.castExpression n) :=
  .bind .view fun cast => (h.lower cast.expression).bind fun _ => .make fun _ => .pure

theorem Restoring.callWithThis (h : c.Restoring) {target arguments : Node} :
    Restores (c.callWithThis target arguments) := by
  refine (h.lower arguments).bind fun _ => .bind .view fun list => .make fun _ => .bind .thisReference fun _ => ?_
  split
  · exact .bind .pure fun _ => .make fun _ => .make fun _ => .pure
  · exact .make fun _ => .bind .pure fun _ => .make fun _ => .make fun _ => .pure

theorem Restoring.invocation (h : c.Restoring) {n : Node} : Restores (c.invocation n) := by
  refine .bind .view fun call => .make fun target => ?_
  split
  · exact h.callWithThis
  · exact (h.walk n).bind fun _ => .pure

theorem Restoring.memberAccess (h : c.Restoring) {n : Node} : Restores (c.memberAccess n) := by
  refine .bind .view fun access => ?_
  split
  · exact .make fun _ => .make fun _ => .pure
  · exact (h.walk n).bind fun _ => .pure

theorem restores_thisExpression {n : Node} : Restores (thisExpression n) :=
  .bind .view fun _ => .bind .thisReference fun _ => .pure

/-! ## Classes -/

theorem Restoring.fieldAssignment (h : c.Restoring) {receiver : Fresh Node} {member : Node} {field : MemberVariable}
    {column : Nat} : Restores (c.fieldAssignment receiver member field column) := by
  refine .bind .view fun declarator => .bind .viewOption fun clause => ?_
  split
  · exact .pure
  · exact (h.lower _).bind fun _ => .make fun _ => restores_reindent.bind fun _ => .make fun _ => .make fun _ =>
      .make fun _ => .make fun _ => .pure

theorem Restoring.instanceFields (h : c.Restoring) {column : Nat} (ns : List Node) :
    Restores (c.instanceFields column ns) := by
  induction ns with
  | nil => exact .pure
  | cons n ns ih =>
    unfold LoweringContext.instanceFields
    extract_lets finish
    have hfinish : ∀ here, Restores (finish here) := fun _ => ih.bind fun _ => .pure
    split
    · split
      · exact .bind .pure hfinish
      · exact h.fieldAssignment.bind hfinish
    · exact .bind .pure hfinish

theorem Restoring.staticField (h : c.Restoring) {name : Token} {member : Node} {column : Nat} :
    Restores (c.staticField name member column) := by
  refine .bind .view fun field => ?_
  split
  · exact .pure
  · exact h.fieldAssignment

theorem Restoring.constructorStatements (h : c.Restoring) {derived : HasBase} (ns : List Node) :
    Restores (c.constructorStatements derived ns) := by
  induction ns with
  | nil => exact .pure
  | cons n ns ih =>
    refine (h n).bind fun _ => ih.bind fun _ => ?_
    dsimp only
    split <;> exact .pure

theorem Restoring.constructorFunction (h : c.Restoring) {members : List Node} {name : Token} {n block parameters : Node}
    {derived : HasBase} {column : Nat} :
    Restores (c.constructorFunction members name n block parameters derived column) := by
  refine .bind (.inScope ?_) fun _ => .make fun _ => .bind .view fun _ => .make fun _ =>
    restores_assembleBlock.bind fun _ => .make fun _ => .make fun _ => .make fun _ => .lift
  exact restores_parameterList.bind fun _ => .bind .view fun _ => (h.constructorStatements _).bind fun _ =>
    h.parameterPrologue.bind fun _ => (Restores.mapM fun _ _ => .lift).bind fun _ => (h.instanceFields _).bind fun _ =>
      .pure

theorem Restoring.synthesizedConstructor (h : c.Restoring) {members : List Node} {name : Token} {derived : HasBase}
    {column : Nat} : Restores (c.synthesizedConstructor members name derived column) := by
  refine (h.instanceFields members).inScope.bind fun ⟨fields, captured⟩ => ?_
  dsimp -zeta only
  extract_lets finish
  have hfinish : ∀ forward, Restores (finish forward) := fun _ => .make fun _ => .make fun _ => .make fun _ =>
    .make fun _ => .make fun _ => .make fun _ => .lift
  split
  · exact .make fun _ => .make fun _ => .bind .pure hfinish
  · exact .bind .pure hfinish

theorem Restoring.classConstructor (h : c.Restoring) {members : List Node} {name : Token} {derived : HasBase}
    {column : Nat} : Restores (c.classConstructor members name derived column) := by
  unfold LoweringContext.classConstructor
  split
  · exact h.constructorFunction
  · exact h.synthesizedConstructor

theorem Restoring.method (h : c.Restoring) {name : Token} {member : Node} {column : Nat} :
    Restores (c.method name member column) := by
  refine .bind .view fun function => ?_
  split
  · exact .pure
  · exact .bind .view fun _ => h.functionLike.bind fun _ => .make fun _ => .make fun _ => .make fun _ => .make fun _ =>
      .make fun _ => .make fun _ => .pure

theorem Restoring.accessorFunction (h : c.Restoring) {accessor : Node} {propertyColumn : Nat} :
    Restores (c.accessorFunction accessor propertyColumn) := by
  unfold LoweringContext.accessorFunction
  extract_lets column finish
  have hfinish : ∀ parts, Restores (finish parts) := fun _ => h.functionLike.bind fun _ => .make fun _ => restores_reindent
  split
  · exact .bind .pure hfinish
  · exact .bind .view fun _ => .bind .pure hfinish

theorem Restoring.accessorProperties (h : c.Restoring) {column : Nat} (accessors : List (String × Node)) :
    Restores (c.accessorProperties column accessors) := by
  induction accessors with
  | nil => exact .pure
  | cons accessor rest ih =>
    exact h.accessorFunction.bind fun _ => .make fun _ => .make fun _ => ih.bind fun _ => .pure

theorem Restoring.descriptor (h : c.Restoring) {accessors : List (String × Node)} {column : Nat} :
    Restores (c.descriptor accessors column) :=
  (h.accessorProperties accessors).bind fun _ => .make fun _ => .make fun _ => .make fun _ => .make fun _ =>
    .make fun _ => .make fun _ => .lift

theorem Restoring.defineProperty (h : c.Restoring) {name : Token} {members : List Node} {first : Node}
    {key : AccessorKey} {column : Nat} : Restores (c.defineProperty name members first key column) :=
  h.descriptor.bind fun _ => .make fun _ => .make fun _ => .make fun _ => .make fun _ => .make fun _ => .make fun _ =>
    .lift

theorem Restoring.classMember (h : c.Restoring) {name : Token} {members : List Node} {seen : List AccessorKey}
    {member : Node} {column : Nat} : Restores (c.classMember name members seen member column) := by
  unfold LoweringContext.classMember
  split
  · exact h.method
  · exact h.staticField
  · split
    · split
      · exact .pure
      · exact h.defineProperty.bind fun _ => .pure
    · exact .pure

theorem Restoring.classMembers (h : c.Restoring) {name : Token} {members : List Node} {column : Nat}
    (seen : List AccessorKey) (ns : List Node) : Restores (c.classMembers name members column seen ns) := by
  induction ns generalizing seen with
  | nil => exact .pure
  | cons n ns ih => exact h.classMember.bind fun _ => (ih _).bind fun _ => .pure

theorem Restoring.classBody (h : c.Restoring) {view : ClassDeclaration} {name : Token} {derived : HasBase}
    {column : Nat} : Restores (c.classBody view name derived column) := by
  unfold LoweringContext.classBody
  extract_lets finish start
  have hfinish : ∀ inheritance, Restores (finish inheritance) := fun _ => h.classConstructor.bind fun _ =>
    (h.classMembers _ _).bind fun _ => .make fun _ => .make fun _ => .make fun _ => .pure
  cases derived with
  | true => exact .bind .markDerived fun _ => .make fun _ => .make fun _ => .bind .pure hfinish
  | false => exact .bind .pure hfinish

theorem restores_baseExpression {n : Node} : Restores (baseExpression n) := by
  refine .bind .view fun clause => ?_
  split
  · exact .faultOn
  · split
    · exact .faultOn
    · exact .make fun _ => .make fun _ => .lift

theorem Restoring.classDeclaration (h : c.Restoring) {n : Node} : Restores (c.classDeclaration n) := by
  refine .bind .view fun view => ?_
  split
  · exact .pure
  refine .make fun _ => (Restores.optionMapM fun _ _ => restores_baseExpression).bind fun _ =>
    h.classBody.inScope.bind fun _ => .make fun _ => .make fun _ => .make fun _ => ?_
  extract_lets leading finish
  have hfinish : ∀ parameters, Restores (finish parameters) := fun _ => .make fun _ => .make fun _ => .make fun _ => .pure
  split
  · exact .make fun _ => .make fun _ => .bind .pure hfinish
  · exact .bind .pure hfinish

/-! ## Enums -/

theorem Restoring.enumValue (h : c.Restoring) {enumName : Token} {e : EnumElement} {previous : PreviousValue} :
    Restores (c.enumValue enumName e previous) := by
  refine .bind .viewOption fun clause => ?_
  split
  · exact .lift
  · refine (h.lower _).bind fun _ => .make fun value => ?_
    split
    · exact .pure
    · exact .make fun _ => .pure

theorem Restoring.enumRecords (h : c.Restoring) {enumName : Token} {bodyColumn : Nat} (ns : List Node)
    (ts : List Token) (previous : PreviousValue) : Restores (c.enumRecords enumName bodyColumn ns ts previous) := by
  induction ns generalizing ts previous with
  | nil => exact .pure
  | cons n ns ih =>
    unfold LoweringContext.enumRecords
    split
    · exact ih _ _
    · exact h.enumValue.bind fun _ => .make fun _ => .make fun _ => (ih _ _).bind fun _ => .pure

theorem Restoring.enumDeclaration (h : c.Restoring) {n : Node} : Restores (c.enumDeclaration n) := by
  refine .bind .view fun declaration => ?_
  split
  · exact .pure
  · exact .make fun _ => .make fun _ => .make fun _ => (h.enumRecords _ _ _).bind fun _ => .make fun _ =>
      .make fun _ => .make fun _ => .make fun _ => .make fun _ => .make fun _ => .make fun _ => .make fun _ => .pure

/-! ## Namespaces -/

theorem restores_reindentAll {shift : Int} (ns : List Node) : Restores (c.reindentAll shift ns) := by
  induction ns with
  | nil => exact .pure
  | cons n ns ih => exact restores_reindent.bind fun _ => ih.bind fun _ => .pure

theorem Restoring.moduleElements (h : c.Restoring) {shift : Int} (ns : List Node) :
    Restores (c.moduleElements shift ns) := by
  induction ns with
  | nil => exact .pure
  | cons n ns ih =>
    refine (h n).bind fun replacement => ?_
    extract_lets lowered finish
    have hfinish : ∀ names, Restores (finish names) :=
      fun _ => (restores_reindentAll _).bind fun _ => ih.bind fun _ => .pure
    split
    · exact .bind .pure hfinish
    · exact .make hfinish

theorem restores_namespaceParts {n name : Node} : Restores (namespaceParts n name) := by
  have hparts : Restores (name.nameParts.mapM fun part => (Work.lift part.bare : Lowering Token)) :=
    .mapM fun _ _ => .lift
  unfold namespaceParts
  dsimp only
  split
  · refine .bind .faultOn fun _ => ?_
    split
    · exact .bind .faultOn fun _ => hparts
    · exact hparts
  · split
    · exact .bind .faultOn fun _ => hparts
    · exact hparts

theorem Restoring.moduleDeclaration (h : c.Restoring) {n : Node} : Restores (c.moduleDeclaration n) := by
  refine .bind .view fun declaration => ?_
  split
  · exact .pure
  refine restores_namespaceParts.bind fun parts => (h.moduleElements _).inScope.bind fun _ => ?_
  dsimp only
  split
  · exact .pure
  split
  · exact (Restores.mapM fun _ _ => .lift).bind fun _ => .make fun _ => .make fun _ => .make fun _ => .make fun _ => .pure
  · exact .bind .pure fun _ => .make fun _ => .make fun _ => .make fun _ => .make fun _ => .pure

/-! ## Programs -/

theorem Restoring.sourceUnit (h : c.Restoring) {n : Node} : Restores (c.sourceUnit n) := by
  refine .bind .view fun view => (h.transformer.walkList _).inScope.bind fun _ => ?_
  dsimp only
  split
  · exact .pure
  split
  · exact .make fun _ => .make fun _ => .pure
  · exact .bind .pure fun _ => .make fun _ => .pure

theorem restores_callSignature {n : Node} : Restores (callSignature n) := by
  refine .bind .view fun signature => restores_parameterList.bind fun _ => ?_
  dsimp only
  split
  · exact .pure
  · exact .make fun _ => .pure

/-- **Every rule restores the state** if the parts of the tree are lowered so. -/
theorem Restoring.rule (h : c.Restoring) (n : Node) : Restores (c.rule n) := by
  unfold LoweringContext.rule
  split
  · exact h.sourceUnit
  · exact .pure
  · exact h.classDeclaration
  · exact h.moduleDeclaration
  · exact h.enumDeclaration
  · exact h.functionDeclaration
  · exact h.variableStatement
  · exact h.variableDeclarator
  · exact .pure
  · exact restores_callSignature
  · exact restores_parameterList.bind fun _ => .pure
  · exact restores_eraseParameter.bind fun _ => .pure
  · exact h.expressionStatement
  · exact restores_thisExpression
  · exact h.castExpression
  · exact h.invocation
  · exact h.memberAccess
  · exact h.functionExpression
  · exact h.objectAccessor
  · exact h.objectAccessor
  · exact h.simpleArrow
  · exact h.parenthesizedArrow
  · exact (h.walk n).bind fun _ => .pure

end Rules

end LoweringContext

end Downlevel
