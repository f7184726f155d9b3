import Downlevel.Proofs.Outline.Draft
import Downlevel.Proofs.Outline.References
/-!
# Proofs.Outline.Account — what has to become of the places that refer to `this`

A scope of `this` is a program, the body of a namespace or of a class, and a function with its parameters, to which for a
constructor the fields of objects are counted.  An arrow function is none: a place in an arrow function of its scope has
to refer to `this` through the variable `_this`, which the scope declares in front of its statements if and only if there
is such a place; every other place keeps the keyword.  This is written down form by form, in the order of the code that
lowering makes, and leaves out what lowering drops (`Account.rule`).
-/
namespace Downlevel

/-- What lowering has to make of a part, as far as it concerns `this`. -/
structure Account where
  /-- What the part around has to know. -/
  marks : Marks
  references : List Reference

namespace Account

/-- Nothing refers to `this`. -/
def none : Account := ⟨.none, []⟩

instance : Append Account := ⟨fun a b => ⟨a.marks.and b.marks, a.references ++ b.references⟩⟩

/-- One part after the other. -/
def all (as : List Account) : Account := as.foldr (· ++ ·) none

theorem ext {a b : Account} (hm : a.marks = b.marks) (hr : a.references = b.references) : a = b := by
  cases a
  cases b
  congr

theorem mk_eq {a : Account} {m : Marks} {rs : List Reference} (hm : m = a.marks) (hr : rs = a.references) :
    Account.mk m rs = a := Account.ext hm hr

@[simp] theorem marks_none : none.marks = .none := rfl

@[simp] theorem references_none : none.references = [] := rfl

@[simp] theorem marks_append (a b : Account) : (a ++ b).marks = a.marks.and b.marks := rfl

@[simp] theorem references_append (a b : Account) : (a ++ b).references = a.references ++ b.references := rfl

@[simp] theorem none_append (a : Account) : none ++ a = a := Account.ext (Marks.none_and _) rfl

@[simp] theorem append_none (a : Account) : a ++ none = a := Account.ext (Marks.and_none _) (List.append_nil _)

theorem append_assoc (a b c : Account) : a ++ b ++ c = a ++ (b ++ c) :=
  Account.ext (Marks.and_assoc ..) (List.append_assoc ..)

theorem all_append (as bs : List Account) : all (as ++ bs) = all as ++ all bs := by
  induction as with
  | nil => exact (none_append _).symm
  | cons a as ih => exact (congrArg (a ++ ·) ih).trans (append_assoc ..).symm

theorem all_none {α : Type} (l : List α) : all (l.map (fun _ => none)) = none := by
  induction l with
  | nil => rfl
  | cons _ l ih => exact (none_append _).trans ih

/-- Places that lowering adds. -/
def added (references : List Reference) : Account := ⟨.none, references⟩

/-- A class with a base, if it has one. -/
def derived (hasBase : Bool) : Account := ⟨⟨false, hasBase⟩, []⟩

/-- **A place that refers to `this`**, within an arrow function of its scope or not. -/
def reference (inArrow : Bool) : Account := ⟨⟨inArrow, false⟩, [if inArrow then .captured else .this]⟩

/-- A function that lowering puts around a part that stays in its scope. -/
def around (a : Account) : Account := ⟨a.marks, Reference.ofBody [] a.references⟩

/-- Which statements of a scope are `var _this = this;`, if that would be the one with the given index: that one, if an
arrow function in the scope refers to `this`. -/
def captures (position : Nat) (a : Account) : List Nat := if a.marks.captured then [position] else []

/-- The places in a scope, with the declaration of `_this` in front if there is one. -/
def opened (a : Account) : List Reference := if a.marks.captured then .capture :: .this :: a.references else a.references

/-- **A scope**, in which as many statements stand in front of the declaration of `_this`. -/
def scope (position : Nat) (a : Account) : Account :=
  ⟨⟨false, a.marks.derived⟩, Reference.ofBody (a.captures position) a.opened⟩

/-- A part in so many functions, one around the other. -/
def wrapped : Nat → Account → Account
  | 0, a => a
  | n + 1, a => (wrapped n a).around

@[simp] theorem marks_wrapped (n : Nat) (a : Account) : (wrapped n a).marks = a.marks := by
  induction n with
  | zero => rfl
  | succ n ih => exact ih

/-- What is said of a node that reads as a view. -/
def ofView (α : Type) [NodeView α] (n : Node) (f : α → Account) : Account := ((n.view? α).map f).getD none

theorem ofView_eq {α : Type} [NodeView α] {n : Node} {v : α} {f : α → Account} (h : n.view? α = some v) :
    ofView α n f = f v := by
  rw [ofView, h]
  rfl

end Account

def Node.listedParameters (parameters : Node) : List Node :=
  parameters.partsAs ParameterList (fun v => v.parameters.members)

/-- How many of the parameters in front of the rest parameter are fields too. -/
def Node.countProperties : List Node → Nat
  | [] => 0
  | n :: ns =>
    match n.view? Parameter with
    | none => Node.countProperties ns
    | some p => if p.dots.isSome then 0 else (if p.access.isSome then 1 else 0) + Node.countProperties ns

theorem Node.countProperties_cons {n : Node} {ns : List Node} {p : Parameter} (h : n.view? Parameter = some p) :
    Node.countProperties (n :: ns) =
      if p.dots.isSome then 0 else (if p.access.isSome then 1 else 0) + Node.countProperties ns := by
  rw [countProperties, h]

theorem Node.defaultValues_cons {n : Node} {ns : List Node} {p : Parameter} (h : n.view? Parameter = some p) :
    Node.defaultValues (n :: ns) = if p.dots.isSome then [] else clauseValue p.value ++ defaultValues ns := by
  rw [defaultValues, h]

/-- The statement calls the constructor of the base class, where there is one. -/
def Node.callsBase (hasBase : HasBase) (n : Node) : Bool := hasBase && n.isSuperCall

namespace Account

section Rules

variable (visit : Bool → Node → Account)

/-- Nodes, one after the other. -/
def each (inArrow : Bool) (ns : List Node) : Account := all (ns.map (visit inArrow))

@[simp] theorem each_nil (inArrow : Bool) : each visit inArrow [] = none := rfl

theorem each_cons (inArrow : Bool) (n : Node) (ns : List Node) :
    each visit inArrow (n :: ns) = visit inArrow n ++ each visit inArrow ns := rfl

@[simp] theorem each_singleton (inArrow : Bool) (n : Node) : each visit inArrow [n] = visit inArrow n := append_none _

theorem each_append (inArrow : Bool) (ns ms : List Node) :
    each visit inArrow (ns ++ ms) = each visit inArrow ns ++ each visit inArrow ms := by
  rw [each, List.map_append, all_append]
  rfl

/-! ## Classes -/

/-- The value of a field, behind the receiver that it is set of. -/
def field (receiver : List Reference) (v : MemberVariable) : Account :=
  all (v.parts.map (fun n => added receiver ++ visit false n))

/-- The fields of objects, which a constructor sets. -/
def instanceFields (members : List Node) : Account :=
  all (members.map fun m => ofView MemberVariable m fun v => if v.isStatic.isSome then none else field visit [.this] v)

/-- A constructor with a body: calls of the base constructor, default values, fields, and what else is in the body. -/
def constructed (members : List Node) (hasBase : HasBase) (parameters block : Node) : Account :=
  each visit false (block.blockStatements.filter (Node.callsBase hasBase)) ++
    each visit false parameters.listedDefaults ++ added (List.replicate (Node.countProperties parameters.listedParameters) .this) ++
      instanceFields visit members ++
        each visit false (block.blockStatements.filter (fun n => !n.callsBase hasBase))

/-- The constructor of a class; one without a body calls the base constructor and sets fields. -/
def constructor (members : List Node) (hasBase : HasBase) : Account :=
  scope 0 <| match LoweringContext.firstConstructor? members with
    | some (_, v, block) => constructed visit members hasBase v.parameters block
    | .none => added (if hasBase then [.this] else []) ++ instanceFields visit members

/-- A member of a class but its constructor, given the keys of the accessors in front of it: the first accessor of a
property stands for all of them. -/
def member (members : List Node) (seen : List AccessorKey) (m : Node) : Account :=
  match m.kind with
  | .memberFunctionDeclaration => scope 0 (each visit false (m.partsAs MemberFunction MemberFunction.parts))
  | .memberVariableDeclaration => ofView MemberVariable m fun v => if v.isStatic.isSome then field visit [] v else none
  | _ => all (((m.accessorKey?.filter (fun key => !seen.contains key)).toList.flatMap
      (LoweringContext.accessorsOf members)).map (fun a => scope 0 (each visit false a.2.accessorParts)))

def classMembers (members : List Node) : List AccessorKey → List Node → Account
  | _, [] => none
  | seen, m :: rest => member visit members seen m ++ classMembers members (m.accessorKey?.toList ++ seen) rest

/-- A class: the call that sets up inheritance stands in front of the captured `this`. -/
def classOf (v : ClassDeclaration) : Account :=
  scope v.base.toList.length (derived v.base.isSome ++ constructor visit v.members v.base.isSome ++
    classMembers visit v.members [] v.members)

/-! ## Forms -/

/-- **What has to become of a form.**  A call through the base class is given the reference to `this`. -/
def rule (inArrow : Bool) (n : Node) : Account :=
  match n.kind with
  | .thisExpression => reference inArrow
  | .invocationExpression =>
    ofView Invocation n (fun v => if v.callee.isSuperCallee then reference inArrow else none) ++
      each visit inArrow n.loweredParts
  | .sourceUnit | .functionDeclaration | .functionExpression | .getAccessorPropertyAssignment
  | .setAccessorPropertyAssignment => scope 0 (each visit false n.loweredParts)
  | .simpleArrowFunctionExpression | .parenthesizedArrowFunctionExpression => around (each visit true n.loweredParts)
  | .enumDeclaration => around (each visit inArrow n.loweredParts)
  | .moduleDeclaration => ofView ModuleDeclaration n fun v =>
      wrapped (v.name.nameParts.length - 1) (scope 0 (each visit false n.loweredParts))
  | .classDeclaration => ofView ClassDeclaration n fun v => if v.declared.isSome then none else classOf visit v
  | _ => each visit inArrow n.loweredParts

end Rules

/-- What has to become of a node, looking so many levels down. -/
def upTo : Nat → Bool → Node → Account
  | 0, _, _ => none
  | levels + 1, inArrow, n => rule (upTo levels) inArrow n

end Account

/-- The statements of a program that is not too deep, as far as they concern `this`; its layout does not. -/
def Node.account (n : Node) : Account :=
  Account.each (Account.upTo (LoweringFault.maxTreeDepth - 1)) false n.outline.loweredParts

end Downlevel
