import Downlevel.Proofs.Outline.Account
/-!
# Proofs.Outline.Proper — what is written down of `this` is consistent

No part declares `_this` outside of a body, and a part is said to capture `this` if and only if `_this` stands in it at a
place that no body around it declares the variable for (`Account.Proper`).  So in what is written down of a program no
`_this` is left undeclared (`Node.anyOpen_account`).
-/
namespace Downlevel

mutual

/-- The variable `_this` stands there, and no body around the place declares it. -/
def Reference.isOpen : Reference → Bool
  | .captured => true
  | .body captures inside => captures.isEmpty && Reference.anyOpen inside
  | _ => false

def Reference.anyOpen : List Reference → Bool
  | [] => false
  | r :: rs => r.isOpen || Reference.anyOpen rs

end

/-- No part declares `_this` outside of a body, and it is marked if and only if the part asks for one. -/
structure Account.Proper (a : Account) : Prop where
  free : .capture ∉ a.references
  exact : a.marks.captured = Reference.anyOpen a.references

variable {a b : Account} {rs ss : List Reference} {position : Nat} {n : Node} {ns : List Node} {inArrow : Bool}

namespace Reference

theorem anyOpen_append : anyOpen (rs ++ ss) = (anyOpen rs || anyOpen ss) := by
  induction rs with
  | nil => rfl
  | cons r rs ih => rw [List.cons_append, anyOpen, anyOpen, ih, Bool.or_assoc]

theorem anyOpen_ofBody {captures : List Nat} : anyOpen (ofBody captures rs) = (captures.isEmpty && anyOpen rs) := by
  unfold ofBody
  cases rs with
  | nil => simp [anyOpen]
  | cons r rs => simp [anyOpen, isOpen]

theorem capture_notMem_ofBody {captures : List Nat} : .capture ∉ ofBody captures rs := by
  unfold ofBody
  split <;> simp

end Reference

namespace Account

namespace Proper

theorem none : none.Proper := ⟨List.not_mem_nil, rfl⟩

theorem append (ha : a.Proper) (hb : b.Proper) : (a ++ b).Proper where
  free := by
    rw [references_append, List.mem_append, not_or]
    exact ⟨ha.free, hb.free⟩
  exact := by
    rw [marks_append, references_append, Reference.anyOpen_append, ← ha.exact, ← hb.exact]
    rfl

theorem all {as : List Account} (h : ∀ a ∈ as, a.Proper) : (all as).Proper := by
  induction as with
  | nil => exact none
  | cons a as ih =>
    obtain ⟨ha, has⟩ := List.forall_mem_cons.1 h
    exact ha.append (ih has)

theorem added (k : Nat) : (added (List.replicate k .this)).Proper where
  free h := by cases List.eq_of_mem_replicate h
  exact := by
    induction k with
    | zero => rfl
    | succ k ih => exact ih

theorem receiver (hasBase : Bool) : (Account.added (if hasBase then [.this] else [])).Proper := by
  cases hasBase
  · exact Proper.added 0
  · exact Proper.added 1

theorem derived (hasBase : Bool) : (derived hasBase).Proper := ⟨List.not_mem_nil, rfl⟩

theorem reference (inArrow : Bool) : (reference inArrow).Proper := by
  cases inArrow <;> exact ⟨by simp [Account.reference], rfl⟩

theorem around (h : a.Proper) : a.around.Proper :=
  ⟨Reference.capture_notMem_ofBody,
    h.exact.trans (show Reference.anyOpen (Reference.ofBody [] a.references) = _ from Reference.anyOpen_ofBody).symm⟩

/-- **A scope leaves nothing open.** -/
theorem scope (h : a.Proper) : (scope position a).Proper where
  free := Reference.capture_notMem_ofBody
  exact := by
    show false = Reference.anyOpen (Reference.ofBody (a.captures position) a.opened)
    rw [Reference.anyOpen_ofBody]
    unfold captures opened
    cases hc : a.marks.captured with
    | true => rfl
    | false => exact (h.exact.symm.trans hc).symm

theorem wrapped (h : a.Proper) : ∀ k, (wrapped k a).Proper
  | 0 => h
  | k + 1 => (h.wrapped k).around

/-- A scope in which nothing refers to `this` leaves nothing but what it notes. -/
theorem wrapped_of_empty {k : Nat} (h : a.Proper) (hr : a.references = []) :
    Account.wrapped k (a.scope position) = ⟨⟨false, a.marks.derived⟩, []⟩ := by
  have hcaptured : a.marks.captured = false := by
    rw [h.exact, hr]
    rfl
  have hscope : a.scope position = ⟨⟨false, a.marks.derived⟩, []⟩ := by
    rw [Account.scope, opened, hcaptured, hr]
    rfl
  rw [hscope]
  induction k with
  | zero => rfl
  | succ k ih =>
    rw [Account.wrapped, ih]
    rfl

theorem ofView {α : Type} [NodeView α] {f : α → Account} (h : ∀ v, n.view? α = some v → (f v).Proper) :
    (ofView α n f).Proper := by
  unfold Account.ofView
  cases hv : n.view? α with
  | none => exact none
  | some v => exact h v hv

theorem ite {c : Prop} [Decidable c] (ha : a.Proper) (hb : b.Proper) : (if c then a else b).Proper := by
  split
  · exact ha
  · exact hb

end Proper

section Rules

variable {visit : Bool → Node → Account} (h : ∀ inArrow n, (visit inArrow n).Proper)
include h

theorem proper_each : (each visit inArrow ns).Proper := by
  refine .all (fun a ha => ?_)
  obtain ⟨n, -, rfl⟩ := List.mem_map.1 ha
  exact h inArrow n

theorem proper_field {k : Nat} {v : MemberVariable} : (field visit (List.replicate k .this) v).Proper := by
  refine .all (fun a ha => ?_)
  obtain ⟨n, -, rfl⟩ := List.mem_map.1 ha
  exact (Proper.added k).append (h false n)

theorem proper_instanceFields : (instanceFields visit ns).Proper := by
  refine .all (fun a ha => ?_)
  obtain ⟨m, -, rfl⟩ := List.mem_map.1 ha
  exact .ofView (fun v _ => .ite .none (proper_field (k := 1) h))

theorem proper_constructed {parameters block : Node} (hasBase : HasBase) :
    (constructed visit ns hasBase parameters block).Proper :=
  ((((proper_each h).append (proper_each h)).append (.added _)).append (proper_instanceFields h)).append (proper_each h)

theorem proper_constructor (hasBase : HasBase) : (constructor visit ns hasBase).Proper := by
  refine Proper.scope ?_
  split
  · exact proper_constructed h hasBase
  · exact (Proper.receiver hasBase).append (proper_instanceFields h)

theorem proper_member (seen : List AccessorKey) : (member visit ns seen n).Proper := by
  unfold member
  split
  · exact (proper_each h).scope
  · exact .ofView (fun v _ => .ite (proper_field (k := 0) h) .none)
  · refine .all (fun a ha => ?_)
    obtain ⟨p, -, rfl⟩ := List.mem_map.1 ha
    exact (proper_each h).scope

theorem proper_classMembers {members : List Node} (seen : List AccessorKey) :
    (classMembers visit members seen ns).Proper := by
  induction ns generalizing seen with
  | nil => exact .none
  | cons m ns ih => exact (proper_member h seen).append (ih _)

theorem proper_classOf (v : ClassDeclaration) : (classOf visit v).Proper :=
  Proper.scope (((Proper.derived _).append (proper_constructor h _)).append (proper_classMembers h []))

/-- **What is written down of a form is consistent** if what is written down of its parts is. -/
theorem proper_rule : (rule visit inArrow n).Proper := by
  unfold rule
  split
  · exact .reference inArrow
  · exact Proper.append (.ofView (fun v _ => .ite (.reference inArrow) .none)) (proper_each h)
  any_goals exact (proper_each h).scope
  any_goals exact (proper_each h).around
  · exact .ofView (fun v _ => (proper_each h).scope.wrapped _)
  · exact .ofView (fun v _ => .ite .none (proper_classOf h v))
  · exact proper_each h

end Rules

/-- What is written down of a tree is consistent. -/
theorem proper_upTo (levels : Nat) (inArrow : Bool) (n : Node) : (upTo levels inArrow n).Proper := by
  induction levels generalizing inArrow n with
  | zero => exact .none
  | succ levels ih => exact proper_rule ih

end Account

/-- **In what is written down of a program no `_this` is left undeclared.** -/
theorem Node.anyOpen_account (n : Node) : Reference.anyOpen (n.account.scope 0).references = false := by
  have hproper : n.account.Proper := Account.proper_each (Account.proper_upTo _)
  exact hproper.scope.exact.symm

end Downlevel
