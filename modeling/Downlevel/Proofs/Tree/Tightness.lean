import Downlevel.Grammar.Expressions
import Downlevel.Proofs.Tree.Every
import Mathlib.Data.List.Forall2
/-!
# Proofs.Tree.Tightness — operators and their operands

An expression binds more or less tightly: a comma least, then assignments, conditions and arrow functions, then the
binary operators by their precedence, and all other forms most tightly (`Node.tightness`).  Each place asks for a least
tightness (`Node.demand`), and a tree in which every node is bound needs no parentheses that it does not have.

`Node.Shaped` says the same of one node in the words of operators: which forms are operands of which.
-/
namespace Downlevel

/-! ## Forms of expressions -/

namespace Node

def operator (n : Node) : TokenKind := ((n.slots[1]?.bind Slot.token?).map Token.kind).getD .error

/-- The precedence of a binary expression; that of an assignment and of a comma is zero. -/
def precedence (n : Node) : Nat := n.operator.precedence true

/-- The node is a binary expression with an operator of a precedence. -/
def IsBinary (n : Node) : Prop := n.kind = .binaryExpression ∧ 0 < n.precedence

def IsComma (n : Node) : Prop := n.kind = .binaryExpression ∧ n.operator = .punctuation .comma

def IsAssignment (n : Node) : Prop := n.kind = .binaryExpression ∧ n.operator.isAssignment = true

def IsConditional (n : Node) : Prop := n.kind = .conditionalExpression

def IsArrow (n : Node) : Prop :=
  n.kind = .simpleArrowFunctionExpression ∨ n.kind = .parenthesizedArrowFunctionExpression

/-- The trees that stand in the slot of a given index. -/
def nodesAt (n : Node) (index : Nat) : List Node := (n.slots[index]?.map Slot.nodes).getD []

/-- **The operands of the node need no parentheses.** -/
structure Shaped (n : Node) : Prop where
  /-- No operand of a binary operator is an arrow function, a condition, an assignment or has a comma. -/
  operand : n.IsBinary → ∀ m ∈ n.nodesAt 0 ++ n.nodesAt 2,
    ¬ m.IsArrow ∧ ¬ m.IsConditional ∧ ¬ m.IsAssignment ∧ ¬ m.IsComma
  /-- No left operand has an operator of a lower precedence. -/
  left : n.IsBinary → ∀ m ∈ n.nodesAt 0, m.IsBinary → n.precedence ≤ m.precedence
  /-- No right operand has an operator of the same precedence or a lower one. -/
  right : n.IsBinary → ∀ m ∈ n.nodesAt 2, m.IsBinary → n.precedence < m.precedence
  /-- No operand of a prefix operator, a cast or a postfix operator is binary, conditional, an assignment or an arrow
  function. -/
  unary : ∀ m, (n.kind = .prefixUnaryExpression ∧ m ∈ n.nodesAt 1) ∨ (n.kind = .castExpression ∧ m ∈ n.nodesAt 3) ∨
    (n.kind = .postfixUnaryExpression ∧ m ∈ n.nodesAt 0) →
      ¬ m.IsArrow ∧ ¬ m.IsConditional ∧ m.kind ≠ .binaryExpression
  /-- No object of a call or an access is binary, conditional, an assignment or an arrow function. -/
  object : n.kind = .invocationExpression ∨ n.kind = .memberAccessExpression ∨ n.kind = .elementAccessExpression →
    ∀ m ∈ n.nodesAt 0, ¬ m.IsArrow ∧ ¬ m.IsConditional ∧ m.kind ≠ .binaryExpression
  /-- No initializer, no argument and no right side of an assignment has a comma. -/
  value : ∀ m, (n.kind = .equalsValueClause ∧ m ∈ n.nodesAt 1) ∨ (n.kind = .argumentList ∧ m ∈ n.nodesAt 1) ∨
    (n.IsAssignment ∧ m ∈ n.nodesAt 2) → ¬ m.IsComma

end Node

/-! ## Tightness -/

/-- The tightness of a form that no operator takes apart. -/
def tightest : Nat := 12

/-- The tightness of an expression with a binary operator. -/
def TokenKind.tightness (op : TokenKind) : Nat :=
  if 0 < op.precedence true then op.precedence true + 1 else if op = .punctuation .comma then 0 else 1

/-- How tightly a form binds that has no binary operator. -/
def NodeKind.tightness : NodeKind → Nat
  | .conditionalExpression => 1
  | .simpleArrowFunctionExpression => 1
  | .parenthesizedArrowFunctionExpression => 1
  | _ => tightest

/-- How tightly the node binds. -/
def Node.tightness (n : Node) : Nat :=
  if n.kind = .binaryExpression then n.operator.tightness else n.kind.tightness

/-- How tightly the left operand of a binary operator must bind. -/
def TokenKind.leftDemand (op : TokenKind) : Nat := if 0 < op.precedence true then op.precedence true + 1 else 0

/-- How tightly the right operand of a binary operator must bind. -/
def TokenKind.rightDemand (op : TokenKind) : Nat :=
  if 0 < op.precedence true then op.precedence true + 2 else if op.isAssignment then 1 else 0

/-- How tightly the trees in a slot of a kind must bind, where no operator has a say. -/
def NodeKind.demand : NodeKind → Nat → Nat
  | .prefixUnaryExpression, 1 => tightest
  | .castExpression, 3 => tightest
  | .postfixUnaryExpression, 0 => tightest
  | .invocationExpression, 0 => tightest
  | .memberAccessExpression, 0 => tightest
  | .elementAccessExpression, 0 => tightest
  | .equalsValueClause, 1 => 1
  | .argumentList, 1 => 1
  | _, _ => 0

/-- How tightly the trees in a slot of a node must bind. -/
def Node.demand (n : Node) (index : Nat) : Nat :=
  if n.kind = .binaryExpression then
    match index with
    | 0 => n.operator.leftDemand
    | 2 => n.operator.rightDemand
    | _ => 0
  else n.kind.demand index

/-- Every tree in a slot of the node binds as tightly as its place asks for. -/
def Node.Bound (n : Node) : Prop := ∀ index, ∀ m ∈ n.nodesAt index, n.demand index ≤ m.tightness

namespace TokenKind

theorem precedence_lt (op : TokenKind) (allowIn : Bool) : op.precedence allowIn ≤ 10 := by
  unfold precedence
  split
  all_goals first | decide | (split <;> decide)

/-- Where `in` is no operator, each other one has its precedence. -/
theorem precedence_eq_of_pos {op : TokenKind} {allowIn : Bool} (h : 0 < op.precedence allowIn) :
    op.precedence true = op.precedence allowIn := by
  cases allowIn with
  | true => rfl
  | false =>
    unfold precedence at h ⊢
    split at h
    all_goals first | rfl | exact absurd h (by decide)

theorem isAssignment_precedence {op : TokenKind} (h : op.isAssignment = true) : op.precedence true = 0 := by
  unfold isAssignment at h
  split at h
  · rename_i p
    cases p <;> first | rfl | cases h
  · cases h

end TokenKind

namespace Node

variable {n m : Node}

theorem tightness_of_isBinary (h : n.IsBinary) : n.tightness = n.precedence + 1 := by
  unfold tightness
  rw [if_pos h.1]
  exact if_pos h.2

theorem tightness_of_isComma (h : n.IsComma) : n.tightness = 0 := by
  unfold tightness
  rw [if_pos h.1, h.2]
  rfl

theorem tightness_of_isAssignment (h : n.IsAssignment) : n.tightness ≤ 1 := by
  unfold tightness TokenKind.tightness
  rw [if_pos h.1, TokenKind.isAssignment_precedence h.2, if_neg (Nat.lt_irrefl 0)]
  split <;> decide

theorem tightness_of_kind {kind : NodeKind} (h : n.kind = kind) (hb : kind ≠ .binaryExpression) :
    n.tightness = kind.tightness := by
  unfold tightness
  rw [h, if_neg hb]

theorem tightness_of_isConditional (h : n.IsConditional) : n.tightness = 1 := tightness_of_kind h (by decide)

theorem tightness_of_isArrow (h : n.IsArrow) : n.tightness = 1 := by
  rcases h with h | h
  · exact tightness_of_kind h (by decide)
  · exact tightness_of_kind h (by decide)

theorem tightness_of_binary (h : n.kind = .binaryExpression) : n.tightness < tightest := by
  unfold tightness
  rw [if_pos h]
  have hle := n.operator.precedence_lt true
  unfold TokenKind.tightness tightest
  split
  · omega
  · split <;> decide

/-- What binds more tightly than an assignment is none of the loose forms. -/
theorem not_loose (h : 2 ≤ m.tightness) : ¬ m.IsArrow ∧ ¬ m.IsConditional ∧ ¬ m.IsAssignment ∧ ¬ m.IsComma :=
  ⟨fun hm => absurd (tightness_of_isArrow hm) (by omega), fun hm => absurd (tightness_of_isConditional hm) (by omega),
    fun hm => absurd (tightness_of_isAssignment hm) (by omega), fun hm => absurd (tightness_of_isComma hm) (by omega)⟩

theorem not_operator (h : tightest ≤ m.tightness) : ¬ m.IsArrow ∧ ¬ m.IsConditional ∧ m.kind ≠ .binaryExpression :=
  have hloose := not_loose (Nat.le_trans (by decide) h)
  ⟨hloose.1, hloose.2.1, fun hk => absurd (tightness_of_binary hk) (by omega)⟩

theorem not_comma (h : 1 ≤ m.tightness) : ¬ m.IsComma := fun hm => absurd (tightness_of_isComma hm) (by omega)

theorem demand_left (h : n.IsBinary) : n.demand 0 = n.precedence + 1 := by
  unfold demand
  rw [if_pos h.1]
  exact if_pos h.2

theorem demand_right (h : n.IsBinary) : n.demand 2 = n.precedence + 2 := by
  unfold demand
  rw [if_pos h.1]
  exact if_pos h.2

theorem demand_of_isAssignment (h : n.IsAssignment) : n.demand 2 = 1 := by
  unfold demand
  rw [if_pos h.1]
  show n.operator.rightDemand = 1
  unfold TokenKind.rightDemand
  rw [TokenKind.isAssignment_precedence h.2, if_neg (Nat.lt_irrefl 0), if_pos h.2]

theorem demand_of_kind {kind : NodeKind} (h : n.kind = kind) (hb : kind ≠ .binaryExpression) (index : Nat) :
    n.demand index = kind.demand index := by
  unfold demand
  rw [h, if_neg hb]

theorem Bound.at_kind {kind : NodeKind} {index : Nat} (h : n.Bound) (hk : n.kind = kind) (hb : kind ≠ .binaryExpression)
    (hm : m ∈ n.nodesAt index) : kind.demand index ≤ m.tightness := by
  rw [← demand_of_kind hk hb]
  exact h index m hm

/-- **A node that is bound has the shape that operators ask for.** -/
theorem Bound.shaped (h : n.Bound) : n.Shaped where
  operand hn m hm := by
    refine not_loose ?_
    have hpos := hn.2
    rcases List.mem_append.1 hm with hm | hm
    · have hle := h 0 m hm
      rw [demand_left hn] at hle
      omega
    · have hle := h 2 m hm
      rw [demand_right hn] at hle
      omega
  left hn m hm hmb := by
    have hle := h 0 m hm
    rw [demand_left hn, tightness_of_isBinary hmb] at hle
    omega
  right hn m hm hmb := by
    have hle := h 2 m hm
    rw [demand_right hn, tightness_of_isBinary hmb] at hle
    omega
  unary m hm := by
    refine not_operator ?_
    rcases hm with ⟨hk, hm⟩ | ⟨hk, hm⟩ | ⟨hk, hm⟩
    all_goals
      have hle := h.at_kind hk (by decide) hm
      exact hle
  object hk m hm := by
    refine not_operator ?_
    rcases hk with hk | hk | hk
    all_goals
      have hle := h.at_kind hk (by decide) hm
      exact hle
  value m hm := by
    refine not_comma ?_
    rcases hm with ⟨hk, hm⟩ | ⟨hk, hm⟩ | ⟨hn, hm⟩
    · have hle := h.at_kind hk (by decide) hm
      exact hle
    · have hle := h.at_kind hk (by decide) hm
      exact hle
    · have hle := h 2 m hm
      rwa [demand_of_isAssignment hn] at hle

end Node

/-! ## Nodes that are made of slots -/

/-- What the slots bring is what the kind asks for. -/
def NodeKind.isMet (kind : NodeKind) (leasts : List Nat) : Bool :=
  [0, 1, 2, 3].all (fun index => decide (kind.demand index ≤ leasts[index]?.getD 0))

theorem NodeKind.demand_of_ge (kind : NodeKind) {index : Nat} (h : 4 ≤ index) : kind.demand index = 0 := by
  unfold demand
  split
  all_goals first | rfl | omega

theorem NodeKind.demand_le {kind : NodeKind} {leasts : List Nat} (h : kind.isMet leasts = true) (index : Nat) :
    kind.demand index ≤ leasts[index]?.getD 0 := by
  by_cases hindex : 4 ≤ index
  · rw [demand_of_ge kind hindex]
    exact Nat.zero_le _
  · have hmem : index ∈ [0, 1, 2, 3] := by simp; omega
    exact of_decide_eq_true (List.all_eq_true.1 h index hmem)

/-- A node of the kind is bound if its slots bring so much, and it binds at least so tightly. -/
def NodeKind.isTight (kind : NodeKind) (leasts : List Nat) (least : Nat) : Bool :=
  kind != .binaryExpression && kind.isMet leasts && decide (least ≤ kind.tightness)

theorem NodeKind.isTight_iff {kind : NodeKind} {leasts : List Nat} {least : Nat} :
    kind.isTight leasts least = true ↔
      kind ≠ .binaryExpression ∧ kind.isMet leasts = true ∧ least ≤ kind.tightness := by
  simp [isTight, and_assoc]

theorem Node.bound_mk {id : ObjectId} {kind : NodeKind} {slots : List Slot} {leasts : List Nat}
    (h : List.Forall₂ (fun least s => ∀ m ∈ s.nodes, least ≤ m.tightness) leasts slots)
    (hb : kind ≠ .binaryExpression) (hmet : kind.isMet leasts = true) : (Node.mk id kind slots).Bound := by
  intro index m hm
  rw [demand_of_kind (rfl : (Node.mk id kind slots).kind = kind) hb]
  refine Nat.le_trans (NodeKind.demand_le hmet index) ?_
  unfold nodesAt at hm
  cases hs : (Node.mk id kind slots).slots[index]? with
  | none =>
    rw [hs] at hm
    cases hm
  | some s =>
    rw [hs] at hm
    obtain ⟨hlt, rfl⟩ := List.getElem?_eq_some_iff.1 hs
    have hlt' : index < leasts.length := h.length_eq ▸ hlt
    rw [List.getElem?_eq_getElem hlt']
    exact h.get hlt' hlt m hm

end Downlevel
