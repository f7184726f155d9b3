import Downlevel.Proofs.Tree.Tightness
/-!
# Proofs.Tree.Grouping — what stands around an operator without parentheses

`Node.Shaped` says which forms are operands of binary operators.  `Node.Grouped` says the rest: what may stand on the
left of an assignment and in front of a question mark, and that what the head of a loop declares or computes first holds
no operator `in` that its own `in` could be taken for.  Such an operator would have to be exposed (`Node.Exposes`): not
between parentheses, brackets or braces, and not between the two marks of a condition.
-/
namespace Downlevel

/-! ## Shelter -/

namespace NodeKind

/-- The slots that hold an opening parenthesis, bracket or brace, by name. -/
def openingSlots : List String := ["open_paren_token", "open_bracket_token", "open_brace_token"]

/-- The slots that hold a closing parenthesis, bracket or brace, by name. -/
def closingSlots : List String := ["close_paren_token", "close_bracket_token", "close_brace_token"]

/-- The slot stands behind an opening parenthesis, bracket or brace of its node and in front of a closing one. -/
def encloses (kind : NodeKind) (index : Nat) : Bool :=
  (kind.schema.take index).any (fun slot => openingSlots.contains slot.1) &&
    (kind.schema.drop (index + 1)).any (fun slot => closingSlots.contains slot.1)

/-- The slot stands between two marks of its node: parentheses, brackets, braces, or the two marks of a condition. -/
def shelters (kind : NodeKind) (index : Nat) : Bool :=
  kind.encloses index || (kind == .conditionalExpression && index == 2)

end NodeKind

namespace Node

variable {n m c : Node} {id : ObjectId} {kind : NodeKind} {slots : List Slot} {index : Nat}

/-- The tree has a node that no two marks shelter: its root, or one that it has in a slot that is not sheltered. -/
inductive Exposes : Node → Node → Prop
  | root (n : Node) : Exposes n n
  | inner {n c m : Node} {index : Nat} (hc : c ∈ n.nodesAt index) (hopen : n.kind.shelters index = false)
    (hm : Exposes c m) : Exposes n m

/-- The node is an expression with the operator `in`. -/
def IsIn (n : Node) : Prop := n.kind = .binaryExpression ∧ n.operator = .keyword .inKw

/-- No operator `in` is exposed. -/
def InFree (n : Node) : Prop := ∀ m, n.Exposes m → ¬ m.IsIn

/-- **Whether an operator `in` is exposed is decided one level at a time.** -/
theorem inFree_iff : n.InFree ↔
    ¬ n.IsIn ∧ ∀ index, n.kind.shelters index = false → ∀ c ∈ n.nodesAt index, c.InFree := by
  constructor
  · intro h
    exact ⟨h n (.root n), fun _ hopen c hc m hm => h m (.inner hc hopen hm)⟩
  · rintro ⟨hn, hbelow⟩ m hm
    cases hm with
    | root => exact hn
    | inner hc hopen hm => exact hbelow _ hopen _ hc m hm

/-! ## Groups -/

/-- **What stands beside the operators of the node needs no parentheses.** -/
structure Grouped (n : Node) : Prop where
  /-- The left side of an assignment is no assignment, no expression with a comma and no arrow function. -/
  assigned : n.IsAssignment → ∀ m ∈ n.nodesAt 0, ¬ m.IsAssignment ∧ ¬ m.IsComma ∧ ¬ m.IsArrow
  /-- The condition of a conditional is no arrow function, no assignment, no expression with a comma and not conditional
  itself. -/
  condition : n.IsConditional → ∀ m ∈ n.nodesAt 0, ¬ m.IsArrow ∧ ¬ m.IsAssignment ∧ ¬ m.IsComma ∧ ¬ m.IsConditional
  /-- What a loop declares, and what it computes first, exposes no operator `in`. -/
  head : n.kind = .forStatement ∨ n.kind = .forInStatement → ∀ m ∈ n.nodesAt 2 ++ n.nodesAt 3, m.InFree

/-- Every node of the tree is grouped; in a quiet place no operator `in` is exposed either. -/
structure Settled (quiet : Bool) (n : Node) : Prop where
  grouped : n.Every Grouped
  inFree : quiet = true → n.InFree

end Node

def Slot.Settled (quiet : Bool) (s : Slot) : Prop := ∀ m ∈ s.nodes, m.Settled quiet

/-- A slot of the kind must be quiet, whatever is around the node. -/
def NodeKind.asksQuiet (kind : NodeKind) (index : Nat) : Bool :=
  (kind == .forStatement || kind == .forInStatement) && (index == 2 || index == 3)

/-- A node of the kind is settled if its slots are: those that must be quiet are, and all that are not sheltered if the
node is to be quiet itself. -/
def NodeKind.settles (kind : NodeKind) (quiets : List Bool) (quiet : Bool) : Bool :=
  quiets.zipIdx.all (fun (q, index) => q || !(kind.asksQuiet index || quiet && !kind.shelters index))

/-- As `settles`, for a kind that has no operator. -/
def NodeKind.settlesPlainly (kind : NodeKind) (quiets : List Bool) (quiet : Bool) : Bool :=
  kind != .binaryExpression && kind != .conditionalExpression && kind.settles quiets quiet

theorem NodeKind.quiet_of_settles {kind : NodeKind} {quiets : List Bool} {quiet : Bool}
    (h : kind.settles quiets quiet = true) {index : Nat} {q : Bool} (hq : quiets[index]? = some q)
    (hasks : kind.asksQuiet index = true ∨ quiet = true ∧ kind.shelters index = false) : q = true := by
  have hhere := List.all_eq_true.1 h (q, index) (List.mem_zipIdx_iff_getElem?.2 hq)
  rcases hasks with hasks | ⟨hquiet, hopen⟩
  · simpa [hasks] using hhere
  · simpa [hquiet, hopen] using hhere

namespace Node

variable {n m left right : Node} {id : ObjectId} {kind : NodeKind} {slots : List Slot} {quiets : List Bool}
  {quiet : Bool} {t : Token}

theorem Settled.weaken (h : n.Settled true) : n.Settled quiet := ⟨h.grouped, fun _ => h.inFree rfl⟩

theorem settled_of_mem_nodesAt (h : List.Forall₂ Slot.Settled quiets slots) {index : Nat}
    (hm : m ∈ (Node.mk id kind slots).nodesAt index) : ∃ q, quiets[index]? = some q ∧ m.Settled q := by
  unfold nodesAt at hm
  cases hs : (Node.mk id kind slots).slots[index]? with
  | none =>
    rw [hs] at hm
    cases hm
  | some s =>
    rw [hs] at hm
    obtain ⟨hlt, rfl⟩ := List.getElem?_eq_some_iff.1 hs
    have hlt' : index < quiets.length := h.length_eq ▸ hlt
    exact ⟨quiets[index], List.getElem?_eq_getElem hlt', h.get hlt' hlt m hm⟩

/-- **A node of settled slots is settled**, if its operator groups them. -/
theorem settled_mk (h : List.Forall₂ Slot.Settled quiets slots)
    (hassigned : (Node.mk id kind slots).IsAssignment →
      ∀ m ∈ (Node.mk id kind slots).nodesAt 0, ¬ m.IsAssignment ∧ ¬ m.IsComma ∧ ¬ m.IsArrow)
    (hcondition : (Node.mk id kind slots).IsConditional →
      ∀ m ∈ (Node.mk id kind slots).nodesAt 0, ¬ m.IsArrow ∧ ¬ m.IsAssignment ∧ ¬ m.IsComma ∧ ¬ m.IsConditional)
    (hin : quiet = true → ¬ (Node.mk id kind slots).IsIn) (hkind : kind.settles quiets quiet = true) :
    (Node.mk id kind slots).Settled quiet := by
  refine ⟨Node.every_mk.2 ⟨⟨hassigned, hcondition, fun hloop m hm => ?_⟩, fun s hs c hc => ?_⟩, fun hquiet => ?_⟩
  · have hquiet : ∀ index, kind.asksQuiet index = true → m ∈ (Node.mk id kind slots).nodesAt index → m.InFree := by
      intro index hasks hm
      obtain ⟨q, hq, hsettled⟩ := settled_of_mem_nodesAt h hm
      exact hsettled.inFree (NodeKind.quiet_of_settles hkind hq (.inl hasks))
    rcases List.mem_append.1 hm with hm | hm
    · exact hquiet 2 (by rcases hloop with rfl | rfl <;> rfl) hm
    · exact hquiet 3 (by rcases hloop with rfl | rfl <;> rfl) hm
  · obtain ⟨index, hlt, rfl⟩ := List.getElem_of_mem hs
    exact (h.get (h.length_eq ▸ hlt) hlt c hc).grouped
  · refine inFree_iff.2 ⟨hin hquiet, fun index hopen c hc => ?_⟩
    obtain ⟨q, hq, hsettled⟩ := settled_of_mem_nodesAt h hc
    exact hsettled.inFree (NodeKind.quiet_of_settles hkind hq (.inr ⟨hquiet, hopen⟩))

theorem settled_plain (h : List.Forall₂ Slot.Settled quiets slots) (hkind : kind.settlesPlainly quiets quiet = true) :
    (Node.mk id kind slots).Settled quiet := by
  obtain ⟨⟨hbinary, hconditional⟩, hsettles⟩ :
      (kind ≠ .binaryExpression ∧ kind ≠ .conditionalExpression) ∧ kind.settles quiets quiet = true := by
    simpa [NodeKind.settlesPlainly] using hkind
  exact settled_mk h (fun ha => absurd ha.1 hbinary) (fun hc => absurd hc hconditional) (fun _ hi => hbinary hi.1)
    hsettles

theorem Settled.slot (h : n.Settled quiet) : (Slot.node n).Settled quiet :=
  fun _ hm => List.mem_singleton.1 hm ▸ h

theorem settled_token (t : Token) : (Slot.token t).Settled true := fun _ hm => by cases hm

/-- An expression with a binary operator is settled if both operands are, it has no `in` in a quiet place, and its left
operand may be assigned to where it is an assignment. -/
theorem settled_binary (hleft : left.Settled quiet) (hright : right.Settled quiet)
    (hin : quiet = true → t.kind ≠ .keyword .inKw)
    (hassigned : t.kind.isAssignment = true → ¬ left.IsAssignment ∧ ¬ left.IsComma ∧ ¬ left.IsArrow) :
    (Node.mk id .binaryExpression [.node left, .token t, .node right]).Settled quiet := by
  refine settled_mk (.cons hleft.slot <| .cons (settled_token t) <| .cons hright.slot .nil) (fun ha m hm => ?_)
    (fun hc => by cases hc) (fun hquiet hi => hin hquiet hi.2) (by cases quiet <;> rfl)
  rw [List.mem_singleton.1 (show m ∈ [left] from hm)]
  exact hassigned ha.2

/-- What binds more tightly than an assignment may be assigned to, and so may a condition be. -/
theorem not_assigned (h : m.IsConditional ∨ 2 ≤ m.tightness) : ¬ m.IsAssignment ∧ ¬ m.IsComma ∧ ¬ m.IsArrow := by
  rcases h with h | h
  · unfold IsConditional at h
    simp [IsAssignment, IsComma, IsArrow, h]
  · obtain ⟨harrow, -, hassignment, hcomma⟩ := not_loose h
    exact ⟨hassignment, hcomma, harrow⟩

end Node

end Downlevel
