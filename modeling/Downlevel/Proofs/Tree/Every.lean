import Downlevel.Tree.Facts
/-!
# Proofs.Tree.Every — what holds of every node of a tree

`n.Every P` says that `P` holds of `n` and of every node below it.  It is the view through which trees are reasoned
about: it is decided one level at a time (`Node.every_iff`), and a statement about all trees follows from what each
node inherits from its children (`Node.induction`).
-/
namespace Downlevel

mutual

theorem Node.allOnto_eq : ∀ (n : Node) (behind : List Node), n.allOnto behind = n.all ++ behind
  | .mk id kind slots, behind => by
    simp only [Node.all, Node.allOnto]
    rw [Slot.allNodesOnto_eq slots behind, Slot.allNodesOnto_eq slots []]
    simp

theorem Slot.allNodesOnto_eq : ∀ (slots : List Slot) (behind : List Node),
    Slot.allNodesOnto slots behind = (slots.flatMap Slot.nodes).flatMap Node.all ++ behind
  | [], _ => rfl
  | slot :: slots, behind => by
    simp only [Slot.allNodesOnto, List.flatMap_cons, List.flatMap_append, List.append_assoc]
    rw [Slot.nodesOnto_eq slot, Slot.allNodesOnto_eq slots]

theorem Slot.nodesOnto_eq : ∀ (s : Slot) (behind : List Node),
    s.nodesOnto behind = s.nodes.flatMap Node.all ++ behind
  | .absent, _ => rfl
  | .token _, _ => rfl
  | .node n, behind => by
    simp only [Slot.nodesOnto, Slot.nodes, List.flatMap_cons, List.flatMap_nil, List.append_nil]
    exact Node.allOnto_eq n behind
  | .list members, behind => by
    simp only [Slot.nodesOnto, Slot.nodes]
    exact Node.listAllOnto_eq members behind
  | .separated members _, behind => by
    simp only [Slot.nodesOnto, Slot.nodes]
    exact Node.listAllOnto_eq members behind

theorem Node.listAllOnto_eq : ∀ (ns : List Node) (behind : List Node),
    Node.listAllOnto ns behind = ns.flatMap Node.all ++ behind
  | [], _ => rfl
  | n :: ns, behind => by
    simp only [Node.listAllOnto, List.flatMap_cons, List.append_assoc]
    rw [Node.allOnto_eq n, Node.listAllOnto_eq ns]

end

/-- **The nodes of a tree are the root and the nodes of the trees below it.** -/
theorem Node.all_eq (n : Node) : n.all = n :: n.children.flatMap Node.all := by
  obtain ⟨id, kind, slots⟩ := n
  show Node.allOnto (.mk id kind slots) [] = _
  rw [Node.allOnto, Slot.allNodesOnto_eq, List.append_nil]
  rfl

theorem Node.mem_all_self (n : Node) : n ∈ n.all := by rw [Node.all_eq]; exact List.mem_cons_self

/-- What is below a child is below the node. -/
theorem Node.mem_all_of_child {n c m : Node} (hc : c ∈ n.children) (h : m ∈ c.all) : m ∈ n.all := by
  rw [Node.all_eq n]
  exact List.mem_cons_of_mem _ (List.mem_flatMap.2 ⟨c, hc, h⟩)

/-! ## Heights -/

theorem Node.height_le_listHeight {n : Node} {ns : List Node} (h : n ∈ ns) : n.height ≤ Node.listHeight ns := by
  induction ns with
  | nil => cases h
  | cons m ns ih =>
    rw [Node.listHeight]
    rcases List.mem_cons.1 h with rfl | h
    · exact Nat.le_max_left ..
    · exact Nat.le_trans (ih h) (Nat.le_max_right ..)

theorem Node.height_le_slotHeight {n : Node} {s : Slot} (h : n ∈ s.nodes) : n.height ≤ s.height := by
  cases s with
  | absent => cases h
  | token t => cases h
  | node m => simp only [List.mem_singleton.1 h, Slot.height, Nat.le_refl]
  | list ms => rw [Slot.height]; exact Node.height_le_listHeight h
  | separated ms ts => rw [Slot.height]; exact Node.height_le_listHeight h

theorem Slot.height_le_allHeight {s : Slot} {slots : List Slot} (h : s ∈ slots) : s.height ≤ Slot.allHeight slots := by
  induction slots with
  | nil => cases h
  | cons t slots ih =>
    rw [Slot.allHeight]
    rcases List.mem_cons.1 h with rfl | h
    · exact Nat.le_max_left ..
    · exact Nat.le_trans (ih h) (Nat.le_max_right ..)

/-- **A child is less high than its parent.** -/
theorem Node.height_lt_of_mem_children {n c : Node} (h : c ∈ n.children) : c.height < n.height := by
  obtain ⟨id, kind, slots⟩ := n
  obtain ⟨s, hs, hc⟩ := List.mem_flatMap.1 h
  have h₁ := Node.height_le_slotHeight hc
  have h₂ : s.height ≤ Slot.allHeight slots := Slot.height_le_allHeight hs
  rw [Node.height]
  omega

/-- **A statement about all trees follows from what each node inherits from its children.** -/
theorem Node.induction {motive : Node → Prop} (step : ∀ n, (∀ c ∈ n.children, motive c) → motive n) (n : Node) :
    motive n := by
  induction hn : n.height using Nat.strongRecOn generalizing n with
  | ind k ih => exact step n (fun c hc => ih c.height (hn ▸ Node.height_lt_of_mem_children hc) c rfl)

/-- What is below a node of a tree is a node of the tree. -/
theorem Node.mem_all_trans {n m m' : Node} (h : m ∈ n.all) (h' : m' ∈ m.all) : m' ∈ n.all := by
  induction n using Node.induction with
  | step n ih =>
    rw [Node.all_eq] at h
    rcases List.mem_cons.1 h with rfl | h
    · exact h'
    · obtain ⟨c, hc, hm⟩ := List.mem_flatMap.1 h
      exact Node.mem_all_of_child hc (ih c hc hm)

/-! ## Every node -/

/-- A property holds of a node and of every node below it. -/
def Node.Every (P : Node → Prop) (n : Node) : Prop := ∀ m ∈ n.all, P m

/-- **What holds of every node is decided one level at a time.** -/
theorem Node.every_iff {P : Node → Prop} {n : Node} : n.Every P ↔ P n ∧ ∀ c ∈ n.children, c.Every P := by
  unfold Node.Every
  rw [Node.all_eq]
  simp only [List.mem_cons, List.mem_flatMap]
  constructor
  · intro h
    exact ⟨h n (.inl rfl), fun c hc m hm => h m (.inr ⟨c, hc, hm⟩)⟩
  · rintro ⟨hn, hc⟩ m (rfl | ⟨c, hcm, hm⟩)
    · exact hn
    · exact hc c hcm m hm

namespace Node.Every

variable {P Q : Node → Prop} {n : Node}

theorem self (h : n.Every P) : P n := (Node.every_iff.1 h).1

theorem child {c : Node} (h : n.Every P) (hc : c ∈ n.children) : c.Every P := (Node.every_iff.1 h).2 c hc

theorem below {m : Node} (h : n.Every P) (hm : m ∈ n.all) : m.Every P := fun _ hm' => h _ (Node.mem_all_trans hm hm')

theorem mono (h : n.Every P) (hPQ : ∀ m, P m → Q m) : n.Every Q := fun m hm => hPQ m (h m hm)

end Node.Every

/-- A node is made of a kind and slots, each of which brings its own trees. -/
theorem Node.every_mk {P : Node → Prop} {id : ObjectId} {kind : NodeKind} {slots : List Slot} :
    (Node.mk id kind slots).Every P ↔
      P (.mk id kind slots) ∧ ∀ s ∈ slots, ∀ c ∈ s.nodes, c.Every P := by
  rw [Node.every_iff]
  simp only [Node.children, Node.slots, List.mem_flatMap]
  constructor
  · rintro ⟨hn, hc⟩
    exact ⟨hn, fun s hs c hcs => hc c ⟨s, hs, hcs⟩⟩
  · rintro ⟨hn, hs⟩
    exact ⟨hn, fun c hc => hc.elim (fun s h => hs s h.1 c h.2)⟩

/-- A tree is in no need of lowering if none of its nodes is written in the dialect only. -/
theorem Node.isSpecific_eq_false_iff {n : Node} : n.isSpecific = false ↔ n.Every (fun m => m.isDialectForm = false) := by
  simp [Node.isSpecific, Node.Every]

end Downlevel
