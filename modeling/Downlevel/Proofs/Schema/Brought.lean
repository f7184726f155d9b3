import Downlevel.Proofs.Schema.Views
import Downlevel.Proofs.Tree.Runs
/-!
# Proofs.Schema.Brought — values that bring schematic trees

A value brings the trees that it holds (`HasTrees`): a pair those of both its sides, a list those of its members, a view
those of the slots that it names.  The property that is carried through edits, walks and rules is that all of them match
the schema (`AllSchematic`); `Gives` carries it from one step of a computation to the next.
-/
namespace Downlevel

/-- A type whose values hold trees. -/
class HasTrees (α : Type) where
  trees : α → List Node

/-- All trees that the value holds match the schema throughout. -/
def AllSchematic {α : Type} [HasTrees α] (a : α) : Prop := ∀ n ∈ HasTrees.trees a, n.Schematic

section Instances

variable {α β : Type}

instance : HasTrees Node := ⟨fun n => [n]⟩

instance : HasTrees Slot := ⟨Slot.nodes⟩

instance : HasTrees Token := ⟨fun _ => []⟩

instance : HasTrees TriviaList := ⟨fun _ => []⟩

instance : HasTrees Bool := ⟨fun _ => []⟩

instance : HasTrees Replacement := ⟨Replacement.nodes⟩

instance [HasTrees α] : HasTrees (List α) := ⟨fun as => as.flatMap HasTrees.trees⟩

instance [HasTrees α] : HasTrees (Option α) := ⟨fun o => o.toList.flatMap HasTrees.trees⟩

instance [HasTrees α] [HasTrees β] : HasTrees (α × β) := ⟨fun p => HasTrees.trees p.1 ++ HasTrees.trees p.2⟩

instance : HasTrees SeparatedNodes := ⟨SeparatedNodes.members⟩

instance [HasTrees α] : HasTrees (Walked α) := ⟨fun w => HasTrees.trees w.value⟩

/-- A view holds what the slots that it names hold. -/
instance (priority := low) [NodeView α] : HasTrees α := ⟨fun v => (NodeView.toSlots v).flatMap Slot.nodes⟩

end Instances

/-! ## What it takes -/

namespace AllSchematic

variable {α β : Type}

@[simp] theorem node_iff {n : Node} : AllSchematic n ↔ n.Schematic := by simp [AllSchematic, HasTrees.trees]

@[simp] theorem token {t : Token} : AllSchematic t := fun _ hm => nomatch hm

@[simp] theorem trivia {t : TriviaList} : AllSchematic t := fun _ hm => nomatch hm

@[simp] theorem bool {b : Bool} : AllSchematic b := fun _ hm => nomatch hm

@[simp] theorem nil [HasTrees α] : AllSchematic ([] : List α) := fun _ hm => nomatch hm

@[simp] theorem none [HasTrees α] : AllSchematic (none : Option α) := fun _ hm => nomatch hm

@[simp] theorem some_iff [HasTrees α] {a : α} : AllSchematic (some a) ↔ AllSchematic a := by
  simp [AllSchematic, HasTrees.trees]

@[simp] theorem pair_iff [HasTrees α] [HasTrees β] {a : α} {b : β} :
    AllSchematic (a, b) ↔ AllSchematic a ∧ AllSchematic b := by
  simp [AllSchematic, HasTrees.trees, or_imp, forall_and]

theorem list_iff [HasTrees α] {as : List α} : AllSchematic as ↔ ∀ a ∈ as, AllSchematic a := by
  simp only [AllSchematic, HasTrees.trees, List.mem_flatMap]
  exact ⟨fun h a ha n hn => h n ⟨a, ha, hn⟩, fun h n ⟨a, ha, hn⟩ => h a ha n hn⟩

@[simp] theorem cons_iff [HasTrees α] {a : α} {as : List α} :
    AllSchematic (a :: as) ↔ AllSchematic a ∧ AllSchematic as := by simp [list_iff]

@[simp] theorem append_iff [HasTrees α] {as bs : List α} :
    AllSchematic (as ++ bs) ↔ AllSchematic as ∧ AllSchematic bs := by simp [list_iff, or_imp, forall_and]

@[simp] theorem tokens {ts : List Token} : AllSchematic ts := list_iff.2 (fun _ _ => token)

@[simp] theorem removed : AllSchematic Replacement.removed := fun _ hm => nomatch hm

@[simp] theorem one_iff {n : Node} : AllSchematic (Replacement.one n) ↔ n.Schematic := by
  simp [AllSchematic, HasTrees.trees, Replacement.nodes]

@[simp] theorem many_iff {ns : List Node} : AllSchematic (Replacement.many ns) ↔ AllSchematic ns := by
  simp [AllSchematic, HasTrees.trees, Replacement.nodes]

@[simp] theorem replacement_iff {r : Replacement} : AllSchematic r.nodes ↔ AllSchematic r := by
  simp [AllSchematic, HasTrees.trees]

@[simp] theorem walked_iff [HasTrees α] {w : Walked α} : AllSchematic w ↔ AllSchematic w.value := Iff.rfl

@[simp] theorem separatedNodes_iff {v : SeparatedNodes} : AllSchematic v ↔ AllSchematic v.members := by
  simp [AllSchematic, HasTrees.trees]

/-! ## Slots and views -/

@[simp] theorem absent : AllSchematic Slot.absent := fun _ hm => nomatch hm

@[simp] theorem token_slot {t : Token} : AllSchematic (Slot.token t) := fun _ hm => nomatch hm

@[simp] theorem node_slot_iff {n : Node} : AllSchematic (Slot.node n) ↔ n.Schematic := by
  simp [AllSchematic, HasTrees.trees, Slot.nodes]

@[simp] theorem list_slot_iff {ns : List Node} : AllSchematic (Slot.list ns) ↔ AllSchematic ns := by
  simp [AllSchematic, HasTrees.trees, Slot.nodes]

@[simp] theorem separated_slot_iff {ns : List Node} {ts : List Token} :
    AllSchematic (Slot.separated ns ts) ↔ AllSchematic ns := by simp [AllSchematic, HasTrees.trees, Slot.nodes]

@[simp] theorem ofToken? {o : Option Token} : AllSchematic (Slot.ofToken? o) := by
  cases o with
  | none => exact absent
  | some t => exact token_slot

@[simp] theorem ofNode?_iff {o : Option Node} : AllSchematic (Slot.ofNode? o) ↔ AllSchematic o := by
  cases o with
  | none => exact iff_of_true absent none
  | some n => simp [Slot.ofNode?]

/-- A view holds what its slots hold. -/
@[simp] theorem view_iff [NodeView α] {v : α} : AllSchematic v ↔ AllSchematic (NodeView.toSlots v) := by
  simp [AllSchematic, HasTrees.trees]

theorem cons {n : Node} {ns : List Node} (hn : n.Schematic) (h : AllSchematic ns) : AllSchematic (n :: ns) :=
  cons_iff.2 ⟨node_iff.2 hn, h⟩

theorem mem [HasTrees α] {as : List α} {a : α} (h : AllSchematic as) (ha : a ∈ as) : AllSchematic a := list_iff.1 h a ha

end AllSchematic

def Slot.SchematicIn (shape : SlotShape) (s : Slot) : Prop := s.fits shape = true ∧ AllSchematic s

/-- **A node of a kind is schematic exactly if its slots fit and hold schematic trees.** -/
theorem Node.schematic_iff {n : Node} :
    n.Schematic ↔ Slot.FitAll n.kind.shapes n.slots ∧ AllSchematic n.slots := by
  cases n
  simp only [Node.schematic_mk, AllSchematic.list_iff]
  rfl

theorem Node.schematic_iff_slots {n : Node} :
    n.Schematic ↔ List.Forall₂ Slot.SchematicIn n.kind.shapes n.slots := by
  have hrow : ∀ {shapes : List SlotShape} {slots : List Slot},
      Slot.FitAll shapes slots ∧ AllSchematic slots ↔ List.Forall₂ Slot.SchematicIn shapes slots := by
    intro shapes
    induction shapes with
    | nil => intro slots; cases slots <;> simp
    | cons shape shapes ih =>
      intro slots
      cases slots with
      | nil => simp
      | cons s slots =>
        rw [Slot.FitAll, List.forall₂_cons, List.forall₂_cons, ← ih, AllSchematic.cons_iff]
        exact and_and_and_comm
  rw [Node.schematic_iff, hrow]

section Views

variable {α : Type} [NodeView α] [SchemaView α] {n : Node} {v : α}

/-- **What is read off a schematic tree is schematic.** -/
theorem Node.Schematic.view (hn : n.Schematic) (h : n.view? α = some v) : AllSchematic v := by
  refine AllSchematic.view_iff.2 (AllSchematic.list_iff.2 (fun s hs => ?_))
  rcases Node.mem_slots_of_view? h s hs with rfl | hs
  · exact AllSchematic.absent
  · exact (Node.schematic_iff.1 hn).2.mem hs

/-- **A view of schematic trees is made a schematic tree.** -/
theorem schematic_toNode (h : AllSchematic v) : (NodeView.toNode v).Gives Node.Schematic :=
  fun _ => Node.schematic_iff.2 ⟨SchemaView.fitAll v, AllSchematic.view_iff.1 h⟩

end Views

/-- **A node of slots that fit and hold schematic trees is made a schematic tree.** -/
theorem schematic_fresh {kind : NodeKind} {slots : List Slot} (h : AllSchematic slots)
    (hfits : (Node.mk 0 kind slots).matchesSchema = true) : (Node.fresh kind slots).Gives Node.Schematic :=
  fun _ => Node.schematic_iff.2 ⟨Node.matchesSchema_iff.1 hfits, h⟩

/-- Nodes that are made one by one. -/
theorem Fresh.Gives.nodes {α : Type} {f : α → Fresh Node} {as : List α} (h : ∀ a ∈ as, (f a).Gives Node.Schematic) :
    Fresh.Gives (as.mapM f) AllSchematic :=
  (Fresh.Gives.mapM h).mono (fun _ hbs => AllSchematic.list_iff.2 (fun b hb => AllSchematic.node_iff.2 (hbs b hb)))

namespace Work.Gives

variable {ε σ α : Type}

/-- Nodes that come one by one. -/
theorem nodes {f : α → Work ε σ Node} {as : List α} (h : ∀ a ∈ as, (f a).Gives Node.Schematic) :
    Work.Gives (as.mapM f) AllSchematic :=
  (mapM h).mono (fun _ hbs => AllSchematic.list_iff.2 (fun b hb => AllSchematic.node_iff.2 (hbs b hb)))

/-- A node that comes where there is something to make it of. -/
theorem optionNode {f : α → Work ε σ Node} {o : Option α} (h : ∀ a ∈ o, (f a).Gives Node.Schematic) :
    Work.Gives (o.mapM f) AllSchematic :=
  (optionMapM h).mono (fun found hfound => by
    cases found with
    | none => exact AllSchematic.none
    | some m => simpa using hfound m rfl)

/-- A node that takes the place of another. -/
theorem one {w : Work ε σ Node} (h : w.Gives Node.Schematic) :
    (w >>= fun m => Pure.pure (Replacement.one m)).Gives AllSchematic :=
  h.bindPure (fun _ hm => AllSchematic.one_iff.2 hm)

end Work.Gives

end Downlevel
