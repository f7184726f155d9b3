import Downlevel.Proofs.Tree.Sorts
import Downlevel.Tree.Transform
/-!
# Proofs.Tree.Schematic — trees whose slots match the schema throughout

A tree is schematic when every node of it has as many slots as its kind and each slot holds what it may.  This is less
than well-formedness: any node may stand where a node belongs, and a separated list may have any number of members and
separators.
-/
namespace Downlevel

theorem Node.matchesSchema_iff {id : ObjectId} {kind : NodeKind} {slots : List Slot} :
    (Node.mk id kind slots).matchesSchema = true ↔
      List.Forall₂ (fun shape s => Slot.fits s shape = true) kind.shapes slots := by
  have hrow : ∀ (shapes : List SlotShape) (slots : List Slot),
      (slots.length == shapes.length && (slots.zip shapes).all (fun p => p.1.fits p.2)) = true ↔
        List.Forall₂ (fun shape s => Slot.fits s shape = true) shapes slots := by
    intro shapes
    induction shapes with
    | nil => intro slots; cases slots <;> simp
    | cons shape shapes ih =>
      intro slots
      cases slots with
      | nil => simp
      | cons s slots =>
        rw [List.forall₂_cons, ← ih slots]
        simp [and_left_comm]
  exact hrow kind.shapes slots

/-- Every node of the tree matches the schema of its kind. -/
def Node.Schematic (n : Node) : Prop := n.Every (fun m => m.matchesSchema = true)

/-- Slots of the shapes of a schema, one by one. -/
abbrev Slot.FitAll (shapes : List SlotShape) (slots : List Slot) : Prop :=
  List.Forall₂ (fun shape slot => Slot.fits slot shape = true) shapes slots

namespace Slot

@[simp] theorem fits_token (t : Token) : (Slot.token t).fits .token = true := rfl

@[simp] theorem fits_ofToken? (o : Option Token) : (Slot.ofToken? o).fits .optionalToken = true := by cases o <;> rfl

@[simp] theorem fits_node (n : Node) : (Slot.node n).fits .node = true := rfl

@[simp] theorem fits_ofNode? (o : Option Node) : (Slot.ofNode? o).fits .optionalNode = true := by cases o <;> rfl

@[simp] theorem fits_list (ns : List Node) : (Slot.list ns).fits .list = true := rfl

@[simp] theorem fits_separated (ns : List Node) (ts : List Token) :
    (Slot.separated ns ts).fits .separatedList = true := rfl

end Slot

theorem Node.fitAll {n : Node} (h : n.matchesSchema = true) : Slot.FitAll n.kind.shapes n.slots := by
  cases n
  exact Node.matchesSchema_iff.1 h

theorem Node.schematic_mk {id : ObjectId} {kind : NodeKind} {slots : List Slot} :
    (Node.mk id kind slots).Schematic ↔
      Slot.FitAll kind.shapes slots ∧ ∀ s ∈ slots, ∀ c ∈ s.nodes, c.Schematic := by
  unfold Node.Schematic
  rw [Node.every_mk, Node.matchesSchema_iff]

theorem Slot.fitAll_of_admits {kind : NodeKind} {slots : List Slot} (h : List.Forall₂ SlotSort.Admits kind.sorts slots) :
    Slot.FitAll kind.shapes slots := by
  rw [← kind.map_shape_sorts, Slot.FitAll, List.forall₂_map_left_iff]
  exact List.Forall₂.imp (fun _ _ ha => ha.fits) h

theorem Node.FitsKind.fits {n : Node} (h : n.FitsKind) : Slot.FitAll n.kind.shapes n.slots := Slot.fitAll_of_admits h

theorem Node.FitsKind.matchesSchema {n : Node} (h : n.FitsKind) : n.matchesSchema = true := by
  cases n
  exact Node.matchesSchema_iff.2 h.fits

/-- **A well-formed tree is schematic.** -/
theorem Node.WellFormed.schematic {n : Node} (h : n.WellFormed) : n.Schematic :=
  Node.Every.mono h (fun _ hm => hm.matchesSchema)

namespace Node.Schematic

variable {n : Node}

theorem fitAll (h : n.Schematic) : Slot.FitAll n.kind.shapes n.slots := Node.fitAll (Node.Every.self h)

theorem self (h : n.Schematic) : n.matchesSchema = true := Node.Every.self h

theorem child {c : Node} (h : n.Schematic) (hc : c ∈ n.children) : c.Schematic := Node.Every.child h hc

theorem below {s : Slot} {c : Node} (h : n.Schematic) (hs : s ∈ n.slots) (hc : c ∈ s.nodes) : c.Schematic :=
  h.child (List.mem_flatMap.2 ⟨s, hs, hc⟩)

end Node.Schematic

/-- **Slots of the shapes of a kind pass the check of the slots of that kind.** -/
theorem NodeKind.checkSlots_of_fits {kind : NodeKind} {slots : List Slot}
    (h : Slot.FitAll kind.shapes slots) : kind.checkSlots slots = .ok () := by
  have hfrom : ∀ {shapes : List SlotShape} {slots : List Slot} (index : Nat),
      Slot.FitAll shapes slots →
      kind.checkSlotsFrom index shapes slots = .ok () := by
    intro shapes slots index h
    induction h generalizing index with
    | nil => rfl
    | @cons shape slot _ _ hslot _ ih =>
      cases slot with
      | absent => exact (if_pos hslot).trans (ih _)
      | _ => exact (if_pos hslot).trans (ih _)
  rw [checkSlots, if_neg (not_not.2 h.length_eq)]
  exact hfrom 0 h

/-- **Slots that pass the check of a kind are of its shapes.** -/
theorem NodeKind.fits_of_checkSlots {kind : NodeKind} {slots : List Slot} (h : kind.checkSlots slots = .ok ()) :
    Slot.FitAll kind.shapes slots := by
  have hfrom : ∀ (shapes : List SlotShape) (slots : List Slot) (index : Nat), shapes.length = slots.length →
      kind.checkSlotsFrom index shapes slots = .ok () → Slot.FitAll shapes slots := by
    intro shapes
    induction shapes with
    | nil =>
      intro slots index hlength _
      rw [List.length_eq_zero_iff.1 hlength.symm]
      exact .nil
    | cons shape shapes ih =>
      intro slots index hlength h
      cases slots with
      | nil => cases hlength
      | cons slot slots =>
        have hrest := ih slots (index + 1) (Nat.succ.inj hlength)
        -- A missing slot is asked for being optional, a filled one for its shape.
        cases slot with
        | absent =>
          rw [checkSlotsFrom] at h
          split at h
          · rename_i hopt
            exact .cons hopt (hrest h)
          · cases h
        | _ =>
          simp only [checkSlotsFrom] at h
          split at h
          · rename_i hfits
            exact .cons hfits (hrest h)
          · cases h
  rw [checkSlots] at h
  split at h
  · cases h
  · rename_i hlength
    exact hfrom _ _ 0 (not_not.1 hlength) h

end Downlevel
