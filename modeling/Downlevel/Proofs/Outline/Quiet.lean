import Downlevel.Proofs.Outline.Shapes
import Downlevel.Proofs.Outline.Untyped
/-!
# Proofs.Outline.Quiet — lowering a tree of which types are all there is to lower

A draft is quiet if it notes nothing outside of arrow functions (`Draft.Quiet`).  Where only types are to be lowered
(`Node.OnlyTyped`) the draft of each form is quiet, and what it makes is written as what is left of the form once types
are erased (`Draft.leaves_rule`): that nothing is captured, no default value moves into a body and no parentheses are
put around a statement follows from the forms that are excluded.
-/
namespace Downlevel

variable {k : Nat} {n m : Node} {s : Slot} {ns : List Node} {ts : List Token}

/-! ## Trees -/

/-- A statement that is an expression does not start with the word `function`. -/
def StartsForm (n : Node) : Prop :=
  n.kind = .expressionStatement → ∀ t ∈ n.tokens.head?, t.kind ≠ .keyword .functionKw

/-- A tree of which types are all that there is to lower. -/
structure Node.OnlyTyped (k : Nat) (n : Node) : Prop where
  sound : n.Sound OpenForm Demand.any k
  starts : n.Every StartsForm
  /-- What is kept of the tree is plain code without types. -/
  bare : n.isErased = false → n.untyped.Every (fun m => m.isBare = true)

/-- Types are all that there is to lower in the slot. -/
def Slot.OnlyTyped (k : Nat) (s : Slot) : Prop := ∀ m ∈ s.nodes, m.OnlyTyped k

/-- The nodes that take the place are written as what is left of the node, and are none if nothing is left. -/
structure Replacement.Leaves (n : Node) (r : Replacement) : Prop where
  spelling : r.nodes.flatMap Node.spelling = n.leftSpelling
  erased : n.isErased = true → r.nodes = []

theorem Replacement.leaves_one (h : n.isErased = false) (hm : m.spelling = n.leftSpelling) :
    (Replacement.one m).Leaves n :=
  ⟨by rw [nodes, List.flatMap_singleton]; exact hm, fun herased => absurd herased (by simp [h])⟩

theorem Replacement.leaves_removed (h : n.isErased = true) : Replacement.removed.Leaves n :=
  ⟨(Node.leftSpelling_of_isErased h).symm, fun _ => rfl⟩

namespace Node.OnlyTyped

theorem stands {kind : NodeKind} (h : n.OnlyTyped k) (hk : n.kind = kind) :
    n.Stands OpenForm Demand.any (.only kind) k :=
  ⟨beq_iff_eq.2 hk, h.sound⟩

theorem isBare (h : n.OnlyTyped k) (hn : n.isErased = false) : n.untyped.isBare = true := (h.bare hn).self

/-- **Types are all that there is to lower in a slot that is not left out.** -/
theorem part {slots : List Slot} (h : n.OnlyTyped k) (hn : n.isErased = false) (i : Nat) (hs : n.slots = slots)
    (hi : slots[i]? = some s) (hkeep : n.kind.leavesOut i = false) : s.OnlyTyped k := by
  intro m hm
  subst hs
  have hchild : m ∈ n.children := List.mem_flatMap.2 ⟨s, List.mem_of_getElem? hi, hm⟩
  exact ⟨Every.child h.sound hchild, h.starts.child hchild,
    fun hkept => (h.bare hn).child (Node.untyped_mem_children hi hkeep hm hkept)⟩

/-- A kind that is never bare is erased. -/
theorem isErased_of_kind (h : n.OnlyTyped k)
    (hk : n.kind ∈ [.classDeclaration, .enumDeclaration, .moduleDeclaration, .simpleArrowFunctionExpression,
      .parenthesizedArrowFunctionExpression, .superExpression]) : n.isErased = true := by
  by_contra hkept
  have hbare := h.isBare (by simpa using hkept)
  unfold Node.isBare at hbare
  rw [Node.kind_untyped] at hbare
  simp only [List.mem_cons, List.not_mem_nil, or_false] at hk
  rcases hk with hk | hk | hk | hk | hk | hk <;> rw [hk] at hbare <;> cases hbare

theorem not_super (h : n.OnlyTyped k) : n.kind ≠ .superExpression := fun hk => by
  have herased := h.isErased_of_kind (by simp [hk])
  unfold Node.isErased at herased
  rw [hk] at herased
  cases herased

end Node.OnlyTyped

theorem Node.leftSpelling_eq {kind : NodeKind} {slots : List Slot} (h : n.isErased = false) (hk : n.kind = kind)
    (hs : n.slots = slots) : n.leftSpelling = (Slot.untypedFrom kind 0 slots).flatMap Slot.spelling := by
  subst hk hs
  rw [Node.leftSpelling_of_not_isErased h]
  cases n
  exact Node.spelling_mk ..

@[simp] theorem Slot.spelling_untyped_ofNode? (o : Option Node) :
    (Slot.ofNode? o).untyped.spelling = o.toList.flatMap Node.leftSpelling := by
  cases o with
  | none => rfl
  | some n => simp [Slot.ofNode?]

/-- Nothing is left of an annotation. -/
theorem leftSpelling_typeClause {o : Option Node}
    (h : ∀ m, o = some m → m.Stands OpenForm Demand.any (.only .typeClause) k) :
    o.toList.flatMap Node.leftSpelling = [] := by
  cases o with
  | none => rfl
  | some m =>
    have herased : m.isErased = true := by simp [Node.isErased, (h m rfl).kind_eq]
    simp [Node.leftSpelling_of_isErased herased]

/-! ## Quiet drafts -/

/-- Outside of arrow functions the draft notes nothing, and what it makes has the property. -/
def Draft.Quiet {α : Type} (d : Draft α) (P : α → Prop) : Prop := ∀ a m, d false = some (a, m) → m = .none ∧ P a

namespace Draft.Quiet

variable {α β : Type} {P : α → Prop} {Q : β → Prop} {d : Draft α}

theorem pure {a : α} (h : P a) : (Pure.pure a : Draft α).Quiet P := fun _ _ heq => by cases heq; exact ⟨rfl, h⟩

theorem fail : (Draft.fail : Draft α).Quiet P := fun _ _ heq => by cases heq

theorem make {w : Fresh α} (h : P (w 0).1) : (Draft.make w).Quiet P := fun _ _ heq => by cases heq; exact ⟨rfl, h⟩

/-- **Two quiet steps are quiet.** -/
theorem bind {f : α → Draft β} (hd : d.Quiet P) (hf : ∀ a, P a → (f a).Quiet Q) : (d >>= f).Quiet Q := by
  intro b m heq
  rw [Draft.bind_apply] at heq
  obtain ⟨⟨a, m₁⟩, ha, heq⟩ := Option.bind_eq_some_iff.1 heq
  obtain ⟨⟨b', m₂⟩, hb, heq⟩ := Option.map_eq_some_iff.1 heq
  cases heq
  obtain ⟨rfl, hP⟩ := hd _ _ ha
  obtain ⟨rfl, hQ⟩ := hf a hP _ _ hb
  exact ⟨rfl, hQ⟩

theorem mono {P' : α → Prop} (hd : d.Quiet P) (h : ∀ a, P a → P' a) : d.Quiet P' :=
  fun a m heq => ⟨(hd a m heq).1, h a (hd a m heq).2⟩

/-- What is given in any place is given here. -/
theorem and {P' : α → Prop} (hd : d.Quiet P) (h : d.Gives P') : d.Quiet (fun a => P a ∧ P' a) :=
  fun a m heq => ⟨(hd a m heq).1, (hd a m heq).2, h _ _ _ heq⟩

theorem view {α : Type} [NodeView α] {n : Node} {v : α} {f : α → Draft β} (hv : n.view? α = some v)
    (hf : (f v).Quiet Q) : (Draft.view α n >>= f).Quiet Q := by
  unfold Draft.view
  rw [hv]
  exact (pure (P := (· = v)) rfl).bind (fun _ heq => heq ▸ hf)

/-- A node that reads as no view is a dead end. -/
theorem viewAny {α : Type} [NodeView α] {n : Node} {f : α → Draft β} (hf : ∀ v, n.view? α = some v → (f v).Quiet Q) :
    (Draft.view α n >>= f).Quiet Q := by
  cases hv : n.view? α with
  | some v => exact view hv (hf v hv)
  | none =>
    unfold Draft.view
    rw [hv]
    exact bind (P := fun _ => False) fail (fun _ hfalse => hfalse.elim)

/-- A quiet part captures nothing. -/
theorem inScope (hd : d.Quiet P) : (Draft.inScope d).Quiet (fun p => P p.1 ∧ p.2 = false) := by
  intro p m heq
  obtain ⟨⟨a, m'⟩, ha, heq⟩ := Option.map_eq_some_iff.1 heq
  cases heq
  obtain ⟨rfl, hP⟩ := hd _ _ ha
  exact ⟨rfl, hP, rfl⟩

theorem mapM {R : α → β → Prop} {f : α → Draft β} : ∀ {as : List α}, (∀ a ∈ as, (f a).Quiet (R a)) →
    (as.mapM f).Quiet (List.Forall₂ R as)
  | [], _ => by
    rw [List.mapM_nil]
    exact .pure .nil
  | a :: as, h => by
    rw [List.mapM_cons]
    exact (h a (List.mem_cons_self ..)).bind (fun b hb =>
      (mapM (fun a' ha' => h a' (List.mem_cons_of_mem _ ha'))).bind (fun bs hbs => .pure (.cons hb hbs)))

end Draft.Quiet

namespace Draft

/-- One new node takes the place of one that is kept. -/
theorem leaves_made {w : Fresh Node} (hkept : n.isErased = false) (h : (w 0).1.spelling = n.leftSpelling) :
    (do return .one (← make w) : Draft Replacement).Quiet (Replacement.Leaves n) :=
  (Quiet.make (P := fun m => m.spelling = n.leftSpelling) h).bind (fun _ hm =>
    .pure (Replacement.leaves_one hkept hm))

/-- Whatever the draft makes of a tree is written as what is left of the tree. -/
def KeepsSpelling (visit : Node → Draft Replacement) : Prop :=
  ∀ (n : Node) (k : Nat), n.OnlyTyped k → (visit n).Quiet (fun r => r.Leaves n)

section Rules

variable {visit : Node → Draft Replacement} (h : KeepsSpelling visit)

/-! ## Walking -/

theorem quiet_single (optional : Bool) (r : Replacement) : (single optional r).Quiet (fun o => o.toList = r.nodes) := by
  cases r with
  | one m => exact .pure rfl
  | removed =>
    cases optional with
    | true => exact .pure rfl
    | false => exact .fail
  | many ms =>
    rcases ms with _ | ⟨m, _ | _⟩
    · exact .fail
    · exact .pure rfl
    · exact .fail

include h

theorem leaves_walkList : ∀ {ns : List Node}, (∀ n ∈ ns, n.OnlyTyped k) →
    (walkList visit ns).Quiet (fun ms => ms.flatMap Node.spelling = ns.flatMap Node.leftSpelling)
  | [], _ => .pure rfl
  | n :: ns, hns => by
    obtain ⟨hn, hns⟩ := List.forall_mem_cons.1 hns
    refine (h n k hn).bind (fun r hr => (leaves_walkList hns).bind (fun ms hms => .pure ?_))
    rw [List.flatMap_append, hr.spelling, hms, List.flatMap_cons]

/-- A member of a separated list stays one node, so it is kept. -/
theorem leaves_walkMember (hn : n.OnlyTyped k) :
    (walkMember visit n).Quiet (fun m => n.isErased = false ∧ m.spelling = n.leftSpelling) := by
  refine (h n k hn).bind (fun r hr => (quiet_single false r).bind (fun o ho => ?_))
  cases o with
  | none => exact .fail
  | some m =>
    have hnodes : r.nodes = [m] := ho.symm
    refine .pure ⟨?_, ?_⟩
    · cases herased : n.isErased with
      | false => rfl
      | true =>
        rw [hr.erased herased] at hnodes
        cases hnodes
    · rw [← hr.spelling, hnodes, List.flatMap_singleton]

theorem leaves_walkSlot (optional : Bool) (hs : s.OnlyTyped k) :
    (walkSlot visit optional s).Quiet (fun s' => s'.spelling = s.untyped.spelling) := by
  cases s with
  | absent => exact .pure rfl
  | token t => exact .pure rfl
  | node n =>
    refine (h n k (hs n (List.mem_singleton.2 rfl))).bind (fun r hr => (quiet_single optional r).bind
      (fun o ho => .pure ?_))
    rw [Slot.spelling_ofNode?, ho, hr.spelling, Slot.spelling_untyped_node]
  | list ns =>
    refine (leaves_walkList h (show ∀ n ∈ ns, n.OnlyTyped k from hs)).bind (fun ms hms => .pure ?_)
    rw [Slot.spelling_list, hms, Slot.spelling_untyped_list]
  | separated ns ts =>
    have hwalked : (ns.mapM (walkMember visit)).Quiet
        (List.Forall₂ (fun n m => n.isErased = false ∧ m.spelling = n.leftSpelling) ns) :=
      Quiet.mapM (fun n hn => leaves_walkMember h (hs n hn))
    refine hwalked.bind (fun ms hms => .pure ?_)
    have heach : (∀ n ∈ ns, n.isErased = false) ∧ ms.map Node.spelling = ns.map Node.leftSpelling := by
      clear hs hwalked
      induction hms with
      | nil => exact ⟨fun _ hn => (by cases hn), rfl⟩
      | cons hm _ ih => exact ⟨List.forall_mem_cons.2 ⟨hm.1, ih.1⟩, by rw [List.map_cons, List.map_cons, hm.2, ih.2]⟩
    exact Slot.spelling_separated_of_kept heach.1 heach.2

theorem leaves_walkSlots (parent : NodeKind) : ∀ (index : Nat) {slots : List Slot}, (∀ s ∈ slots, s.OnlyTyped k) →
    (walkSlots visit parent index slots).Quiet (List.Forall₂ (fun s s' => s'.spelling = s.untyped.spelling) slots)
  | _, [], _ => .pure .nil
  | index, s :: slots, hs => by
    obtain ⟨hs, hslots⟩ := List.forall_mem_cons.1 hs
    exact (leaves_walkSlot h _ hs).bind (fun s' hs' => (leaves_walkSlots parent (index + 1) hslots).bind
      (fun ss hss => .pure (.cons hs' hss)))

/-- What stands in a node is walked through slot by slot. -/
theorem leaves_walk_slots (hs : ∀ s ∈ n.slots, s.OnlyTyped k) :
    (walk visit n).Quiet (fun m => m.kind = n.kind ∧
      List.Forall₂ (fun s s' => s'.spelling = s.untyped.spelling) n.slots m.slots) :=
  (leaves_walkSlots h n.kind 0 hs).bind (fun _ hss => .make ⟨rfl, hss⟩)

omit h in
theorem flatMap_spelling_eq {slots slots' : List Slot}
    (hs : List.Forall₂ (fun s s' : Slot => s'.spelling = s.untyped.spelling) slots slots') :
    slots'.flatMap Slot.spelling = (slots.map Slot.untyped).flatMap Slot.spelling := by
  induction hs with
  | nil => rfl
  | cons h _ ih => rw [List.flatMap_cons, h, ih, List.map_cons, List.flatMap_cons]

/-- **A form that is walked through is written as what is left of it**, if its kind leaves out no slot. -/
theorem leaves_walk (hn : n.OnlyTyped k) (hkept : n.isErased = false) (hkeep : ∀ i, n.kind.leavesOut i = false) :
    (walk visit n).Quiet (fun m => (m.kind = n.kind ∧
      List.Forall₂ (fun s s' => s'.spelling = s.untyped.spelling) n.slots m.slots) ∧ m.spelling = n.leftSpelling) := by
  have hslots : ∀ s ∈ n.slots, s.OnlyTyped k := fun s hs =>
    let ⟨i, hi⟩ := List.mem_iff_getElem?.1 hs
    hn.part hkept i rfl hi (hkeep i)
  refine (leaves_walk_slots h hslots).mono (fun m hm => ⟨hm, ?_⟩)
  rw [Node.spelling_eq, flatMap_spelling_eq hm.2, Node.leftSpelling_eq hkept rfl rfl, Slot.untypedFrom_eq_map hkeep]

/-- **What must stay one node is written as what is left of it.** -/
theorem leaves_lower (hn : n.OnlyTyped k) : (lower visit n).Quiet (fun m => m.spelling = n.leftSpelling) := by
  have hone : ∀ m : Node, ∀ r : Replacement, r.Leaves n → r.nodes = [m] → m.spelling = n.leftSpelling :=
    fun m r hr hnodes => by rw [← hr.spelling, hnodes, List.flatMap_singleton]
  refine (h n k hn).bind (fun r hr => ?_)
  split
  · exact .pure (hone _ _ hr rfl)
  · exact .pure (hone _ _ hr rfl)
  · exact .fail

/-- So is what may be left out, where it is there. -/
theorem leaves_lowerOption {o : Option Node} (ho : ∀ n ∈ o, n.OnlyTyped k) :
    (o.mapM (lower visit)).Quiet (fun o' => o'.toList.flatMap Node.spelling = o.toList.flatMap Node.leftSpelling) := by
  cases o with
  | none => exact .pure rfl
  | some n =>
    show (some <$> lower visit n).Quiet _
    rw [map_eq_pure_bind]
    exact (leaves_lower h (ho n rfl)).bind (fun m hm => .pure (by simpa using hm))

end Rules

end Draft

end Downlevel
