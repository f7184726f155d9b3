import Downlevel.Proofs.Outline.Basic
import Downlevel.Proofs.Outline.Draft
/-!
# Proofs.Outline.Gives — what a draft has made, if it goes on

`d.Gives P` says that whatever the draft makes has the property `P`, in an arrow function or not.
-/
namespace Downlevel

/-- Whatever the draft makes has the property. -/
def Draft.Gives {α : Type} (d : Draft α) (P : α → Prop) : Prop := ∀ inArrow a m, d inArrow = some (a, m) → P a

namespace Draft.Gives

variable {α β : Type} {P : α → Prop} {Q : β → Prop} {d : Draft α}

theorem pure {a : α} (h : P a) : (Pure.pure a : Draft α).Gives P := fun _ _ _ heq => by cases heq; exact h

theorem fail : (Draft.fail : Draft α).Gives P := fun _ _ _ heq => by cases heq

theorem any : d.Gives (fun _ => True) := fun _ _ _ _ => trivial

theorem make {w : Fresh α} (h : P (w 0).1) : (Draft.make w).Gives P := fun _ _ _ heq => by cases heq; exact h

/-- **What two steps make is what the second makes of what the first has made.** -/
theorem bind {f : α → Draft β} (hd : d.Gives P) (hf : ∀ a, P a → (f a).Gives Q) : (d >>= f).Gives Q := by
  intro inArrow b m heq
  rw [Draft.bind_apply] at heq
  obtain ⟨⟨a, m₁⟩, ha, heq⟩ := Option.bind_eq_some_iff.1 heq
  obtain ⟨⟨b', m₂⟩, hb, heq⟩ := Option.map_eq_some_iff.1 heq
  cases heq
  exact hf a (hd _ _ _ ha) _ _ _ hb

/-- What two steps make, whatever the first has made. -/
theorem andThen {f : α → Draft β} (hf : ∀ a, (f a).Gives Q) : (d >>= f).Gives Q := any.bind (fun a _ => hf a)

theorem mono {P' : α → Prop} (hd : d.Gives P) (h : ∀ a, P a → P' a) : d.Gives P' :=
  fun i a m heq => h a (hd i a m heq)

theorem inArrow (hd : d.Gives P) : (Draft.inArrow d).Gives P := fun _ a m heq => hd true a m heq

theorem view {α : Type} [NodeView α] {n : Node} {v : α} (hv : n.view? α = some v) : (Draft.view α n).Gives (· = v) := by
  unfold Draft.view
  rw [hv]
  exact pure rfl

end Draft.Gives

/-! ## Trees that start with characters -/

/-- The first token of the tree has characters. -/
def Node.Opens (n : Node) : Prop := ∃ t ts, n.tokens = t :: ts ∧ t.text ≠ []

/-- The first token of a tree that starts with characters is the one that it starts with. -/
theorem Node.Opens.firstToken? {n : Node} (h : n.Opens) : n.firstToken? = n.tokens.head? := by
  obtain ⟨t, ts, htokens, ht⟩ := h
  have hwidth : 0 < t.fullWidth := by
    have hpos : 0 < Text.width t.text := Nat.pos_of_ne_zero (fun h0 => ht (Text.width_eq_zero.1 h0))
    exact Nat.lt_of_lt_of_le hpos (Nat.le_trans (Nat.le_add_left _ _) (Nat.le_add_right _ _))
  unfold Node.firstToken?
  rw [htokens, List.find?_cons_of_pos (by simpa using hwidth)]
  rfl

/-- What computes a value starts with a token that has characters. -/
def OpenForm (n : Node) : Prop := n.kind.isExpression = true → n.Opens

namespace Node

variable {n : Node} {t : Token} {id : ObjectId} {kind : NodeKind} {slots : List Slot}

theorem opens_of_token (h : t.text ≠ []) : (Node.mk id kind (.token t :: slots)).Opens :=
  ⟨t, slots.flatMap Slot.tokens, by rw [Node.tokens_mk, List.flatMap_cons, Slot.tokens_token]; rfl, h⟩

theorem opens_of_node (h : n.Opens) : (Node.mk id kind (.node n :: slots)).Opens := by
  obtain ⟨t, ts, htokens, ht⟩ := h
  exact ⟨t, ts ++ slots.flatMap Slot.tokens, by
    rw [Node.tokens_mk, List.flatMap_cons, Slot.tokens_node, htokens, List.cons_append], ht⟩

/-- The token that a tree starts with has characters if the tree starts so. -/
theorem Opens.token (h : (Node.mk id kind (.token t :: slots)).Opens) : t.text ≠ [] := by
  obtain ⟨t', ts, htokens, ht⟩ := h
  rw [Node.tokens_mk, List.flatMap_cons, Slot.tokens_token, List.singleton_append] at htokens
  exact (List.cons.inj htokens).1 ▸ ht

end Node

/-- **The tokens of an outline are the outlines of the tokens.** -/
theorem Node.tokens_outline (n : Node) : n.outline.tokens = n.tokens.map Token.outline := by
  have hslot : ∀ s : Slot, (∀ m ∈ s.nodes, m.outline.tokens = m.tokens.map Token.outline) →
      s.outline.tokens = s.tokens.map Token.outline := by
    intro s hs
    cases s with
    | absent => rfl
    | token t => rfl
    | node m => exact hs m (List.mem_singleton.2 rfl)
    | list ms =>
      rw [Slot.outline_list, Slot.tokens_list, Slot.tokens_list, List.flatMap_map, List.map_flatMap]
      exact List.flatMap_congr hs
    | separated ms ts =>
      rw [Slot.outline_separated, Slot.tokens_separated, Slot.tokens_separated, List.map_flatten, map_interleave,
        List.map_map, List.map_map, List.map_map, List.map_map]
      exact congrArg List.flatten (congrArg₂ interleave (List.map_congr_left hs) rfl)
  induction n using Node.induction with
  | step n ih =>
    obtain ⟨id, kind, slots⟩ := n
    rw [Node.outline_mk, Node.tokens_mk, Node.tokens_mk, List.flatMap_map, List.map_flatMap]
    exact List.flatMap_congr (fun s hs => hslot s (fun m hm => ih m (List.mem_flatMap.2 ⟨s, hs, hm⟩)))

theorem Node.opens_outline {n : Node} : n.outline.Opens ↔ n.Opens := by
  unfold Node.Opens
  rw [Node.tokens_outline]
  constructor
  · rintro ⟨t', ts', htokens, ht⟩
    obtain ⟨t, ts, heq, rfl, -⟩ := List.map_eq_cons_iff.1 htokens
    exact ⟨t, ts, heq, ht⟩
  · rintro ⟨t, ts, htokens, ht⟩
    exact ⟨t.outline, ts.map Token.outline, by rw [htokens, List.map_cons], ht⟩

theorem openForm_outline {n : Node} : OpenForm n.outline ↔ OpenForm n := by
  unfold OpenForm
  rw [Node.kind_outline, Node.opens_outline]

/-! ## Outlines that fit -/

theorem SlotSort.admits_outline {sort : SlotSort} {s : Slot} : sort.Admits s.outline ↔ sort.Admits s := by
  cases s with
  | absent => rfl
  | token t => cases sort <;> rfl
  | node n => cases sort <;> simp [SlotSort.Admits]
  | list ns => cases sort <;> simp [SlotSort.Admits]
  | separated ns ts => cases sort <;> simp [SlotSort.Admits]

theorem Node.fitsKind_outline {n : Node} : n.outline.FitsKind ↔ n.FitsKind := by
  unfold Node.FitsKind
  rw [Node.kind_outline, Node.slots_outline, List.forall₂_map_right_iff]
  constructor
  · exact List.Forall₂.imp (fun _ _ h => SlotSort.admits_outline.1 h)
  · exact List.Forall₂.imp (fun _ _ h => SlotSort.admits_outline.2 h)

/-- Nothing is asked of trivia and characters. -/
def Demand.any : Demand := ⟨fun _ => True, fun _ _ => True⟩

/-- An outline has no number that is not zero. -/
theorem Node.sound_outline {n : Node} (hfits : n.WellFormed) (hopens : n.Every OpenForm) :
    n.outline.Sound OpenForm Demand.any 1 := by
  refine Node.sound_of (Node.every_outline.2 (hfits.mono (fun _ hm => Node.fitsKind_outline.2 hm)))
    (Node.every_outline.2 (hopens.mono (fun _ hm => openForm_outline.2 hm))) (Node.every_outline.2 (fun m _ => ?_))
    (fun t ht => ?_)
  · show m.outline.id < 1
    rw [Node.outline_eq]
    exact Nat.one_pos
  · rw [Node.tokens_outline] at ht
    obtain ⟨u, -, rfl⟩ := List.mem_map.1 ht
    exact ⟨Nat.one_pos, fun _ _ => trivial, fun _ _ => trivial, trivial⟩

end Downlevel
