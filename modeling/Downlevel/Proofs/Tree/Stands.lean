import Downlevel.Proofs.Tree.Sorts
import Downlevel.Proofs.Trivia.Demand
/-!
# Proofs.Tree.Stands — nodes and slots that may stand at a place

What lowering is given and what it makes are told in the same terms: a node stands at a place of a class if its kind is
one of the class, every node of it fits its kind and has a form that is allowed, every token of it meets a demand, and
every object of it is older than `k`, the next number of the supply (`Node.Stands`).  Trees that are made have no form
of the dialect (`Node.Plain`).  A slot stands likewise (`Slot.Stands`), and a node of a kind stands once its slots do
(`Slot.Row.node`).
-/
namespace Downlevel

/-! ## What a slot holds -/

namespace Slot

@[simp] theorem nodes_absent : Slot.absent.nodes = [] := rfl

@[simp] theorem nodes_token (t : Token) : (Slot.token t).nodes = [] := rfl

@[simp] theorem nodes_node (n : Node) : (Slot.node n).nodes = [n] := rfl

@[simp] theorem nodes_list (ns : List Node) : (Slot.list ns).nodes = ns := rfl

@[simp] theorem nodes_separated (ns : List Node) (ts : List Token) : (Slot.separated ns ts).nodes = ns := rfl

@[simp] theorem nodes_ofToken? (o : Option Token) : (Slot.ofToken? o).nodes = [] := by cases o <;> rfl

@[simp] theorem nodes_ofNode? (o : Option Node) : (Slot.ofNode? o).nodes = o.toList := by cases o <;> rfl

end Slot

/-! ## Tokens of a tree -/

/-- The tokens that a slot holds itself, not in a node. -/
def Slot.ownTokens : Slot → List Token
  | .token t => [t]
  | .separated _ separators => separators
  | _ => []

theorem mem_interleave {α : Type} {a : α} : ∀ {as bs : List α}, a ∈ interleave as bs ↔ a ∈ as ∨ a ∈ bs
  | [], bs => by simp [interleave]
  | x :: as, [] => by simp [interleave]
  | x :: as, y :: bs => by
    have ih : a ∈ interleave as bs ↔ a ∈ as ∨ a ∈ bs := mem_interleave
    simp only [interleave, List.mem_cons, ih]
    constructor
    · rintro (h | h | h | h)
      · exact .inl (.inl h)
      · exact .inr (.inl h)
      · exact .inl (.inr h)
      · exact .inr (.inr h)
    · rintro ((h | h) | (h | h))
      · exact .inl h
      · exact .inr (.inr (.inl h))
      · exact .inr (.inl h)
      · exact .inr (.inr (.inr h))

theorem map_interleave {α β : Type} (f : α → β) : ∀ as bs : List α,
    (interleave as bs).map f = interleave (as.map f) (bs.map f)
  | [], _ => rfl
  | _ :: _, [] => rfl
  | a :: as, b :: bs => by simp only [interleave, List.map_cons, map_interleave f as bs]

theorem length_interleave {α : Type} : ∀ as bs : List α, (interleave as bs).length = as.length + bs.length
  | [], bs => (Nat.zero_add _).symm
  | a :: as, [] => rfl
  | a :: as, b :: bs => by
    rw [interleave, List.length_cons, List.length_cons, length_interleave as bs, List.length_cons, List.length_cons]
    omega

theorem Slot.mem_tokens {s : Slot} {t : Token} :
    t ∈ s.tokens ↔ t ∈ s.ownTokens ∨ ∃ n ∈ s.nodes, t ∈ n.tokens := by
  cases s with
  | absent => simp [Slot.ownTokens, Slot.nodes]
  | token u => simp [Slot.ownTokens, Slot.nodes]
  | node n => simp [Slot.ownTokens, Slot.nodes]
  | list ns => simp [Slot.ownTokens, Slot.nodes]
  | separated ns ss =>
    simp only [Slot.tokens_separated, List.mem_flatten, mem_interleave, Slot.ownTokens, Slot.nodes]
    constructor
    · rintro ⟨l, h | h, ht⟩
      · obtain ⟨n, hn, rfl⟩ := List.mem_map.1 h
        exact .inr ⟨n, hn, ht⟩
      · obtain ⟨u, hu, rfl⟩ := List.mem_map.1 h
        rw [List.mem_singleton.1 ht]
        exact .inl hu
    · rintro (h | ⟨n, hn, ht⟩)
      · exact ⟨[t], .inr (List.mem_map.2 ⟨t, h, rfl⟩), List.mem_singleton.2 rfl⟩
      · exact ⟨n.tokens, .inl (List.mem_map.2 ⟨n, hn, rfl⟩), ht⟩

theorem Node.mem_tokens {n : Node} {t : Token} : t ∈ n.tokens ↔ ∃ s ∈ n.slots, t ∈ s.tokens := by
  obtain ⟨id, kind, slots⟩ := n
  rw [Node.tokens_mk, List.mem_flatMap]
  rfl

/-- **Every token of a tree is held by a slot of one of its nodes.** -/
theorem Node.every_tokens {P : Token → Prop} (n : Node) :
    (∀ t ∈ n.tokens, P t) ↔ n.Every (fun m => ∀ s ∈ m.slots, ∀ t ∈ s.ownTokens, P t) := by
  induction n using Node.induction with
  | step n ih =>
    rw [Node.every_iff]
    constructor
    · intro h
      refine ⟨fun s hs t ht => h t (Node.mem_tokens.2 ⟨s, hs, Slot.mem_tokens.2 (.inl ht)⟩), fun c hc => ?_⟩
      obtain ⟨s, hs, hcs⟩ := List.mem_flatMap.1 hc
      exact (ih c hc).1 (fun t ht => h t (Node.mem_tokens.2 ⟨s, hs, Slot.mem_tokens.2 (.inr ⟨c, hcs, ht⟩)⟩))
    · rintro ⟨hown, hchildren⟩ t ht
      obtain ⟨s, hs, ht⟩ := Node.mem_tokens.1 ht
      rcases Slot.mem_tokens.1 ht with ht | ⟨c, hc, ht⟩
      · exact hown s hs t ht
      · have hcn : c ∈ n.children := List.mem_flatMap.2 ⟨s, hs, hc⟩
        exact (ih c hcn).2 (hchildren c hcn) t ht

/-! ## Standing at a place -/

/-- The token meets a demand and is older than the number `k`. -/
structure Token.Meets (t : Token) (L : Demand) (k : Nat) : Prop where
  id_lt : t.id < k
  leading : t.leading.Meets L
  trailing : t.trailing.Meets L
  text : L.text t.kind t.text

theorem Token.Meets.up {t : Token} {L : Demand} {i k : Nat} (h : t.Meets L i) (hi : i ≤ k) :
    t.Meets L k := ⟨Nat.lt_of_lt_of_le h.id_lt hi, h.leading, h.trailing, h.text⟩

/-- What is asked of one node: slots that fit its kind, a form that is allowed, a number that was given out, and tokens
that meet the demand. -/
structure Node.Local (F : Node → Prop) (L : Demand) (k : Nat) (n : Node) : Prop where
  id_lt : n.id < k
  fits : n.FitsKind
  form : F n
  tokens : ∀ s ∈ n.slots, ∀ t ∈ s.ownTokens, t.Meets L k

/-- Every node of the tree is what is asked for. -/
def Node.Sound (F : Node → Prop) (L : Demand) (k : Nat) (n : Node) : Prop := n.Every (Node.Local F L k)

/-- The tree may stand where a node of a class belongs. -/
structure Node.Stands (F : Node → Prop) (L : Demand) (c : NodeClass) (k : Nat) (n : Node) : Prop where
  kind : c.includes n.kind = true
  sound : n.Sound F L k

/-- The slot may stand where a slot of a sort belongs. -/
structure Slot.Stands (F : Node → Prop) (L : Demand) (k : Nat) (sort : SlotSort) (s : Slot) : Prop where
  admits : sort.Admits s
  nodes : ∀ n ∈ s.nodes, n.Sound F L k
  tokens : ∀ t ∈ s.ownTokens, t.Meets L k

/-- Slots in a row that may stand where slots of the given sorts belong. -/
abbrev Slot.Row (F : Node → Prop) (L : Demand) (k : Nat) (sorts : List SlotSort) (slots : List Slot) : Prop :=
  List.Forall₂ (Slot.Stands F L k) sorts slots

/-- No form of the dialect is allowed. -/
def PlainForm (n : Node) : Prop := n.isDialectForm = false

/-- A tree of plain code. -/
abbrev Node.Plain := Node.Stands PlainForm

variable {F : Node → Prop} {L : Demand} {c c' : NodeClass} {sort : SlotSort} {sorts : List SlotSort} {i k : Nat}
  {n : Node} {s : Slot} {slots : List Slot} {t : Token}

theorem Node.Sound.up (h : n.Sound F L i) (hi : i ≤ k) : n.Sound F L k :=
  Node.Every.mono h (fun _ hm =>
    ⟨Nat.lt_of_lt_of_le hm.id_lt hi, hm.fits, hm.form, fun s hs t ht => (hm.tokens s hs t ht).up (by omega)⟩)

theorem Node.Sound.wellFormed (h : n.Sound F L k) : n.WellFormed := Node.Every.mono h (fun _ hm => hm.fits)

theorem Node.Sound.tokens (h : n.Sound F L k) : ∀ t ∈ n.tokens, t.Meets L k :=
  (Node.every_tokens n).2 (Node.Every.mono h (fun _ hm => hm.tokens))

/-- **A tree is sound if it is well-formed**, every node has an allowed form and is old enough, and so are the tokens. -/
theorem Node.sound_of (hfits : n.WellFormed) (hform : n.Every F) (hid : n.Every (fun m => m.id < k))
    (htokens : ∀ t ∈ n.tokens, t.Meets L k) : n.Sound F L k :=
  fun m hm => ⟨hid m hm, hfits m hm, hform m hm, (Node.every_tokens n).1 htokens m hm⟩

namespace Node.Stands

theorem up (h : n.Stands F L c i) (hi : i ≤ k) : n.Stands F L c k := ⟨h.kind, h.sound.up (by omega)⟩

theorem widen (h : n.Stands F L c k) (hc : ∀ k, c.includes k = true → c'.includes k = true) : n.Stands F L c' k :=
  ⟨hc _ h.kind, h.sound⟩

theorem kind_eq {kind : NodeKind} (h : n.Stands F L (.only kind) k) : n.kind = kind := eq_of_beq h.kind

theorem like {F' : Node → Prop} {L' : Demand} {m : Node} (h : n.Stands F L (.only m.kind) k)
    (hm : m.Stands F' L' c i) : n.Stands F L c k := ⟨by rw [h.kind_eq]; exact hm.kind, h.sound⟩

theorem fits (h : n.Stands F L c k) : n.FitsKind := (Node.Every.self h.sound).fits

theorem form (h : n.Stands F L c k) : F n := (Node.Every.self h.sound).form

theorem id_lt (h : n.Stands F L c k) : n.id < k := (Node.Every.self h.sound).id_lt

theorem tokens (h : n.Stands F L c k) : ∀ t ∈ n.tokens, t.Meets L k := h.sound.tokens

theorem slot (h : n.Stands F L c i) (hi : i ≤ k) : Slot.Stands F L k (.node c) (.node n) where
  admits := h.kind
  nodes := fun m hm => by rw [List.mem_singleton.1 hm]; exact h.sound.up (by omega)
  tokens := fun t ht => by cases ht

/-- The slots of a node stand where its kind has them. -/
theorem row (h : n.Stands F L c k) : Slot.Row F L k n.kind.sorts n.slots := by
  have hown := (Node.Every.self h.sound).tokens
  have hnodes : ∀ s ∈ n.slots, ∀ m ∈ s.nodes, m.Sound F L k := fun s hs m hm =>
    Node.Every.child h.sound (List.mem_flatMap.2 ⟨s, hs, hm⟩)
  have hall : ∀ (sorts : List SlotSort) (slots : List Slot), List.Forall₂ SlotSort.Admits sorts slots →
      (∀ s ∈ slots, (∀ m ∈ s.nodes, m.Sound F L k) ∧ ∀ t ∈ s.ownTokens, t.Meets L k) →
      Slot.Row F L k sorts slots := by
    intro sorts slots hadmits
    induction hadmits with
    | nil => exact fun _ => .nil
    | cons ha _ ih =>
      intro hs
      obtain ⟨hm, ht⟩ := hs _ (List.mem_cons_self ..)
      exact .cons ⟨ha, hm, ht⟩ (ih (fun s hsm => hs s (List.mem_cons_of_mem _ hsm)))
  exact hall _ _ h.fits (fun s hs => ⟨hnodes s hs, hown s hs⟩)

end Node.Stands

theorem Slot.Stands.up (h : s.Stands F L i sort) (hi : i ≤ k) : s.Stands F L k sort :=
  ⟨h.admits, fun n hn => (h.nodes n hn).up (by omega), fun t ht => (h.tokens t ht).up (by omega)⟩

/-! ## What a slot of a sort holds -/

namespace Slot

theorem Row.up (h : Slot.Row F L i sorts slots) (hi : i ≤ k) : Slot.Row F L k sorts slots :=
  List.Forall₂.imp (fun _ _ hs => hs.up (by omega)) h

@[simp] theorem row_nil : Slot.Row F L k [] [] := .nil

@[simp] theorem row_cons :
    Slot.Row F L k (sort :: sorts) (s :: slots) ↔ s.Stands F L k sort ∧ Slot.Row F L k sorts slots :=
  List.forall₂_cons

@[simp] theorem stands_token : Slot.Stands F L k .token (.token t) ↔ t.Meets L k := by
  constructor
  · exact fun h => h.tokens t (List.mem_singleton.2 rfl)
  · exact fun h => ⟨trivial, fun m hm => (by cases hm), fun u hu => by rw [List.mem_singleton.1 hu]; exact h⟩

@[simp] theorem stands_absentToken : Slot.Stands F L k .optionalToken .absent :=
  ⟨trivial, fun _ h => (by cases h), fun _ h => by cases h⟩

@[simp] theorem stands_ofToken? {o : Option Token} :
    Slot.Stands F L k .optionalToken (.ofToken? o) ↔ ∀ t, o = some t → t.Meets L k := by
  cases o with
  | none => simp [Slot.ofToken?]
  | some u =>
    constructor
    · rintro h t ⟨⟩
      exact h.tokens u (List.mem_singleton.2 rfl)
    · intro h
      exact ⟨trivial, fun m hm => (by cases hm), fun t ht => by rw [List.mem_singleton.1 ht]; exact h u rfl⟩

@[simp] theorem stands_node : Slot.Stands F L k (.node c) (.node n) ↔ n.Stands F L c k := by
  constructor
  · exact fun h => ⟨h.admits, h.nodes n (List.mem_singleton.2 rfl)⟩
  · exact fun h => h.slot (Nat.le_refl k)

@[simp] theorem stands_absentNode : Slot.Stands F L k (.optionalNode c) .absent :=
  ⟨trivial, fun _ h => (by cases h), fun _ h => by cases h⟩

@[simp] theorem stands_ofNode? {o : Option Node} :
    Slot.Stands F L k (.optionalNode c) (.ofNode? o) ↔ ∀ n, o = some n → n.Stands F L c k := by
  cases o with
  | none => simp [Slot.ofNode?]
  | some m =>
    constructor
    · rintro h n ⟨⟩
      exact ⟨h.admits, h.nodes m (List.mem_singleton.2 rfl)⟩
    · intro h
      have hm := (h m rfl).slot (Nat.le_refl k)
      exact ⟨hm.admits, hm.nodes, hm.tokens⟩

@[simp] theorem stands_list {ns : List Node} :
    Slot.Stands F L k (.list c) (.list ns) ↔ ∀ n ∈ ns, n.Stands F L c k := by
  constructor
  · exact fun h n hn => ⟨h.admits n hn, h.nodes n hn⟩
  · exact fun h => ⟨fun n hn => (h n hn).kind, fun n hn => (h n hn).sound, fun _ ht => by cases ht⟩

@[simp] theorem stands_separated {ns : List Node} {ts : List Token} :
    Slot.Stands F L k (.separated c) (.separated ns ts) ↔ (∀ n ∈ ns, n.Stands F L c k) ∧
      (∀ t ∈ ts, t.Meets L k) ∧ (ns = [] ∧ ts = [] ∨ ns.length = ts.length + 1) := by
  constructor
  · exact fun h => ⟨fun n hn => ⟨h.admits.1 n hn, h.nodes n hn⟩, h.tokens, h.admits.2⟩
  · exact fun h => ⟨⟨fun n hn => (h.1 n hn).kind, h.2.2⟩, fun n hn => (h.1 n hn).sound, h.2.1⟩

@[simp] theorem stands_nonempty {ns : List Node} {ts : List Token} :
    Slot.Stands F L k (.nonempty c) (.separated ns ts) ↔ (∀ n ∈ ns, n.Stands F L c k) ∧
      (∀ t ∈ ts, t.Meets L k) ∧ ns.length = ts.length + 1 := by
  constructor
  · exact fun h => ⟨fun n hn => ⟨h.admits.1 n hn, h.nodes n hn⟩, h.tokens, h.admits.2⟩
  · exact fun h => ⟨⟨fun n hn => (h.1 n hn).kind, h.2.2⟩, fun n hn => (h.1 n hn).sound, h.2.1⟩

/-- The nodes of a slot are of the class of its sort. -/
theorem Stands.members (h : s.Stands F L k sort) : ∀ n ∈ s.nodes, n.Stands F L sort.among k := by
  intro n hn
  refine ⟨?_, h.nodes n hn⟩
  have ha := h.admits
  cases s with
  | absent => cases hn
  | token t => cases hn
  | node m =>
    rw [List.mem_singleton.1 hn]
    cases sort <;> first | exact ha | exact ha.elim
  | list ns => cases sort <;> first | exact ha n hn | exact ha.elim
  | separated ns ts => cases sort <;> first | exact ha.1 n hn | exact ha.elim

/-- A token stands where another token does. -/
theorem Stands.ofToken {F' : Node → Prop} {t' : Token} (h : Slot.Stands F L i sort (.token t)) (ht : t'.Meets L k) :
    Slot.Stands F' L k sort (.token t') := by
  have ha := h.admits
  cases sort with
  | token => exact stands_token.2 ht
  | optionalToken => exact (stands_ofToken? (o := some t')).2 (fun u hu => by cases hu; exact ht)
  | _ => exact ha.elim

/-- A node stands where another node does, if it is of the class. -/
theorem Stands.ofNode {F' : Node → Prop} {m : Node} (h : Slot.Stands F L i sort (.node n))
    (hm : m.Stands F' L sort.among k) : Slot.Stands F' L k sort (.node m) := by
  have ha := h.admits
  cases sort with
  | node c => exact stands_node.2 hm
  | optionalNode c => exact (stands_ofNode? (o := some m)).2 (fun n hn => by cases hn; exact hm)
  | _ => exact ha.elim

/-- Nodes of the class stand where a list does. -/
theorem Stands.ofList {F' : Node → Prop} {ns ms : List Node} (h : Slot.Stands F L i sort (.list ns))
    (hm : ∀ m ∈ ms, m.Stands F' L sort.among k) : Slot.Stands F' L k sort (.list ms) := by
  have ha := h.admits
  cases sort with
  | list c => exact stands_list.2 hm
  | _ => exact ha.elim

/-- A separated list stands where one with as many members and separators does. -/
theorem Stands.items {F' : Node → Prop} {L' : Demand} {ns ns' : List Node} {ts ts' : List Token}
    (h : Slot.Stands F L i sort (.separated ns ts)) (hns : ns'.length = ns.length) (hts : ts'.length = ts.length)
    (hn : ∀ n ∈ ns', n.Stands F' L' sort.among k) (ht : ∀ t ∈ ts', t.Meets L' k) :
    Slot.Stands F' L' k sort (.separated ns' ts') := by
  have harity := h.admits
  cases sort with
  | separated c =>
    refine stands_separated.2 ⟨hn, ht, ?_⟩
    rcases harity.2 with ⟨rfl, rfl⟩ | harity
    · exact .inl ⟨List.length_eq_zero_iff.1 hns, List.length_eq_zero_iff.1 hts⟩
    · exact .inr (by omega)
  | nonempty c => exact stands_nonempty.2 ⟨hn, ht, by have := harity.2; omega⟩
  | _ => exact harity.elim

theorem Row.exists_sort (h : Slot.Row F L k sorts slots) : ∀ s ∈ slots, ∃ sort, s.Stands F L k sort := by
  induction h with
  | nil => exact fun s hs => by cases hs
  | cons hs _ ih =>
    intro s hsm
    rcases List.mem_cons.1 hsm with rfl | hsm
    · exact ⟨_, hs⟩
    · exact ih s hsm

/-- **Slots that stand where a kind has them make a node of that kind**, if its form is allowed. -/
theorem Row.node {kind : NodeKind} {id : ObjectId} (h : Slot.Row F L k kind.sorts slots) (hid : id < k)
    (hform : F (.mk id kind slots)) (hc : c.includes kind = true) :
    (Node.mk id kind slots).Stands F L c k where
  kind := hc
  sound := by
    refine Node.every_mk.2 ⟨⟨hid, List.Forall₂.imp (fun _ _ hs => hs.admits) h, hform, fun s hs => ?_⟩, fun s hs => ?_⟩
    · obtain ⟨sort, hsort⟩ := h.exists_sort s hs
      exact hsort.tokens
    · obtain ⟨sort, hsort⟩ := h.exists_sort s hs
      exact hsort.nodes

end Slot

theorem Token.Meets.slot (h : t.Meets L i) (hi : i ≤ k) : Slot.Stands F L k .token (.token t) :=
  Slot.stands_token.2 (h.up (by omega))

end Downlevel
