import Downlevel.Proofs.Outline.Views
import Downlevel.Proofs.Tree.Stands
import Mathlib.Logic.Function.Basic
import Mathlib.Tactic.Order
/-!
# Proofs.Outline.Registry — the objects that exist, and what they look like

Two nodes that are one object have the same outline.  A `Registry` holds the outline of each object that was given a
number so far; an object is known if it is registered as what it is (`Node.Known`), and it stays known as more objects
are made (`Node.Known.up`).  A registry says besides which token objects a tree may be made of: all new ones, and of the
old ones those that are `mine`.

`n.Shows W n'` says that `n` is known and looks like `n'`; `Records W w P` says that the registry can be told what `w`
makes from the next number on, which has the property `P` then, and `Draws W w w' R` says that it is related to what `w'`
makes from any number on.
-/
namespace Downlevel

/-- The outlines of the objects with numbers below the next one, each of a node that has what its kind asks for, and the
token objects that may be used. -/
structure Registry where
  next : ObjectId
  node : ObjectId → Node
  token : ObjectId → Token
  fits : ∀ i, (node i).matchesSchema = true
  mine : ObjectId → Prop
  mine_of_le : ∀ i, next ≤ i → mine i

namespace Registry

/-- A registry grows: numbers are given out, and no object that was registered changes. -/
instance : Preorder Registry where
  le W W' := W.next ≤ W'.next ∧ (∀ i < W.next, W'.node i = W.node i ∧ W'.token i = W.token i) ∧ W'.mine = W.mine
  le_refl W := ⟨le_rfl, fun _ _ => ⟨rfl, rfl⟩, rfl⟩
  le_trans W W' W'' h h' :=
    ⟨h.1.trans h'.1, fun i hi =>
      ⟨(h'.2.1 i (hi.trans_le h.1)).1.trans (h.2.1 i hi).1, (h'.2.1 i (hi.trans_le h.1)).2.trans (h.2.1 i hi).2⟩,
      h'.2.2.trans h.2.2⟩

variable {W W' : Registry}

theorem next_le (h : W ≤ W') : W.next ≤ W'.next := h.1

theorem node_eq (h : W ≤ W') {i : ObjectId} (hi : i < W.next) : W'.node i = W.node i := (h.2.1 i hi).1

theorem token_eq (h : W ≤ W') {i : ObjectId} (hi : i < W.next) : W'.token i = W.token i := (h.2.1 i hi).2

theorem mine_eq (h : W ≤ W') : W'.mine = W.mine := h.2.2

/-- The registry with the next number given to a node. -/
def withNode (W : Registry) (outline : Node) (h : outline.matchesSchema = true) : Registry where
  next := W.next + 1
  node := Function.update W.node W.next outline
  token := W.token
  fits i := by
    rcases eq_or_ne i W.next with rfl | hi
    · rw [Function.update_self]; exact h
    · rw [Function.update_of_ne hi]; exact W.fits i
  mine := W.mine
  mine_of_le i hi := W.mine_of_le i (Nat.le_of_succ_le hi)

/-- The registry with the next number given to a token. -/
def withToken (W : Registry) (outline : Token) : Registry where
  next := W.next + 1
  node := W.node
  token := Function.update W.token W.next outline
  fits := W.fits
  mine := W.mine
  mine_of_le i hi := W.mine_of_le i (Nat.le_of_succ_le hi)

theorem le_withNode (W : Registry) (o : Node) (h : o.matchesSchema = true) : W ≤ W.withNode o h :=
  ⟨Nat.le_succ _, fun _ hi => ⟨Function.update_of_ne (Nat.ne_of_lt hi) .., rfl⟩, rfl⟩

theorem le_withToken (W : Registry) (o : Token) : W ≤ W.withToken o :=
  ⟨Nat.le_succ _, fun _ hi => ⟨rfl, Function.update_of_ne (Nat.ne_of_lt hi) ..⟩, rfl⟩

end Registry

/-! ## Known objects -/

/-- The token is registered as what it is, and it may be used. -/
structure Token.Known (W : Registry) (t : Token) : Prop where
  id_lt : t.id < W.next
  outline : W.token t.id = t.outline
  mine : W.mine t.id

/-- Every node and token of the tree is registered as what it is. -/
structure Node.Known (W : Registry) (n : Node) : Prop where
  nodes : n.Every (fun m => m.id < W.next ∧ W.node m.id = m.outline)
  tokens : ∀ t ∈ n.tokens, t.Known W

/-- Everything that the slot holds is registered as what it is. -/
structure Slot.Known (W : Registry) (s : Slot) : Prop where
  nodes : ∀ n ∈ s.nodes, n.Known W
  tokens : ∀ t ∈ s.ownTokens, t.Known W

section Known

variable {W W' : Registry} {t u : Token} {n m : Node} {s : Slot}

theorem Token.Known.up (h : t.Known W) (hW : W ≤ W') : t.Known W' where
  id_lt := h.id_lt.trans_le (Registry.next_le hW)
  outline := (Registry.token_eq hW h.id_lt).trans h.outline
  mine := by rw [Registry.mine_eq hW]; exact h.mine

theorem Node.Known.up (h : n.Known W) (hW : W ≤ W') : n.Known W' where
  nodes := h.nodes.mono (fun _ hm => ⟨hm.1.trans_le (Registry.next_le hW), (Registry.node_eq hW hm.1).trans hm.2⟩)
  tokens := fun t ht => (h.tokens t ht).up (by order)

theorem Slot.Known.up (h : s.Known W) (hW : W ≤ W') : s.Known W' :=
  ⟨fun n hn => (h.nodes n hn).up (by order), fun t ht => (h.tokens t ht).up (by order)⟩

theorem Node.Known.id_lt (h : n.Known W) : n.id < W.next := h.nodes.self.1

/-- A node that is known has what its kind asks for. -/
theorem Node.Known.matchesSchema (h : n.Known W) : n.matchesSchema = true := by
  rw [← Node.matchesSchema_outline, ← h.nodes.self.2]
  exact W.fits n.id

/-- **Two known nodes that are one object have the same outline.** -/
theorem Node.Known.outline_eq (hn : n.Known W) (hm : m.Known W) (h : n.id = m.id) : n.outline = m.outline := by
  rw [← hn.nodes.self.2, ← hm.nodes.self.2, h]

theorem Token.Known.outline_eq (ht : t.Known W) (hu : u.Known W) (h : t.id = u.id) : t.outline = u.outline := by
  rw [← ht.outline, ← hu.outline, h]

theorem Node.known_mk {id : ObjectId} {kind : NodeKind} {slots : List Slot} :
    (Node.mk id kind slots).Known W ↔
      id < W.next ∧ W.node id = (Node.mk id kind slots).outline ∧ ∀ s ∈ slots, s.Known W := by
  constructor
  · intro h
    refine ⟨h.nodes.self.1, h.nodes.self.2, fun s hs => ⟨fun m hm => ⟨?_, fun t ht => ?_⟩, fun t ht => ?_⟩⟩
    · exact h.nodes.child (List.mem_flatMap.2 ⟨s, hs, hm⟩)
    · exact h.tokens t (Node.mem_tokens.2 ⟨s, hs, Slot.mem_tokens.2 (.inr ⟨m, hm, ht⟩)⟩)
    · exact h.tokens t (Node.mem_tokens.2 ⟨s, hs, Slot.mem_tokens.2 (.inl ht)⟩)
  · rintro ⟨hlt, hregistered, hslots⟩
    refine ⟨Node.every_mk.2 ⟨⟨hlt, hregistered⟩, fun s hs m hm => ((hslots s hs).nodes m hm).nodes⟩, fun t ht => ?_⟩
    obtain ⟨s, hs, ht⟩ := Node.mem_tokens.1 ht
    rcases Slot.mem_tokens.1 ht with ht | ⟨m, hm, ht⟩
    · exact (hslots s hs).tokens t ht
    · exact ((hslots s hs).nodes m hm).tokens t ht

theorem Node.Known.slots (h : n.Known W) : ∀ s ∈ n.slots, s.Known W := by
  obtain ⟨id, kind, slots⟩ := n
  exact (Node.known_mk.1 h).2.2

end Known

/-! ## Objects that show what others do -/

/-- The token is known and looks like the other one. -/
structure Token.Shows (W : Registry) (t t' : Token) : Prop where
  known : t.Known W
  outline : t.outline = t'.outline

/-- The tree is known and looks like the other one. -/
structure Node.Shows (W : Registry) (n n' : Node) : Prop where
  known : n.Known W
  outline : n.outline = n'.outline

/-- The slot is known and looks like the other one. -/
structure Slot.Shows (W : Registry) (s s' : Slot) : Prop where
  known : s.Known W
  outline : s.outline = s'.outline

/-- Tokens that look like others, one by one. -/
abbrev Token.AllShow (W : Registry) : List Token → List Token → Prop := List.Forall₂ (Token.Shows W)

/-- Trees that look like others, one by one. -/
abbrev Node.AllShow (W : Registry) : List Node → List Node → Prop := List.Forall₂ (Node.Shows W)

/-- Slots that look like others, one by one. -/
abbrev Slot.AllShow (W : Registry) : List Slot → List Slot → Prop := List.Forall₂ (Slot.Shows W)

section Shows

variable {W W' : Registry} {t t' : Token} {n n' m m' : Node} {s s' : Slot} {ns ns' : List Node} {ts ts' : List Token}

theorem Token.Shows.up (h : t.Shows W t') (hW : W ≤ W') : t.Shows W' t' := ⟨h.known.up (by order), h.outline⟩

theorem Node.Shows.up (h : n.Shows W n') (hW : W ≤ W') : n.Shows W' n' := ⟨h.known.up (by order), h.outline⟩

theorem Slot.Shows.up (h : s.Shows W s') (hW : W ≤ W') : s.Shows W' s' := ⟨h.known.up (by order), h.outline⟩

theorem Token.AllShow.up (h : Token.AllShow W ts ts') (hW : W ≤ W') : Token.AllShow W' ts ts' :=
  h.imp (fun _ _ ht => ht.up (by order))

theorem Node.AllShow.up (h : Node.AllShow W ns ns') (hW : W ≤ W') : Node.AllShow W' ns ns' :=
  h.imp (fun _ _ hn => hn.up (by order))

theorem Token.AllShow.outlines (h : Token.AllShow W ts ts') : ts.map Token.outline = ts'.map Token.outline := by
  induction h with
  | nil => rfl
  | cons ht _ ih => rw [List.map_cons, List.map_cons, ht.outline, ih]

theorem Node.AllShow.outlines (h : Node.AllShow W ns ns') : ns.map Node.outline = ns'.map Node.outline := by
  induction h with
  | nil => rfl
  | cons hn _ ih => rw [List.map_cons, List.map_cons, hn.outline, ih]

theorem Slot.AllShow.outlines {ss ss' : List Slot} (h : Slot.AllShow W ss ss') :
    ss.map Slot.outline = ss'.map Slot.outline := by
  induction h with
  | nil => rfl
  | cons hs _ ih => rw [List.map_cons, List.map_cons, hs.outline, ih]

theorem Node.AllShow.known (h : Node.AllShow W ns ns') : ∀ n ∈ ns, n.Known W := by
  induction h with
  | nil => exact fun _ hm => by cases hm
  | cons hn _ ih => exact List.forall_mem_cons.2 ⟨hn.known, ih⟩

theorem Token.AllShow.known (h : Token.AllShow W ts ts') : ∀ t ∈ ts, t.Known W := by
  induction h with
  | nil => exact fun _ hm => by cases hm
  | cons ht _ ih => exact List.forall_mem_cons.2 ⟨ht.known, ih⟩

theorem Slot.AllShow.known {ss ss' : List Slot} (h : Slot.AllShow W ss ss') : ∀ s ∈ ss, s.Known W := by
  induction h with
  | nil => exact fun _ hm => by cases hm
  | cons hs _ ih => exact List.forall_mem_cons.2 ⟨hs.known, ih⟩

theorem Token.Shows.trans (h : t.Shows W t') {u : Token} (hu : t'.outline = u.outline) : t.Shows W u :=
  ⟨h.known, h.outline.trans hu⟩

theorem Node.Shows.trans (h : n.Shows W n') (hm : n'.outline = m.outline) : n.Shows W m :=
  ⟨h.known, h.outline.trans hm⟩

/-- What looks like an object looks like its outline. -/
theorem Token.Shows.bare (h : t.Shows W t') : t.Shows W t'.outline := ⟨h.known, h.outline⟩

/-! Slots show what they hold. -/

theorem Slot.shows_absent : Slot.Shows W .absent .absent :=
  ⟨⟨fun _ h => (by cases h), fun _ h => by cases h⟩, rfl⟩

theorem Token.Shows.slot (h : t.Shows W t') : Slot.Shows W (.token t) (.token t') :=
  ⟨⟨fun _ h => (by cases h), fun u hu => by rw [List.mem_singleton.1 hu]; exact h.known⟩,
    congrArg Slot.token h.outline⟩

theorem Node.Shows.slot (h : n.Shows W n') : Slot.Shows W (.node n) (.node n') :=
  ⟨⟨fun m hm => by rw [List.mem_singleton.1 hm]; exact h.known, fun _ h => by cases h⟩,
    congrArg Slot.node h.outline⟩

theorem Node.AllShow.slot (h : Node.AllShow W ns ns') : Slot.Shows W (.list ns) (.list ns') :=
  ⟨⟨h.known, fun _ ht => by cases ht⟩, by rw [Slot.outline_list, Slot.outline_list, h.outlines]⟩

theorem Slot.shows_separated (h : Node.AllShow W ns ns') (ht : Token.AllShow W ts ts') :
    Slot.Shows W (.separated ns ts) (.separated ns' ts') :=
  ⟨⟨h.known, ht.known⟩, by rw [Slot.outline_separated, Slot.outline_separated, h.outlines, ht.outlines]⟩

/-- What is known looks like its outline. -/
theorem Node.Known.shows (h : n.Known W) : n.Shows W n.outline := ⟨h, n.outline_outline.symm⟩

theorem Token.Known.shows (h : t.Known W) : t.Shows W t.outline := ⟨h, rfl⟩

theorem Token.AllShow.ofKnown (h : ∀ t ∈ ts, t.Known W) : Token.AllShow W ts (ts.map Token.outline) :=
  List.forall₂_map_right_iff.2 (List.forall₂_same.2 (fun t ht => (h t ht).shows))

theorem Node.AllShow.ofOutlines (hk : ∀ n ∈ ns, n.Known W) (h : ns.map Node.outline = ns'.map Node.outline) :
    Node.AllShow W ns ns' := by
  induction ns generalizing ns' with
  | nil => rw [List.map_eq_nil_iff.1 h.symm]; exact .nil
  | cons n ns ih =>
    obtain ⟨n', rest, rfl, hn, hrest⟩ := List.map_eq_cons_iff.1 h.symm
    obtain ⟨hhead, htail⟩ := List.forall_mem_cons.1 hk
    exact .cons ⟨hhead, hn.symm⟩ (ih htail hrest.symm)

theorem Token.AllShow.ofOutlines (hk : ∀ t ∈ ts, t.Known W) (h : ts.map Token.outline = ts'.map Token.outline) :
    Token.AllShow W ts ts' := by
  induction ts generalizing ts' with
  | nil => rw [List.map_eq_nil_iff.1 h.symm]; exact .nil
  | cons t ts ih =>
    obtain ⟨t', rest, rfl, ht, hrest⟩ := List.map_eq_cons_iff.1 h.symm
    obtain ⟨hhead, htail⟩ := List.forall_mem_cons.1 hk
    exact .cons ⟨hhead, ht.symm⟩ (ih htail hrest.symm)

theorem Token.Known.optionShows {o : Option Token} (h : ∀ t ∈ o, t.Known W) :
    Option.Rel (Token.Shows W) o (o.map Token.outline) := by
  cases o with
  | none => exact .none
  | some t => exact .some (h t rfl).shows

end Shows

/-! ## Making objects -/

/-- The registry grows to one in which what is made from the next number on has a property. -/
def Records {α : Type} (W : Registry) (w : Fresh α) (P : Registry → α → Prop) : Prop :=
  ∃ W', W ≤ W' ∧ (w W.next).2 = W'.next ∧ P W' (w W.next).1

/-- What is made from the next number on is related to what is made in the other way, from any number on. -/
def Draws {α β : Type} (W : Registry) (w : Fresh α) (w' : Fresh β) (R : Registry → α → β → Prop) : Prop :=
  ∀ j, Records W w (fun W' a => R W' a (w' j).1)

variable {α β γ δ : Type} {W : Registry} {P : Registry → α → Prop} {R : Registry → α → β → Prop}
  {Q : Registry → γ → δ → Prop}

namespace Records

theorem pure {a : α} (h : P W a) : Records W (pure a) P := ⟨W, le_rfl, rfl, h⟩

theorem bind {w : Fresh α} {f : α → Fresh γ} {P' : Registry → γ → Prop} (hw : Records W w P)
    (hf : ∀ W', W ≤ W' → ∀ a, P W' a → Records W' (f a) P') : Records W (w >>= f) P' := by
  obtain ⟨W₁, hle, hnext, hP⟩ := hw
  obtain ⟨W₂, hle', hnext', hQ⟩ := hf W₁ hle _ hP
  rw [← hnext] at hnext' hQ
  exact ⟨W₂, hle.trans hle', hnext', hQ⟩

theorem mono {P' : Registry → α → Prop} {w : Fresh α} (hw : Records W w P)
    (h : ∀ W', W ≤ W' → ∀ a, P W' a → P' W' a) : Records W w P' :=
  let ⟨W', hle, hnext, hP⟩ := hw
  ⟨W', hle, hnext, h W' hle _ hP⟩

/-- A last step that only changes what came out. -/
theorem map {w : Fresh α} {f : α → γ} {P' : Registry → γ → Prop} (hw : Records W w P)
    (h : ∀ W', W ≤ W' → ∀ a, P W' a → P' W' (f a)) : Records W (w >>= fun a => Pure.pure (f a)) P' :=
  hw.bind (fun W' hle a hP => .pure (h W' hle a hP))

end Records

namespace Draws

theorem pure {a : α} {b : β} (h : R W a b) : Draws W (pure a) (pure b) R := fun _ => .pure h

theorem bind {w : Fresh α} {w' : Fresh β} {f : α → Fresh γ} {f' : β → Fresh δ} (hw : Draws W w w' R)
    (hf : ∀ W', W ≤ W' → ∀ a b, R W' a b → Draws W' (f a) (f' b) Q) : Draws W (w >>= f) (w' >>= f') Q :=
  fun j => (hw j).bind (fun W' hle a hR => hf W' hle a _ hR (w' j).2)

/-- A step on one side that only lays out what was made. -/
theorem left {w : Fresh α} {f : α → Fresh γ} {w' : Fresh δ} (hw : Records W w P)
    (hf : ∀ W', W ≤ W' → ∀ a, P W' a → Draws W' (f a) w' Q) : Draws W (w >>= f) w' Q :=
  fun j => hw.bind (fun W' hle a hP => hf W' hle a hP j)

theorem mono {R' : Registry → α → β → Prop} {w : Fresh α} {w' : Fresh β} (hw : Draws W w w' R)
    (h : ∀ W', W ≤ W' → ∀ a b, R W' a b → R' W' a b) : Draws W w w' R' :=
  fun j => (hw j).mono (fun W' hle a hR => h W' hle a _ hR)

theorem map {w : Fresh α} {w' : Fresh β} {f : α → γ} {f' : β → δ} (hw : Draws W w w' R)
    (h : ∀ W', W ≤ W' → ∀ a b, R W' a b → Q W' (f a) (f' b)) :
    Draws W (w >>= fun a => Pure.pure (f a)) (w' >>= fun b => Pure.pure (f' b)) Q :=
  hw.bind (fun W' hle a b hR => .pure (h W' hle a b hR))

/-- What is made on both sides is laid out then. -/
theorem layAfter {w : Fresh α} {w' : Fresh β} {lay : α → Fresh γ} {Q : Registry → γ → β → Prop} (hw : Draws W w w' R)
    (hlay : ∀ W', W ≤ W' → ∀ a b, R W' a b → Records W' (lay a) (fun W'' c => Q W'' c b)) :
    Draws W (w >>= lay) w' Q := fun j =>
  (hw j).bind (fun W' hle a h => hlay W' hle a _ h)

/-- Things that last as more objects are made are made for each member of a list. -/
theorem mapM {ε ζ : Type} {S : ε → ζ → Prop} {f : ε → Fresh α} {f' : ζ → Fresh β}
    (hR : ∀ W W', W ≤ W' → ∀ a b, R W a b → R W' a b) {as : List ε} {bs : List ζ} (has : List.Forall₂ S as bs)
    (h : ∀ a b, S a b → ∀ W', W ≤ W' → Draws W' (f a) (f' b) R) :
    Draws W (as.mapM f) (bs.mapM f') (fun W' => List.Forall₂ (R W')) := by
  induction has generalizing W with
  | nil =>
    rw [List.mapM_nil, List.mapM_nil]
    exact .pure .nil
  | cons hab _ ih =>
    rw [List.mapM_cons, List.mapM_cons]
    refine (h _ _ hab W le_rfl).bind (fun W₁ h₁ a b hR₁ => ?_)
    refine (ih (fun a b hS W' hle => h a b hS W' (h₁.trans hle))).map (fun W₂ h₂ as bs hRs => ?_)
    exact .cons (hR _ _ h₂ _ _ hR₁) hRs

end Draws

/-- A token of the same kind, characters and value. -/
theorem records_token {x : Lexeme} : Records W (Token.fresh x) (fun W' t => t.Known W' ∧ t.outline = (⟨0, x⟩ : Token).outline) :=
  ⟨W.withToken (⟨W.next, x⟩ : Token).outline, W.le_withToken _, rfl,
    ⟨Nat.lt_succ_self _, Function.update_self .., W.mine_of_le _ le_rfl⟩, rfl⟩

theorem draws_token {x x' : Lexeme} (h : (⟨0, x⟩ : Token).outline = (⟨0, x'⟩ : Token).outline) :
    Draws W (Token.fresh x) (Token.fresh x') Token.Shows :=
  fun _ => records_token.mono (fun _ _ _ ht => ⟨ht.1, ht.2.trans h⟩)

theorem records_node {kind : NodeKind} {slots : List Slot} (h : ∀ s ∈ slots, s.Known W)
    (hfits : (Node.mk 0 kind slots).matchesSchema = true) :
    Records W (Node.fresh kind slots)
      (fun W' n => n.Known W' ∧ n.outline = (Node.mk 0 kind slots).outline ∧ W.next ≤ n.id) := by
  have hfits' : (Node.mk W.next kind slots).outline.matchesSchema = true := by
    rw [Node.matchesSchema_outline]
    exact hfits
  exact ⟨W.withNode (Node.mk W.next kind slots).outline hfits', W.le_withNode _ hfits', rfl,
    Node.known_mk.2 ⟨Nat.lt_succ_self _, Function.update_self .., fun s hs => (h s hs).up (W.le_withNode _ hfits')⟩,
    rfl, le_rfl⟩

/-- **A node is made of slots that look like others**, and it is new. -/
theorem draws_new {kind : NodeKind} {slots slots' : List Slot} (h : Slot.AllShow W slots slots')
    (hfits : (Node.mk 0 kind slots).matchesSchema = true) :
    Draws W (Node.fresh kind slots) (Node.fresh kind slots') (fun W' n n' => n.Shows W' n' ∧ W.next ≤ n.id) :=
  fun j => (records_node h.known hfits).mono (fun W' _ n hn => ⟨⟨hn.1, hn.2.1.trans (by
    show (Node.mk 0 kind slots).outline = (Node.mk j kind slots').outline
    rw [Node.outline_mk, Node.outline_mk, h.outlines])⟩, hn.2.2⟩)

theorem draws_node {kind : NodeKind} {slots slots' : List Slot} (h : Slot.AllShow W slots slots')
    (hfits : (Node.mk 0 kind slots).matchesSchema = true) :
    Draws W (Node.fresh kind slots) (Node.fresh kind slots') Node.Shows :=
  (draws_new h hfits).mono (fun _ _ _ _ hn => hn.1)

end Downlevel
