import Downlevel.Proofs.Tree.Ends
/-!
# Proofs.Tree.Edges — other trivia at the edges of a tree

A tree with a new token at an edge is the tree that it was, as far as kinds and filled slots go, so it stands where it
stood (`makes_mapEdge`); so do a tree with other trivia around it, and one without any.
-/
namespace Downlevel

/-- The slot holds something. -/
def Slot.isFilled : Slot → Bool
  | absent => false
  | _ => true

namespace Slot

@[simp] theorem isFilled_absent : Slot.absent.isFilled = false := rfl

@[simp] theorem isFilled_token (t : Token) : (Slot.token t).isFilled = true := rfl

@[simp] theorem isFilled_node (n : Node) : (Slot.node n).isFilled = true := rfl

@[simp] theorem isFilled_list (ns : List Node) : (Slot.list ns).isFilled = true := rfl

@[simp] theorem isFilled_separated (ns : List Node) (ts : List Token) : (Slot.separated ns ts).isFilled = true := rfl

@[simp] theorem isFilled_ofToken? (o : Option Token) : (Slot.ofToken? o).isFilled = o.isSome := by cases o <;> rfl

@[simp] theorem isFilled_ofNode? (o : Option Node) : (Slot.ofNode? o).isFilled = o.isSome := by cases o <;> rfl

end Slot

/-- The two nodes are of one kind, and the same slots of them hold something. -/
def Node.Alike (n n' : Node) : Prop := n'.kind = n.kind ∧ n'.slots.map Slot.isFilled = n.slots.map Slot.isFilled

theorem Node.has_eq (n : Node) (slot : Nat) : n.has slot = ((n.slots.map Slot.isFilled)[slot]?).getD false := by
  rw [List.getElem?_map, Node.has]
  cases n.slots[slot]? with
  | none => rfl
  | some s => cases s <;> rfl

/-- **Whether a node is written in the dialect only is told by its kind and its filled slots.** -/
theorem Node.Alike.isDialectForm {n n' : Node} (h : n.Alike n') : n'.isDialectForm = n.isDialectForm := by
  have hhas : ∀ slot, n'.has slot = n.has slot := fun slot => by rw [Node.has_eq, Node.has_eq, h.2]
  unfold Node.isDialectForm
  rw [h.1]
  simp only [hhas]

section Replace

variable {α : Type} {p : α → Bool} {a b : α}

theorem length_replaceFirst : ∀ l : List α, (replaceFirst p a l).length = l.length
  | [] => rfl
  | x :: l => by
    unfold replaceFirst
    split
    · rfl
    · rw [List.length_cons, List.length_cons, length_replaceFirst l]

theorem mem_replaceFirst : ∀ {l : List α}, b ∈ replaceFirst p a l → b = a ∨ b ∈ l
  | [], h => by cases h
  | x :: l, h => by
    unfold replaceFirst at h
    split at h
    · rcases List.mem_cons.1 h with h | h
      · exact .inl h
      · exact .inr (List.mem_cons_of_mem _ h)
    · rcases List.mem_cons.1 h with rfl | h
      · exact .inr (List.mem_cons_self ..)
      · exact (mem_replaceFirst h).imp_right (List.mem_cons_of_mem _)

end Replace

/-- What was found, if anything was, has a property. -/
def IfFound {α : Type} (P : Nat → α → Prop) (k : Nat) (found : Option α) : Prop := ∀ a, found = some a → P k a

theorem Makes.none {α : Type} {k : Nat} {P : Nat → α → Prop} : Makes k (Pure.pure none) (IfFound P) :=
  .pure (fun _ _ _ h => by cases h)

theorem IfFound.map {α β : Type} {k : Nat} {P : Nat → α → Prop} {Q : Nat → β → Prop} {f : α → β} {found : Option α}
    (h : IfFound P k found) (hf : ∀ a, P k a → Q k (f a)) : IfFound Q k (found.map f) := by
  intro b hb
  obtain ⟨a, ha, rfl⟩ := Option.map_eq_some_iff.1 hb
  exact hf a (h a ha)

/-! ## New tokens at an edge -/

section Edge

variable {L : Demand} {k : Nat} {edge : Edge} {change : Token → Fresh Token}

/-- A token that meets the demand is made one that does. -/
def Keeps (L : Demand) (k : Nat) (change : Token → Fresh Token) : Prop :=
  ∀ j t, k ≤ j → t.Meets L j → Makes j (change t) (fun j t => t.Meets L j)

theorem Keeps.up {i : Nat} (h : Keeps L i change) (hi : i ≤ k) : Keeps L k change :=
  fun j t hj ht => h j t (by omega) ht

/-- A changed item of a separated list fits in where the old one stood. -/
def SeparatedEdit.Stands (L : Demand) (c : NodeClass) (k : Nat) : SeparatedEdit → Prop
  | member _ new => new.Plain L c k
  | separator _ new => new.Meets L k

theorem SeparatedEdit.Stands.up {c : NodeClass} {i : Nat} {e : SeparatedEdit} (h : e.Stands L c i)
    (hi : i ≤ k) : e.Stands L c k := by
  cases e with
  | member old new => exact Node.Stands.up h (by omega)
  | separator old new => exact Token.Meets.up h (by omega)

/-- A separated list with an item changed stands where it stood. -/
theorem SeparatedEdit.Stands.apply {sort : SlotSort} {i : Nat} {ns : List Node} {ts : List Token} {e : SeparatedEdit}
    (he : e.Stands L sort.among k) (h : Slot.Stands PlainForm L i sort (.separated ns ts)) (hi : i ≤ k) :
    Slot.Stands PlainForm L k sort (e.apply ns ts) := by
  have hmembers : ∀ m ∈ ns, m.Plain L sort.among k := fun m hm => (h.members m hm).up (by omega)
  have hseparators : ∀ t ∈ ts, t.Meets L k := fun t ht => (h.tokens t ht).up (by omega)
  cases e with
  | member old new =>
    refine h.items (length_replaceFirst ns) rfl (fun m hm => ?_) hseparators
    rcases mem_replaceFirst hm with rfl | hm
    · exact he
    · exact hmembers m hm
  | separator old new =>
    refine h.items rfl (length_replaceFirst ts) hmembers (fun t ht => ?_)
    rcases mem_replaceFirst ht with rfl | ht
    · exact he
    · exact hseparators t ht

theorem makes_tokenMapEdge (hchange : Keeps L k change) {t : Token} (ht : t.Meets L k) :
    Makes k (t.mapEdge? change) (IfFound (fun j t => t.Meets L j)) := by
  unfold Token.mapEdge?
  split
  · exact (hchange k t (Nat.le_refl k) ht).bindPure (fun j _ u hu v hv => by cases hv; exact hu)
  · exact .none

theorem makes_ofSeparators (hchange : Keeps L k change) {c : NodeClass} {ts : List Token} (h : ∀ t ∈ ts, t.Meets L k) :
    Makes k (SeparatedEdit.ofSeparators? edge change ts) (IfFound (fun j e => e.Stands L c j)) := by
  unfold SeparatedEdit.ofSeparators?
  extract_lets order
  have hsub : ∀ t ∈ order, t ∈ ts := by
    cases edge with
    | first => exact fun _ ht => ht
    | last => exact fun _ ht => List.mem_reverse.1 ht
  cases hfind : order.find? (fun t => 0 < t.fullWidth) with
  | none => exact .none
  | some t =>
    have ht : t.Meets L k := h t (hsub t (List.mem_of_find?_eq_some hfind))
    exact (hchange k t (Nat.le_refl k) ht).bindPure (fun j _ u hu e he => by cases he; exact hu)

mutual

theorem Node.makes_mapEdge : ∀ {edge : Edge} {n : Node} {c : NodeClass} {k : Nat}, Keeps L k change → n.Plain L c k →
    Makes k (n.mapEdge? edge change) (IfFound (fun j m => m.Plain L (.only n.kind) j ∧ k ≤ m.id))
  | edge, .mk id kind slots, c, k, hchange, h => by
    unfold Node.mapEdge?
    refine (Slot.makes_mapEdgeOfAll hchange h.row).bind (fun j hj found hfound => ?_)
    cases found with
    | none => exact .none
    | some slots' =>
      obtain ⟨hrow, hfilled⟩ := hfound slots' rfl
      have halike : ∀ id', Node.Alike (.mk id kind slots) (.mk id' kind slots') := fun id' => ⟨rfl, hfilled⟩
      have hmake : Makes j (Node.fresh kind slots') (fun j m => m.Plain L (.only kind) j) :=
        makes_node hrow (fun id' => (halike id').isDialectForm.trans h.form) (beq_self_eq_true kind)
      exact (hmake.and makes_new).bindPure (fun i _ m hm m' hm' => by cases hm'; exact ⟨hm.1, by omega⟩)

theorem Slot.makes_mapEdgeOfAll : ∀ {edge : Edge} {sorts : List SlotSort} {slots : List Slot} {k : Nat}, Keeps L k change →
    Slot.Row PlainForm L k sorts slots → Makes k (Slot.mapEdgeOfAll? edge change slots)
      (IfFound (fun j slots' => Slot.Row PlainForm L j sorts slots' ∧
        slots'.map Slot.isFilled = slots.map Slot.isFilled))
  | _, _, [], _, _, _ => .none
  | edge, sort :: sorts, slot :: slots, k, hchange, .cons hslot hslots => by
    unfold Slot.mapEdgeOfAll?
    cases edge with
    | first =>
      refine (Slot.makes_mapEdge hchange hslot).bind (fun j hj found hfound => ?_)
      cases found with
      | some slot' =>
        obtain ⟨hslot', hfilled⟩ := hfound slot' rfl
        refine .pure (fun i hi slots' h => ?_)
        cases h
        exact ⟨.cons (hslot'.up (by omega)) (Slot.Row.up hslots (by omega)), by rw [List.map_cons, hfilled]; rfl⟩
      | none =>
        refine (Slot.makes_mapEdgeOfAll (hchange.up (by omega)) (Slot.Row.up hslots (by omega))).bindPure
          (fun i hi found h => h.map (fun slots' h' => ?_))
        exact ⟨.cons (hslot.up (by omega)) h'.1, by rw [List.map_cons, h'.2]; rfl⟩
    | last =>
      refine (Slot.makes_mapEdgeOfAll hchange hslots).bind (fun j hj found hfound => ?_)
      cases found with
      | some slots' =>
        obtain ⟨hslots', hfilled⟩ := hfound slots' rfl
        refine .pure (fun i hi slots' h => ?_)
        cases h
        exact ⟨.cons (hslot.up (by omega)) (hslots'.up (by omega)), by rw [List.map_cons, hfilled]; rfl⟩
      | none =>
        refine (Slot.makes_mapEdge (hchange.up (by omega)) (hslot.up (by omega))).bindPure
          (fun i hi found h => h.map (fun slot' h' => ?_))
        exact ⟨.cons h'.1 (Slot.Row.up hslots (by omega)), by rw [List.map_cons, h'.2]; rfl⟩

theorem Slot.makes_mapEdge : ∀ {edge : Edge} {sort : SlotSort} {slot : Slot} {k : Nat}, Keeps L k change →
    Slot.Stands PlainForm L k sort slot → Makes k (Slot.mapEdge? edge change slot)
      (IfFound (fun j slot' => Slot.Stands PlainForm L j sort slot' ∧ slot'.isFilled = slot.isFilled))
  | _, _, .absent, _, _, _ => .none
  | edge, sort, .token t, k, hchange, h => by
    have ht : t.Meets L k := h.tokens t (List.mem_singleton.2 rfl)
    exact (makes_tokenMapEdge hchange ht).bindPure (fun j _ found hfound => hfound.map (fun u hu => ⟨h.ofToken hu, rfl⟩))
  | edge, sort, .node n, k, hchange, h => by
    have hn : n.Plain L sort.among k := h.members n (List.mem_singleton.2 rfl)
    exact (Node.makes_mapEdge hchange hn).bindPure (fun j _ found hfound =>
      hfound.map (fun m hm => ⟨h.ofNode (hm.1.like hn), rfl⟩))
  | edge, sort, .list ns, k, hchange, h => by
    have hns : ∀ n ∈ ns, n.Plain L sort.among k := h.members
    exact (Node.makes_mapEdgeOfList hchange hns).bindPure (fun j _ found hfound =>
      hfound.map (fun ms hms => ⟨h.ofList hms, rfl⟩))
  | edge, sort, .separated ns ts, k, hchange, h => by
    refine (Node.makes_mapEdgeOfItems hchange h.members h.tokens).bindPure (fun j hj found hfound =>
      hfound.map (fun e he => ⟨he.apply h (by omega), ?_⟩))
    cases e <;> rfl

theorem Node.makes_mapEdgeOfList : ∀ {edge : Edge} {c : NodeClass} {ns : List Node} {k : Nat}, Keeps L k change →
    (∀ n ∈ ns, n.Plain L c k) →
    Makes k (Node.mapEdgeOfList? edge change ns) (IfFound (fun j ms => ∀ m ∈ ms, m.Plain L c j))
  | _, _, [], _, _, _ => .none
  | edge, c, n :: ns, k, hchange, h => by
    have hn : n.Plain L c k := h n (List.mem_cons_self ..)
    have hns : ∀ m ∈ ns, m.Plain L c k := fun m hm => h m (List.mem_cons_of_mem _ hm)
    unfold Node.mapEdgeOfList?
    cases edge with
    | first =>
      refine (Node.makes_mapEdge hchange hn).bind (fun j hj found hfound => ?_)
      cases found with
      | some n' =>
        refine .pure (fun i hi ms h => ?_)
        cases h
        exact List.forall_mem_cons.2 ⟨((hfound n' rfl).1.like hn).up (by omega), fun m hm => (hns m hm).up (by omega)⟩
      | none =>
        exact (Node.makes_mapEdgeOfList (hchange.up (by omega)) (fun m hm => (hns m hm).up (by omega))).bindPure
          (fun i hi found h =>
          h.map (fun ms hms => List.forall_mem_cons.2 ⟨hn.up (by omega), hms⟩))
    | last =>
      refine (Node.makes_mapEdgeOfList hchange hns).bind (fun j hj found hfound => ?_)
      cases found with
      | some ns' =>
        refine .pure (fun i hi ms h => ?_)
        cases h
        exact List.forall_mem_cons.2 ⟨hn.up (by omega), fun m hm => (hfound ns' rfl m hm).up (by omega)⟩
      | none =>
        exact (Node.makes_mapEdge (hchange.up (by omega)) (hn.up (by omega))).bindPure (fun i hi found h =>
          h.map (fun m hm => List.forall_mem_cons.2 ⟨hm.1.like hn, fun m hm => (hns m hm).up (by omega)⟩))

theorem Node.makes_mapEdgeOfItems : ∀ {edge : Edge} {c : NodeClass} {ns : List Node} {ts : List Token} {k : Nat},
    Keeps L k change → (∀ n ∈ ns, n.Plain L c k) → (∀ t ∈ ts, t.Meets L k) →
    Makes k (Node.mapEdgeOfItems? edge change ns ts) (IfFound (fun j e => SeparatedEdit.Stands L c j e))
  | _, _, [], _, _, hchange, _, ht => makes_ofSeparators hchange ht
  | edge, c, n :: ns, ts, k, hchange, h, ht => by
    have hn : n.Plain L c k := h n (List.mem_cons_self ..)
    have hns : ∀ m ∈ ns, m.Plain L c k := fun m hm => h m (List.mem_cons_of_mem _ hm)
    have hfirst : ∀ t ∈ ts.take 1, t.Meets L k := fun t htm => ht t (List.mem_of_mem_take htm)
    have hrest : ∀ t ∈ ts.drop 1, t.Meets L k := fun t htm => ht t (List.mem_of_mem_drop htm)
    unfold Node.mapEdgeOfItems?
    -- From the front, a member comes before its separator and both before the rest; from the back the other way
    -- round.
    cases edge with
    | first =>
      refine (Node.makes_mapEdge hchange hn).bind (fun j hj found hfound => ?_)
      cases found with
      | some n' => exact .pure (fun i hi e he => by cases he; exact ((hfound n' rfl).1.like hn).up (by omega))
      | none =>
        have hseparator : Makes j (SeparatedEdit.ofSeparators? .first change (ts.take 1))
            (IfFound (fun j e => SeparatedEdit.Stands L c j e)) :=
          makes_ofSeparators (hchange.up (by omega)) (fun t htm => (hfirst t htm).up (by omega))
        refine hseparator.bind (fun i hi found hfound => ?_)
        cases found with
        | some e => exact .pure (fun l hl e' he => by cases he; exact (hfound e rfl).up (by omega))
        | none =>
          exact Node.makes_mapEdgeOfItems (hchange.up (by omega)) (fun m hm => (hns m hm).up (by omega))
            (fun t htm => (hrest t htm).up (by omega))
    | last =>
      refine (Node.makes_mapEdgeOfItems hchange hns hrest).bind (fun j hj found hfound => ?_)
      cases found with
      | some e => exact .pure (fun l hl e' he => by cases he; exact (hfound e rfl).up (by omega))
      | none =>
        have hseparator : Makes j (SeparatedEdit.ofSeparators? .last change (ts.take 1))
            (IfFound (fun j e => SeparatedEdit.Stands L c j e)) :=
          makes_ofSeparators (hchange.up (by omega)) (fun t htm => (hfirst t htm).up (by omega))
        refine hseparator.bind (fun i hi found hfound => ?_)
        cases found with
        | some e => exact .pure (fun l hl e' he => by cases he; exact (hfound e rfl).up (by omega))
        | none =>
          exact (Node.makes_mapEdge (hchange.up (by omega)) (hn.up (by omega))).bindPure
            (fun l hl found h => h.map (fun m hm => hm.1.like hn))

end

/-- **A tree with a new token at an edge stands where it stood.** -/
theorem makes_mapEdge {c : NodeClass} {n : Node} (hchange : Keeps L k change) (h : n.Plain L c k) :
    Makes k (n.mapEdge? edge change >>= fun found => pure (found.getD n))
      (fun j m => m.Plain L c j ∧ m.Renews k n) :=
  (Node.makes_mapEdge hchange h).bindPure (fun j hj found hfound => by
    cases found with
    | none => exact ⟨h.up (by omega), .inl rfl⟩
    | some m => exact ⟨(hfound m rfl).1.like h, .inr (hfound m rfl).2⟩)

end Edge

/-! ## Trivia at the edges -/

section Trivia

variable {F : Node → Prop} {L : Demand} {c : NodeClass} {i k : Nat} {n : Node} {trivia front behind : TriviaList}

theorem Node.Stands.leading (h : n.Stands F L c k) : n.leading.Meets L := by
  unfold Node.leading
  cases hfirst : n.firstToken? with
  | none => exact .empty
  | some t => exact (h.tokens t (List.mem_of_find?_eq_some hfirst)).leading

theorem Node.Stands.trailing (h : n.Stands F L c k) : n.trailing.Meets L := by
  unfold Node.trailing
  cases hlast : n.lastToken? with
  | none => exact .empty
  | some t => exact (h.tokens t (List.mem_reverse.1 (List.mem_of_find?_eq_some hlast))).trailing

theorem makes_renewedLeading (h : n.Plain L c i) (ht : trivia.Meets L) (hi : i ≤ k) :
    Makes k (n.withLeading trivia) (fun j m => m.Plain L c j ∧ m.Renews k n) :=
  makes_mapEdge (fun _ _ _ hu => makes_tokenWithLeading hu ht) (h.up (by omega))

theorem makes_renewedTrailing (h : n.Plain L c i) (ht : trivia.Meets L) (hi : i ≤ k) :
    Makes k (n.withTrailing trivia) (fun j m => m.Plain L c j ∧ m.Renews k n) :=
  makes_mapEdge (fun _ _ _ hu => makes_tokenWithTrailing hu ht) (h.up (by omega))

theorem makes_renewedTrivia (h : n.Plain L c i) (hl : front.Meets L) (ht : behind.Meets L) (hi : i ≤ k) :
    Makes k (n.withTrivia front behind) (fun j m => m.Plain L c j ∧ m.Renews k n) := by
  refine (makes_renewedLeading h hl (by omega)).bind (fun j hj n' hn' => ?_)
  exact (makes_renewedTrailing hn'.1 ht (by omega)).mono (fun _ _ m hm => ⟨hm.1, hm.2.trans hn'.2 hj⟩)

theorem makes_withLeading (h : n.Plain L c i) (ht : trivia.Meets L) (hi : i ≤ k) :
    Makes k (n.withLeading trivia) (fun j m => m.Plain L c j) :=
  (makes_renewedLeading h ht (by omega)).mono (fun _ _ _ hm => hm.1)

theorem makes_withTrailing (h : n.Plain L c i) (ht : trivia.Meets L) (hi : i ≤ k) :
    Makes k (n.withTrailing trivia) (fun j m => m.Plain L c j) :=
  (makes_renewedTrailing h ht (by omega)).mono (fun _ _ _ hm => hm.1)

theorem makes_withTrivia (h : n.Plain L c i) (hl : front.Meets L) (ht : behind.Meets L) (hi : i ≤ k) :
    Makes k (n.withTrivia front behind) (fun j m => m.Plain L c j) :=
  (makes_renewedTrivia h hl ht (by omega)).mono (fun _ _ _ hm => hm.1)

theorem makes_bare (h : n.Plain L c i) (hi : i ≤ k) : Makes k n.bare (fun j m => m.Plain L c j) :=
  makes_withTrivia h .empty .empty hi

end Trivia

end Downlevel
