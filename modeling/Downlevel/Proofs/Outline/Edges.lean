import Downlevel.Proofs.Outline.Registry
import Downlevel.Proofs.Tree.Edges
import Downlevel.Tree.Build
/-!
# Proofs.Outline.Edges — other trivia, the same outline

A token with other trivia looks like the token that it was, and so does a tree with a new token at an edge
(`records_mapEdge`): an item of a separated list that is replaced looks like the one that stood there, because one object
has one outline.
-/
namespace Downlevel

variable {W : Registry} {t t' : Token} {n n' : Node} {leading trailing : TriviaList}

/-! ## Tokens -/

theorem records_tokenWithLeading : Records W (t.withLeading leading) (fun W' u => u.Shows W' t) :=
  records_token.mono (fun _ _ _ hu => ⟨hu.1, hu.2⟩)

theorem records_tokenWithTrailing : Records W (t.withTrailing trailing) (fun W' u => u.Shows W' t) :=
  records_token.mono (fun _ _ _ hu => ⟨hu.1, hu.2⟩)

theorem records_tokenWithTrivia : Records W (t.withTrivia leading trailing) (fun W' u => u.Shows W' t) :=
  records_tokenWithLeading.bind (fun _ _ _ hu =>
    records_tokenWithTrailing.mono (fun _ _ _ hv => hv.trans hu.outline))

theorem records_bareToken : Records W t.bare (fun W' u => u.Shows W' t) := records_tokenWithTrivia

theorem records_copy : Records W t.copy (fun W' u => u.Shows W' t) :=
  records_token.mono (fun _ _ _ hu => ⟨hu.1, hu.2⟩)

theorem draws_bareToken (h : t.Shows W t') : Draws W t.bare t'.bare Token.Shows := fun _ =>
  records_bareToken.mono (fun _ _ _ hu => ⟨hu.known, hu.outline.trans h.outline⟩)

namespace Token.Shows

theorem kind (h : t.Shows W t') : t.kind = t'.kind := by
  have hkind : t.outline.kind = t'.outline.kind := by rw [h.outline]
  exact hkind

theorem text (h : t.Shows W t') : t.text = t'.text := by
  have htext : t.outline.text = t'.outline.text := by rw [h.outline]
  exact htext

theorem valueText (h : t.Shows W t') : t.valueText = t'.valueText := by
  have hvalue : t.outline.valueText = t'.outline.valueText := by rw [h.outline]
  exact hvalue

end Token.Shows

/-- A reserved word becomes a name of the same characters. -/
theorem draws_toName (h : t.Shows W t') : Draws W t.toName t'.toName Token.Shows := by
  have hname : ∀ u : Token, (⟨0, u.lexeme.asName⟩ : Token).outline =
      ⟨0, .realized .identifier .empty u.text (.identifier u.text) .empty⟩ := fun _ => rfl
  unfold Token.toName
  rw [h.kind]
  split
  · exact draws_token (by rw [hname, hname, h.text])
  · exact .pure h

/-! ## Items of separated lists -/

theorem map_replaceFirst {α β : Type} {p : α → Bool} {f : α → β} {a : α} : ∀ {l : List α},
    (∀ x ∈ l, p x = true → f x = f a) → (replaceFirst p a l).map f = l.map f
  | [], _ => rfl
  | x :: l, h => by
    unfold replaceFirst
    split
    · rename_i hx
      rw [List.map_cons, List.map_cons, h x (List.mem_cons_self ..) hx]
    · rw [List.map_cons, List.map_cons, map_replaceFirst (fun y hy => h y (List.mem_cons_of_mem _ hy))]

/-- The changed item of a separated list looks like the one that it takes the place of. -/
def SeparatedEdit.Known (W : Registry) : SeparatedEdit → Prop
  | member old new => old.Known W ∧ new.Shows W old
  | separator old new => old.Known W ∧ new.Shows W old

/-- **A separated list with an item changed looks as it did**, since an item that is the same object looks the same. -/
theorem SeparatedEdit.Known.apply {ns : List Node} {ts : List Token} {e : SeparatedEdit} (he : e.Known W)
    (h : (Slot.separated ns ts).Known W) : (e.apply ns ts).Shows W (.separated ns ts) := by
  cases e with
  | member old new =>
    refine ⟨⟨fun m hm => ?_, h.tokens⟩, ?_⟩
    · rcases mem_replaceFirst hm with rfl | hm
      · exact he.2.known
      · exact h.nodes m hm
    · show (Slot.separated _ _).outline = _
      rw [Slot.outline_separated, Slot.outline_separated, map_replaceFirst (fun m hm hsame => ?_)]
      rw [(h.nodes m hm).outline_eq he.1 (eq_of_beq hsame), he.2.outline]
  | separator old new =>
    refine ⟨⟨h.nodes, fun t ht => ?_⟩, ?_⟩
    · rcases mem_replaceFirst ht with rfl | ht
      · exact he.2.known
      · exact h.tokens t ht
    · show (Slot.separated _ _).outline = _
      rw [Slot.outline_separated, Slot.outline_separated, map_replaceFirst (fun t ht hsame => ?_)]
      rw [(h.tokens t ht).outline_eq he.1 (eq_of_beq hsame), he.2.outline]

/-! ## New tokens at an edge -/

section Edge

variable {edge : Edge} {change : Token → Fresh Token}

/-- A token is made one that looks the same. -/
def LaysOut (change : Token → Fresh Token) : Prop :=
  ∀ W (t : Token), Records W (change t) (fun W' u => u.Shows W' t)

/-- What was found, if anything was, has a property. -/
abbrev FoundAs {α : Type} (P : Registry → α → Prop) (W : Registry) (found : Option α) : Prop :=
  ∀ a, found = some a → P W a

theorem Records.none {α : Type} {P : Registry → α → Prop} : Records W (Pure.pure none) (FoundAs P) :=
  .pure (fun _ h => by cases h)

theorem FoundAs.map {α β : Type} {P : Registry → α → Prop} {Q : Registry → β → Prop} {f : α → β} {found : Option α}
    (h : FoundAs P W found) (hf : ∀ a, P W a → Q W (f a)) : FoundAs Q W (found.map f) := by
  intro b hb
  obtain ⟨a, ha, rfl⟩ := Option.map_eq_some_iff.1 hb
  exact hf a (h a ha)

theorem records_tokenMapEdge (hchange : LaysOut change) :
    Records W (t.mapEdge? change) (FoundAs (fun W' u => u.Shows W' t)) := by
  unfold Token.mapEdge?
  split
  · exact (hchange W t).map (fun _ _ u hu v hv => by cases hv; exact hu)
  · exact .none

theorem records_ofSeparators (hchange : LaysOut change) {ts : List Token} (h : ∀ t ∈ ts, t.Known W) :
    Records W (SeparatedEdit.ofSeparators? edge change ts) (FoundAs (fun W' e => e.Known W')) := by
  unfold SeparatedEdit.ofSeparators?
  extract_lets order
  have hsub : ∀ t ∈ order, t ∈ ts := by
    cases edge with
    | first => exact fun _ ht => ht
    | last => exact fun _ ht => List.mem_reverse.1 ht
  cases hfind : order.find? (fun t => 0 < t.fullWidth) with
  | none => exact .none
  | some t =>
    have ht : t.Known W := h t (hsub t (List.mem_of_find?_eq_some hfind))
    exact (hchange W t).map (fun _ hle u hu e he => by cases he; exact ⟨ht.up (by order), hu⟩)

/-- Slots that are known look like themselves. -/
theorem Slot.AllShow.refl {slots : List Slot} (h : ∀ s ∈ slots, s.Known W) : Slot.AllShow W slots slots :=
  List.forall₂_same.2 (fun s hs => ⟨h s hs, rfl⟩)

theorem Node.AllShow.refl {ns : List Node} (h : ∀ n ∈ ns, n.Known W) : Node.AllShow W ns ns :=
  List.forall₂_same.2 (fun n hn => ⟨h n hn, rfl⟩)

mutual

theorem Node.records_mapEdge (hchange : LaysOut change) : ∀ {edge : Edge} {n : Node} {W : Registry}, n.Known W →
    Records W (n.mapEdge? edge change) (FoundAs (fun W' m => m.Shows W' n))
  | _, .mk id kind slots, W, h => by
    unfold Node.mapEdge?
    refine (Slot.records_mapEdgeOfAll hchange h.slots).bind (fun W₁ h₁ found hfound => ?_)
    cases found with
    | none => exact .none
    | some slots' =>
      have hslots : Slot.AllShow W₁ slots' slots := hfound slots' rfl
      have hfits : (Node.mk 0 kind slots').matchesSchema = true := by
        rw [← Node.matchesSchema_outline, Node.outline_mk, hslots.outlines, ← Node.outline_mk id,
          Node.matchesSchema_outline]
        exact h.matchesSchema
      refine (records_node hslots.known hfits).map (fun W₂ h₂ m hm m' hm' => ?_)
      cases hm'
      exact ⟨hm.1, by rw [hm.2.1, Node.outline_mk, Node.outline_mk, hslots.outlines]⟩

theorem Slot.records_mapEdgeOfAll (hchange : LaysOut change) : ∀ {edge : Edge} {slots : List Slot} {W : Registry},
    (∀ s ∈ slots, s.Known W) →
    Records W (Slot.mapEdgeOfAll? edge change slots) (FoundAs (fun W' slots' => Slot.AllShow W' slots' slots))
  | _, [], _, _ => .none
  | edge, slot :: slots, W, h => by
    obtain ⟨hslot, hslots⟩ := List.forall_mem_cons.1 h
    unfold Slot.mapEdgeOfAll?
    cases edge with
    | first =>
      refine (Slot.records_mapEdge hchange hslot).bind (fun W₁ h₁ found hfound => ?_)
      cases found with
      | some slot' =>
        exact .pure (fun slots' hs => by
          cases hs
          exact .cons (hfound slot' rfl) (Slot.AllShow.refl (fun s hs => (hslots s hs).up (by order))))
      | none =>
        exact (Slot.records_mapEdgeOfAll hchange (fun s hs => (hslots s hs).up (by order))).map
          (fun W₂ h₂ found h => h.map (fun slots' h' => .cons ⟨hslot.up (by order), rfl⟩ h'))
    | last =>
      refine (Slot.records_mapEdgeOfAll hchange hslots).bind (fun W₁ h₁ found hfound => ?_)
      cases found with
      | some slots' =>
        exact .pure (fun slots'' hs => by
          cases hs
          exact .cons ⟨hslot.up (by order), rfl⟩ (hfound slots' rfl))
      | none =>
        exact (Slot.records_mapEdge hchange (hslot.up (by order))).map (fun W₂ h₂ found h => h.map (fun slot' h' =>
          .cons h' (Slot.AllShow.refl (fun s hs => (hslots s hs).up (by order)))))

theorem Slot.records_mapEdge (hchange : LaysOut change) : ∀ {edge : Edge} {slot : Slot} {W : Registry}, slot.Known W →
    Records W (Slot.mapEdge? edge change slot) (FoundAs (fun W' slot' => slot'.Shows W' slot))
  | _, .absent, _, _ => .none
  | _, .token t, _, _ =>
    (records_tokenMapEdge hchange).map (fun _ _ found hfound =>
      hfound.map (fun _ hu => hu.slot))
  | _, .node n, W, h =>
    (Node.records_mapEdge hchange (h.nodes n (List.mem_singleton.2 rfl))).map (fun _ _ found hfound =>
      hfound.map (fun _ hm => hm.slot))
  | _, .list ns, W, h =>
    (Node.records_mapEdgeOfList hchange h.nodes).map (fun _ _ found hfound => hfound.map (fun _ hms => hms.slot))
  | _, .separated ns ts, W, h =>
    (Node.records_mapEdgeOfItems hchange h.nodes h.tokens).map (fun _ hle found hfound =>
      hfound.map (fun _ he => he.apply (h.up (by order))))

theorem Node.records_mapEdgeOfList (hchange : LaysOut change) : ∀ {edge : Edge} {ns : List Node} {W : Registry},
    (∀ n ∈ ns, n.Known W) →
    Records W (Node.mapEdgeOfList? edge change ns) (FoundAs (fun W' ms => Node.AllShow W' ms ns))
  | _, [], _, _ => .none
  | edge, n :: ns, W, h => by
    obtain ⟨hn, hns⟩ := List.forall_mem_cons.1 h
    unfold Node.mapEdgeOfList?
    cases edge with
    | first =>
      refine (Node.records_mapEdge hchange hn).bind (fun W₁ h₁ found hfound => ?_)
      cases found with
      | some n' =>
        exact .pure (fun ms hms => by
          cases hms
          exact .cons (hfound n' rfl) (Node.AllShow.refl (fun m hm => (hns m hm).up (by order))))
      | none =>
        exact (Node.records_mapEdgeOfList hchange (fun m hm => (hns m hm).up (by order))).map (fun W₂ h₂ found h =>
          h.map (fun ms hms => .cons ⟨hn.up (by order), rfl⟩ hms))
    | last =>
      refine (Node.records_mapEdgeOfList hchange hns).bind (fun W₁ h₁ found hfound => ?_)
      cases found with
      | some ns' =>
        exact .pure (fun ms hms => by
          cases hms
          exact .cons ⟨hn.up (by order), rfl⟩ (hfound ns' rfl))
      | none =>
        exact (Node.records_mapEdge hchange (hn.up (by order))).map (fun W₂ h₂ found h => h.map (fun m hm =>
          .cons hm (Node.AllShow.refl (fun m hm => (hns m hm).up (by order)))))

theorem Node.records_mapEdgeOfItems (hchange : LaysOut change) : ∀ {edge : Edge} {ns : List Node} {ts : List Token}
    {W : Registry},
    (∀ n ∈ ns, n.Known W) → (∀ t ∈ ts, t.Known W) →
    Records W (Node.mapEdgeOfItems? edge change ns ts) (FoundAs (fun W' e => e.Known W'))
  | _, [], _, _, _, ht => records_ofSeparators hchange ht
  | edge, n :: ns, ts, W, h, ht => by
    obtain ⟨hn, hns⟩ := List.forall_mem_cons.1 h
    have hfirst : ∀ t ∈ ts.take 1, t.Known W := fun t htm => ht t (List.mem_of_mem_take htm)
    have hrest : ∀ t ∈ ts.drop 1, t.Known W := fun t htm => ht t (List.mem_of_mem_drop htm)
    unfold Node.mapEdgeOfItems?
    cases edge with
    | first =>
      refine (Node.records_mapEdge hchange hn).bind (fun W₁ h₁ found hfound => ?_)
      cases found with
      | some n' => exact .pure (fun e he => by cases he; exact ⟨hn.up (by order), hfound n' rfl⟩)
      | none =>
        refine (records_ofSeparators hchange (fun t htm => (hfirst t htm).up (by order))).bind
          (fun W₂ h₂ found hfound => ?_)
        cases found with
        | some e => exact .pure (fun e' he => by cases he; exact hfound e rfl)
        | none =>
          exact Node.records_mapEdgeOfItems hchange (fun m hm => (hns m hm).up (by order))
            (fun t htm => (hrest t htm).up (by order))
    | last =>
      refine (Node.records_mapEdgeOfItems hchange hns hrest).bind (fun W₁ h₁ found hfound => ?_)
      cases found with
      | some e => exact .pure (fun e' he => by cases he; exact hfound e rfl)
      | none =>
        refine (records_ofSeparators hchange (fun t htm => (hfirst t htm).up (by order))).bind
          (fun W₂ h₂ found hfound => ?_)
        cases found with
        | some e => exact .pure (fun e' he => by cases he; exact hfound e rfl)
        | none =>
          exact (Node.records_mapEdge hchange (hn.up (by order))).map (fun W₃ h₃ found h => h.map (fun m hm =>
            ⟨hn.up (by order), hm⟩))

end

/-- **A tree with a new token at an edge looks as it did.** -/
theorem records_mapEdge (hchange : LaysOut change) (h : n.Known W) :
    Records W (n.mapEdge? edge change >>= fun found => pure (found.getD n)) (fun W' m => m.Shows W' n) :=
  (Node.records_mapEdge hchange h).map (fun W' hle found hfound => by
    cases found with
    | none => exact ⟨h.up (by order), rfl⟩
    | some m => exact hfound m rfl)

end Edge

/-! ## Trivia at the edges -/

theorem records_withLeading (h : n.Shows W n') : Records W (n.withLeading leading) (fun W' m => m.Shows W' n') :=
  (records_mapEdge (fun _ _ => records_tokenWithLeading) h.known).mono (fun _ _ _ hm => hm.trans h.outline)

theorem records_withTrailing (h : n.Shows W n') : Records W (n.withTrailing trailing) (fun W' m => m.Shows W' n') :=
  (records_mapEdge (fun _ _ => records_tokenWithTrailing) h.known).mono (fun _ _ _ hm => hm.trans h.outline)

theorem records_withTrivia (h : n.Shows W n') :
    Records W (n.withTrivia leading trailing) (fun W' m => m.Shows W' n') :=
  (records_withLeading h).bind (fun _ _ _ hm => records_withTrailing hm)

theorem records_bare (h : n.Shows W n') : Records W n.bare (fun W' m => m.Shows W' n') := records_withTrivia h

end Downlevel
