import Downlevel.Proofs.Outline.Held
import Downlevel.Proofs.Outline.Opens
import Downlevel.Proofs.Tree.Schematic
import Downlevel.Proofs.Tree.Walks
/-!
# Proofs.Outline.Walk — what stands in a node, lowered in two ways

If every node below is lowered as its draft says (`LoweringContext.Drafted`), so is a node that is only walked through
(`LoweringContext.Drafted.walk`).  The draft builds each node anew; a node that the walk leaves as it is looks like the
one that the draft has built, because an object that came back looks like itself.
-/
namespace Downlevel

variable {W : Registry} {n n' : Node}

/-- What takes the place of a node looks like what takes it in a draft. -/
inductive Replacement.Shows (W : Registry) : Replacement → Replacement → Prop
  | removed : Shows W .removed .removed
  | one {n n' : Node} (h : n.Shows W n') : Shows W (.one n) (.one n')
  | many {ns ns' : List Node} (h : Node.AllShow W ns ns') : Shows W (.many ns) (.many ns')

theorem Replacement.Shows.nodes {r r' : Replacement} (h : r.Shows W r') : Node.AllShow W r.nodes r'.nodes := by
  cases h with
  | removed => exact .nil
  | one h => exact .cons h .nil
  | many h => exact h

/-- In the context every node is lowered as the draft says, and what computes a value stays something that starts with
characters. -/
structure LoweringContext.Drafted (c : LoweringContext) (visit : Node → Draft Replacement) : Prop where
  follows : ∀ W n, n.Held W → Follows W (c.visit n) (visit n.outline) Replacement.Shows
  opens : Draft.KeepsOpen visit

theorem Draft.make_eq_pure {α : Type} (w : Fresh α) : Draft.make w = pure (w 0).1 := rfl

/-- A walk made something that looks like what the draft made; if nothing changed, that looks like what was there. -/
structure Walked.Shows {α β : Type} (R : α → β → Prop) (Same : β → Prop) (w : Walked α) (b : β) : Prop where
  value : R w.value b
  same : w.changed = false → Same b

namespace LoweringContext.Drafted

variable {c : LoweringContext} {visit : Node → Draft Replacement} (h : c.Drafted visit)

include h

/-! ## Parts -/

/-- A list may lose members and get others in their place. -/
theorem walkList : ∀ {ns : List Node} {W : Registry}, (∀ n ∈ ns, n.Held W) →
    Follows W (c.transformer.walkList ns) (Draft.walkList visit (ns.map Node.outline)) (fun W' =>
      Walked.Shows (Node.AllShow W') (fun ms => ms.map Node.outline = ns.map Node.outline))
  | [], _, _ => .pure ⟨.nil, fun _ => rfl⟩
  | n :: ns, W, hns => by
    obtain ⟨hn, hrest⟩ := List.forall_mem_cons.1 hns
    refine (h.follows W n hn).bind (fun W₁ h₁ r r' hr => ?_)
    refine (walkList (fun m hm => (hrest m hm).up (by order))).bind (fun W₂ h₂ rest rest' hsame => ?_)
    have hnodes : Node.AllShow W₂ (r.nodes ++ rest.value) (r'.nodes ++ rest') :=
      List.rel_append (hr.nodes.up (by order)) hsame.value
    cases hr with
    | removed => exact .pure ⟨hnodes, fun hc => by cases hc⟩
    | many hms => exact .pure ⟨hnodes, fun hc => by cases hc⟩
    | @one m m' hm =>
      refine .pure ⟨hnodes, fun hc => ?_⟩
      obtain ⟨hid, hunchanged⟩ : m.isSame n = true ∧ rest.changed = false := by simpa using hc
      have houtline : m.outline = n.outline := hm.known.outline_eq (hn.known.up (by order)) (eq_of_beq hid)
      show (m' :: rest').map Node.outline = _
      rw [List.map_cons, List.map_cons, ← hm.outline, houtline, hsame.same hunchanged]

omit h in
/-- The one node that takes a place. -/
theorem single (parent : NodeKind) (slot : Nat) (optional : Bool) {r r' : Replacement} (hr : r.Shows W r') :
    Follows W (c.transformer.single parent slot optional r) (Draft.single optional r')
      (fun W' => Option.Rel (Node.Shows W')) := by
  cases hr with
  | removed =>
    unfold Transformer.single Draft.single
    dsimp only
    split
    · exact .pure .none
    · exact .fail
  | one hn => exact .pure (.some hn)
  | many hns =>
    cases hns with
    | nil => exact .fail
    | cons hn hrest =>
      cases hrest with
      | nil => exact .pure (.some hn)
      | cons => exact .fail

/-- A member of a separated list stays one node. -/
theorem walkMember (parent : NodeKind) (slot : Nat) (hn : n.Held W) :
    Follows W (c.transformer.walkMember parent slot n) (Draft.walkMember visit n.outline) (fun W' =>
      Walked.Shows (Node.Shows W') (fun m => m.outline = n.outline)) := by
  refine (h.follows W n hn).bind (fun W₁ h₁ r r' hr => (single parent slot false hr).bind (fun W₂ h₂ o o' ho => ?_))
  cases ho with
  | none => exact .fail
  | @some m m' hm =>
    refine .pure ⟨hm, fun hc => ?_⟩
    have hid : m.isSame n = true := by simpa using hc
    exact hm.outline.symm.trans (hm.known.outline_eq (hn.known.up (by order)) (eq_of_beq hid))

omit h in
theorem walkToken_eq (t : Token) : c.transformer.walkToken t = pure ⟨t, false⟩ := by
  show (pure t >>= fun t' => pure ⟨t', !t'.isSame t⟩ : Lowering (Walked Token)) = _
  rw [pure_bind]
  simp [Token.isSame]

omit h in
theorem walkSeparators_eq : ∀ ts : List Token, c.transformer.walkSeparators ts = pure ⟨ts, false⟩
  | [] => rfl
  | t :: ts => by
    unfold Transformer.walkSeparators
    rw [walkToken_eq, pure_bind, walkSeparators_eq ts, pure_bind]
    rfl

/-- A separated list keeps its separators, and its members stay one node each. -/
theorem walkSeparated (parent : NodeKind) (slot : Nat) : ∀ {ns : List Node} {ts : List Token} {W : Registry},
    (∀ n ∈ ns, n.Held W) →
    Follows W (c.transformer.walkSeparated parent slot ns ts) ((ns.map Node.outline).mapM (Draft.walkMember visit))
      (fun W' => Walked.Shows (fun items ms => Node.AllShow W' items.1 ms ∧ items.2 = ts)
        (fun ms => ms.map Node.outline = ns.map Node.outline))
  | [], ts, W, _ => by
    unfold Transformer.walkSeparated
    rw [walkSeparators_eq, pure_bind]
    exact .pure ⟨⟨.nil, rfl⟩, fun _ => rfl⟩
  | n :: ns, ts, W, hns => by
    obtain ⟨hn, hrest⟩ := List.forall_mem_cons.1 hns
    rw [List.map_cons, List.mapM_cons]
    cases ts with
    | nil =>
      unfold Transformer.walkSeparated
      refine (h.walkMember parent slot hn).bind (fun W₁ h₁ m m' hm => ?_)
      refine (walkSeparated parent slot (fun n hn => (hrest n hn).up (by order))).bind (fun W₂ h₂ rest rest' hsame => ?_)
      refine .pure ⟨⟨.cons (hm.value.up (by order)) hsame.value.1, hsame.value.2⟩, fun hc => ?_⟩
      obtain ⟨hc₁, hc₂⟩ : m.changed = false ∧ rest.changed = false := by simpa using hc
      rw [List.map_cons, hm.same hc₁, hsame.same hc₂]
    | cons t ts =>
      unfold Transformer.walkSeparated
      refine (h.walkMember parent slot hn).bind (fun W₁ h₁ m m' hm => ?_)
      rw [walkToken_eq, pure_bind]
      refine (walkSeparated parent slot (fun n hn => (hrest n hn).up (by order))).bind (fun W₂ h₂ rest rest' hsame => ?_)
      refine .pure ⟨⟨.cons (hm.value.up (by order)) hsame.value.1, by rw [hsame.value.2]⟩, fun hc => ?_⟩
      obtain ⟨hc₁, hc₂⟩ : m.changed = false ∧ rest.changed = false := by simpa using hc
      rw [List.map_cons, hm.same hc₁, hsame.same hc₂]

/-- **What a slot holds is walked as the draft walks it**, and a slot that fits a shape still does. -/
theorem walkSlot (parent : NodeKind) (index : Nat) {shape : SlotShape} {s : Slot} (hs : s.Held W)
    (hfits : s.fits shape = true) :
    Follows W (c.transformer.walkSlot parent index shape.isOptional s)
      (Draft.walkSlot visit shape.isOptional s.outline) (fun W' =>
        Walked.Shows (fun s' t' => s'.Shows W' t' ∧ s'.fits shape = true) (fun t' => t'.outline = s.outline)) := by
  cases s with
  | absent => exact .pure ⟨⟨Slot.shows_absent, hfits⟩, fun _ => rfl⟩
  | token t =>
    unfold Transformer.walkSlot
    dsimp only
    rw [walkToken_eq, pure_bind]
    exact .pure ⟨⟨(Slot.held_token.1 hs).shows.slot, hfits⟩, fun _ => rfl⟩
  | node n =>
    have hn : n.Held W := Slot.held_node.1 hs
    refine (h.follows W n hn).bind (fun W₁ h₁ r r' hr => ?_)
    -- The draft fails where the rule does: a node may only be left out of a slot that may be empty.
    refine (single parent index shape.isOptional hr).withDraft (P := fun o => o = none → shape.isOptional = true)
      (fun inArrow o m ho hnone => ?_) |>.bind (fun W₂ h₂ o o' ho => ?_)
    · subst hnone
      cases r' with
      | one => cases ho
      | removed =>
        by_contra hoptional
        unfold Draft.single at ho
        dsimp only at ho
        rw [if_neg hoptional] at ho
        cases ho
      | many ns =>
        match ns, ho with
        | [], ho => cases ho
        | [_], ho => cases ho
        | _ :: _ :: _, ho => cases ho
    · obtain ⟨ho, hoptional⟩ := ho
      cases ho with
      | none => exact .pure ⟨⟨Slot.shows_absent, hoptional rfl⟩, fun hc => by cases hc⟩
      | @some m m' hm =>
        refine .pure ⟨⟨hm.slot, hfits⟩, fun hc => ?_⟩
        have hid : m.isSame n = true := by simpa using hc
        show Slot.node m'.outline = Slot.node n.outline
        rw [← hm.outline, hm.known.outline_eq (hn.known.up (by order)) (eq_of_beq hid)]
  | list ns =>
    rw [Slot.outline_list]
    refine (h.walkList (Slot.held_list.1 hs)).bind (fun W₁ h₁ w ms hw => .pure ⟨⟨hw.value.slot, hfits⟩, fun hc => ?_⟩)
    rw [Slot.outline_list, hw.same hc]
  | separated ns ts =>
    obtain ⟨hns, hts⟩ := Slot.held_separated.1 hs
    rw [Slot.outline_separated]
    refine (h.walkSeparated parent index hns).bind (fun W₁ h₁ w ms hw => .pure ⟨⟨?_, hfits⟩, fun hc => ?_⟩)
    · rw [hw.value.2]
      exact Slot.shows_separated hw.value.1 (Token.AllShow.ofKnown (fun t ht => (hts t ht).up (by order)))
    · rw [Slot.outline_separated, hw.same hc, List.map_map]
      rfl

/-- A row of slots. -/
theorem walkSlots (parent : NodeKind) : ∀ {index : Nat} {shapes : List SlotShape} {slots : List Slot} {W : Registry},
    parent.shapes.drop index = shapes → List.Forall₂ (fun shape s => Slot.fits s shape = true) shapes slots →
    (∀ s ∈ slots, s.Held W) →
    Follows W (c.transformer.walkSlots parent index slots) (Draft.walkSlots visit parent index (slots.map Slot.outline))
      (fun W' => Walked.Shows (fun ss ss' => Slot.AllShow W' ss ss' ∧
        List.Forall₂ (fun shape s => Slot.fits s shape = true) shapes ss)
        (fun ss' => ss'.map Slot.outline = slots.map Slot.outline))
  | _, _, [], _, _, hfits, _ => by
    cases hfits
    exact .pure ⟨⟨.nil, .nil⟩, fun _ => rfl⟩
  | index, shape :: shapes, s :: slots, W, hshapes, hfits, hheld => by
    obtain ⟨hfits₁, hfits₂⟩ := List.forall₂_cons.1 hfits
    obtain ⟨hs, hslots⟩ := List.forall_mem_cons.1 hheld
    have hshape : parent.shapes[index]? = some shape := by
      have hhead : (parent.shapes.drop index)[0]? = some shape := by rw [hshapes]; rfl
      rwa [List.getElem?_drop, Nat.add_zero] at hhead
    have htail : parent.shapes.drop (index + 1) = shapes := by
      rw [← List.tail_drop, hshapes]
      rfl
    unfold Transformer.walkSlots
    rw [List.map_cons, Draft.walkSlots, hshape]
    refine (h.walkSlot parent index hs hfits₁).bind (fun W₁ h₁ w s' hw => ?_)
    refine (walkSlots parent htail hfits₂ (fun s hs => (hslots s hs).up (by order))).bind
      (fun W₂ h₂ rest rest' hrest => ?_)
    refine .pure ⟨⟨.cons (hw.value.1.up (by order)) hrest.value.1, .cons hw.value.2 hrest.value.2⟩, fun hc => ?_⟩
    obtain ⟨hc₁, hc₂⟩ : w.changed = false ∧ rest.changed = false := by simpa using hc
    rw [List.map_cons, hw.same hc₁, hrest.same hc₂]

/-! ## Nodes -/

/-- **A node is walked as its draft says.** -/
theorem walk (hn : n.Held W) : Follows W (c.walk n) (Draft.walk visit n.outline) Node.Shows := by
  have hfits : List.Forall₂ (fun shape s => Slot.fits s shape = true) n.kind.shapes n.slots := hn.wellFormed.self.fits
  unfold LoweringContext.walk Transformer.walk Draft.walk
  rw [Node.kind_outline, Node.slots_outline]
  refine (h.walkSlots n.kind List.drop_zero hfits hn.slots).bind (fun W₁ h₁ w slots' hw => ?_)
  split
  · have hmake : Node.make? n.kind w.value =
        (Node.fresh n.kind w.value >>= fun m => pure (.ok m) : Fresh (Except SlotError Node)) := by
      unfold Node.make?
      rw [NodeKind.checkSlots_of_fits hw.value.2]
    unfold Transformer.make
    rw [hmake, Draft.make_eq_pure]
    have hmade : Records W₁ (Node.fresh n.kind w.value >>= fun m => pure (.ok m) : Fresh (Except SlotError Node))
        (fun W' r => ∃ m, r = .ok m ∧ m.Shows W' (Node.fresh n.kind slots' 0).1) :=
      (draws_node hw.value.1 (Node.matchesSchema_iff.2 hw.value.2) 0).map (fun _ _ m hm => ⟨m, rfl, hm⟩)
    refine .lay hmade (fun W₂ h₂ r hr => ?_)
    obtain ⟨m, rfl, hm⟩ := hr
    exact .pure hm
  · rename_i hunchanged
    refine .pure ⟨hn.known.up (by order), ?_⟩
    show n.outline = (Node.mk 0 n.kind slots').outline
    rw [Node.outline_mk, hw.same (by simpa using hunchanged), Node.outline_eq]

/-- **A part that stays one node is lowered as its draft says.** -/
theorem lower (hn : n.Held W) : Follows W (c.lower n) (Draft.lower visit n.outline) Node.Shows := by
  refine (h.follows W n hn).bind (fun W₁ h₁ r r' hr => ?_)
  cases hr with
  | removed => exact .fail
  | one hm => exact .pure hm
  | many hms =>
    cases hms with
    | nil => exact .fail
    | cons hm hrest =>
      cases hrest with
      | nil => exact .pure hm
      | cons => exact .fail

theorem lowerAtLine (column : Nat) (hn : n.Held W) :
    Follows W (c.lowerAtLine n column) (Draft.lower visit n.outline) Node.Shows := by
  unfold LoweringContext.lowerAtLine
  split
  · exact .atLine _ _ (h.lower hn)
  · exact h.lower hn

end LoweringContext.Drafted

end Downlevel
