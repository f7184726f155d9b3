import Downlevel.Proofs.Tree.TokenPasses
import Downlevel.Proofs.Tree.Walks
import Mathlib.Data.List.Nodup
/-!
# Proofs.Tree.Copies — telling tokens apart copies what was met before and nothing else

The pass behind `Node.withUniqueTokens` leaves a token object where it is met first and puts a new object of the same
content wherever it is met again (`Copies`).  What it leaves of a part are objects that it met for the first time and
objects that are new, so no two parts share one (`Distinct`).  So the tokens of the new tree are distinct, the first of
each object stays where it was, and the tree itself stays if no token was met twice (`Node.withUniqueTokens_exact`).  A
tree of plain code stands where it stood (`makes_uniqueTokens`).
-/
namespace Downlevel

/-! ## Distinct objects -/

/-- The objects met are older than the number `b`, and what is made is not. -/
structure MetBelow (b : Nat) (s : Supplied (List ObjectId)) : Prop where
  next : b ≤ s.next
  met : ∀ i ∈ s.own, i < b

/-- The tokens that were made between two states: objects met for the first time, and new ones. -/
structure Distinct (b : Nat) (s s' : Supplied (List ObjectId)) (ts : List Token) : Prop where
  next : s.next ≤ s'.next
  met : ∀ i ∈ s.own, i ∈ s'.own
  below : ∀ i ∈ s'.own, i < b
  nodup : (ts.map Token.id).Nodup
  first : ∀ t ∈ ts, (t.id ∈ s'.own ∧ t.id ∉ s.own) ∨ (s.next ≤ t.id ∧ t.id < s'.next)

namespace Distinct

variable {b : Nat} {s s₁ s' : Supplied (List ObjectId)} {ts us : List Token}

theorem metBelow (h : Distinct b s s' ts) (hs : MetBelow b s) : MetBelow b s' :=
  ⟨Nat.le_trans hs.next h.next, h.below⟩

theorem nil (hs : MetBelow b s) : Distinct b s s [] :=
  ⟨Nat.le_refl _, fun _ hi => hi, hs.met, List.nodup_nil, fun _ ht => by cases ht⟩

/-- Numbers that are given out for nodes do not matter to tokens. -/
theorem later (h : Distinct b s s' ts) (k : Nat) (hk : s'.next ≤ k) : Distinct b s { s' with next := k } ts :=
  ⟨Nat.le_trans h.next hk, h.met, h.below, h.nodup, fun t ht =>
    (h.first t ht).imp_right (fun hnew => ⟨hnew.1, Nat.lt_of_lt_of_le hnew.2 hk⟩)⟩

/-- **What two parts are made of has no object in common.** -/
theorem append (hs : MetBelow b s) (h : Distinct b s s₁ ts) (h' : Distinct b s₁ s' us) :
    Distinct b s s' (ts ++ us) where
  next := Nat.le_trans h.next h'.next
  met := fun i hi => h'.met i (h.met i hi)
  below := h'.below
  nodup := by
    rw [List.map_append, List.nodup_append]
    refine ⟨h.nodup, h'.nodup, ?_⟩
    intro i hi j hj hij
    subst hij
    obtain ⟨t, ht, rfl⟩ := List.mem_map.1 hi
    obtain ⟨u, hu, hid⟩ := List.mem_map.1 hj
    have hs₁ := h.metBelow hs
    -- an object met in the first part is not met for the first time in the second, and is too old to be new there
    rcases h.first t ht with ⟨hmet, -⟩ | ⟨hlow, hhigh⟩ <;> rcases h'.first u hu with ⟨hmet', hfirst⟩ | ⟨hlow', -⟩
    · exact hfirst (hid ▸ hmet)
    · exact absurd (h.below _ hmet) (Nat.not_lt.2 (Nat.le_trans hs₁.next (hid ▸ hlow')))
    · exact absurd (h'.below _ hmet') (Nat.not_lt.2 (Nat.le_trans hs.next (hid ▸ hlow)))
    · exact absurd hhigh (Nat.not_lt.2 (hid ▸ hlow'))
  first := fun t ht => by
    rcases List.mem_append.1 ht with ht | ht
    · rcases h.first t ht with ⟨hmet, hfirst⟩ | ⟨hlow, hhigh⟩
      · exact .inl ⟨h'.met _ hmet, hfirst⟩
      · exact .inr ⟨hlow, Nat.lt_of_lt_of_le hhigh h'.next⟩
    · rcases h'.first t ht with ⟨hmet, hfirst⟩ | ⟨hlow, hhigh⟩
      · exact .inl ⟨hmet, fun hi => hfirst (h.met _ hi)⟩
      · exact .inr ⟨Nat.le_trans h.next hlow, hhigh⟩

end Distinct

/-! ## Kept and copied tokens -/

/-- From a state on, tokens are kept where they were not met before and copied where they were; what is made for
nodes in between raises the next number only. -/
inductive Copies : Supplied (List ObjectId) → List Token → List Token → Supplied (List ObjectId) → Prop
  | done (own : List ObjectId) {i k : ObjectId} (next : i ≤ k) : Copies ⟨i, own⟩ [] [] ⟨k, own⟩
  | kept {t : Token} {ts us : List Token} {own : List ObjectId} {i : ObjectId} {s' : Supplied (List ObjectId)}
    (new : t.id ∉ own) (rest : Copies ⟨i, t.id :: own⟩ ts us s') : Copies ⟨i, own⟩ (t :: ts) (t :: us) s'
  | copied {t u : Token} {ts us : List Token} {own : List ObjectId} {i : ObjectId} {s' : Supplied (List ObjectId)}
    (met : t.id ∈ own) (content : u.lexeme = t.lexeme) (fresh : i ≤ u.id) (rest : Copies ⟨u.id + 1, own⟩ ts us s') :
    Copies ⟨i, own⟩ (t :: ts) (u :: us) s'

namespace Copies

variable {s s₁ s' : Supplied (List ObjectId)} {ts us vs ws : List Token} {i k b : ObjectId}

/-- The tokens have the same contents, one by one. -/
theorem contents (h : Copies s ts us s') : List.Forall₂ (fun t u => u.lexeme = t.lexeme) ts us := by
  induction h with
  | done => exact .nil
  | kept _ _ ih => exact .cons rfl ih
  | copied _ content _ _ ih => exact .cons content ih

theorem length_eq (h : Copies s ts us s') : ts.length = us.length := h.contents.length_eq

/-- **No two tokens that were kept or copied are one object.** -/
theorem distinct (h : Copies s ts us s') (hs : MetBelow b s) (hts : ∀ t ∈ ts, t.id < b) : Distinct b s s' us := by
  induction h with
  | done own next => exact (Distinct.nil hs).later _ next
  | @kept t ts us own i s' new _ ih =>
    have ht : t.id < b := hts t List.mem_cons_self
    have hhere : Distinct b ⟨i, own⟩ ⟨i, t.id :: own⟩ [t] := by
      refine ⟨Nat.le_refl _, fun _ hi => List.mem_cons_of_mem _ hi, fun j hj => ?_, by simp, fun u hu => .inl ?_⟩
      · rcases List.mem_cons.1 hj with rfl | hj
        · exact ht
        · exact hs.met j hj
      · rw [List.mem_singleton.1 hu]
        exact ⟨List.mem_cons_self, new⟩
    exact hhere.append hs (ih (hhere.metBelow hs) (fun u hu => hts u (List.mem_cons_of_mem _ hu)))
  | @copied t u ts us own i s' _ _ fresh _ ih =>
    have hhere : Distinct b ⟨i, own⟩ ⟨u.id + 1, own⟩ [u] := by
      refine ⟨Nat.le_succ_of_le fresh, fun _ hi => hi, hs.met, by simp, fun v hv => .inr ?_⟩
      rw [List.mem_singleton.1 hv]
      exact ⟨fresh, Nat.lt_succ_self _⟩
    exact hhere.append hs (ih (hhere.metBelow hs) (fun u hu => hts u (List.mem_cons_of_mem _ hu)))

/-- **The first token of an object stays where it was.** -/
theorem first (h : Copies s ts us s') : ∀ {before behind : List Token} {t : Token}, ts = before ++ t :: behind →
    t.id ∉ s.own → t.id ∉ before.map Token.id → us[before.length]? = some t := by
  induction h with
  | done => intro before behind t hsplit; cases before <;> cases hsplit
  | @kept u ts us own i s' _ _ ih =>
    intro before behind t hsplit hown hbefore
    cases before with
    | nil =>
      cases hsplit
      rfl
    | cons v before =>
      cases hsplit
      rw [List.map_cons, List.mem_cons, not_or] at hbefore
      refine ih rfl (fun hmem => ?_) hbefore.2
      rcases List.mem_cons.1 hmem with heq | hmem
      · exact hbefore.1 heq
      · exact hown hmem
  | copied met _ _ _ ih =>
    intro before behind t hsplit hown hbefore
    cases before with
    | nil =>
      cases hsplit
      exact absurd met hown
    | cons v before =>
      cases hsplit
      rw [List.map_cons, List.mem_cons, not_or] at hbefore
      exact ih rfl hown hbefore.2

/-- Tokens that are distinct and were not met are all kept. -/
theorem eq_of_nodup (h : Copies s ts us s') (hnodup : (ts.map Token.id).Nodup) (hown : ∀ t ∈ ts, t.id ∉ s.own) :
    us = ts := by
  induction h with
  | done => rfl
  | kept _ _ ih =>
    rw [List.map_cons, List.nodup_cons] at hnodup
    rw [ih hnodup.2 (fun u hu hmem => ?_)]
    rcases List.mem_cons.1 hmem with heq | hmem
    · exact hnodup.1 (heq ▸ List.mem_map_of_mem hu)
    · exact hown u (List.mem_cons_of_mem _ hu) hmem
  | copied met => exact absurd met (hown _ List.mem_cons_self)

end Copies

/-! ## The pass -/

/-- The pass that copies what was met before. -/
def TokenPass.telling : TokenPass (List ObjectId) where
  content? met t := if t.id ∈ met then some t.lexeme else none
  behind met t := if t.id ∈ met then met else t.id :: met

namespace TokenPass

variable {s s' : Supplied (List ObjectId)} {ts us : List Token} {t u : Token}

theorem content_telling {met : List ObjectId} {x : Lexeme} (h : telling.content? met t = some x) :
    t.id ∈ met ∧ x = t.lexeme := by
  unfold telling at h
  dsimp only at h
  split at h
  · exact ⟨‹_›, (Option.some.inj h).symm⟩
  · cases h

theorem behind_telling_of_mem {met : List ObjectId} (h : t.id ∈ met) : telling.behind met t = met := if_pos h

theorem behind_telling_of_notMem {met : List ObjectId} (h : t.id ∉ met) : telling.behind met t = t.id :: met := if_neg h

/-- What the pass reads is kept or copied. -/
theorem Runs.copies (h : telling.Runs s ts us s') : Copies s ts us s' := by
  induction h with
  | done own next => exact .done own next
  | @kept t _ _ own _ _ same _ ih =>
    have hnew : t.id ∉ own := fun hmem => by
      rw [show telling.content? own t = some t.lexeme from if_pos hmem] at same
      cases same
    exact .kept hnew (behind_telling_of_notMem hnew ▸ ih)
  | @made t _ _ _ own _ _ content fresh _ ih =>
    obtain ⟨hmet, hcontent⟩ := content_telling content
    exact .copied hmet hcontent fresh (behind_telling_of_mem hmet ▸ ih)

theorem isDoneBy_unlessMet : telling.IsDoneBy Token.unlessMet := by
  intro t s
  have hif : t.unlessMet s = (if s.own.contains t.id then liftM t.copy
    else (Work.modifyOwn (t.id :: ·) >>= fun _ => pure t) : Work SlotError (List ObjectId) Token) s := rfl
  by_cases hmet : t.id ∈ s.own
  · rw [if_pos (List.contains_iff_mem.2 hmet)] at hif
    have hrest : telling.Runs ⟨s.next + 1, telling.behind s.own t⟩ [] [] ⟨s.next + 1, s.own⟩ := by
      rw [behind_telling_of_mem hmet]
      exact .done _ (Nat.le_refl _)
    exact ⟨⟨s.next, t.lexeme⟩, ⟨s.next + 1, s.own⟩, hif, .made (if_pos hmet) (Nat.le_refl _) hrest⟩
  · rw [if_neg (fun hc => hmet (List.contains_iff_mem.1 hc))] at hif
    have hrest : telling.Runs ⟨s.next, telling.behind s.own t⟩ [] [] ⟨s.next, t.id :: s.own⟩ := by
      rw [behind_telling_of_notMem hmet]
      exact .done _ (Nat.le_refl _)
    exact ⟨t, ⟨s.next, t.id :: s.own⟩, hif, .kept (if_neg hmet) hrest⟩

/-- The tokens that come out have the contents of those that went in. -/
theorem respects_telling (how : Comparison) : telling.Respects how := by
  rintro t u (rfl | ⟨own, hcontent⟩)
  · simp [Token.agrees]
  · obtain ⟨-, hcontent⟩ := content_telling hcontent
    have hkind : u.kind = t.kind := congrArg Lexeme.kind hcontent
    have htext : u.text = t.text := congrArg Lexeme.text hcontent
    have hleading : u.leading = t.leading := congrArg Lexeme.leading hcontent
    have htrailing : u.trailing = t.trailing := congrArg Lexeme.trailing hcontent
    simp [Token.agrees, hkind, htext, hleading, htrailing]

end TokenPass

theorem Token.texts_of_contents {ts us : List Token} (h : List.Forall₂ (fun t u => u.lexeme = t.lexeme) ts us) :
    Token.texts us = Token.texts ts := by
  induction h with
  | nil => rfl
  | cons hhere _ ih =>
    have htext := congrArg Lexeme.fullText hhere
    rw [Token.texts, Token.texts, List.flatMap_cons, List.flatMap_cons]
    exact congrArg₂ _ htext ih

/-- What telling tokens apart leaves of a tree: the tree that it was if nothing was copied. -/
abbrev Node.CopiedAs (k : ObjectId) (n u : Node) : Prop := n.PassedAs TokenPass.telling k u

/-- The pass over a whole tree, from the next number on. -/
theorem Node.withUniqueTokens_copies {n : Node} {k : ObjectId} (h : n.Schematic) (hold : n.OlderThan k) :
    ∃ u s', n.withUniqueTokens k = (.ok u, s'.next) ∧ Copies ⟨k, []⟩ n.tokens u.tokens s' ∧ n.CopiedAs s'.next u ∧
      u.OlderThan s'.next := by
  obtain ⟨u, s', hrun, hruns, hcopied⟩ := Node.transformTokens_runs TokenPass.isDoneBy_unlessMet [] h hold
  refine ⟨u, s', ?_, hruns.copies, hcopied, hcopied.older, hruns.id_lt hold.tokens⟩
  rw [Node.withUniqueTokens, Work.runFrom, hrun]

/-- **Telling tokens apart is exact.**  The tree that comes out has no token object at two places, the structure and the
text of the tree that went in, the first token of each object where it was, and it is the tree that went in exactly if
the tokens of that were distinct; so telling its tokens apart gives it back. -/
theorem Node.withUniqueTokens_exact {n : Node} {k : ObjectId} (h : n.Schematic) (hold : n.OlderThan k) :
    ∃ u k', n.withUniqueTokens k = (.ok u, k') ∧ (u.tokens.map Token.id).Nodup ∧ (∀ how, u.agrees how n = true) ∧
      u.fullText = n.fullText ∧
      (∀ before t behind, n.tokens = before ++ t :: behind → t.id ∉ before.map Token.id →
        u.tokens[before.length]? = some t) ∧
      (u.isSame n = true ↔ (n.tokens.map Token.id).Nodup) ∧ (u.isSame n = true → u = n) ∧
      (u.withUniqueTokens k').1 = .ok u := by
  have hs : MetBelow k ⟨k, []⟩ := ⟨Nat.le_refl _, fun _ hi => by cases hi⟩
  obtain ⟨u, s', hrun, hcopies, hcopied, hold'⟩ := Node.withUniqueTokens_copies h hold
  have hnodup : (u.tokens.map Token.id).Nodup := (hcopies.distinct hs hold.tokens).nodup
  have hsame : u.isSame n = true → u = n := fun hid => hcopied.same (eq_of_beq hid)
  refine ⟨u, s'.next, hrun, hnodup, fun how => hcopied.agrees how (TokenPass.respects_telling how), Token.texts_of_contents hcopies.contents,
    fun before t behind hsplit hfirst => hcopies.first hsplit List.not_mem_nil hfirst, ⟨fun hid => ?_, fun hn => ?_⟩,
    hsame, ?_⟩
  · rw [← hsame hid]
    exact hnodup
  · rw [hcopied.kept (hcopies.eq_of_nodup hn (fun _ _ => List.not_mem_nil))]
    exact beq_self_eq_true _
  · obtain ⟨v, s'', hrun', hcopies', hcopied', -⟩ := Node.withUniqueTokens_copies hcopied.schematic hold'
    rw [hrun', hcopied'.kept (hcopies'.eq_of_nodup hnodup (fun _ _ => List.not_mem_nil))]

/-- One empty token object at two places: the first one stays, and the tree is a new one. -/
theorem Node.withUniqueTokens_exact_twice :
    (Node.mk 1 .parameterList [.token ⟨0, .empty .identifier⟩, .separated [] [], .token ⟨0, .empty .identifier⟩]).Schematic ∧
    ∃ u k', (Node.mk 1 .parameterList [.token ⟨0, .empty .identifier⟩, .separated [] [],
      .token ⟨0, .empty .identifier⟩]).withUniqueTokens 2 = (.ok u, k') ∧ (u.tokens.map Token.id).Nodup ∧
        u.tokens[0]? = some ⟨0, .empty .identifier⟩ ∧ (u.withUniqueTokens k').1 = .ok u := by
  have h : (Node.mk 1 .parameterList
      [.token ⟨0, .empty .identifier⟩, .separated [] [], .token ⟨0, .empty .identifier⟩]).Schematic :=
    Node.schematic_mk.2 ⟨.cons rfl (.cons rfl (.cons rfl .nil)), by simp⟩
  have hold : (Node.mk 1 .parameterList
      [.token ⟨0, .empty .identifier⟩, .separated [] [], .token ⟨0, .empty .identifier⟩]).OlderThan 2 :=
    ⟨Node.every_mk.2 ⟨Nat.lt_succ_self 1, by simp⟩, by simp⟩
  obtain ⟨u, k', hrun, hnodup, -, -, hfirst, -, -, hagain⟩ := Node.withUniqueTokens_exact h hold
  exact ⟨h, u, k', hrun, hnodup, hfirst [] _ _ rfl List.not_mem_nil, hagain⟩

section Plain

variable {L : Demand} {c : NodeClass} {b k : Nat} {n : Node}

theorem ends_unlessMet {t : Token} (ht : t.Meets L k) :
    Ends (fun _ => True) k t.unlessMet True (fun j u => u.Meets L j) := by
  unfold Token.unlessMet
  refine .own (fun met => ?_)
  split
  · exact .lift (makes_copy ht)
  · exact .modifyOwn (.pure (fun j hj => ht.up (by omega)))

/-- **A tree whose tokens were told apart stands where it stood, and no object of it stands at two places.** -/
theorem makes_uniqueTokens (h : n.Plain L c b) (hb : b ≤ k) :
    Makes k n.withUniqueTokens (fun j r => ∃ m, r = .ok m ∧ m.Plain L c j ∧ (m.tokens.map Token.id).Nodup) := by
  intro j hj
  have hold : n.OlderThan j := h.sound.olderThan.mono (Nat.le_trans hb hj)
  obtain ⟨m, s, hrun, hle, hm, -⟩ :=
    (ends_transformTokens (fun _ _ ht => ends_unlessMet ht) (h.up (k := k) (by omega))).run (s := ⟨j, []⟩) hj
  obtain ⟨u, s', hrun', hcopies, -⟩ := Node.withUniqueTokens_copies h.sound.wellFormed.schematic hold
  have hwalk : n.withUniqueTokens j = (.ok m, s.next) := by rw [Node.withUniqueTokens, Work.runFrom, hrun]
  obtain ⟨hok, -⟩ := Prod.mk.inj (hrun'.symm.trans hwalk)
  obtain rfl : u = m := Except.ok.inj hok
  have hmet : MetBelow j ⟨j, []⟩ := ⟨Nat.le_refl _, fun _ hi => by cases hi⟩
  rw [hwalk]
  exact ⟨hle, u, rfl, hm, (hcopies.distinct hmet hold.tokens).nodup⟩

end Plain

end Downlevel
