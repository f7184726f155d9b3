import Downlevel.Text.Lines
import Downlevel.Proofs.Lexer.Breaks
import Mathlib.Data.Set.Card
/-!
# Proofs.Text.Lines — where the lines of a text start, and which of them holds an offset

The starts of lines grow (`LineMap.pairwise_starts_ofText`), and the starts in a text are those in its two parts, unless
it is cut within `\r\n` (`LineMap.startsBehind_append`).  So a line starts behind each `Terminator` and nowhere else, and
terminators up to an offset are counted by counting starts.  A search among starts that grow cuts them in two
(`LineMap.search_split`), which tells the line of an offset, its start and the position there (`LineMap.ofText_lookup`).
-/
namespace Downlevel

namespace LineMap

open Text (Parted)

variable {cs front back : List Char} {c : Char} {offset b : Nat}

theorem startsBehind_cons (h : c = '\r' → cs.head? ≠ some '\n') : startsBehind offset (c :: cs) =
    if c = '\n' ∨ c = '\r' then (offset + 1) :: startsBehind (offset + 1) cs
    else startsBehind (offset + c.utf8Size) cs := by
  rw [startsBehind.eq_def]
  split
  · rename_i heq
    cases heq
  · rename_i heq
    cases heq
    exact absurd rfl (h rfl)
  · rename_i heq
    cases heq
    rfl

theorem utf8Size_terminator (h : c = '\n' ∨ c = '\r') : c.utf8Size = 1 := by
  rcases h with rfl | rfl <;> rfl

/-- **The lines that start in a text start in its two parts**, unless it is cut within a terminator. -/
theorem startsBehind_append (h : Parted front back) : startsBehind offset (front ++ back) =
    startsBehind offset front ++ startsBehind (offset + Text.width front) back := by
  fun_induction startsBehind offset front with
  | case1 => rfl
  | case2 offset cs ih =>
    have hwidth : Text.width ('\r' :: '\n' :: cs) = 2 + Text.width cs := by
      rw [Text.width_cons, Text.width_cons, utf8Size_terminator (.inr rfl), utf8Size_terminator (.inl rfl)]
      omega
    rw [List.cons_append, List.cons_append, startsBehind, ih h.tail.tail, hwidth, Nat.add_assoc, List.cons_append]
  | case3 offset c cs hpair hend ih =>
    rw [List.cons_append, startsBehind_cons (h.head_of_not_pair hpair), if_pos hend, ih h.tail, Text.width_cons,
      utf8Size_terminator hend, Nat.add_assoc, List.cons_append]
  | case4 offset c cs hpair hend ih =>
    rw [List.cons_append, startsBehind_cons (h.head_of_not_pair hpair), if_neg hend, ih h.tail, Text.width_cons,
      Nat.add_assoc]

theorem startsBehind_eq_nil (h : ∀ c ∈ cs, c ≠ '\n' ∧ c ≠ '\r') : startsBehind offset cs = [] := by
  induction cs generalizing offset with
  | nil => rfl
  | cons c cs ih =>
    obtain ⟨⟨hfeed, hreturn⟩, hcs⟩ := List.forall_mem_cons.1 h
    rw [startsBehind_cons (fun hc => absurd hc hreturn), if_neg (not_or.2 ⟨hfeed, hreturn⟩)]
    exact ih hcs

theorem bounds_of_mem_startsBehind (h : b ∈ startsBehind offset cs) : offset < b ∧ b ≤ offset + Text.width cs := by
  fun_induction startsBehind offset cs with
  | case1 => cases h
  | case2 offset cs ih =>
    rw [Text.width_cons, Text.width_cons, utf8Size_terminator (.inr rfl), utf8Size_terminator (.inl rfl)]
    rcases List.mem_cons.1 h with rfl | h
    · omega
    · have := ih h
      omega
  | case3 offset c cs _ hend ih =>
    rw [Text.width_cons, utf8Size_terminator hend]
    rcases List.mem_cons.1 h with rfl | h
    · omega
    · have := ih h
      omega
  | case4 offset c cs _ _ ih =>
    rw [Text.width_cons]
    have := ih h
    omega

/-- **Lines start one behind the other.** -/
theorem pairwise_startsBehind : (startsBehind offset cs).Pairwise (· < ·) := by
  fun_induction startsBehind offset cs with
  | case1 => exact .nil
  | case2 offset cs ih => exact .cons (fun b hb => (bounds_of_mem_startsBehind hb).1) ih
  | case3 offset c cs _ _ ih => exact .cons (fun b hb => (bounds_of_mem_startsBehind hb).1) ih
  | case4 offset c cs _ _ ih => exact ih

theorem pairwise_starts_ofText (text : List Char) : (ofText text).starts.Pairwise (· < ·) :=
  .cons (fun _ hb => (bounds_of_mem_startsBehind hb).1) pairwise_startsBehind

end LineMap

/-! ## Terminators -/

/-- A place of a text at which a line ends: `mark` stands there, which is `\r\n`, or one of the two on its own. -/
structure Terminator (text : List Char) where
  before : List Char
  mark : List Char
  behind : List Char
  text_eq : text = before ++ (mark ++ behind)
  ends : mark = ['\r', '\n'] ∨ (mark = ['\n'] ∧ before.getLast? ≠ some '\r') ∨
    (mark = ['\r'] ∧ behind.head? ≠ some '\n')

namespace Terminator

variable {text : List Char}

/-- The offset behind the terminator. -/
def stop (t : Terminator text) : Nat := Text.width (t.before ++ t.mark)

theorem stop_eq (t : Terminator text) : t.stop = Text.width t.before + Text.width t.mark := Text.width_append _ _

/-- What stands up to a terminator tells where in it the terminator begins. -/
theorem before_eq {t t' : Terminator text} (h : t.before ++ t.mark = t'.before ++ t'.mark) :
    t.before = t'.before ∧ t.mark = t'.mark := by
  have hpair : ∀ s : List Char, s ++ ['\r', '\n'] = (s ++ ['\r']) ++ ['\n'] := fun s => by simp
  rcases t.ends with hmark | ⟨hmark, halone⟩ | ⟨hmark, halone⟩ <;>
    rcases t'.ends with hmark' | ⟨hmark', halone'⟩ | ⟨hmark', halone'⟩ <;>
    rw [hmark, hmark'] at h ⊢
  · exact ⟨List.append_cancel_right h, rfl⟩
  · rw [hpair, List.append_cancel_right_eq] at h
    exact absurd (by rw [← h, List.getLast?_concat]) halone'
  · rw [hpair] at h
    exact absurd (List.append_inj_right' h rfl) (by decide)
  · rw [hpair, List.append_cancel_right_eq] at h
    exact absurd (by rw [h, List.getLast?_concat]) halone
  · exact ⟨List.append_cancel_right h, rfl⟩
  · exact absurd (List.append_inj_right' h rfl) (by decide)
  · rw [hpair] at h
    exact absurd (List.append_inj_right' h rfl) (by decide)
  · exact absurd (List.append_inj_right' h rfl) (by decide)
  · exact ⟨List.append_cancel_right h, rfl⟩

/-- **No two terminators of a text end at one offset.** -/
theorem stop_injective : Function.Injective (@stop text) := by
  intro t t' h
  have htext : ∀ t : Terminator text, (t.before ++ t.mark) ++ t.behind = text := fun t => by
    rw [List.append_assoc, ← t.text_eq]
  have hcut : some (t.before ++ t.mark, t.behind) = some (t'.before ++ t'.mark, t'.behind) := by
    rw [← Text.splitAtByte?_append, ← Text.splitAtByte?_append, htext, htext]
    exact congrArg (Text.splitAtByte? text) h
  obtain ⟨hfront, hbehind⟩ := Prod.mk.inj (Option.some.inj hcut)
  obtain ⟨hbefore, hmark⟩ := before_eq hfront
  cases t
  cases t'
  congr

end Terminator

namespace LineMap

open Text (Parted)

/-- **Behind a terminator a line starts.** -/
theorem stop_mem_startsBehind {text : List Char} (t : Terminator text) : t.stop ∈ startsBehind 0 text := by
  have hstop := t.stop_eq
  have hmark : Parted t.before (t.mark ++ t.behind) ∧
      t.stop ∈ startsBehind (0 + Text.width t.before) (t.mark ++ t.behind) := by
    rcases t.ends with h | ⟨h, halone⟩ | ⟨h, halone⟩ <;> rw [h] at hstop ⊢ <;> rw [hstop, Nat.zero_add]
    · exact ⟨fun _ => by simp, List.mem_cons_self⟩
    · refine ⟨.of_not_last halone, ?_⟩
      rw [List.singleton_append, startsBehind_cons (fun hc => by cases hc), if_pos (.inl rfl)]
      exact List.mem_cons_self
    · refine ⟨fun _ => by simp, ?_⟩
      rw [List.singleton_append, startsBehind_cons (fun _ => halone), if_pos (.inr rfl)]
      exact List.mem_cons_self
  have hsplit : startsBehind 0 (t.before ++ (t.mark ++ t.behind)) = _ := startsBehind_append hmark.1
  rw [← t.text_eq] at hsplit
  rw [hsplit]
  exact List.mem_append_right _ hmark.2

/-- **A line starts behind a terminator only.** -/
theorem exists_terminator {text front : List Char} (htext : text = front ++ cs) (hparted : Parted front cs)
    (h : b ∈ startsBehind (Text.width front) cs) : ∃ t : Terminator text, t.stop = b := by
  generalize hoffset : Text.width front = offset at h
  fun_induction startsBehind offset cs generalizing front with
  | case1 => cases h
  | case2 offset cs ih =>
    have htwo : Text.width (front ++ ['\r', '\n']) = offset + 2 := by rw [Text.width_append, hoffset]; rfl
    rcases List.mem_cons.1 h with rfl | h
    · exact ⟨⟨front, ['\r', '\n'], cs, htext, .inl rfl⟩, htwo⟩
    · exact ih (by rw [htext]; simp) (.of_not_last (by simp)) htwo h
  | case3 offset c cs hpair hend ih =>
    have hone : Text.width (front ++ [c]) = offset + 1 := by
      rw [Text.width_append, hoffset, Text.width_cons, utf8Size_terminator hend]
      rfl
    have hhead : c = '\r' → cs.head? ≠ some '\n' := by
      intro hc hhead
      obtain ⟨rest, hrest⟩ := List.head?_eq_some_iff.1 hhead
      exact hpair rest hc hrest
    rcases List.mem_cons.1 h with rfl | h
    · refine ⟨⟨front, [c], cs, htext, ?_⟩, hone⟩
      rcases hend with rfl | rfl
      · exact .inr (.inl ⟨rfl, fun hlast => hparted hlast rfl⟩)
      · exact .inr (.inr ⟨rfl, hhead rfl⟩)
    · exact ih (by rw [htext]; simp) (fun hlast => hhead (by simpa using hlast)) hone h
  | case4 offset c cs hpair hend ih =>
    have hfront : text = (front ++ [c]) ++ cs := by rw [htext, List.append_assoc]; rfl
    refine ih hfront (.of_not_last ?_) (by rw [Text.width_append, hoffset]; rfl) h
    rw [List.getLast?_concat]
    exact fun hc => hend (.inr (Option.some.inj hc))

theorem mem_startsBehind_iff {text : List Char} : b ∈ startsBehind 0 text ↔ ∃ t : Terminator text, t.stop = b :=
  ⟨exists_terminator (show text = [] ++ text from rfl) (fun h => by cases h), fun ⟨t, ht⟩ => ht ▸ stop_mem_startsBehind t⟩

/-- **There are as many terminators up to an offset as lines that start up to it**, the first one left out. -/
theorem ncard_terminators (text : List Char) (offset : Nat) :
    {t : Terminator text | t.stop ≤ offset}.ncard = (startsBehind 0 text).countP (· ≤ offset) := by
  have himage : Terminator.stop '' {t : Terminator text | t.stop ≤ offset} =
      ((startsBehind 0 text).filter (· ≤ offset)).toFinset := by
    ext b
    simp only [Set.mem_image, Set.mem_ofPred_eq, List.coe_toFinset, List.mem_filter, mem_startsBehind_iff,
      decide_eq_true_eq]
    constructor
    · rintro ⟨t, ht, rfl⟩
      exact ⟨⟨t, rfl⟩, ht⟩
    · rintro ⟨⟨t, rfl⟩, ht⟩
      exact ⟨t, ht, rfl⟩
  have hnodup : ((startsBehind 0 text).filter (· ≤ offset)).Nodup :=
    (pairwise_startsBehind.imp Nat.ne_of_lt).filter _
  rw [← Set.ncard_image_of_injective _ Terminator.stop_injective, himage, Set.ncard_coe_finset,
    List.toFinset_card_of_nodup hnodup, List.countP_eq_length_filter]

/-! ## The line of an offset -/

variable {m : LineMap}

/-- **What a search comes to** among starts that grow: the starts in front of the place are smaller than the offset, and
those behind it are not. -/
theorem search_split (hm : m.starts.Pairwise (· < ·)) (offset : Nat) : ∃ lows highs, m.starts = lows ++ highs ∧
    (∀ b ∈ lows, b < offset) ∧ (∀ b ∈ highs, offset ≤ b) ∧
      m.search offset = if highs.head? = some offset then .ok lows.length else .error lows.length := by
  have hsplit : m.starts.takeWhile (· < offset) ++ m.starts.dropWhile (· < offset) = m.starts :=
    List.takeWhile_append_dropWhile
  have hstop := List.head?_dropWhile_not (fun b => decide (b < offset)) m.starts
  have hlows : ∀ b ∈ m.starts.takeWhile (· < offset), b < offset := fun b hb =>
    of_decide_eq_true (List.all_eq_true.1 List.all_takeWhile b hb)
  unfold search
  generalize m.starts.takeWhile (· < offset) = lows at *
  generalize m.starts.dropWhile (· < offset) = highs at *
  rw [← hsplit] at hm ⊢
  refine ⟨lows, highs, rfl, hlows, fun b hb => ?_, ?_⟩
  · cases highs with
    | nil => cases hb
    | cons a rest =>
      have ha : offset ≤ a := by simpa using hstop
      rcases List.mem_cons.1 hb with rfl | hb
      · exact ha
      · exact Nat.le_trans ha (Nat.le_of_lt (List.rel_of_pairwise_cons (List.pairwise_append.1 hm).2.1 hb))
  · dsimp only
    rw [List.getElem?_append_right (Nat.le_refl _), Nat.sub_self, List.head?_eq_getElem?]

/-- A bound of starts that grow, if it is one of them, is the first. -/
theorem head?_of_bound {starts : List Nat} (hstarts : starts.Pairwise (· < ·)) (hbound : ∀ b ∈ starts, offset ≤ b)
    (h : offset ∈ starts) : starts.head? = some offset := by
  cases starts with
  | nil => cases h
  | cons a rest =>
    rcases List.mem_cons.1 h with rfl | hrest
    · rfl
    · have hlt : a < offset := List.rel_of_pairwise_cons hstarts hrest
      exact absurd hlt (Nat.not_lt.2 (hbound a List.mem_cons_self))

/-- **The line that holds the start of a line starts there.** -/
theorem startOf_eq_self (hm : m.starts.Pairwise (· < ·)) (h : b ∈ m.starts) : m.startOf b = b := by
  obtain ⟨lows, highs, hsplit, hlows, hhighs, hsearch⟩ := search_split hm b
  rw [hsplit] at hm h
  have hhead : highs.head? = some b := head?_of_bound (List.pairwise_append.1 hm).2.1 hhighs
    ((List.mem_append.1 h).resolve_left (fun hlow => Nat.lt_irrefl b (hlows b hlow)))
  rw [startOf, start?, lineOf, hsearch, if_pos hhead, hsplit]
  dsimp only
  rw [List.getElem?_append_right (Nat.le_refl _), Nat.sub_self, ← List.head?_eq_getElem?, hhead]
  rfl

/-- **The starts are cut behind the start of the line that holds an offset**; a search that misses the offset does not
end in front of the first line. -/
theorem lineOf_split (hm : m.starts.Pairwise (· < ·)) (hfirst : m.starts.head? = some 0) (offset : Nat) :
    ∃ before b behind, m.starts = before ++ b :: behind ∧ b ≤ offset ∧ (∀ d ∈ behind, offset < d) ∧
      m.lineOf offset = before.length ∧ ∀ next, m.search offset = .error next → next = before.length + 1 := by
  obtain ⟨lows, highs, hsplit, hlows, hhighs, hsearch⟩ := search_split hm offset
  rw [hsplit] at hm hfirst
  have hgrow := (List.pairwise_append.1 hm).2.1
  by_cases hhead : highs.head? = some offset
  · obtain ⟨rest, rfl⟩ := List.head?_eq_some_iff.1 hhead
    rw [if_pos hhead] at hsearch
    refine ⟨lows, offset, rest, hsplit, Nat.le_refl _, fun d hd => List.rel_of_pairwise_cons hgrow hd, ?_, ?_⟩
    · rw [lineOf, hsearch]
    · intro next hnext
      rw [hsearch] at hnext
      cases hnext
  · rw [if_neg hhead] at hsearch
    rcases List.eq_nil_or_concat' lows with rfl | ⟨before, b, rfl⟩
    · obtain ⟨rest, rfl⟩ := List.head?_eq_some_iff.1 hfirst
      exact absurd (congrArg some (Nat.le_zero.1 (hhighs 0 List.mem_cons_self)).symm) hhead
    · have hbehind : ∀ d ∈ highs, offset < d := fun d hd => Nat.lt_of_le_of_ne (hhighs d hd)
        (fun heq => hhead (head?_of_bound hgrow hhighs (heq ▸ hd)))
      refine ⟨before, b, highs, by rw [hsplit, List.append_assoc]; rfl, ?_, hbehind, ?_, ?_⟩
      · exact Nat.le_of_lt (hlows b (List.mem_append_right _ (List.mem_singleton_self b)))
      · rw [lineOf, hsearch]
        simp
      · intro next hnext
        rw [hsearch] at hnext
        simpa using hnext.symm

/-- The number of a line is the number of lines that start before the offset or at it, the first one left out. -/
theorem countP_starts {before behind : List Nat} (hm : (before ++ b :: behind).Pairwise (· < ·)) (hb : b ≤ offset)
    (hbehind : ∀ d ∈ behind, offset < d) : (before ++ b :: behind).countP (· ≤ offset) = before.length + 1 := by
  have hbefore : before.countP (· ≤ offset) = before.length := List.countP_eq_length.2 (fun d hd =>
    decide_eq_true (Nat.le_trans (Nat.le_of_lt ((List.pairwise_append.1 hm).2.2 d hd b List.mem_cons_self)) hb))
  have hnone : behind.countP (· ≤ offset) = 0 := List.countP_eq_zero.2 (fun d hd => by
    simpa using hbehind d hd)
  rw [List.countP_append, List.countP_cons, hbefore, hnone, if_pos (decide_eq_true hb)]

/-- Starts that grow up to a bound are no more than the bound. -/
theorem length_le_of_lt {starts : List Nat} (hstarts : starts.Pairwise (· < ·)) (h : ∀ d ∈ starts, d < b) :
    starts.length ≤ b := by
  have hnodup : starts.Nodup := hstarts.imp Nat.ne_of_lt
  have hsubset : starts.toFinset ⊆ Finset.range b := fun d hd => Finset.mem_range.2 (h d (List.mem_toFinset.1 hd))
  have hcard := Finset.card_le_card hsubset
  rwa [List.toFinset_card_of_nodup hnodup, Finset.card_range] at hcard

/-- **Offsets are looked up exactly.**  The starts of the lines of a text grow from zero, and the line of an offset is
the number of terminators that end before the offset or at it.  That line exists and starts at the greatest start up to
the offset; a search that misses does so behind the first line, so nothing is taken from zero.  In a text that 32 bits
can count, a position gives its offset back. -/
theorem ofText_lookup (text : List Char) (offset : Nat) :
    (ofText text).starts.head? = some 0 ∧ (ofText text).starts.Pairwise (· < ·) ∧
      (ofText text).lineOf offset = {t : Terminator text | t.stop ≤ offset}.ncard ∧
      (ofText text).start? ((ofText text).lineOf offset) = some ((ofText text).startOf offset) ∧
      IsGreatest {b | b ∈ (ofText text).starts ∧ b ≤ offset} ((ofText text).startOf offset) ∧
      (∀ next, (ofText text).search offset = .error next → 0 < next) ∧
      (offset ≤ Text.width text → Text.width text < Position.limit →
        ((ofText text).start? ((ofText text).positionOf offset).line).map
          (· + ((ofText text).positionOf offset).character) = some offset) := by
  have hm := pairwise_starts_ofText text
  -- Whether the search finds the offset or misses, it cuts the starts in two, and all that follows is told by the
  -- cut.
  obtain ⟨before, b, behind, hsplit, hb, hbehind, hline, hmiss⟩ := lineOf_split hm rfl offset
  have hat : (ofText text).starts[before.length]? = some b := by
    rw [hsplit, List.getElem?_append_right (Nat.le_refl _), Nat.sub_self, List.getElem?_cons_zero]
  have hstart : (ofText text).startOf offset = b := by rw [startOf, hline, start?, hat, Option.getD_some]
  have hcount := countP_starts (hsplit ▸ hm) hb hbehind
  refine ⟨rfl, hm, ?_, ?_, ⟨⟨?_, ?_⟩, ?_⟩, ?_, ?_⟩
  · rw [← hsplit, ofText, List.countP_cons, if_pos (decide_eq_true (Nat.zero_le _))] at hcount
    rw [hline, ncard_terminators]
    exact (Nat.succ.inj hcount).symm
  · rw [hline, hstart, start?, hat]
  · rw [hstart]
    exact List.mem_of_getElem? hat
  · rwa [hstart]
  · rintro d ⟨hd, hle⟩
    rw [hsplit] at hd hm
    rw [hstart]
    rcases List.mem_append.1 hd with hd | hd
    · exact Nat.le_of_lt ((List.pairwise_append.1 hm).2.2 d hd b List.mem_cons_self)
    · rcases List.mem_cons.1 hd with rfl | hd
      · exact Nat.le_refl _
      · exact absurd hle (Nat.not_le.2 (hbehind d hd))
  · intro next hnext
    rw [hmiss next hnext]
    exact Nat.succ_pos _
  · intro hoffset hwidth
    have hbelow : before.length ≤ b := by
      rw [hsplit] at hm
      exact length_le_of_lt (List.pairwise_append.1 hm).1
        (fun d hd => (List.pairwise_append.1 hm).2.2 d hd b List.mem_cons_self)
    have hsmall : before.length < Position.limit ∧ offset - b < Position.limit := by omega
    rw [positionOf, hline, hstart, Nat.mod_eq_of_lt hsmall.1, Nat.mod_eq_of_lt hsmall.2, start?, hat, Option.map_some,
      Nat.add_sub_cancel' hb]

/-- Between the two characters of a terminator, in a text that ends a line in each of the three ways. -/
theorem ofText_lookup_withinPair :
    5 ≤ Text.width "a\nbc\r\nd\re".toList ∧ Text.width "a\nbc\r\nd\re".toList < Position.limit ∧
      {t : Terminator "a\nbc\r\nd\re".toList | t.stop ≤ 5}.ncard = 1 ∧
      ((ofText "a\nbc\r\nd\re".toList).start? ((ofText "a\nbc\r\nd\re".toList).positionOf 5).line).map
        (· + ((ofText "a\nbc\r\nd\re".toList).positionOf 5).character) = some 5 := by
  have hwidth : 5 ≤ Text.width "a\nbc\r\nd\re".toList := by decide
  have hlimit : Text.width "a\nbc\r\nd\re".toList < Position.limit := by decide
  have hline : (ofText "a\nbc\r\nd\re".toList).lineOf 5 = 1 := by decide
  obtain ⟨-, -, hcount, -, -, -, hposition⟩ := ofText_lookup "a\nbc\r\nd\re".toList 5
  exact ⟨hwidth, hlimit, hcount ▸ hline, hposition hwidth hlimit⟩

end LineMap

end Downlevel
