import Downlevel.Proofs.Lexer.Lossless
import Mathlib.Data.List.Chain
/-!
# Proofs.Lexer.Trivia — what is known of trivia that was cut off a text

Each piece has characters.  Blanks are cut off as far as they go, so no two runs of blanks stand side by side
(`runUpTo_isChain`); behind a token only the last piece ends a line (`runUpTo_trailing_newLine`), and the row goes on as
far as there is trivia or up to that end of line (`runUpTo_stops`).
-/
namespace Downlevel.Lexer

open CharClass

variable {cs : List Char} {offset : Nat}

theorem cutLineBreak_isNewLine (c : Char) (cs : List Char) : (cutLineBreak c cs).item.isNewLine = true := by
  unfold cutLineBreak
  repeat' split
  all_goals rfl

/-- **A piece of trivia has characters.** -/
theorem cut?_text_ne_nil {cut : TriviaCut} (h : cut? cs = some cut) : cut.item.text ≠ [] := by
  cases cs with
  | nil => cases h
  | cons c rest =>
    unfold cut? at h
    dsimp only at h
    split at h
    · rename_i hblank
      obtain rfl := Option.some.inj h
      rw [List.takeWhile_cons, if_pos hblank]
      exact List.cons_ne_nil _ _
    split at h
    · obtain rfl := Option.some.inj h
      unfold cutLineBreak
      repeat' split
      all_goals exact List.cons_ne_nil _ _
    split at h
    · rename_i hbreak hslash
      split at h
      · obtain rfl := Option.some.inj h
        rw [List.takeWhile_cons, if_pos (by simpa using hbreak)]
        exact List.cons_ne_nil _ _
      · obtain rfl := Option.some.inj h
        unfold cutMultiLine
        split
        all_goals exact List.cons_ne_nil _ _
      · cases h
    · cases h

/-- What is known of trivia in a row: each piece has characters, and a line that ends stops it behind a token. -/
theorem runUpTo_items {trailing : Bool} {limit : Nat} : ∀ item ∈ (runUpTo trailing limit offset cs).items,
    item.text ≠ [] := by
  fun_induction runUpTo trailing limit offset cs with
  | case1 => exact fun _ h => by cases h
  | case2 => exact fun _ h => by cases h
  | case3 _ _ _ cut hcut =>
    intro item hitem
    rw [List.mem_singleton.1 hitem]
    exact cut?_text_ne_nil hcut
  | case4 limit offset cs cut hcut _ _ more ih =>
    exact List.forall_mem_cons.2 ⟨cut?_text_ne_nil hcut, ih⟩

/-- Behind a token only the last piece of trivia ends a line. -/
theorem runUpTo_trailing_newLine {limit : Nat} : ∀ item ∈ (runUpTo true limit offset cs).items.dropLast,
    item.isNewLine = false := by
  generalize htrailing : true = trailing
  fun_induction runUpTo trailing limit offset cs with
  | case1 => exact fun _ h => by cases h
  | case2 => exact fun _ h => by cases h
  | case3 => exact fun _ h => by cases h
  | case4 limit offset cs cut hcut _ hgoes more ih =>
    subst htrailing
    have hcut : cut.item.isNewLine = false := by simpa using hgoes
    cases hmore : more.items with
    | nil => exact fun _ h => by cases h
    | cons item items =>
      rw [List.dropLast_cons_of_ne_nil (List.cons_ne_nil _ _), ← hmore]
      exact List.forall_mem_cons.2 ⟨hcut, ih⟩

/-- **Trivia goes on as far as there is any**, or up to the end of the line behind a token. -/
theorem runUpTo_stops {trailing : Bool} {limit : Nat} (h : cs.length ≤ limit) :
    cut? (runUpTo trailing limit offset cs).rest = none ∨
      trailing = true ∧ (runUpTo trailing limit offset cs).items.any Trivia.isNewLine = true := by
  fun_induction runUpTo trailing limit offset cs with
  | case1 _ cs =>
    rw [List.length_eq_zero_iff.1 (Nat.le_zero.1 h)]
    exact .inl rfl
  | case2 _ _ _ hcut => exact .inl hcut
  | case3 _ _ _ cut _ _ hstop =>
    obtain ⟨htrailing, hline⟩ := Bool.and_eq_true_iff.1 hstop
    exact .inr ⟨htrailing, by simpa using hline⟩
  | case4 limit offset cs cut hcut _ _ more ih =>
    have hshort : cut.rest.length ≤ limit := by
      have hlength := congrArg List.length (cut?_append hcut)
      have hpos := List.length_pos_iff.2 (cut?_text_ne_nil hcut)
      rw [List.length_append] at hlength
      omega
    refine (ih hshort).imp_right (And.imp_right (fun hline => ?_))
    rw [List.any_cons, hline, Bool.or_true]

/-- Where there is no trivia, none is cut off. -/
theorem run_of_cut?_eq_none {trailing : Bool} (h : cut? cs = none) : (run trailing offset cs).items = [] := by
  unfold run
  cases cs with
  | nil => rfl
  | cons c cs => rw [List.length_cons, runUpTo, h]

/-- A run of blanks goes as far as blanks go. -/
theorem cut?_whitespace {cut : TriviaCut} (h : cut? cs = some cut) (hblank : cut.item.isWhitespace = true) :
    cut.rest = cs.dropWhile isBlank ∧ ∃ c ∈ cs.head?, isBlank c = true := by
  cases cs with
  | nil => cases h
  | cons c rest =>
    unfold cut? at h
    dsimp only at h
    split at h
    · rename_i hc
      obtain rfl := Option.some.inj h
      exact ⟨rfl, c, rfl, hc⟩
    split at h
    · obtain rfl := Option.some.inj h
      have hnewLine : (cutLineBreak c rest).item.kind = .newLine := eq_of_beq (cutLineBreak_isNewLine c rest)
      have hwhitespace : (cutLineBreak c rest).item.kind = .whitespace := eq_of_beq hblank
      rw [hnewLine] at hwhitespace
      cases hwhitespace
    split at h
    · split at h
      · obtain rfl := Option.some.inj h
        cases hblank
      · obtain rfl := Option.some.inj h
        unfold cutMultiLine at hblank
        split at hblank
        all_goals cases hblank
      · cases h
    · cases h

/-- Whatever trivia follows a run of blanks is no run of blanks. -/
theorem cut?_behind_whitespace {cut next : TriviaCut} (h : cut? cs = some cut) (hblank : cut.item.isWhitespace = true)
    (hnext : cut? cut.rest = some next) : next.item.isWhitespace = false := by
  cases hagain : next.item.isWhitespace with
  | false => rfl
  | true =>
    obtain ⟨-, c, hc, hcblank⟩ := cut?_whitespace hnext hagain
    have hstops := List.head?_dropWhile_not isBlank cs
    rw [← (cut?_whitespace h hblank).1, hc] at hstops
    exact absurd hcblank (by simp [hstops])

/-- **No two runs of blanks stand side by side.** -/
theorem runUpTo_isChain {trailing : Bool} {limit : Nat} : (runUpTo trailing limit offset cs).items.IsChain
    (fun a b => a.isWhitespace = true → b.isWhitespace = false) := by
  fun_induction runUpTo trailing limit offset cs with
  | case1 => exact List.isChain_nil
  | case2 => exact List.isChain_nil
  | case3 => exact List.isChain_singleton _
  | case4 limit offset cs cut hcut _ _ more ih =>
    refine List.isChain_cons.2 ⟨fun item hitem hblank => ?_, ih⟩
    cases limit with
    | zero => cases hitem
    | succ limit =>
      have hmore : more = runUpTo trailing (limit + 1) (offset + cut.item.fullWidth) cut.rest := rfl
      rw [hmore, runUpTo] at hitem
      cases hnext : cut? cut.rest with
      | none =>
        rw [hnext] at hitem
        cases hitem
      | some next =>
        rw [hnext] at hitem
        have hnot := cut?_behind_whitespace hcut hblank hnext
        dsimp only at hitem
        split at hitem
        all_goals
          obtain rfl := Option.some.inj hitem
          exact hnot

end Downlevel.Lexer
