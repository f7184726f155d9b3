import Downlevel.Lexer.Lexeme
/-!
# Proofs.Lexer.Lossless — cutting a token loses nothing

Every cut of the lexer divides its text in two: what it takes and what it leaves are the text again.  So the full text
of a scanned token and the rest behind it are the text that was scanned (`scan_fullText`), and the same holds of a
token that is cut anew as a regular expression literal (`rescanSlash_fullText`).
-/
namespace Downlevel.Lexer

open CharClass

/-! ## Names and numbers -/

theorem splitName_append (cs : List Char) : (splitName cs).1 ++ (splitName cs).2 = cs := by
  fun_induction splitName cs with
  | case1 => rfl
  | case2 c cs _ name rest heq ih => rw [heq] at ih; simpa using ih
  | case3 after name rest heq _ ih => rw [heq] at ih; simpa using ih
  | case4 => rfl
  | case5 => rfl

theorem splitExponent_append (cs : List Char) : (splitExponent cs).1 ++ (splitExponent cs).2 = cs := by
  unfold splitExponent
  split
  · rfl
  · rename_i c after
    split
    · split
      rename_i sign digits heq
      have hsign : sign ++ digits = after := by split at heq <;> cases heq <;> rfl
      split <;> simp [hsign]
    · rfl

theorem splitFraction_append (cs : List Char) : (splitFraction cs).1 ++ (splitFraction cs).2 = cs := by
  unfold splitFraction
  split <;> simp

theorem splitDecimal_append (cs : List Char) : (splitDecimal cs).1 ++ (splitDecimal cs).2 = cs := by
  have hf := splitFraction_append (cs.dropWhile isDigit)
  have he := splitExponent_append (splitFraction (cs.dropWhile isDigit)).2
  simp only [splitDecimal, List.append_assoc]
  rw [he, hf, List.takeWhile_append_dropWhile]

theorem splitNumber_append (cs : List Char) : (splitNumber cs).1 ++ (splitNumber cs).2 = cs := by
  unfold splitNumber
  split
  · split
    · simp
    · exact splitDecimal_append _
  · exact splitDecimal_append _

/-! ## Literals -/

@[simp] theorem LiteralCut.after_text (lead : List Char) (cut : LiteralCut) :
    (cut.after lead).text = lead ++ cut.text := rfl

@[simp] theorem LiteralCut.after_rest (lead : List Char) (cut : LiteralCut) : (cut.after lead).rest = cut.rest := rfl

theorem cutString_append (quote : Char) (cs : List Char) :
    (cutString quote cs).text ++ (cutString quote cs).rest = cs := by
  fun_induction cutString quote cs <;> simp_all

theorem cutPattern_append (inClass : Bool) (cs : List Char) :
    (cutPattern inClass cs).text ++ (cutPattern inClass cs).rest = cs := by
  fun_induction cutPattern inClass cs <;> simp_all

theorem cutRegularExpression_append (cs : List Char) :
    (cutRegularExpression cs).text ++ (cutRegularExpression cs).rest = cs := by
  have h := cutPattern_append false (cs.drop 1)
  simp only [cutRegularExpression]
  split
  · rw [List.append_assoc, List.takeWhile_append_dropWhile, List.append_assoc, h, List.take_append_drop]
  · rw [List.append_assoc, h, List.take_append_drop]

/-! ## Tokens -/

/-- A mark that is found stands at the front of the text. -/
theorem punctuation?_text {cs : List Char} {p : Punctuation} (h : punctuation? cs = some p) :
    p.text ++ cs.drop p.text.length = cs := by
  unfold punctuation? at h
  obtain ⟨n, -, hn⟩ := List.exists_of_findSome?_eq_some h
  have ht : p.text = cs.take n := by simpa using List.find?_some hn
  rw [ht, List.length_take]
  by_cases hle : n ≤ cs.length
  · rw [Nat.min_eq_left hle, List.take_append_drop]
  · rw [Nat.min_eq_right (by omega), List.take_of_length_le (by omega), List.drop_length, List.append_nil]

theorem cutName_append (cs : List Char) : (cutName cs).text ++ (cutName cs).rest = cs := by
  have h := splitName_append cs
  simp only [cutName]
  split
  · exact List.take_append_drop 1 cs
  · split <;> exact h

theorem cutToken_append (cs : List Char) : (cutToken cs).text ++ (cutToken cs).rest = cs := by
  unfold cutToken
  split
  · rfl
  · rename_i c after
    split
    · exact cutName_append _
    · split
      · exact splitNumber_append _
      · split
        · simpa using cutString_append c after
        · split
          · rename_i p hp; exact punctuation?_text hp
          · rfl

/-! ## Trivia -/

theorem strip?_append {lead cs rest : List Char} (h : Text.strip? lead cs = some rest) : lead ++ rest = cs := by
  fun_induction Text.strip? lead cs <;> simp_all

theorem splitAtMark?_append {mark cs before after : List Char}
    (h : Text.splitAtMark? mark cs = some (before, after)) : before ++ mark ++ after = cs := by
  induction cs generalizing before with
  | nil =>
    simp only [Text.splitAtMark?] at h
    split at h
    · rename_i hm
      simp only [Option.some.injEq, Prod.mk.injEq] at h
      obtain ⟨rfl, rfl⟩ := h
      simp [hm]
    · cases h
  | cons c cs ih =>
    simp only [Text.splitAtMark?] at h
    split at h
    · rename_i rest hs
      simp only [Option.some.injEq, Prod.mk.injEq] at h
      obtain ⟨rfl, rfl⟩ := h
      simpa using strip?_append hs
    · obtain ⟨⟨before', after'⟩, hm, heq⟩ := Option.map_eq_some_iff.1 h
      simp only [Prod.mk.injEq] at heq
      obtain ⟨rfl, rfl⟩ := heq
      simpa using ih hm

theorem cutLineBreak_append (c : Char) (cs : List Char) :
    (cutLineBreak c cs).item.text ++ (cutLineBreak c cs).rest = c :: cs := by
  unfold cutLineBreak
  split
  · split <;> rfl
  · rfl

theorem cutMultiLine_append (cs : List Char) :
    (cutMultiLine cs).item.text ++ (cutMultiLine cs).rest = '/' :: '*' :: cs := by
  unfold cutMultiLine
  split
  · rename_i body rest h
    have := splitAtMark?_append h
    simp_all
  · simp

/-- **A piece of trivia and what follows it are the text.** -/
theorem cut?_append {cs : List Char} {cut : TriviaCut} (h : cut? cs = some cut) : cut.item.text ++ cut.rest = cs := by
  unfold cut? at h
  split at h
  · cases h
  · rename_i c rest
    split at h
    · obtain rfl := Option.some.inj h; exact List.takeWhile_append_dropWhile
    · split at h
      · obtain rfl := Option.some.inj h; exact cutLineBreak_append c rest
      · split at h
        · rename_i hc
          subst hc
          split at h
          · obtain rfl := Option.some.inj h; exact List.takeWhile_append_dropWhile
          · obtain rfl := Option.some.inj h; exact cutMultiLine_append _
          · cases h
        · cases h

theorem runUpTo_append (trailing : Bool) (limit offset : Nat) (cs : List Char) :
    Trivia.texts (runUpTo trailing limit offset cs).items ++ (runUpTo trailing limit offset cs).rest = cs := by
  fun_induction runUpTo trailing limit offset cs with
  | case1 => rfl
  | case2 => rfl
  | case3 _ _ _ cut hcut => simpa [Trivia.texts] using cut?_append hcut
  | case4 limit offset cs cut hcut _ _ more ih =>
    have hrest : Trivia.texts (cut.item :: more.items) = cut.item.text ++ Trivia.texts more.items := by
      simp [Trivia.texts]
    rw [hrest, List.append_assoc, ih, cut?_append hcut]

theorem run_append (trailing : Bool) (offset : Nat) (cs : List Char) :
    Trivia.texts (run trailing offset cs).items ++ (run trailing offset cs).rest = cs :=
  runUpTo_append trailing cs.length offset cs

/-! ## Tokens with their trivia -/

/-- **The full text of a scanned token and the rest behind it are the text.** -/
theorem scan_fullText (offset : Nat) (cs : List Char) :
    (scan offset cs).lexeme.fullText ++ (scan offset cs).rest = cs := by
  have hlead := run_append false offset cs
  have htoken := cutToken_append (run false offset cs).rest
  simp only [scan, Lexeme.fullText, Lexeme.leading, Lexeme.text, Lexeme.trailing, TriviaList.fullText,
    TriviaList.toList_ofList, List.append_assoc]
  split
  · simp only [Trivia.texts, List.flatMap_nil, List.nil_append]
    rw [htoken]; exact hlead
  · rw [run_append, htoken, hlead]

/-- **Cutting a token anew as a regular expression literal loses nothing either.** -/
theorem rescanSlash_fullText (offset : Nat) (cs : List Char) :
    (rescanSlash offset cs).lexeme.fullText ++ (rescanSlash offset cs).rest = cs := by
  have hlead := run_append false offset cs
  have hliteral := cutRegularExpression_append (run false offset cs).rest
  simp only [rescanSlash, Lexeme.fullText, Lexeme.leading, Lexeme.text, Lexeme.trailing, TriviaList.fullText,
    TriviaList.toList_ofList, List.append_assoc]
  rw [run_append, hliteral, hlead]

/-- **Behind the end of the file there is nothing.** -/
theorem scan_rest_of_endOfFile {offset : Nat} {cs : List Char}
    (h : (scan offset cs).lexeme.kind = .endOfFile) : (scan offset cs).rest = [] := by
  have hcut : ∀ ds, (cutToken ds).kind = .endOfFile → (cutToken ds).rest = [] := by
    intro ds
    unfold cutToken
    split
    · intro _; rfl
    · simp only [cutName]
      repeat' split
      all_goals simp
  simp only [scan, Lexeme.kind] at h ⊢
  rw [if_pos h]
  exact hcut _ h

end Downlevel.Lexer
