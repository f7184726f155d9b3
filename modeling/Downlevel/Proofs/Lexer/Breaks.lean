import Downlevel.Proofs.Lexer.Trivia
/-!
# Proofs.Lexer.Breaks — the line breaks of a text are those of its pieces

`Text.lineBreaks` lists the line breaks of a text, `\r` and `\n` together as one.  They are those of the two parts of a
text unless it is cut between these two characters (`Text.lineBreaks_append`).  No token that is cut off without a fault
ends there: a string literal takes both into an escape, and a regular expression literal takes no line break.  So the
line breaks of a scanned token and those of the rest behind it are those of the text (`Lexer.scan_lineBreaks`).
-/
namespace Downlevel

open CharClass

/-! ## Texts -/

/-- The line breaks of a text in order; `\r` and `\n` together are one. -/
def Text.lineBreaks : List Char → List (List Char)
  | [] => []
  | '\r' :: '\n' :: cs => ['\r', '\n'] :: lineBreaks cs
  | c :: cs => if isLineBreak c then [c] :: lineBreaks cs else lineBreaks cs

/-- A text that is cut in two is not cut between `\r` and `\n`. -/
def Text.Parted (front back : List Char) : Prop := front.getLast? = some '\r' → back.head? ≠ some '\n'

namespace Text

variable {front back cs : List Char} {c : Char}

theorem lineBreaks_cons (h : c = '\r' → cs.head? ≠ some '\n') :
    lineBreaks (c :: cs) = if isLineBreak c then [c] :: lineBreaks cs else lineBreaks cs := by
  rw [lineBreaks.eq_def]
  split
  · rename_i heq
    cases heq
  · rename_i heq
    cases heq
    exact absurd rfl (h rfl)
  · rename_i heq
    cases heq
    rfl

theorem lineBreaks_eq_nil (h : ∀ c ∈ cs, isLineBreak c = false) : lineBreaks cs = [] := by
  induction cs with
  | nil => rfl
  | cons c cs ih =>
    have hc : isLineBreak c = false := h c List.mem_cons_self
    rw [lineBreaks_cons (fun hcr => by rw [hcr] at hc; cases hc), hc]
    exact ih (fun d hd => h d (List.mem_cons_of_mem _ hd))

theorem Parted.of_not_mem (h : '\r' ∉ front) : Parted front back :=
  fun hlast => absurd (List.mem_of_getLast? hlast) h

theorem Parted.of_not_last (h : front.getLast? ≠ some '\r') : Parted front back := fun hlast => absurd hlast h

/-- Whatever the front starts with, how it ends decides. -/
theorem Parted.after {lead : List Char} (h : Parted front back) (hlead : front = [] → Parted lead back) :
    Parted (lead ++ front) back := by
  intro hlast
  rw [List.getLast?_append] at hlast
  cases hfront : front.getLast? with
  | none =>
    rw [hfront, Option.none_or] at hlast
    exact hlead (List.getLast?_eq_none_iff.1 hfront) hlast
  | some c =>
    rw [hfront, Option.some_or] at hlast
    exact h (hfront.trans hlast)

theorem Parted.tail (h : Parted (c :: cs) back) : Parted cs back := fun hlast => h (by
  rw [List.getLast?_cons, hlast]
  rfl)

/-- A character that does not start a pair in front does not start one in the whole text. -/
theorem Parted.head_of_not_pair (h : Parted (c :: cs) back) (hpair : ∀ rest, c = '\r' → cs = '\n' :: rest → False) :
    c = '\r' → (cs ++ back).head? ≠ some '\n' := by
  rintro rfl
  cases cs with
  | nil => exact h rfl
  | cons d cs =>
    rintro hd
    obtain rfl : d = '\n' := Option.some.inj hd
    exact hpair cs rfl rfl

/-- **The line breaks of a text are those of its two parts**, unless it is cut within one. -/
theorem lineBreaks_append (h : Parted front back) :
    lineBreaks (front ++ back) = lineBreaks front ++ lineBreaks back := by
  fun_induction lineBreaks front with
  | case1 => rfl
  | case2 cs ih => rw [List.cons_append, List.cons_append, lineBreaks, ih h.tail.tail, List.cons_append]
  | case3 c cs hpair hbreak ih =>
    rw [List.cons_append, lineBreaks_cons (h.head_of_not_pair hpair), if_pos hbreak, ih h.tail, List.cons_append]
  | case4 c cs hpair hbreak ih =>
    rw [List.cons_append, lineBreaks_cons (h.head_of_not_pair hpair), if_neg hbreak, ih h.tail]

end Text

/-- The line breaks of a piece of trivia: an end of line is one. -/
def Trivia.lineBreaks (item : Trivia) : List (List Char) :=
  if item.isNewLine then [item.text] else Text.lineBreaks item.text

def TriviaList.lineBreaks (t : TriviaList) : List (List Char) := t.toList.flatMap Trivia.lineBreaks

/-- The line breaks of a token with its trivia, piece by piece. -/
def Lexeme.lineBreaks (x : Lexeme) : List (List Char) :=
  x.leading.lineBreaks ++ Text.lineBreaks x.text ++ x.trailing.lineBreaks

def Token.lineBreaks (t : Token) : List (List Char) := t.lexeme.lineBreaks

namespace Lexer

open Text (Parted)

variable {cs : List Char} {offset : Nat}

/-! ## Trivia -/

theorem cutLineBreak_lineBreaks {c : Char} (h : isLineBreak c = true) :
    (cutLineBreak c cs).item.text :: Text.lineBreaks (cutLineBreak c cs).rest = Text.lineBreaks (c :: cs) := by
  unfold cutLineBreak
  split
  · split
    · rename_i hc
      rw [hc]
      rfl
    · rename_i hc
      rw [Text.lineBreaks_cons (fun hcr => absurd hcr hc), if_pos h]
  · rename_i hpair
    rw [Text.lineBreaks_cons, if_pos h]
    intro _ hhead
    obtain ⟨rest, rfl⟩ := List.head?_eq_some_iff.1 hhead
    exact hpair rest rfl

theorem cutMultiLine_parted (cs : List Char) : Parted (cutMultiLine cs).item.text (cutMultiLine cs).rest := by
  unfold cutMultiLine
  split
  · exact (Parted.of_not_mem (by decide : '\r' ∉ ['*', '/'])).after (fun h => by cases h)
  · exact fun _ h => by cases h

theorem not_mem_takeWhile {p : Char → Bool} (h : p '\r' = false) : '\r' ∉ cs.takeWhile p := fun hmem => by
  rw [List.all_eq_true.1 List.all_takeWhile _ hmem] at h
  cases h

/-- **A piece of trivia takes its line breaks off the text.** -/
theorem cut?_lineBreaks {cut : TriviaCut} (h : cut? cs = some cut) :
    cut.item.lineBreaks ++ Text.lineBreaks cut.rest = Text.lineBreaks cs := by
  have hsplit : cut.item.isNewLine = false → Parted cut.item.text cut.rest →
      cut.item.lineBreaks ++ Text.lineBreaks cut.rest = Text.lineBreaks cs := fun hline hparted => by
    rw [Trivia.lineBreaks, hline, if_neg Bool.false_ne_true, ← Text.lineBreaks_append hparted, cut?_append h]
  revert hsplit
  unfold cut? at h
  split at h
  · cases h
  · split at h
    · obtain rfl := Option.some.inj h
      exact fun hsplit => hsplit rfl (.of_not_mem (not_mem_takeWhile rfl))
    · split at h
      · rename_i hbreak
        obtain rfl := Option.some.inj h
        intro _
        rw [Trivia.lineBreaks, cutLineBreak_isNewLine, if_pos rfl]
        exact cutLineBreak_lineBreaks hbreak
      · split at h
        · split at h
          · obtain rfl := Option.some.inj h
            exact fun hsplit => hsplit rfl (.of_not_mem (not_mem_takeWhile rfl))
          · obtain rfl := Option.some.inj h
            refine fun hsplit => hsplit ?_ (cutMultiLine_parted _)
            unfold cutMultiLine
            split <;> rfl
          · cases h
        · cases h

theorem runUpTo_lineBreaks (trailing : Bool) (limit offset : Nat) (cs : List Char) :
    (runUpTo trailing limit offset cs).items.flatMap Trivia.lineBreaks
      ++ Text.lineBreaks (runUpTo trailing limit offset cs).rest = Text.lineBreaks cs := by
  fun_induction runUpTo trailing limit offset cs with
  | case1 => rfl
  | case2 => rfl
  | case3 _ _ _ cut hcut => simpa using cut?_lineBreaks hcut
  | case4 limit offset cs cut hcut _ _ more ih => rw [List.flatMap_cons, List.append_assoc, ih, cut?_lineBreaks hcut]

theorem run_lineBreaks (trailing : Bool) (offset : Nat) (cs : List Char) :
    (run trailing offset cs).items.flatMap Trivia.lineBreaks ++ Text.lineBreaks (run trailing offset cs).rest
      = Text.lineBreaks cs := runUpTo_lineBreaks trailing cs.length offset cs

/-! ## Tokens -/

theorem not_mem_splitName : '\r' ∉ (splitName cs).1 := by
  fun_induction splitName cs with
  | case1 => exact List.not_mem_nil
  | case2 c cs hpart name rest heq ih =>
    rw [heq] at ih
    exact List.not_mem_cons_of_ne_of_not_mem (fun hc => by rw [← hc] at hpart; exact absurd hpart (by decide)) ih
  | case3 after name rest heq hpart ih =>
    rw [heq] at ih
    simpa using ih
  | case4 => exact List.not_mem_nil
  | case5 => exact List.not_mem_nil

theorem not_mem_splitNumber : '\r' ∉ (splitNumber cs).1 := by
  have hdigits : ∀ cs : List Char, '\r' ∉ cs.takeWhile isDigit := fun _ => not_mem_takeWhile rfl
  have hfraction : ∀ cs : List Char, '\r' ∉ (splitFraction cs).1 := fun cs => by
    unfold splitFraction
    split
    · exact List.not_mem_cons_of_ne_of_not_mem (by decide) (hdigits _)
    · exact List.not_mem_nil
  have hexponent : ∀ cs : List Char, '\r' ∉ (splitExponent cs).1 := fun cs => by
    unfold splitExponent
    split
    · exact List.not_mem_nil
    · split
      · rename_i c after hc
        split
        rename_i sign digits heq
        have hsign : '\r' ∉ sign := by split at heq <;> cases heq <;> decide
        -- What stands for an exponent is a letter.
        have hmark : '\r' ≠ c := by rintro rfl; revert hc; decide
        split
        · refine List.not_mem_cons_of_ne_of_not_mem hmark (fun hmem => ?_)
          exact (List.mem_append.1 hmem).elim hsign (hdigits _)
        · exact List.not_mem_nil
      · exact List.not_mem_nil
  have hdecimal : '\r' ∉ (splitDecimal cs).1 := by
    unfold splitDecimal
    dsimp only
    simp only [List.mem_append, not_or]
    exact ⟨⟨hdigits _, hfraction _⟩, hexponent _⟩
  unfold splitNumber
  split
  · split
    · rename_i x rest hx
      have hmark : '\r' ≠ x := by rintro rfl; revert hx; decide
      exact List.not_mem_cons_of_ne_of_not_mem (by decide)
        (List.not_mem_cons_of_ne_of_not_mem hmark (not_mem_takeWhile rfl))
    · exact hdecimal
  · exact hdecimal

theorem cutString_parted {quote : Char} (h : quote ≠ '\r') :
    Parted (cutString quote cs).text (cutString quote cs).rest := by
  fun_induction cutString quote cs with
  | case1 => exact .of_not_mem List.not_mem_nil
  | case2 cs => exact .of_not_mem (by simpa using h.symm)
  | case3 => exact .of_not_mem (by decide)
  | case4 rest hquote ih => exact ih.after (fun _ => .of_not_last (by decide))
  | case5 d rest hpair hquote ih =>
    refine ih.after (fun hnil hlast hhead => ?_)
    have hrest := cutString_append quote rest
    rw [hnil, List.nil_append] at hrest
    obtain ⟨behind, hbehind⟩ := List.head?_eq_some_iff.1 hhead
    exact hpair behind (Option.some.inj hlast) (hrest.symm.trans hbehind)
  | case6 => exact .of_not_mem List.not_mem_nil
  | case7 c cs hquote hslash hbreak ih =>
    exact ih.after (fun _ => .of_not_mem (fun hmem => by rw [← List.mem_singleton.1 hmem] at hbreak; exact hbreak rfl))

/-- A pattern that is closed ends with its slash. -/
theorem cutPattern_closed {inClass : Bool} (h : (cutPattern inClass cs).closed = true) :
    (cutPattern inClass cs).text.getLast? = some '/' := by
  have hafter : ∀ (lead : List Char) (cut : LiteralCut), (cut.closed = true → cut.text.getLast? = some '/') →
      (cut.after lead).closed = true → (cut.after lead).text.getLast? = some '/' := fun lead cut hcut hclosed => by
    rw [LiteralCut.after_text, List.getLast?_append, hcut hclosed, Option.some_or]
  fun_induction cutPattern inClass cs with
  | case1 => cases h
  | case2 => cases h
  | case3 => cases h
  | case4 _ _ _ _ ih => exact hafter _ _ ih h
  | case5 _ _ _ _ ih => exact hafter _ _ ih h
  | case6 _ _ _ _ _ ih => exact hafter _ _ ih h
  | case7 _ _ _ _ _ _ _ hslash => rw [hslash.1]; rfl
  | case8 _ _ _ _ _ _ _ _ ih => exact hafter _ _ ih h

theorem cutRegularExpression_parted (h : (cutRegularExpression cs).closed = true) :
    Parted (cutRegularExpression cs).text (cutRegularExpression cs).rest := by
  unfold cutRegularExpression at h ⊢
  dsimp only at h ⊢
  split at h
  · rename_i hclosed
    rw [if_pos hclosed]
    have hflags : Parted (((cutPattern false (cs.drop 1)).rest).takeWhile isIdentifierPart)
        (((cutPattern false (cs.drop 1)).rest).dropWhile isIdentifierPart) := .of_not_mem (not_mem_takeWhile rfl)
    refine hflags.after (fun _ => .of_not_last ?_)
    rw [List.getLast?_append, cutPattern_closed hclosed, Option.some_or]
    decide
  · cases h

theorem not_mem_punctuation (p : Punctuation) : '\r' ∉ p.text := by cases p <;> decide

theorem cutName_parted {cut : TokenCut} (hcut : cutName cs = cut) (h : cut.error = none) :
    Parted cut.text cut.rest := by
  have hname : '\r' ∉ (splitName cs).1 := not_mem_splitName
  unfold cutName at hcut
  dsimp only at hcut
  split at hcut
  · subst hcut
    cases h
  · split at hcut
    all_goals
      subst hcut
      exact .of_not_mem hname

/-- **No token that is right ends within a line break.** -/
theorem cutToken_parted {cut : TokenCut} (hcut : cutToken cs = cut) (h : cut.error = none) :
    Parted cut.text cut.rest := by
  unfold cutToken at hcut
  split at hcut
  · subst hcut
    exact .of_not_mem List.not_mem_nil
  · rename_i c after
    split at hcut
    · exact cutName_parted hcut h
    split at hcut
    · subst hcut
      exact .of_not_mem not_mem_splitNumber
    split at hcut
    · rename_i hquote
      have hc : c ≠ '\r' := by rintro rfl; revert hquote; decide
      have hopen : Parted [c] (cutString c after).rest := .of_not_last (fun hlast => hc (Option.some.inj hlast))
      subst hcut
      exact (cutString_parted hc).after (fun _ => hopen)
    split at hcut
    · rename_i p hp
      subst hcut
      exact .of_not_mem (not_mem_punctuation p)
    · subst hcut
      cases h

/-! ## Tokens with their trivia -/

/-- **The line breaks of a token that is scanned without a fault, and those behind it, are those of the text.** -/
theorem scan_lineBreaks (h : (scan offset cs).diagnostic = none) :
    (scan offset cs).lexeme.lineBreaks ++ Text.lineBreaks (scan offset cs).rest = Text.lineBreaks cs := by
  have hlead := run_lineBreaks false offset cs
  obtain ⟨-, hlater⟩ := Option.or_eq_none_iff.1 h
  obtain ⟨herror, -⟩ := Option.or_eq_none_iff.1 hlater
  have htoken := Text.lineBreaks_append (cutToken_parted rfl (Option.map_eq_none_iff.1 herror))
  rw [cutToken_append] at htoken
  simp only [scan, Lexeme.lineBreaks, Lexeme.leading, Lexeme.text, Lexeme.trailing, TriviaList.lineBreaks,
    TriviaList.toList_ofList, List.append_assoc]
  split
  · rw [List.flatMap_nil, List.nil_append, ← htoken]
    exact hlead
  · rw [run_lineBreaks, ← htoken]
    exact hlead

/-- **The same holds of a token that is cut anew as a regular expression literal.** -/
theorem rescanSlash_lineBreaks (h : (rescanSlash offset cs).diagnostic = none) :
    (rescanSlash offset cs).lexeme.lineBreaks ++ Text.lineBreaks (rescanSlash offset cs).rest
      = Text.lineBreaks cs := by
  have hlead := run_lineBreaks false offset cs
  obtain ⟨-, hlater⟩ := Option.or_eq_none_iff.1 h
  obtain ⟨hopen, -⟩ := Option.or_eq_none_iff.1 hlater
  have hclosed : (cutRegularExpression (run false offset cs).rest).closed = true := by
    by_contra hnot
    rw [if_neg hnot] at hopen
    cases hopen
  have hliteral := Text.lineBreaks_append (cutRegularExpression_parted hclosed)
  rw [cutRegularExpression_append] at hliteral
  simp only [rescanSlash, Lexeme.lineBreaks, Lexeme.leading, Lexeme.text, Lexeme.trailing, TriviaList.lineBreaks,
    TriviaList.toList_ofList, List.append_assoc]
  rw [run_lineBreaks, ← hliteral]
  exact hlead

end Lexer

end Downlevel
