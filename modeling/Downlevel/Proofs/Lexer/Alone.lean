import Downlevel.Proofs.Lexer.Canonical
import Mathlib.Data.List.TakeWhile
/-!
# Proofs.Lexer.Alone — a token does not depend on what follows it

The lexer looks ahead: for the digits of an exponent, the `x` of a hexadecimal number, the line feed behind an escaped
carriage return, a longer mark.  Each such look finds in the characters of the token what it found in the text, or finds
nothing where the text ends.  So every cut of a token takes all of its own characters again, one lemma for each cut, and
a token that stands alone is scanned as it was in the text (`scanAll_token_alone`).
-/
namespace Downlevel.Lexer

open CharClass

variable {cs : List Char} {offset : Nat}

/-! ## Names -/

theorem splitName_alone (cs : List Char) : splitName (splitName cs).1 = ((splitName cs).1, []) := by
  fun_induction splitName cs with
  | case1 => rfl
  | case2 c cs hpart name rest heq ih =>
    rw [heq] at ih
    unfold splitName
    rw [if_pos hpart, ih]
  | case3 after name rest heq hpart ih =>
    rw [heq] at ih
    unfold splitName
    rw [if_neg hpart, if_pos rfl]
    simp [show splitName name = (name, []) from ih]
  | case4 => rfl
  | case5 => rfl

/-- A character that begins no name begins none where the text ends behind it. -/
theorem splitName_singleton {c : Char} {after : List Char} (h : (splitName (c :: after)).1 = []) :
    (splitName [c]).1 = [] := by
  unfold splitName at h ⊢
  split at h
  · cases h
  · rename_i hpart
    rw [if_neg hpart]
    split <;> rfl

/-! ## Numbers -/

/-- Characters of a class end where another character follows. -/
theorem takeWhile_append_stop {p : Char → Bool} {next : List Char} (cs : List Char)
    (hstop : ∀ d ∈ next.head?, p d = false) :
    (cs.takeWhile p ++ next).takeWhile p = cs.takeWhile p ∧ (cs.takeWhile p ++ next).dropWhile p = next := by
  have hall : ∀ d ∈ cs.takeWhile p, p d = true := fun _ hd => List.mem_takeWhile_imp hd
  rw [List.takeWhile_append_of_pos hall, List.dropWhile_append_of_pos hall]
  cases next with
  | nil => exact ⟨by simp, rfl⟩
  | cons d next =>
    have hd : p d = false := hstop d rfl
    simp [hd]

theorem takeWhile_alone {p : Char → Bool} :
    (cs.takeWhile p).takeWhile p = cs.takeWhile p ∧ (cs.takeWhile p).dropWhile p = [] := by
  have hall := takeWhile_append_stop (p := p) cs (fun d (hd : d ∈ ([] : List Char).head?) => by cases hd)
  rwa [List.append_nil] at hall

/-- The mark of an exponent, its sign and what its digits are taken from. -/
structure IsExponent (cs : List Char) (c : Char) (sign digits : List Char) : Prop where
  text : cs = c :: sign ++ digits
  mark : c = 'e' ∨ c = 'E'
  sign : sign = [] ∨ sign = ['+'] ∨ sign = ['-']
  digits : digits.head?.any isDigit = true

/-- An exponent is a mark, a sign and at least one digit. -/
theorem IsExponent.splitExponent {c : Char} {sign digits : List Char} (h : IsExponent cs c sign digits) :
    splitExponent cs = (c :: sign ++ digits.takeWhile isDigit, digits.dropWhile isDigit) := by
  obtain ⟨rfl, hmark, hsign, hdigits⟩ := h
  cases digits with
  | nil => cases hdigits
  | cons d digits =>
    have hd : isDigit d = true := hdigits
    rcases hsign with rfl | rfl | rfl
    · have hplus : d ≠ '+' := by rintro rfl; cases hd
      have hminus : d ≠ '-' := by rintro rfl; cases hd
      simp [Lexer.splitExponent, hmark, hd, hplus, hminus]
    · simp [Lexer.splitExponent, hmark, hd]
    · simp [Lexer.splitExponent, hmark, hd]

/-- Where there is no exponent, none is cut off. -/
theorem splitExponent_cases (cs : List Char) :
    splitExponent cs = ([], cs) ∨ ∃ c sign digits, IsExponent cs c sign digits := by
  unfold splitExponent
  split
  · exact .inl rfl
  · rename_i c after
    split
    · rename_i hmark
      split
      rename_i sign digits heq
      have hsign : (sign = [] ∨ sign = ['+'] ∨ sign = ['-']) ∧ after = sign ++ digits := by
        split at heq <;> cases heq <;> simp
      split
      · rename_i hdigits
        exact .inr ⟨c, sign, digits, by rw [hsign.2]; rfl, hmark, hsign.1, hdigits⟩
      · exact .inl rfl
    · exact .inl rfl

theorem splitExponent_head (cs : List Char) : ∀ d ∈ (splitExponent cs).1.head?, d = 'e' ∨ d = 'E' := by
  rcases splitExponent_cases cs with hnone | ⟨c, sign, digits, h⟩
  · rw [hnone]
    exact fun _ h => by cases h
  · rw [h.splitExponent]
    rintro d ⟨⟩
    exact h.mark

theorem splitExponent_alone (cs : List Char) : splitExponent (splitExponent cs).1 = ((splitExponent cs).1, []) := by
  rcases splitExponent_cases cs with hnone | ⟨c, sign, digits, h⟩
  · rw [hnone]
    rfl
  · have halone : IsExponent (c :: sign ++ digits.takeWhile isDigit) c sign (digits.takeWhile isDigit) := by
      refine ⟨rfl, h.mark, h.sign, ?_⟩
      have hdigits := h.digits
      cases digits with
      | nil => cases hdigits
      | cons d digits =>
        have hd : isDigit d = true := hdigits
        rw [List.takeWhile_cons, if_pos hd]
        exact hd
    rw [h.splitExponent, halone.splitExponent, takeWhile_alone.1, takeWhile_alone.2]

/-- Where there is no point, no fraction is cut off. -/
theorem splitFraction_of_head (h : ∀ d ∈ cs.head?, d ≠ '.') : splitFraction cs = ([], cs) := by
  unfold splitFraction
  split
  · exact absurd rfl (h '.' rfl)
  · rfl

theorem splitFraction_head (cs : List Char) : ∀ d ∈ (splitFraction cs).1.head?, d = '.' := by
  unfold splitFraction
  split
  · rintro d ⟨⟩
    rfl
  · exact fun _ h => by cases h

/-- A fraction takes its digits up to an exponent. -/
theorem splitFraction_alone (cs : List Char) {exponent : List Char}
    (hexponent : ∀ d ∈ exponent.head?, d = 'e' ∨ d = 'E') :
    splitFraction ((splitFraction cs).1 ++ exponent) = ((splitFraction cs).1, exponent) := by
  have hstop : ∀ d ∈ exponent.head?, isDigit d = false := fun d hd => by
    rcases hexponent d hd with rfl | rfl <;> rfl
  by_cases hpoint : ∃ after, cs = '.' :: after
  · obtain ⟨after, rfl⟩ := hpoint
    simp only [splitFraction, List.cons_append]
    rw [(takeWhile_append_stop _ hstop).1, (takeWhile_append_stop _ hstop).2]
  · have hnone : splitFraction cs = ([], cs) := splitFraction_of_head (fun d hd heq => by
      subst heq
      obtain ⟨after, hcs⟩ := List.head?_eq_some_iff.1 hd
      exact hpoint ⟨after, hcs⟩)
    rw [hnone]
    exact splitFraction_of_head (fun d hd => by rcases hexponent d hd with rfl | rfl <;> decide)

theorem splitDecimal_alone (cs : List Char) : splitDecimal (splitDecimal cs).1 = ((splitDecimal cs).1, []) := by
  obtain ⟨fraction, rest, hfraction⟩ : ∃ fraction rest, splitFraction (cs.dropWhile isDigit) = (fraction, rest) :=
    ⟨_, _, rfl⟩
  obtain ⟨exponent, behind, hexponent⟩ : ∃ exponent behind, splitExponent rest = (exponent, behind) := ⟨_, _, rfl⟩
  have hmark : ∀ d ∈ exponent.head?, d = 'e' ∨ d = 'E' := by
    simpa [hexponent] using splitExponent_head rest
  have hstop : ∀ d ∈ (fraction ++ exponent).head?, isDigit d = false := by
    have hpoint : ∀ d ∈ fraction.head?, d = '.' := by
      simpa [hfraction] using splitFraction_head (cs.dropWhile isDigit)
    intro d hd
    cases fraction with
    | nil => rcases hmark d hd with rfl | rfl <;> rfl
    | cons c fraction =>
      rw [hpoint d hd]
      rfl
  have hagain : splitFraction (fraction ++ exponent) = (fraction, exponent) := by
    simpa [hfraction] using splitFraction_alone (cs.dropWhile isDigit) hmark
  have hlast : splitExponent exponent = (exponent, []) := by
    simpa [hexponent] using splitExponent_alone rest
  have htext : (splitDecimal cs).1 = cs.takeWhile isDigit ++ (fraction ++ exponent) := by
    simp [splitDecimal, hfraction, hexponent]
  rw [htext]
  simp only [splitDecimal]
  rw [(takeWhile_append_stop _ hstop).1, (takeWhile_append_stop _ hstop).2, hagain]
  simp only [hlast, List.append_assoc]

/-- A number that is not hexadecimal is decimal. -/
theorem splitNumber_eq_splitDecimal (h : ∀ c after, cs = '0' :: c :: after → ¬ (c = 'x' ∨ c = 'X')) :
    splitNumber cs = splitDecimal cs := by
  unfold splitNumber
  split
  · exact if_neg (h _ _ rfl)
  · rfl

theorem splitNumber_alone (cs : List Char) : splitNumber (splitNumber cs).1 = ((splitNumber cs).1, []) := by
  by_cases hhex : ∃ c after, cs = '0' :: c :: after ∧ (c = 'x' ∨ c = 'X')
  · obtain ⟨c, after, rfl, hc⟩ := hhex
    simp only [splitNumber, if_pos hc]
    rw [takeWhile_alone.1, takeWhile_alone.2]
  · have hdecimal : ∀ c after, cs = '0' :: c :: after → ¬ (c = 'x' ∨ c = 'X') :=
      fun c after hcs hc => hhex ⟨c, after, hcs, hc⟩
    rw [splitNumber_eq_splitDecimal hdecimal, splitNumber_eq_splitDecimal, splitDecimal_alone]
    -- the characters of the number stand at the front of the text, so they are not hexadecimal either
    intro c after htext
    have happend := splitDecimal_append cs
    rw [htext] at happend
    exact hdecimal c _ happend.symm

/-! ## Strings -/

/-- The cut where nothing follows the literal. -/
def LiteralCut.alone (cut : LiteralCut) : LiteralCut := { cut with rest := [] }

theorem cutString_plain {quote c : Char} (hquote : c ≠ quote) (hslash : c ≠ '\\') (hbreak : isLineBreak c ≠ true)
    (cs : List Char) : cutString quote (c :: cs) = (cutString quote cs).after [c] := by
  rw [cutString.eq_def]
  dsimp only
  rw [if_neg hquote, if_neg hslash, if_neg hbreak]

theorem cutString_escape {quote d : Char} {rest : List Char} (hquote : '\\' ≠ quote)
    (hpair : ∀ behind, d = '\r' → rest = '\n' :: behind → False) :
    cutString quote ('\\' :: d :: rest) = (cutString quote rest).after ['\\', d] := by
  rw [cutString, if_neg hquote, if_pos rfl]
  exact hpair

theorem cutString_escapedPair {quote : Char} (hquote : '\\' ≠ quote) (rest : List Char) :
    cutString quote ('\\' :: '\r' :: '\n' :: rest) = (cutString quote rest).after ['\\', '\r', '\n'] := by
  rw [cutString, if_neg hquote, if_pos rfl]

theorem cutString_alone (quote : Char) (cs : List Char) :
    cutString quote (cutString quote cs).text = (cutString quote cs).alone := by
  fun_induction cutString quote cs with
  | case1 => rfl
  | case2 cs => simp [cutString, LiteralCut.alone]
  | case3 hquote => simp [cutString, hquote, LiteralCut.alone]
  | case4 rest hquote ih =>
    rw [LiteralCut.after_text, List.cons_append, List.cons_append, List.singleton_append,
      cutString_escapedPair hquote, ih]
    rfl
  | case5 d rest hpair hquote ih =>
    rw [LiteralCut.after_text, List.cons_append, List.singleton_append, cutString_escape hquote, ih]
    · rfl
    · -- a line feed at the front of what the literal goes on with stands there in the text too
      intro behind hd hfeed
      have hrest := cutString_append quote rest
      rw [hfeed] at hrest
      exact hpair _ hd hrest.symm
  | case6 => rfl
  | case7 c cs hquote hslash hbreak ih =>
    rw [LiteralCut.after_text, List.singleton_append, cutString_plain hquote hslash hbreak, ih]
    rfl

/-! ## Tokens -/

/-- The cut where nothing follows the token. -/
def TokenCut.alone (cut : TokenCut) : TokenCut := { cut with rest := [] }

theorem cutName_alone (h : cs ≠ []) : cutName (cutName cs).text = (cutName cs).alone := by
  cases cs with
  | nil => exact absurd rfl h
  | cons c after =>
    cases hname : (splitName (c :: after)).1 with
    | nil => simp [cutName, hname, splitName_singleton hname, TokenCut.alone]
    | cons d name =>
      have hagain := splitName_alone (c :: after)
      rw [hname] at hagain
      simp only [cutName, hname, List.isEmpty_cons, Bool.false_eq_true, if_false]
      split <;> simp [TokenCut.alone, *]

theorem cutToken_punctuation (p : Punctuation) : cutToken p.text = ⟨.punctuation p, p.text, .none, [], none⟩ := by
  cases p <;> decide

/-- A character that begins no mark is none. -/
theorem punctuation?_singleton {c : Char} {after : List Char} (h : punctuation? (c :: after) = none) :
    punctuation? [c] = none := by
  have hfirst := List.find?_eq_none.1 (List.findSome?_eq_none_iff.1 h 1 (by decide))
  refine List.findSome?_eq_none_iff.2 (fun n hn => List.find?_eq_none.2 (fun p hp => ?_))
  have hlong : ∀ m ∈ [4, 3, 2, 1], 1 ≤ m := by decide
  rw [List.take_of_length_le (hlong n hn)]
  exact hfirst p hp

/-- A number that begins with a point has a digit behind it. -/
theorem splitNumber_point {after : List Char} (h : after.head?.any isDigit = true) :
    (splitNumber ('.' :: after)).1 ≠ ['.'] := by
  cases after with
  | nil => cases h
  | cons d after =>
    have hd : isDigit d = true := h
    have hpoint : isDigit '.' = false := rfl
    simp [splitNumber, splitDecimal, splitFraction, hd, hpoint]

theorem cutToken_text_cons (c : Char) (after : List Char) :
    ∃ behind, (cutToken (c :: after)).text = c :: behind ∧ (behind = [] ∨ behind.head? = after.head?) := by
  have happend := cutToken_append (c :: after)
  cases htext : (cutToken (c :: after)).text with
  | nil => cases cutToken_text_eq_nil.1 htext
  | cons d behind =>
    rw [htext] at happend
    obtain ⟨rfl, hafter⟩ := List.cons.inj happend
    refine ⟨behind, rfl, ?_⟩
    cases behind with
    | nil => exact .inl rfl
    | cons e behind =>
      rw [← hafter]
      exact .inr rfl

section Beginnings

variable {c : Char} {after : List Char}

theorem cutToken_of_name (h : (isIdentifierStart c || c = '\\') = true) :
    cutToken (c :: after) = cutName (c :: after) := if_pos h

theorem cutToken_of_number (hname : ¬ (isIdentifierStart c || c = '\\') = true)
    (h : (isDigit c || (c = '.' && after.head?.any isDigit)) = true) : cutToken (c :: after) =
      ⟨.number, (splitNumber (c :: after)).1, .number (NumericLiteral.value (splitNumber (c :: after)).1),
        (splitNumber (c :: after)).2, none⟩ :=
  (if_neg hname).trans (if_pos h)

variable (hname : ¬ (isIdentifierStart c || c = '\\') = true)
  (hnumber : ¬ (isDigit c || (c = '.' && after.head?.any isDigit)) = true)

include hname hnumber

theorem cutToken_of_quote (h : (c = '"' || c = '\'') = true) : cutToken (c :: after) =
    ⟨.string, c :: (cutString c after).text, .string (Escapes.literalValue (c :: (cutString c after).text)),
      (cutString c after).rest, if (cutString c after).closed then none else some .unterminatedString⟩ :=
  (if_neg hname).trans ((if_neg hnumber).trans (if_pos h))

theorem cutToken_of_mark (hquote : ¬ (c = '"' || c = '\'') = true) {p : Punctuation}
    (h : punctuation? (c :: after) = some p) :
    cutToken (c :: after) = ⟨.punctuation p, p.text, .none, (c :: after).drop p.text.length, none⟩ := by
  refine (if_neg hname).trans ((if_neg hnumber).trans ((if_neg hquote).trans ?_))
  rw [h]

theorem cutToken_of_noMark (hquote : ¬ (c = '"' || c = '\'') = true) (h : punctuation? (c :: after) = none) :
    cutToken (c :: after) = ⟨.error, [c], .none, after, some (.unexpectedCharacter c)⟩ := by
  refine (if_neg hname).trans ((if_neg hnumber).trans ((if_neg hquote).trans ?_))
  rw [h]

end Beginnings

/-- How a token is cut off is told by its first character, and for a point by the one behind it. -/
theorem cutToken_cases (c : Char) (after : List Char) :
    cutToken (c :: after) = cutName (c :: after) ∨
    (isDigit c || (c = '.' && after.head?.any isDigit)) = true ∧ cutToken (c :: after) =
      ⟨.number, (splitNumber (c :: after)).1, .number (NumericLiteral.value (splitNumber (c :: after)).1),
        (splitNumber (c :: after)).2, none⟩ ∨
    (c = '"' || c = '\'') = true ∧ cutToken (c :: after) =
      ⟨.string, c :: (cutString c after).text, .string (Escapes.literalValue (c :: (cutString c after).text)),
        (cutString c after).rest, if (cutString c after).closed then none else some .unterminatedString⟩ ∨
    (∃ p, (cutToken (c :: after)).kind = .punctuation p) ∨ (cutToken (c :: after)).kind = .error := by
  by_cases hname : (isIdentifierStart c || c = '\\') = true
  · exact .inl (cutToken_of_name hname)
  by_cases hnumber : (isDigit c || (c = '.' && after.head?.any isDigit)) = true
  · exact .inr (.inl ⟨hnumber, cutToken_of_number hname hnumber⟩)
  by_cases hquote : (c = '"' || c = '\'') = true
  · exact .inr (.inr (.inl ⟨hquote, cutToken_of_quote hname hnumber hquote⟩))
  refine .inr (.inr (.inr ?_))
  cases hmark : punctuation? (c :: after) with
  | some p => exact .inl ⟨p, by rw [cutToken_of_mark hname hnumber hquote hmark]⟩
  | none => exact .inr (by rw [cutToken_of_noMark hname hnumber hquote hmark])

/-- No name is a literal. -/
theorem cutName_kind : (cutName cs).kind ≠ .string ∧ (cutName cs).kind ≠ .number := by
  unfold cutName
  dsimp only
  repeat' split
  all_goals exact ⟨nofun, nofun⟩

/-- **A token takes all of its own characters**, as what it was in the text. -/
theorem cutToken_alone (h : cs ≠ []) : cutToken (cutToken cs).text = (cutToken cs).alone := by
  cases cs with
  | nil => exact absurd rfl h
  | cons c after =>
    obtain ⟨behind, htext, hbehind⟩ := cutToken_text_cons c after
    by_cases hname : (isIdentifierStart c || c = '\\') = true
    · rw [cutToken_of_name hname] at htext ⊢
      rw [htext, cutToken_of_name hname, ← htext]
      exact cutName_alone h
    by_cases hnumber : (isDigit c || (c = '.' && after.head?.any isDigit)) = true
    · rw [cutToken_of_number hname hnumber] at htext ⊢
      have hagain := splitNumber_alone (c :: after)
      -- the digit behind a point is a character of the number
      have hnumber' : (isDigit c || (c = '.' && behind.head?.any isDigit)) = true := by
        rcases hbehind with rfl | hhead
        · rw [Bool.or_eq_true, Bool.and_eq_true, decide_eq_true_eq] at hnumber
          rcases hnumber with hdigit | ⟨rfl, hdigit⟩
          · simp [hdigit]
          · exact absurd htext (splitNumber_point hdigit)
        · rw [hhead]
          exact hnumber
      dsimp only at htext ⊢
      rw [htext] at hagain ⊢
      rw [cutToken_of_number hname hnumber', hagain]
      rfl
    -- the text that is left is shorter, so a point that started no number starts none again
    have hnumber' : ¬ (isDigit c || (c = '.' && behind.head?.any isDigit)) = true := by
      rcases hbehind with rfl | hhead
      · intro hdigit
        have hdigit : isDigit c = true := by simpa using hdigit
        exact hnumber (by simp [hdigit])
      · rw [hhead]
        exact hnumber
    by_cases hquote : (c = '"' || c = '\'') = true
    · rw [cutToken_of_quote hname hnumber hquote] at htext ⊢
      obtain rfl : (cutString c after).text = behind := (List.cons.inj htext).2
      dsimp only
      rw [cutToken_of_quote hname hnumber' hquote, cutString_alone]
      rfl
    cases hmark : punctuation? (c :: after) with
    | some p =>
      rw [cutToken_of_mark hname hnumber hquote hmark]
      exact cutToken_punctuation p
    | none =>
      rw [cutToken_of_noMark hname hnumber hquote hmark] at htext ⊢
      obtain rfl : [] = behind := (List.cons.inj htext).2
      dsimp only
      rw [cutToken_of_noMark hname hnumber' hquote (punctuation?_singleton hmark)]
      rfl

/-- Trivia is told by two characters, so where it is at the front of a text it is there whatever follows. -/
theorem cut?_eq_none_of_append {front behind : List Char} (h : cut? (front ++ behind) = none) : cut? front = none := by
  rcases front with _ | ⟨c, _ | ⟨d, front⟩⟩
  · rfl
  all_goals
    unfold cut? at h ⊢
    dsimp only [List.cons_append, List.nil_append] at h ⊢
    grind

/-- Characters with no trivia at their front that are one token are scanned as that token. -/
theorem scan_of_cut? (offset : Nat) (hnone : cut? cs = none) (hrest : (cutToken cs).rest = []) :
    (scan offset cs).lexeme = .realized (cutToken cs).kind .empty (cutToken cs).text (cutToken cs).value .empty ∧
      (scan offset cs).rest = [] := by
  have hitems : (run false offset cs).items = [] := run_of_cut?_eq_none hnone
  have hlead : (run false offset cs).rest = cs := by
    have happend := run_append false offset cs
    rwa [hitems] at happend
  have hempty : ∀ start, run true start [] = ⟨[], [], none⟩ := fun _ => rfl
  have htrail : ∀ start, (if (cutToken cs).kind = .endOfFile then ⟨[], (cutToken cs).rest, none⟩
      else run true start (cutToken cs).rest : TriviaRun) = ⟨[], [], none⟩ := by
    intro start
    rw [hrest, hempty, ite_self]
  simp only [scan, hitems, hlead, htrail]
  exact ⟨rfl, trivial⟩

/-- Of no characters at all the end of the file is what is left. -/
theorem scanUpTo_nil (limit : Nat) :
    (scanUpTo (limit + 1) offset []).map Prod.fst = [.realized .endOfFile .empty [] .none .empty] := rfl

/-- **A scanned token takes all of its own characters**, and there is no trivia at their front. -/
theorem scan_text_alone (h : (scan offset cs).lexeme.kind ≠ .endOfFile) :
    cut? (scan offset cs).lexeme.text = none ∧
      cutToken (scan offset cs).lexeme.text = (cutToken (run false offset cs).rest).alone := by
  have hstart : cut? (run false offset cs).rest = none :=
    (runUpTo_stops (Nat.le_refl _)).resolve_right (fun h => Bool.false_ne_true h.1)
  have hfront := cutToken_append (run false offset cs).rest
  rw [← hfront] at hstart
  exact ⟨cut?_eq_none_of_append hstart, cutToken_alone (fun hnil => h (scan_kind_eq_endOfFile.2 hnil))⟩

/-- **Tokens do not depend on what follows them**: the characters of a token of a text, scanned alone, are one token of
the same kind that denotes the same, with no trivia around it, and the end of the file. -/
theorem scanAll_token_alone (text : List Char) (x : Lexeme) (hx : x ∈ (scanAll text).map Prod.fst)
    (hk : x.kind ≠ .endOfFile) :
    (scanAll x.text).map Prod.fst =
      [.realized x.kind .empty x.text x.value .empty, .realized .endOfFile .empty [] .none .empty] := by
  obtain ⟨start, ds, rfl⟩ := (scanAll_scans text).cut x hx
  obtain ⟨hnone, halone⟩ := scan_text_alone hk
  have hrest : (cutToken (scan start ds).lexeme.text).rest = [] := by rw [halone]; rfl
  obtain ⟨hlexeme, hbehind⟩ := scan_of_cut? 0 hnone hrest
  rw [halone] at hlexeme
  cases htext : (scan start ds).lexeme.text with
  | nil => exact absurd (scan_text_eq_nil.1 htext) hk
  | cons c behind =>
    rw [htext] at hlexeme hbehind
    have hkind : (scan 0 (c :: behind)).lexeme.kind ≠ .endOfFile := by rw [hlexeme]; exact hk
    rw [scanAll, List.length_cons, scanUpTo, if_neg hkind, List.map_cons, hbehind, scanUpTo_nil, hlexeme, ← htext]
    rfl

/-- A number in front of a name that begins like an exponent is read the same without the name. -/
theorem scanAll_token_alone_number :
    Lexeme.realized .number .empty ['1'] (.number (NumericLiteral.value ['1'])) .empty ∈
        (scanAll ['1', 'e', 'x']).map Prod.fst ∧
      (scanAll ['1']).map Prod.fst =
        [.realized .number .empty ['1'] (.number (NumericLiteral.value ['1'])) .empty,
          .realized .endOfFile .empty [] .none .empty] :=
  have hmem : Lexeme.realized .number .empty ['1'] (.number (NumericLiteral.value ['1'])) .empty ∈
      (scanAll ['1', 'e', 'x']).map Prod.fst := by decide +kernel
  ⟨hmem, scanAll_token_alone ['1', 'e', 'x'] _ hmem (fun h => by cases h)⟩

end Downlevel.Lexer
