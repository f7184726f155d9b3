import Downlevel.Proofs.Lexer.Alone
/-!
# Proofs.Lexer.Numbers — which scanned numbers have a value

The lexer takes the characters of a number and the reader of literals takes their value, each by a grammar of its own.
For decimal numbers the two are one: the reader accepts what the lexer takes whole, if there is a digit in it
(`NumericLiteral.unsignedDecimal_eq_nan_iff`).  Hexadecimal and octal digits are summed up from zero, and no sum of
numbers that are not below zero is undefined.  What is left is the hexadecimal mark without digits, which the lexer
takes for a number and the reader for none (`scanAll_number_nan_iff`).
-/
namespace Downlevel

open CharClass

namespace Binary64

/-- A number without a sign, finite or not. -/
inductive IsMagnitude : Binary64 → Prop
  | infinity : IsMagnitude (.infinity false)
  | finite (mantissa : Nat) (exponent : Int) : IsMagnitude (.finite false mantissa exponent)

theorem IsMagnitude.ne_nan {x : Binary64} (h : x.IsMagnitude) : x ≠ .nan := by
  rintro rfl
  cases h

theorem ofRatio_ne_nan (negative : Bool) (num den : Nat) : ofRatio negative num den ≠ .nan := by
  unfold ofRatio
  dsimp only
  repeat' split
  all_goals exact nofun

theorem isMagnitude_ofRatio (num den : Nat) : (ofRatio false num den).IsMagnitude := by
  unfold ofRatio
  dsimp only
  repeat' split
  all_goals constructor

theorem isMagnitude_ofScaled (mantissa : Nat) (exponent : Int) : (ofScaled false mantissa exponent).IsMagnitude := by
  unfold ofScaled
  split
  all_goals exact isMagnitude_ofRatio ..

theorem ofDecimal_ne_nan (negative : Bool) (digits : Nat) (exponent : Int) :
    ofDecimal negative digits exponent ≠ .nan := by
  unfold ofDecimal
  dsimp only
  split
  · exact nofun
  split
  · exact nofun
  split
  · exact nofun
  split
  · exact ofRatio_ne_nan _ _ _
  · exact ofRatio_ne_nan _ _ _

theorem IsMagnitude.scaleBy {x : Binary64} (h : x.IsMagnitude) {k : Nat} (hk : k ≠ 0) : (x.scaleBy k).IsMagnitude := by
  cases h with
  | infinity =>
    rw [Binary64.scaleBy, if_neg hk]
    exact .infinity
  | finite mantissa exponent => exact isMagnitude_ofScaled ..

/-- **Numbers without a sign add up to a number without a sign.** -/
theorem IsMagnitude.add {x y : Binary64} (hx : x.IsMagnitude) (hy : y.IsMagnitude) : (x.add y).IsMagnitude := by
  cases hx with
  | infinity =>
    cases hy
    all_goals exact .infinity
  | finite m e =>
    cases hy with
    | infinity => exact .infinity
    | finite n f =>
      unfold Binary64.add
      dsimp only
      generalize (if e ≤ f then e else f) = low
      have hsign :
          ¬ signed false (m * Nat.pow 2 (e - low).toNat) + signed false (n * Nat.pow 2 (f - low).toNat) < 0 := by
        simp only [signed, Bool.false_eq_true, if_false]
        omega
      rw [decide_eq_false hsign]
      split
      · exact .finite ..
      · exact isMagnitude_ofScaled ..

end Binary64

namespace NumericLiteral

open Lexer

theorem isMagnitude_ofDigits {base : Nat} (hbase : base ≠ 0) (digits : List Char) :
    (ofDigits base digits).IsMagnitude := by
  unfold ofDigits
  have hzero : Binary64.zero.IsMagnitude := .finite ..
  generalize Binary64.zero = value at hzero ⊢
  induction digits generalizing value with
  | nil => exact hzero
  | cons c digits ih =>
    refine ih _ ?_
    dsimp only
    split
    · exact (hzero.scaleBy hbase).add (Binary64.isMagnitude_ofRatio ..)
    · exact hzero

/-! ## Decimal numbers -/

/-- What follows an exponent, its sign being split off as the reader of literals does. -/
theorem splitExponent_rest {c : Char} {after : List Char} (hmark : c = 'e' ∨ c = 'E') : (splitExponent (c :: after)).2 =
    if (splitSign after).2.head?.any isDigit then (splitSign after).2.dropWhile isDigit else c :: after := by
  cases after with
  | nil => simp [splitExponent, splitSign, hmark]
  | cons d rest =>
    by_cases hplus : d = '+'
    · subst hplus
      simp only [splitExponent, if_pos hmark, splitSign]
      split <;> rfl
    by_cases hminus : d = '-'
    · subst hminus
      simp only [splitExponent, if_pos hmark, splitSign]
      split <;> rfl
    have hsign : splitSign (d :: rest) = (false, d :: rest) := by simp [splitSign, hminus, hplus]
    rw [hsign]
    by_cases hdigit : isDigit d = true
    all_goals simp [splitExponent, hmark, hplus, hminus, hdigit]

/-- **An exponent is read where the lexer takes the whole text for one.** -/
theorem exponent?_eq_none_iff (cs : List Char) : exponent? cs = none ↔ (splitExponent cs).2 ≠ [] := by
  cases cs with
  | nil => simp [exponent?, splitExponent]
  | cons c after =>
    by_cases hmark : c = 'e' ∨ c = 'E'
    · rw [splitExponent_rest hmark, exponent?, if_pos hmark]
      generalize splitSign after = sign
      obtain ⟨negative, digits⟩ := sign
      dsimp only
      cases digits with
      | nil => simp
      | cons d digits =>
        by_cases hd : isDigit d = true
        · simp [hd]
        · simp [hd]
    · simp [exponent?, splitExponent, hmark]

/-- The reader of literals splits a fraction off as the lexer does, but for the point. -/
theorem unsignedDecimal_eq (negative : Bool) (cs : List Char) : unsignedDecimal negative cs =
    match exponent? (splitFraction (cs.dropWhile isDigit)).2 with
    | some exponent =>
      if cs.takeWhile isDigit = [] ∧ (splitFraction (cs.dropWhile isDigit)).1.tail = [] then .nan
      else Binary64.ofDecimal negative
        (digitsValue (cs.takeWhile isDigit ++ (splitFraction (cs.dropWhile isDigit)).1.tail))
        (exponent - (splitFraction (cs.dropWhile isDigit)).1.tail.length)
    | none => .nan := by
  unfold unsignedDecimal
  generalize cs.dropWhile isDigit = rest
  cases rest with
  | nil => rfl
  | cons d rest =>
    by_cases hpoint : d = '.'
    · subst hpoint
      rfl
    · have hnone : splitFraction (d :: rest) = ([], d :: rest) := splitFraction_of_head (by simpa using hpoint)
      -- by this the reader's own match on the point is told as well
      have hother : ∀ after, d :: rest = '.' :: after → False := fun _ heq => hpoint (List.cons.inj heq).1
      cases hexponent : exponent? (d :: rest) with
      | none => simp [hnone, hexponent]
      | some exponent => simp [hnone, hexponent]

/-- **A decimal number is read where the lexer takes the whole text for one**, and there is a digit in front of the
exponent. -/
theorem unsignedDecimal_eq_nan_iff (negative : Bool) (cs : List Char) : unsignedDecimal negative cs = .nan ↔
    (splitDecimal cs).2 ≠ [] ∨
      cs.takeWhile isDigit = [] ∧ (splitFraction (cs.dropWhile isDigit)).1.tail = [] := by
  have hrest : (splitDecimal cs).2 = (splitExponent (splitFraction (cs.dropWhile isDigit)).2).2 := rfl
  rw [unsignedDecimal_eq, hrest, ← exponent?_eq_none_iff]
  cases exponent? (splitFraction (cs.dropWhile isDigit)).2 with
  | none => exact iff_of_true rfl (.inl rfl)
  | some exponent =>
    simp only [reduceCtorEq, false_or]
    split
    · rename_i hdigits
      exact iff_of_true rfl hdigits
    · rename_i hdigits
      exact iff_of_false (Binary64.ofDecimal_ne_nan _ _ _) hdigits

/-! ## The three grammars -/

section Begins

variable {c : Char} {after : List Char}

/-- A text that begins with a digit or a point has no sign and names no infinity. -/
theorem decimal_eq (h : isDigit c = true ∨ c = '.') : decimal (c :: after) = unsignedDecimal false (c :: after) := by
  have hne : ∀ d, (isDigit d || d = '.') = false → c ≠ d := by
    rintro d hd rfl
    rcases h with h | rfl
    · simp [h] at hd
    · cases hd
  have hsign : splitSign (c :: after) = (false, c :: after) := by
    simp [splitSign, hne '-' rfl, hne '+' rfl]
  have hlower : c.toLower = c := by
    rcases h with h | rfl
    · rw [isDigit, Bool.and_eq_true, decide_eq_true_eq, decide_eq_true_eq] at h
      exact dif_neg (fun hupper => absurd (Char.le_trans hupper.1 h.2) (by decide))
    · rfl
  unfold decimal
  rw [hsign]
  dsimp only
  rw [if_neg]
  rintro (hname | hname)
  all_goals exact hne 'i' rfl (hlower.symm.trans (List.cons.inj hname).1)

variable (hbegin : (isDigit c || (c = '.' && after.head?.any isDigit)) = true)

include hbegin

/-- A decimal number that the lexer takes whole has a value: there is a digit in front of its exponent. -/
theorem decimal_ne_nan (hwhole : (splitDecimal (c :: after)).2 = []) : decimal (c :: after) ≠ .nan := by
  rw [Bool.or_eq_true, Bool.and_eq_true, decide_eq_true_eq] at hbegin
  rw [decimal_eq (hbegin.imp_right And.left), Ne, unsignedDecimal_eq_nan_iff]
  rintro (hrest | ⟨hdigits, hfraction⟩)
  · exact hrest hwhole
  rcases hbegin with hdigit | ⟨rfl, hdigit⟩
  · rw [List.takeWhile_cons, if_pos hdigit] at hdigits
    cases hdigits
  · cases after with
    | nil => cases hdigit
    | cons d after =>
      have hd : isDigit d = true := hdigit
      have hpoint : isDigit '.' = false := rfl
      simp [splitFraction, hd, hpoint] at hfraction

/-- **A number that the lexer takes whole has a value, but for the hexadecimal mark without digits.** -/
theorem value_eq_nan_iff (hwhole : (splitNumber (c :: after)).2 = []) :
    value (c :: after) = .nan ↔ c :: after = ['0', 'x'] ∨ c :: after = ['0', 'X'] := by
  by_cases hhex : ∃ x rest, c :: after = '0' :: x :: rest ∧ (x = 'x' ∨ x = 'X')
  · obtain ⟨x, rest, heq, hx⟩ := hhex
    rw [heq]
    cases rest with
    | nil =>
      rcases hx with rfl | rfl
      · exact iff_of_true (by decide) (.inl rfl)
      · exact iff_of_true (by decide) (.inr rfl)
    | cons d rest =>
      refine iff_of_false ?_ (by simp)
      simp only [value, hx, ne_eq, reduceCtorEq, not_false_eq_true, and_self, if_true]
      exact (isMagnitude_ofDigits (by decide) _).ne_nan
  · have hdecimal : ∀ x rest, c :: after = '0' :: x :: rest → ¬ (x = 'x' ∨ x = 'X') :=
      fun x rest heq hx => hhex ⟨x, rest, heq, hx⟩
    rw [splitNumber_eq_splitDecimal hdecimal] at hwhole
    refine iff_of_false ?_ ?_
    · unfold value
      split
      · rename_i x rest heq
        rw [if_neg (fun h => hdecimal x rest heq h.1)]
        split
        · exact (isMagnitude_ofDigits (by decide) _).ne_nan
        · exact decimal_ne_nan hbegin hwhole
      · exact decimal_ne_nan hbegin hwhole
    · rintro (heq | heq)
      · exact hdecimal _ _ heq (.inl rfl)
      · exact hdecimal _ _ heq (.inr rfl)

end Begins

end NumericLiteral

namespace Lexer

variable {cs : List Char}

theorem cutToken_number (h : (cutToken cs).kind = .number) : ∃ c after, cs = c :: after ∧
    (isDigit c || (c = '.' && after.head?.any isDigit)) = true ∧ cutToken cs =
      ⟨.number, (splitNumber cs).1, .number (NumericLiteral.value (splitNumber cs).1), (splitNumber cs).2, none⟩ := by
  cases cs with
  | nil => cases h
  | cons c after =>
    rcases cutToken_cases c after with hcut | ⟨hbegin, hcut⟩ | ⟨-, hcut⟩ | ⟨p, hkind⟩ | hkind
    · rw [hcut] at h
      exact absurd h cutName_kind.2
    · exact ⟨c, after, rfl, hbegin, hcut⟩
    · rw [hcut] at h
      cases h
    · rw [hkind] at h
      cases h
    · rw [hkind] at h
      cases h

/-- **Every number that is scanned has a value, but for the hexadecimal mark without digits**, which is scanned without
a fault. -/
theorem scanAll_number_nan_iff {text : List Char} {x : Lexeme} (hx : x ∈ (scanAll text).map Prod.fst)
    (hk : x.kind = .number) : x.value = .number .nan ↔ x.text = ['0', 'x'] ∨ x.text = ['0', 'X'] := by
  obtain ⟨start, ds, rfl⟩ := (scanAll_scans text).cut x hx
  have hvalue : (scan start ds).lexeme.value = (scan start ds).lexeme.kind.valueOf (scan start ds).lexeme.text :=
    (scan_proper start ds).value
  -- the characters of the number are taken whole when they are cut anew
  obtain ⟨-, halone⟩ := scan_text_alone (fun hend => by rw [hk] at hend; cases hend)
  have hkind : (cutToken (scan start ds).lexeme.text).kind = .number := by
    rw [halone]
    exact hk
  obtain ⟨c, after, htext, hbegin, hcut⟩ := cutToken_number hkind
  rw [halone] at hcut
  have hwhole : (splitNumber (scan start ds).lexeme.text).2 = [] := (congrArg TokenCut.rest hcut).symm
  rw [hvalue, hk, htext]
  rw [htext] at hwhole
  rw [← NumericLiteral.value_eq_nan_iff hbegin hwhole]
  exact ⟨TokenValue.number.inj, congrArg TokenValue.number⟩

end Lexer

end Downlevel
