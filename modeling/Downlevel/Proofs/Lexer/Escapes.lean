import Downlevel.Text.Escapes
import Mathlib.Data.List.Forall2
/-!
# Proofs.Lexer.Escapes — what an escape denotes, and whether a quote is escaped

An escape is read without a look at what stands in front of it, so a text is decoded from its front on, one equation for
each kind of escape.  Whether its last character is escaped is judged from its back, by the backslashes in front of that
character; what stands in front of them does not matter (`lastIsEscaped_append`).

An escape of four hexadecimal digits spells a number of 16 bits.  As a code unit of UTF-16 that is a character or one
half of a character.  The halves are read one at a time, and none of them is a character, so a literal that spells a
text unit by unit denotes the text exactly where each of its characters is one unit (`literalValue_units_iff`).
-/
namespace Downlevel.Escapes

open CharClass

/-! ## One escape after the other -/

theorem decode_cons {c : Char} (h : c ≠ '\\') (cs : List Char) : decode (c :: cs) = c :: decode cs := by
  unfold decode
  rw [decodeFrom.eq_def]
  simp [h]

/-- Characters without a backslash denote themselves, whatever follows. -/
theorem decode_append {front : List Char} (h : '\\' ∉ front) (cs : List Char) :
    decode (front ++ cs) = front ++ decode cs := by
  induction front with
  | nil => rfl
  | cons c front ih =>
    obtain ⟨hc, hfront⟩ := not_or.1 (mt List.mem_cons.2 h)
    rw [List.cons_append, decode_cons (Ne.symm hc), ih hfront, List.cons_append]

theorem decode_control {e c : Char} (h : control? e = some c) (cs : List Char) :
    decode ('\\' :: e :: cs) = c :: decode cs := by
  simp [decode, decodeFrom, h]

/-- A quote or a backslash behind a backslash stands for itself. -/
theorem decode_mark {e : Char} (h : e = '"' ∨ e = '\\') (cs : List Char) :
    decode ('\\' :: e :: cs) = e :: decode cs := by
  rcases h with rfl | rfl
  all_goals simp [decode, decodeFrom, control?, isLineBreak]

theorem decodeFrom_append (front cs : List Char) : decodeFrom front.length (front ++ cs) = decode cs := by
  induction front with
  | nil => rfl
  | cons c front ih => exact ih

/-! ## The closing quote -/

/-- The closing quote of a literal is left out of its body. -/
def ClosingQuoteStripped (literal : List Char) : Prop := ∃ quote, literal = quote :: literalBody literal ++ [quote]

/-- What stands behind an opening quote ends with the same quote, and that one is not escaped. -/
def ClosedBy (quote : Char) (behind : List Char) : Prop := behind.getLast? = some quote ∧ lastIsEscaped behind = false

theorem literalBody_of_closed {quote : Char} {body : List Char} (h : lastIsEscaped (body ++ [quote]) = false) :
    literalBody (quote :: body ++ [quote]) = body := by
  simp [literalBody, h]

/-- The body of a literal is all that stands behind the opening quote, or all but the closing one. -/
theorem closingQuoteStripped_iff {quote : Char} {behind : List Char} :
    ClosingQuoteStripped (quote :: behind) ↔ ClosedBy quote behind := by
  constructor
  · rintro ⟨quote', heq⟩
    obtain ⟨rfl, hbody⟩ := List.cons.inj heq
    by_cases hclosed : behind.getLast? = some quote ∧ ¬ lastIsEscaped behind = true
    · exact ⟨hclosed.1, Bool.eq_false_iff.2 hclosed.2⟩
    · rw [literalBody, if_neg hclosed] at hbody
      exact absurd (congrArg List.length hbody) (by simp)
  · rintro ⟨hlast, hplain⟩
    obtain ⟨body, rfl⟩ := List.getLast?_eq_some_iff.1 hlast
    refine ⟨quote, ?_⟩
    rw [← List.cons_append, literalBody_of_closed hplain]

/-- The number of backslashes at the end of a text. -/
def backslashesBehind (cs : List Char) : Nat := (cs.reverse.takeWhile (· == '\\')).length

theorem lastIsEscaped_concat (front : List Char) (c : Char) :
    lastIsEscaped (front ++ [c]) = (backslashesBehind front % 2 == 1) := by
  simp [lastIsEscaped, backslashesBehind]

theorem backslashesBehind_append (front back : List Char) : backslashesBehind (front ++ back) =
    if backslashesBehind back = back.length then backslashesBehind front + backslashesBehind back
    else backslashesBehind back := by
  unfold backslashesBehind
  rw [List.reverse_append, List.takeWhile_append, List.length_reverse]
  split <;> simp [Nat.add_comm, *]

/-- **An even number of backslashes escapes nothing**: what such a text is put in front of ends as it did. -/
theorem lastIsEscaped_append {front back : List Char} (hfront : backslashesBehind front % 2 = 0) (hback : back ≠ []) :
    lastIsEscaped (front ++ back) = lastIsEscaped back := by
  rw [← List.dropLast_append_getLast hback, ← List.append_assoc, lastIsEscaped_concat, lastIsEscaped_concat,
    backslashesBehind_append]
  split
  · rw [Nat.add_mod, hfront, Nat.zero_add, Nat.mod_mod]
  · rfl

theorem closedBy_append {quote : Char} {front back : List Char} (hfront : backslashesBehind front % 2 = 0)
    (hback : back ≠ []) : ClosedBy quote (front ++ back) ↔ ClosedBy quote back := by
  rw [ClosedBy, ClosedBy, List.getLast?_append_of_ne_nil _ hback, lastIsEscaped_append hfront hback]

/-! ## Code units -/

/-- The code units of a character in UTF-16: itself, or two halves of ten bits each. -/
def codeUnits (c : Char) : List Nat :=
  if c.toNat < 0x10000 then [c.toNat]
  else [0xd800 + (c.toNat - 0x10000) / 0x400, 0xdc00 + (c.toNat - 0x10000) % 0x400]

/-- The escape of a code unit: `\u` and four hexadecimal digits in either case. -/
def SpellsUnit (escape : List Char) (unit : Nat) : Prop :=
  ∃ digits, escape = '\\' :: 'u' :: digits ∧ digits.length = 4 ∧ hexNumber? 4 0 digits = some unit

theorem hexNumber?_append {count value : Nat} {digits : List Char} (h : digits.length = count) (cs : List Char) :
    hexNumber? count value (digits ++ cs) = hexNumber? count value digits := by
  induction digits generalizing count value with
  | nil =>
    subst h
    simp [hexNumber?]
  | cons d digits ih =>
    obtain ⟨count, rfl⟩ : ∃ n, count = n + 1 := ⟨digits.length, h.symm⟩
    simp only [List.cons_append, hexNumber?, ih (Nat.succ.inj h)]

theorem hexNumber?_isHexDigit {count value n : Nat} {digits : List Char} (h : hexNumber? count value digits = some n)
    (hlength : digits.length = count) : ∀ d ∈ digits, isHexDigit d = true := by
  induction digits generalizing count value with
  | nil => exact fun _ hd => by cases hd
  | cons d digits ih =>
    obtain ⟨count, rfl⟩ : ∃ n, count = n + 1 := ⟨digits.length, hlength.symm⟩
    simp only [hexNumber?] at h
    split at h
    · rename_i hd
      exact List.forall_mem_cons.2 ⟨hd, ih h (Nat.succ.inj hlength)⟩
    · cases h

/-- **A code unit that is a character is read as it; any other loses its backslash and nothing else.** -/
theorem decode_unit {unit : Nat} {digits : List Char} (hlength : digits.length = 4)
    (h : hexNumber? 4 0 digits = some unit) (cs : List Char) : decode ('\\' :: 'u' :: digits ++ cs) =
      (match charOfCode? unit with
      | some c => [c]
      | none => 'u' :: digits) ++ decode cs := by
  have hplain : '\\' ∉ digits := fun hmem => by
    have hdigit := hexNumber?_isHexDigit h hlength _ hmem
    cases hdigit
  have hread : hexChar? 4 (digits ++ cs) = charOfCode? unit := by
    rw [hexChar?, hexNumber?_append hlength, h, Option.bind_some]
  have hskip : decodeFrom 4 (digits ++ cs) = decode cs := by rw [← hlength, decodeFrom_append]
  have hnone : decodeFrom 0 (digits ++ cs) = digits ++ decode cs := decode_append hplain cs
  cases hchar : charOfCode? unit with
  | some c => simp [decode, decodeFrom, control?, hread, hchar, hskip]
  | none => simp [decode, decodeFrom, control?, hread, hchar, hnone]

theorem charOfCode?_toNat (c : Char) : charOfCode? c.toNat = some c := by
  have hvalid : c.toNat.isValidChar := c.valid
  rw [charOfCode?, if_pos hvalid, Char.ofNat_toNat]

/-- Neither half of a pair is a character. -/
theorem charOfCode?_surrogate {n : Nat} (hlow : 0xd800 ≤ n) (hhigh : n < 0xe000) : charOfCode? n = none := by
  refine if_neg (fun hvalid => ?_)
  rcases hvalid with h | h
  all_goals omega

/-- What the escapes of one character are read as: the character, or a text that is longer. -/
theorem decode_codeUnits {c : Char} {escapes : List (List Char)} (h : List.Forall₂ SpellsUnit escapes (codeUnits c))
    (cs : List Char) : ∃ shown, decode (escapes.flatten ++ cs) = shown ++ decode cs ∧
      (c.toNat < 0x10000 → shown = [c]) ∧ (¬ c.toNat < 0x10000 → 1 < shown.length) := by
  unfold codeUnits at h
  split at h
  · rename_i hone
    obtain ⟨_, _, ⟨digits, rfl, hlength, hunit⟩, hnil, rfl⟩ := List.forall₂_cons_right_iff.1 h
    obtain rfl := List.forall₂_nil_right_iff.1 hnil
    refine ⟨[c], ?_, fun _ => rfl, fun hmore => absurd hone hmore⟩
    have hdecode := decode_unit hlength hunit cs
    rw [charOfCode?_toNat] at hdecode
    simpa using hdecode
  · rename_i hmore
    obtain ⟨_, _, ⟨digits, rfl, hlength, hunit⟩, hrest, rfl⟩ := List.forall₂_cons_right_iff.1 h
    obtain ⟨_, _, ⟨digits', rfl, hlength', hunit'⟩, hnil, rfl⟩ := List.forall₂_cons_right_iff.1 hrest
    obtain rfl := List.forall₂_nil_right_iff.1 hnil
    have hvalid : c.toNat < 0x110000 := by
      have := c.valid
      simp only [UInt32.isValidChar, Nat.isValidChar] at this
      simp only [Char.toNat]
      omega
    have hfirst := decode_unit hlength hunit ('\\' :: 'u' :: digits' ++ cs)
    rw [charOfCode?_surrogate (by omega) (by omega), decode_unit hlength' hunit',
      charOfCode?_surrogate (by omega) (by omega)] at hfirst
    refine ⟨'u' :: digits ++ 'u' :: digits', ?_, fun hone => absurd hone hmore, fun _ => ?_⟩
    · simpa using hfirst
    · simp [hlength, hlength']

/-- The escapes of a text denote the text where each character is one unit, and otherwise a longer one. -/
theorem decode_units {value : List Char} {escapes : List (List Char)}
    (h : List.Forall₂ SpellsUnit escapes (value.flatMap codeUnits)) :
    value.length ≤ (decode escapes.flatten).length ∧
      (decode escapes.flatten = value ↔ ∀ c ∈ value, c.toNat < 0x10000) := by
  induction value generalizing escapes with
  | nil =>
    obtain rfl := List.forall₂_nil_right_iff.1 h
    exact ⟨Nat.le_refl _, iff_of_true rfl (fun _ hc => by cases hc)⟩
  | cons c value ih =>
    rw [List.flatMap_cons] at h
    obtain ⟨hlength, hiff⟩ := ih (List.forall₂_drop_append _ _ _ h)
    obtain ⟨shown, hshown, hone, hmore⟩ := decode_codeUnits (List.forall₂_take_append _ _ _ h)
      (escapes.drop (codeUnits c).length).flatten
    rw [← List.flatten_append, List.take_append_drop] at hshown
    rw [hshown, List.forall_mem_cons, ← hiff]
    by_cases hc : c.toNat < 0x10000
    · rw [hone hc]
      exact ⟨Nat.succ_le_succ hlength, by simp [hc]⟩
    · have hlong := hmore hc
      have hlonger : (c :: value).length < (shown ++ decode (escapes.drop (codeUnits c).length).flatten).length := by
        simp only [List.length_append, List.length_cons]
        omega
      refine ⟨Nat.le_of_lt hlonger, iff_of_false (fun heq => ?_) (fun h => hc h.1)⟩
      exact Nat.ne_of_lt hlonger (congrArg List.length heq).symm

/-- Behind the escapes of code units a quote is not escaped. -/
theorem lastIsEscaped_units {units : List Nat} {escapes : List (List Char)} (h : List.Forall₂ SpellsUnit escapes units)
    (quote : Char) : lastIsEscaped (escapes.flatten ++ [quote]) = false := by
  induction h with
  | nil => rfl
  | @cons escape unit escapes units hescape hrest ih =>
    have heven : backslashesBehind escape % 2 = 0 := by
      obtain ⟨digits, rfl, hlength, hunit⟩ := hescape
      match digits, hlength with
      | [a, b, c, d], _ =>
        have hd : (d == '\\') = false := by
          have hdigit := hexNumber?_isHexDigit hunit rfl d (by simp)
          exact beq_eq_false_iff_ne.2 (by rintro rfl; cases hdigit)
        simp [backslashesBehind, hd]
    rw [List.flatten_cons, List.append_assoc, lastIsEscaped_append heven (by simp), ih]

/-- **A literal that spells a text by its code units denotes the text exactly if each character is one unit.**  The two
units of any other character are read apart, and each is taken for the text of its escape. -/
theorem literalValue_units_iff {quote : Char} {value : List Char} {escapes : List (List Char)}
    (h : List.Forall₂ SpellsUnit escapes (value.flatMap codeUnits)) :
    literalValue (quote :: escapes.flatten ++ [quote]) = value ↔ ∀ c ∈ value, c.toNat < 0x10000 := by
  rw [literalValue, literalBody_of_closed (lastIsEscaped_units h quote)]
  exact (decode_units h).2

/-- A character of two units is read as the text of its escapes. -/
example : literalValue "'\\ud83d\\uDE00'".toList = "ud83duDE00".toList := by decide +kernel

end Downlevel.Escapes
