import Downlevel.Text.Unicode
/-!
# Text.CharClass — which characters end a line, separate tokens or spell a name

ASCII characters are told by their own tests; the others by the Unicode properties `Alphabetic` and `Number`.
-/
namespace Downlevel.CharClass

/-- The characters that end a line of source text. -/
def isLineBreak (c : Char) : Bool :=
  c = '\n' || c = '\r' || c = '\u2028' || c = '\u2029'

/-- The blanks that may stand between two tokens of one line. -/
def isBlank (c : Char) : Bool :=
  c = ' ' || c = '\t' || c = '\x0b' || c = '\x0c' || c = '\u00a0' || c = '\ufeff' || c = '\u1680'
    || ('\u2000' ≤ c && c ≤ '\u200a') || c = '\u202f' || c = '\u205f' || c = '\u3000'

def isDigit (c : Char) : Bool := '0' ≤ c && c ≤ '9'

def isHexDigit (c : Char) : Bool :=
  isDigit c || ('a' ≤ c && c ≤ 'f') || ('A' ≤ c && c ≤ 'F')

/-- A letter of the ASCII alphabet. -/
def isLetter (c : Char) : Bool := ('a' ≤ c && c ≤ 'z') || ('A' ≤ c && c ≤ 'Z')

/-- One of the 128 ASCII characters. -/
def isAscii (c : Char) : Bool := c.toNat < 128

/-- A character that a name may begin with. -/
def isIdentifierStart (c : Char) : Bool :=
  isLetter c || c = '_' || c = '$' || (!isAscii c && Unicode.isAlphabetic c)

/-- A character that a name may go on with; the two joiners are among them. -/
def isIdentifierPart (c : Char) : Bool :=
  isIdentifierStart c || isDigit c || (!isAscii c && (Unicode.isAlphabetic c || Unicode.isNumeric c))
    || c = '\u200c' || c = '\u200d'

theorem isIdentifierPart_of_start {c : Char} (h : isIdentifierStart c = true) : isIdentifierPart c = true := by
  simp [isIdentifierPart, h]

/-- **Hexadecimal digits may stand inside a name.** -/
theorem isIdentifierPart_of_hexDigit {c : Char} (h : isHexDigit c = true) : isIdentifierPart c = true := by
  have hle : ∀ a b c d : Char, a ≤ b → c ≤ d → b ≤ c → a ≤ d := fun a b c d h₁ h₂ h₃ =>
    Char.le_trans h₁ (Char.le_trans h₃ h₂)
  simp only [isHexDigit, Bool.or_eq_true, Bool.and_eq_true, decide_eq_true_eq] at h
  simp only [isIdentifierPart, isIdentifierStart, isLetter, Bool.or_eq_true, Bool.and_eq_true, decide_eq_true_eq]
  rcases h with (h | ⟨h₁, h₂⟩) | ⟨h₁, h₂⟩
  · simp [h]
  · have : c ≤ 'z' := Char.le_trans h₂ (by decide)
    simp [h₁, this]
  · have : c ≤ 'Z' := Char.le_trans h₂ (by decide)
    simp [h₁, this]

/-- The value of a digit in base sixteen. -/
def hexValue (c : Char) : Nat :=
  if isDigit c then c.toNat - '0'.toNat
  else if 'a' ≤ c && c ≤ 'f' then c.toNat - 'a'.toNat + 10
  else if 'A' ≤ c && c ≤ 'F' then c.toNat - 'A'.toNat + 10
  else 0

end Downlevel.CharClass
