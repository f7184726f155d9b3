import Downlevel.Text.CharClass
/-!
# Text.Escapes — the text that a string literal denotes

A backslash and the characters behind it stand for one character or, at the end of a line, for none.  An escape that is
cut short or names no character stands for itself without its backslash.
-/
namespace Downlevel.Escapes

open CharClass

/-- The number that the first `count` characters spell in base sixteen, if they are all hexadecimal digits. -/
def hexNumber? : Nat → Nat → List Char → Option Nat
  | 0, value, _ => some value
  | _ + 1, _, [] => none
  | count + 1, value, c :: cs => if isHexDigit c then hexNumber? count (value * 16 + hexValue c) cs else none

/-- The character with a code point; none for a surrogate. -/
def charOfCode? (n : Nat) : Option Char := if n.isValidChar then some (Char.ofNat n) else none

/-- The character whose code point the first `count` characters spell. -/
def hexChar? (count : Nat) (cs : List Char) : Option Char := (hexNumber? count 0 cs).bind charOfCode?

/-- The control character that a letter names behind a backslash. -/
def control? : Char → Option Char
  | 'n' => some '\n'
  | 't' => some '\t'
  | 'r' => some '\r'
  | 'b' => some '\x08'
  | 'f' => some '\x0c'
  | 'v' => some '\x0b'
  | _ => none

/-- The text that an escaped text denotes, its first `skip` characters left out. -/
def decodeFrom : Nat → List Char → List Char
  | _, [] => []
  | skip + 1, _ :: cs => decodeFrom skip cs
  | 0, c :: cs =>
    if c ≠ '\\' then c :: decodeFrom 0 cs
    else
      match cs with
      | [] => []
      | e :: rest =>
        match control? e with
        | some ch => ch :: decodeFrom 0 rest
        | none =>
          if e = '0' ∧ ¬ rest.head?.any isDigit then '\x00' :: decodeFrom 0 rest
          else if e = 'x' then
            match hexChar? 2 rest with
            | some ch => ch :: decodeFrom 2 rest
            | none => e :: decodeFrom 0 rest
          else if e = 'u' then
            match hexChar? 4 rest with
            | some ch => ch :: decodeFrom 4 rest
            | none => e :: decodeFrom 0 rest
          else if e = '\r' then decodeFrom (if rest.head? = some '\n' then 1 else 0) rest
          else if isLineBreak e then decodeFrom 0 rest
          else e :: decodeFrom 0 rest

/-- The text that an escaped text denotes. -/
def decode (cs : List Char) : List Char := decodeFrom 0 cs

/-- The last character of a text is escaped: an odd number of backslashes stands before it. -/
def lastIsEscaped (body : List Char) : Bool :=
  (body.dropLast.reverse.takeWhile (· == '\\')).length % 2 == 1

/-- The text between the quotes of a literal; a literal without a closing quote goes to its end. -/
def literalBody : List Char → List Char
  | [] => []
  | quote :: body =>
    if body.getLast? = some quote ∧ ¬ lastIsEscaped body then body.dropLast else body

/-- **The text that a string literal with its quotes denotes.** -/
def literalValue (literal : List Char) : List Char := decode (literalBody literal)

/-- A text without a backslash denotes itself. -/
theorem decode_of_no_backslash {cs : List Char} (h : '\\' ∉ cs) : decode cs = cs := by
  unfold decode
  induction cs with
  | nil => rfl
  | cons c cs ih =>
    have hc : c ≠ '\\' := fun e => h (by simp [e])
    have hcs : '\\' ∉ cs := fun m => h (List.mem_cons_of_mem _ m)
    rw [decodeFrom.eq_def]
    simp [hc, ih hcs]

end Downlevel.Escapes
