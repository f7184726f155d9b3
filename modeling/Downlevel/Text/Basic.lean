/-!
# Text — characters and the bytes they take

A text is the list of its characters.  Every offset and width in this library counts the bytes of the UTF-8 form, so
this module holds the byte width of a text (`width_append`: it adds up) and the cuts at a byte offset, which exist only
between two characters.
-/
namespace Downlevel

abbrev Text := List Char

namespace Text

/-- The number of bytes of the UTF-8 form. -/
def width : List Char → Nat
  | [] => 0
  | c :: cs => c.utf8Size + width cs

@[simp] theorem width_nil : width [] = 0 := rfl

@[simp] theorem width_cons (c : Char) (cs : List Char) : width (c :: cs) = c.utf8Size + width cs := rfl

/-- **Widths add up.** -/
@[simp] theorem width_append (s t : List Char) : width (s ++ t) = width s + width t := by
  induction s with
  | nil => simp
  | cons c cs ih => simp [ih, Nat.add_assoc]

theorem length_le_width (s : List Char) : s.length ≤ width s := by
  induction s with
  | nil => simp
  | cons c cs ih => have := c.utf8Size_pos; simp; omega

@[simp] theorem width_eq_zero {s : List Char} : width s = 0 ↔ s = [] := by
  cases s with
  | nil => simp
  | cons c cs => have := c.utf8Size_pos; simp; omega

/-- The two sides of the cut after `n` bytes; none inside a character or past the end. -/
def splitAtByte? : List Char → Nat → Option (List Char × List Char)
  | cs, 0 => some ([], cs)
  | [], _ + 1 => none
  | c :: cs, n + 1 =>
    if c.utf8Size ≤ n + 1 then
      (splitAtByte? cs (n + 1 - c.utf8Size)).map (fun (before, after) => (c :: before, after))
    else none

/-- **The cut behind a text's first part is found.** -/
theorem splitAtByte?_append (s t : List Char) : splitAtByte? (s ++ t) (width s) = some (s, t) := by
  induction s with
  | nil => cases t <;> rfl
  | cons c cs ih =>
    have hc := c.utf8Size_pos
    obtain ⟨k, hk⟩ : ∃ k, c.utf8Size + width cs = k + 1 := ⟨c.utf8Size + width cs - 1, by omega⟩
    have hrest : k + 1 - c.utf8Size = width cs := by omega
    simp only [List.cons_append, width_cons, hk, splitAtByte?, hrest, ih]
    simp [show c.utf8Size ≤ k + 1 by omega]

/-- What follows the cut after `n` bytes, empty where there is no such cut. -/
def dropBytes (n : Nat) (cs : List Char) : List Char :=
  match splitAtByte? cs n with
  | some (_, after) => after
  | none => []

/-- The characters between two byte offsets; none where an offset is no cut. -/
def slice? (first last : Nat) (cs : List Char) : Option (List Char) := do
  let (_, after) ← splitAtByte? cs first
  let (middle, _) ← splitAtByte? after (last - first)
  if first ≤ last then some middle else none

/-- What follows `lead` at the front of a text, if the text starts with it. -/
def strip? : List Char → List Char → Option (List Char)
  | [], cs => some cs
  | _ :: _, [] => none
  | l :: lead, c :: cs => if l = c then strip? lead cs else none

/-- The text before and the text after the first occurrence of `mark`. -/
def splitAtMark? (mark : List Char) : List Char → Option (List Char × List Char)
  | [] => if mark = [] then some ([], []) else none
  | c :: cs =>
    match strip? mark (c :: cs) with
    | some after => some ([], after)
    | none => (splitAtMark? mark cs).map (fun (before, after) => (c :: before, after))

/-- The decimal digits of a number. -/
def ofNat (n : Nat) : List Char := (Nat.repr n).toList

/-- The texts of a list one after the other, `between` standing between two. -/
def join (between : List Char) : List (List Char) → List Char
  | [] => []
  | [t] => t
  | t :: ts => t ++ between ++ join between ts

/-- `new` in place of every occurrence of the character `c`. -/
def replaceChar (c : Char) (new : List Char) (cs : List Char) : List Char :=
  cs.flatMap (fun d => if d = c then new else [d])

end Text

end Downlevel
