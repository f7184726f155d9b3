import Downlevel.Text.Unicode
/-!
# Text.Quoted — text shown so that a reader sees every character

A text is shown between double quotes and a single character between single ones.  The quote in use, the backslash and
four controls have escapes of two characters; a mark that would join the character before it and a character without a
shape are shown by their code point in hexadecimal.
-/
namespace Downlevel.Quoted

/-- The code point of a character, as `\u` and its hexadecimal digits in braces. -/
def codePoint (c : Char) : List Char :=
  ['\\', 'u', '\x7b'] ++ Nat.toDigits 16 c.toNat ++ ['\x7d']

/-- A character as it is shown between two of the given quotes. -/
def shown (quote c : Char) : List Char :=
  if c = '\x00' then ['\\', '0']
  else if c = '\t' then ['\\', 't']
  else if c = '\r' then ['\\', 'r']
  else if c = '\n' then ['\\', 'n']
  else if c = '\\' then ['\\', '\\']
  else if c = quote then ['\\', quote]
  else if Unicode.extendsGrapheme c || Unicode.isUnprintable c then codePoint c
  else [c]

/-- A text between double quotes. -/
def text (cs : List Char) : List Char :=
  '"' :: cs.flatMap (shown '"') ++ ['"']

/-- A character between single quotes. -/
def char (c : Char) : List Char :=
  '\'' :: shown '\'' c ++ ['\'']

end Downlevel.Quoted
