import Downlevel.Text.Quoted
import Downlevel.Text.Basic
/-!
# Trivia.Basic — the blanks and comments around tokens

A `Trivia` is one run of blanks, one end of line, one comment or one run of skipped text.  A `TriviaList` is empty, a
single one, or several with their width and contents summed up once; the type itself says that the summary is right
and that the shape is the one for the length, so two lists with the same items are equal (`TriviaList.ext_toList`).
Every operation is described by what it does to the items (`toList_ofList`, `toList_append`, …).
-/
namespace Downlevel

/-- What a piece of trivia is. -/
inductive TriviaKind where
  | whitespace
  | newLine
  | singleLineComment
  | multiLineComment
  | skippedText
  deriving DecidableEq, Repr

/-- The name under which a kind of trivia is shown. -/
def TriviaKind.name : TriviaKind → String
  | .whitespace => "Whitespace"
  | .newLine => "NewLine"
  | .singleLineComment => "SingleLineComment"
  | .multiLineComment => "MultiLineComment"
  | .skippedText => "SkippedText"

/-- A run of blanks, an end of line, a comment or a run of skipped text. -/
structure Trivia where
  kind : TriviaKind
  text : List Char
  deriving DecidableEq, Repr

namespace Trivia

def fullWidth (t : Trivia) : Nat := Text.width t.text

/-- A placeholder without text. -/
def isMissing (t : Trivia) : Bool := t.text.isEmpty

/-- A comment of either form. -/
def isComment (t : Trivia) : Bool := t.kind == .singleLineComment || t.kind == .multiLineComment

def isNewLine (t : Trivia) : Bool := t.kind == .newLine

/-- A run of blanks. -/
def isWhitespace (t : Trivia) : Bool := t.kind == .whitespace

def isSkippedText (t : Trivia) : Bool := t.kind == .skippedText

def shown (t : Trivia) : List Char := t.kind.name.toList ++ ['('] ++ Quoted.text t.text ++ [')']

/-- The texts of several pieces one after the other. -/
def texts (items : List Trivia) : List Char := items.flatMap Trivia.text

/-- The widths of several pieces added up. -/
def widths : List Trivia → Nat
  | [] => 0
  | t :: ts => t.fullWidth + widths ts

/-- **The widths add up to the number of bytes of the texts.** -/
theorem widths_eq (items : List Trivia) : widths items = Text.width (texts items) := by
  induction items with
  | nil => rfl
  | cons t ts ih => simp [widths, texts, ih, fullWidth]

end Trivia

/-- What a list of trivia holds, summed up. -/
structure TriviaSummary where
  fullWidth : Nat
  comment : Bool
  newLine : Bool
  skippedText : Bool
  deriving DecidableEq, Repr

def TriviaSummary.ofItems (items : List Trivia) : TriviaSummary where
  fullWidth := Trivia.widths items
  comment := items.any Trivia.isComment
  newLine := items.any Trivia.isNewLine
  skippedText := items.any Trivia.isSkippedText

/-- Trivia in a row, in the one shape that fits its length. -/
inductive TriviaList where
  | empty
  | single (item : Trivia)
  | many (items : List Trivia) (summary : TriviaSummary) (two_le : 2 ≤ items.length)
      (summary_eq : summary = TriviaSummary.ofItems items)
  deriving DecidableEq, Repr

namespace TriviaList

/-- The items in order. -/
def toList : TriviaList → List Trivia
  | empty => []
  | single item => [item]
  | many items _ _ _ => items

/-- The list that holds the given items. -/
def ofList : List Trivia → TriviaList
  | [] => empty
  | [item] => single item
  | a :: b :: rest => many (a :: b :: rest) (TriviaSummary.ofItems (a :: b :: rest)) (by simp) rfl

@[simp] theorem toList_ofList (items : List Trivia) : (ofList items).toList = items := by
  match items with
  | [] => rfl
  | [_] => rfl
  | _ :: _ :: _ => rfl

@[simp] theorem ofList_toList (t : TriviaList) : ofList t.toList = t := by
  cases t with
  | empty => rfl
  | single item => rfl
  | many items summary two_le summary_eq =>
    match items, two_le with
    | a :: b :: rest, _ => subst summary_eq; rfl

/-- **A list is its items**: nothing else tells two lists apart. -/
theorem ext_toList {s t : TriviaList} (h : s.toList = t.toList) : s = t := by
  rw [← ofList_toList s, ← ofList_toList t, h]

instance : EmptyCollection TriviaList := ⟨empty⟩

instance : Inhabited TriviaList := ⟨empty⟩

/-- A run of blanks; nothing for no blanks. -/
def space (text : List Char) : TriviaList :=
  match text with
  | [] => empty
  | _ => single ⟨.whitespace, text⟩

/-- The number of items. -/
def count : TriviaList → Nat
  | empty => 0
  | single _ => 1
  | many items _ _ _ => items.length

/-- There is no item. -/
def isEmpty : TriviaList → Bool
  | empty => true
  | _ => false

/-- The summary, read off the shape. -/
def summary : TriviaList → TriviaSummary
  | empty => ⟨0, false, false, false⟩
  | single item => TriviaSummary.ofItems [item]
  | many _ summary _ _ => summary

/-- The bytes of all items. -/
def fullWidth (t : TriviaList) : Nat := t.summary.fullWidth

/-- Some item is a comment. -/
def hasComment (t : TriviaList) : Bool := t.summary.comment

/-- Some item ends a line. -/
def hasNewLine (t : TriviaList) : Bool := t.summary.newLine

def hasSkippedText (t : TriviaList) : Bool := t.summary.skippedText

/-- Every item is a placeholder without text. -/
def isMissing (t : TriviaList) : Bool := t.toList.all Trivia.isMissing

/-- The texts of the items one after the other. -/
def fullText (t : TriviaList) : List Char := Trivia.texts t.toList

/-- The items of two lists in a row. -/
def append (s t : TriviaList) : TriviaList :=
  if t.isEmpty then s else if s.isEmpty then t else ofList (s.toList ++ t.toList)

instance : Append TriviaList := ⟨append⟩

/-- The items that pass a test. -/
def filter (keep : Trivia → Bool) (t : TriviaList) : TriviaList :=
  let kept := t.toList.filter keep
  if kept.length = t.count then t else ofList kept

def beforeFirstNewLine (t : TriviaList) : TriviaList := ofList (t.toList.takeWhile (fun item => !item.isNewLine))

def shape : TriviaList → String
  | empty => "empty"
  | single _ => "single"
  | many _ _ _ _ => "many"

/-- The shown items between brackets. -/
def shown (t : TriviaList) : List Char :=
  ['['] ++ Text.join [',', ' '] (t.toList.map Trivia.shown) ++ [']']

/-! ## What the operations do to the items -/

@[simp] theorem toList_empty : (empty : TriviaList).toList = [] := rfl

@[simp] theorem toList_single (item : Trivia) : (single item).toList = [item] := rfl

theorem isEmpty_iff {t : TriviaList} : t.isEmpty = true ↔ t.toList = [] := by
  cases t with
  | empty => simp [isEmpty]
  | single item => simp [isEmpty]
  | many items summary two_le summary_eq =>
    match items, two_le with
    | a :: b :: rest, _ => simp [isEmpty, toList]

@[simp] theorem toList_append (s t : TriviaList) : (s ++ t).toList = s.toList ++ t.toList := by
  show (append s t).toList = _
  unfold append
  split
  · rename_i h; simp [isEmpty_iff.1 h]
  · split
    · rename_i h; simp [isEmpty_iff.1 h]
    · simp

theorem summary_eq_ofItems (t : TriviaList) : t.summary = TriviaSummary.ofItems t.toList := by
  cases t with
  | empty => rfl
  | single item => rfl
  | many items summary two_le summary_eq => exact summary_eq

theorem count_eq_length (t : TriviaList) : t.count = t.toList.length := by cases t <;> rfl

@[simp] theorem toList_filter (keep : Trivia → Bool) (t : TriviaList) :
    (t.filter keep).toList = t.toList.filter keep := by
  unfold filter
  simp only [count_eq_length]
  split
  · rename_i h
    have := List.length_filter_eq_length_iff.1 h
    exact (List.filter_eq_self.2 (by simpa using this)).symm
  · simp

theorem fullWidth_eq (t : TriviaList) : t.fullWidth = Trivia.widths t.toList := by
  simp [fullWidth, summary_eq_ofItems, TriviaSummary.ofItems]

theorem hasComment_eq (t : TriviaList) : t.hasComment = t.toList.any Trivia.isComment := by
  simp [hasComment, summary_eq_ofItems, TriviaSummary.ofItems]

theorem hasNewLine_eq (t : TriviaList) : t.hasNewLine = t.toList.any Trivia.isNewLine := by
  simp [hasNewLine, summary_eq_ofItems, TriviaSummary.ofItems]

theorem hasSkippedText_eq (t : TriviaList) : t.hasSkippedText = t.toList.any Trivia.isSkippedText := by
  simp [hasSkippedText, summary_eq_ofItems, TriviaSummary.ofItems]

/-- **The width is the number of bytes of the text.** -/
theorem fullWidth_eq_width_fullText (t : TriviaList) : t.fullWidth = Text.width t.fullText := by
  rw [fullWidth_eq, fullText, Trivia.widths_eq]

end TriviaList

end Downlevel
