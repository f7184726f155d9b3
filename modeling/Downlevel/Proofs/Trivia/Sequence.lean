import Downlevel.Trivia.Basic
import Mathlib.Algebra.Ring.Nat
/-!
# Proofs.Trivia.Sequence — a list of trivia is the row of its items

A list of trivia has three shapes and a summary of what it holds, and some ways of making one take a short cut: to put
nothing behind a list, or to keep all of its items, gives the list itself.  A `Recipe` says how a list is made.  Made by
the operations on lists (`Recipe.build`) it is what the same recipe makes of plain rows of items (`Recipe.items`), in the
shape and with the summary that such a row has (`Recipe.build_exact`).
-/
namespace Downlevel

namespace TriviaList

/-! ## The laws of rows -/

section Laws

variable {s t u : TriviaList}

theorem toList_space (text : List Char) : (space text).toList = if text = [] then [] else [⟨.whitespace, text⟩] := by
  cases text <;> rfl

theorem toList_beforeFirstNewLine (t : TriviaList) :
    t.beforeFirstNewLine.toList = t.toList.takeWhile (fun item => !item.isNewLine) := toList_ofList _

theorem append_assoc (s t u : TriviaList) : (s ++ t) ++ u = s ++ (t ++ u) :=
  ext_toList (by simp only [toList_append, List.append_assoc])

theorem empty_append (t : TriviaList) : empty ++ t = t := ext_toList (by rw [toList_append]; rfl)

theorem append_empty (t : TriviaList) : t ++ empty = t :=
  ext_toList (by rw [toList_append, toList_empty, List.append_nil])

theorem eq_iff_toList : s = t ↔ s.toList = t.toList := ⟨congrArg toList, ext_toList⟩

end Laws

/-- The shape for so many items. -/
def shapeFor : Nat → String
  | 0 => "empty"
  | 1 => "single"
  | _ => "many"

/-- **The shape is the one for the number of items.** -/
theorem shape_eq (t : TriviaList) : t.shape = shapeFor t.toList.length := by
  cases t with
  | empty => rfl
  | single item => rfl
  | many items summary two_le summary_eq =>
    match items, two_le with
    | _ :: _ :: _, _ => rfl

/-! ## How a list is made -/

/-- The ways in which a list of trivia is made. -/
inductive Recipe where
  | row (items : List Trivia)
  | single (item : Trivia)
  | space (text : List Char)
  | concat (front back : Recipe)
  | filter (keep : Trivia → Bool) (r : Recipe)
  | beforeFirstNewLine (r : Recipe)

namespace Recipe

def build : Recipe → TriviaList
  | row items => ofList items
  | single item => .single item
  | space text => TriviaList.space text
  | concat front back => front.build ++ back.build
  | filter keep r => r.build.filter keep
  | beforeFirstNewLine r => r.build.beforeFirstNewLine

/-- What the recipe makes of plain rows of items. -/
def items : Recipe → List Trivia
  | row items => items
  | single item => [item]
  | space text => if text = [] then [] else [⟨.whitespace, text⟩]
  | concat front back => front.items ++ back.items
  | filter keep r => r.items.filter keep
  | beforeFirstNewLine r => r.items.takeWhile (fun item => !item.isNewLine)

/-- **No operation does anything else to a list than to the row of its items.** -/
theorem toList_build (r : Recipe) : r.build.toList = r.items := by
  induction r with
  | row items => exact toList_ofList items
  | single item => rfl
  | space text => exact toList_space text
  | concat front back hfront hback => rw [build, toList_append, hfront, hback, items]
  | filter keep r ih => rw [build, toList_filter, ih, items]
  | beforeFirstNewLine r ih => rw [build, toList_beforeFirstNewLine, ih, items]

/-- The list that is made is told by its row of items alone. -/
theorem build_eq_iff {r r' : Recipe} : r.build = r'.build ↔ r.items = r'.items := by
  rw [eq_iff_toList, toList_build, toList_build]

/-- What is summed up in the list that is made is true of the items. -/
theorem summary_build (r : Recipe) : r.build.summary = ⟨(r.items.map Trivia.fullWidth).sum,
    r.items.any Trivia.isComment, r.items.any Trivia.isNewLine, r.items.any Trivia.isSkippedText⟩ := by
  have hwidths : Trivia.widths r.items = (r.items.map Trivia.fullWidth).sum := by
    generalize r.items = items
    induction items with
    | nil => rfl
    | cons item items ih => rw [Trivia.widths, List.map_cons, List.sum_cons, ih]
  rw [summary_eq_ofItems, toList_build, TriviaSummary.ofItems, hwidths]

/-- **A list of trivia is one row of items**, however it was made: what is in the row, in the shape for its length and
with the width and the flags that the items have; two lists are equal exactly if their rows are.  Lists are put together
as rows are, with the empty list as what changes nothing, and texts, widths, numbers of items and tests go along. -/
theorem build_exact (r r' r'' : Recipe) :
    r.build.toList = r.items ∧ r.build.shape = shapeFor r.items.length ∧
      r.build.summary = ⟨(r.items.map Trivia.fullWidth).sum, r.items.any Trivia.isComment,
        r.items.any Trivia.isNewLine, r.items.any Trivia.isSkippedText⟩ ∧
      (r.build = r'.build ↔ r.items = r'.items) ∧
      (r.build ++ r'.build) ++ r''.build = r.build ++ (r'.build ++ r''.build) ∧
      empty ++ r.build = r.build ∧ r.build ++ empty = r.build ∧
      (r.build ++ r'.build).fullText = r.build.fullText ++ r'.build.fullText ∧
      (r.build ++ r'.build).fullWidth = r.build.fullWidth + r'.build.fullWidth ∧
      (r.build ++ r'.build).count = r.build.count + r'.build.count ∧
      (r.build ++ r'.build).isEmpty = (r.build.isEmpty && r'.build.isEmpty) ∧
      (r.build ++ r'.build).isMissing = (r.build.isMissing && r'.build.isMissing) ∧
      (r.build ++ r'.build).hasComment = (r.build.hasComment || r'.build.hasComment) ∧
      (r.build ++ r'.build).hasNewLine = (r.build.hasNewLine || r'.build.hasNewLine) ∧
      (r.build ++ r'.build).hasSkippedText = (r.build.hasSkippedText || r'.build.hasSkippedText) := by
  have htext : (r.build ++ r'.build).fullText = r.build.fullText ++ r'.build.fullText := by
    rw [fullText, toList_append, Trivia.texts, List.flatMap_append]
    rfl
  refine ⟨r.toList_build, ?_, r.summary_build, build_eq_iff, append_assoc _ _ _, empty_append _, append_empty _, htext,
    ?_, ?_, ?_, ?_, ?_, ?_, ?_⟩
  · rw [shape_eq, toList_build]
  · simp only [fullWidth_eq_width_fullText, htext, Text.width_append]
  · simp only [count_eq_length, toList_append, List.length_append]
  · rw [Bool.eq_iff_iff, Bool.and_eq_true]
    simp only [isEmpty_iff, toList_append, List.append_eq_nil_iff]
  · simp only [isMissing, toList_append, List.all_append]
  · simp only [hasComment_eq, toList_append, List.any_append]
  · simp only [hasNewLine_eq, toList_append, List.any_append]
  · simp only [hasSkippedText_eq, toList_append, List.any_append]

end Recipe

end TriviaList

end Downlevel
