import Downlevel.Text.Basic
/-!
# Layout.Options — how written code is laid out

All blank space that lowering writes follows one record: the columns of an indentation level, tabs or spaces, and the
text that ends a line.  A tab reaches the next multiple of the indentation (`columnAfter`), and `indentation` writes
the blanks that reach a column (`columnAfter_indentation`).
-/
namespace Downlevel

/-- The ends of line that a file may be written with. -/
inductive LineEnding where
  | crlf
  | lf
  deriving DecidableEq, Repr

namespace LineEnding

def text : LineEnding → List Char
  | crlf => ['\r', '\n']
  | lf => ['\n']

def ofText? (t : List Char) : Option LineEnding :=
  if t = crlf.text then some crlf else if t = lf.text then some lf else none

@[simp] theorem ofText?_text (e : LineEnding) : ofText? e.text = some e := by cases e <;> rfl

end LineEnding

/-- How written code is laid out. -/
structure LayoutOptions where
  /-- Columns of one indentation level. -/
  indentSize : Nat
  /-- Whole levels of indentation are written as tabs. -/
  useTabs : Bool
  /-- The characters that end a written line. -/
  newLine : List Char
  deriving DecidableEq, Repr

/-- How a tree is lowered: its layout, and whether the helper for derived classes is written. -/
structure LoweringOptions where
  layout : LayoutOptions
  emitHelpers : Bool
  deriving DecidableEq, Repr

namespace LayoutOptions

/-- Four spaces to a level, and lines that end with a line feed. -/
def standard : LayoutOptions := ⟨4, false, LineEnding.lf.text⟩

/-- The columns from one tab stop to the next. -/
def tabSize (o : LayoutOptions) : Nat := max o.indentSize 1

theorem tabSize_pos (o : LayoutOptions) : 0 < o.tabSize := by unfold tabSize; omega

def columnBehind (tabSize column : Nat) (c : Char) : Nat :=
  if c = '\t' then column + tabSize - column % tabSize else column + 1

/-- The column behind a text that starts at `column`. -/
def columnAfter (o : LayoutOptions) (column : Nat) (text : List Char) : Nat :=
  text.foldl (columnBehind o.tabSize) column

/-- The blanks that reach a column from the start of a line. -/
def indentation (o : LayoutOptions) (column : Nat) : List Char :=
  if o.useTabs ∧ 0 < o.indentSize then
    List.replicate (column / o.indentSize) '\t' ++ List.replicate (column % o.indentSize) ' '
  else List.replicate column ' '

/-- A tab reaches the next multiple of the tab size, and any other character the next column. -/
theorem columnBehind_tab {size column : Nat} (h : column % size = 0) : columnBehind size column '\t' = column + size := by
  simp [columnBehind, h]

/-- Tabs behind a tab stop reach one tab stop each. -/
theorem columnAfter_tabs (o : LayoutOptions) (count : Nat) {column : Nat} (h : column % o.tabSize = 0) :
    o.columnAfter column (List.replicate count '\t') = column + count * o.tabSize := by
  induction count generalizing column with
  | zero => simp [columnAfter]
  | succ count ih =>
    have hstep := @ih (column + o.tabSize) (by rw [Nat.add_mod_right, h])
    rw [List.replicate_succ, columnAfter, List.foldl_cons, columnBehind_tab h]
    rw [columnAfter] at hstep
    rw [hstep, Nat.succ_mul]
    omega

/-- Spaces reach one column each. -/
theorem columnAfter_spaces (o : LayoutOptions) (count column : Nat) :
    o.columnAfter column (List.replicate count ' ') = column + count := by
  induction count generalizing column with
  | zero => rfl
  | succ count ih =>
    have hspace : columnBehind o.tabSize column ' ' = column + 1 := by simp [columnBehind]
    have hstep := ih (column + 1)
    rw [List.replicate_succ, columnAfter, List.foldl_cons, hspace]
    rw [columnAfter] at hstep
    omega

/-- **The blanks that are to reach a column reach it**, whatever the indentation is and whether tabs are written. -/
theorem columnAfter_indentation (o : LayoutOptions) (column : Nat) : o.columnAfter 0 (o.indentation column) = column := by
  unfold indentation
  split
  · rename_i htabs
    have hsize : o.tabSize = o.indentSize := by unfold tabSize; omega
    have hfold : ∀ s t, o.columnAfter 0 (s ++ t) = o.columnAfter (o.columnAfter 0 s) t := fun s t => by
      simp [columnAfter]
    rw [hfold, columnAfter_tabs o _ (Nat.zero_mod _), columnAfter_spaces, hsize, Nat.zero_add]
    exact Nat.div_add_mod' column o.indentSize
  · rw [columnAfter_spaces, Nat.zero_add]

end LayoutOptions

namespace LoweringOptions

/-- The standard layout without the helper. -/
def standard : LoweringOptions := ⟨LayoutOptions.standard, false⟩

end LoweringOptions

end Downlevel
