import Downlevel.Layout.Options
import Downlevel.Text.Lines
import Downlevel.Tree.Basic
/-!
# Tree.Positions — where the tokens of a tree stand

`Positions` holds the text of a tree, its lines and the offset of every token object; an object that stands at two
places has the offset of the first.  Columns count characters, a tab reaching the next multiple of the indentation.
-/
namespace Downlevel

/-- The text of a tree, its lines and the offsets of its token objects. -/
structure Positions where
  /-- Each object with the offset of its leading trivia, in document order. -/
  offsets : List (ObjectId × Nat)
  text : List Char
  lines : LineMap
  tabSize : Nat

namespace Positions

/-- Token objects in a row, each with its offset. -/
def offsetsFrom : Nat → List Token → List (ObjectId × Nat)
  | _, [] => []
  | offset, t :: ts => (t.id, offset) :: offsetsFrom (offset + t.fullWidth) ts

def ofTree (n : Node) (o : LayoutOptions) : Positions :=
  let text := n.fullText
  ⟨offsetsFrom 0 n.tokens, text, LineMap.ofText text, o.tabSize⟩

/-- The offset of a token's leading trivia; none for an object that is not in the tree. -/
def fullStart? (p : Positions) (t : Token) : Option Nat := p.offsets.lookup t.id

/-- The offset of a token's characters. -/
def start? (p : Positions) (t : Token) : Option Nat := (p.fullStart? t).map (· + t.leading.fullWidth)

/-- The offset behind a token's characters. -/
def stop? (p : Positions) (t : Token) : Option Nat := (p.start? t).map (· + t.width)

/-- The line on which a token's characters start. -/
def lineOf? (p : Positions) (t : Token) : Option Nat := (p.start? t).map p.lines.lineOf

def columnBehind (p : Positions) (text : List Char) : Nat := text.foldl (LayoutOptions.columnBehind p.tabSize) 0

def columnAt (p : Positions) (offset : Nat) : Nat :=
  p.columnBehind ((Text.slice? (p.lines.startOf offset) (min offset (Text.width p.text)) p.text).getD [])

/-- The column at which a token's characters start. -/
def startColumn? (p : Positions) (t : Token) : Option Nat := (p.start? t).map p.columnAt

/-- The column behind a token's characters. -/
def stopColumn? (p : Positions) (t : Token) : Option Nat := (p.stop? t).map p.columnAt

/-- The width of the spaces and tabs that start a line; zero for a line that does not exist. -/
def indentationOfLine (p : Positions) (line : Nat) : Nat :=
  match p.lines.start? line with
  | none => 0
  | some start => p.columnBehind ((Text.dropBytes start p.text).takeWhile (fun c => c = ' ' || c = '\t'))

/-- The indentation of the line on which a token's characters start. -/
def indentationOf? (p : Positions) (t : Token) : Option Nat := (p.lineOf? t).map p.indentationOfLine

end Positions

end Downlevel
