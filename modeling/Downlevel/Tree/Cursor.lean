import Downlevel.Tree.Basic
/-!
# Tree.Cursor — nodes with the place where they stand

A node knows neither its offset nor what is above it, since it may stand in several trees.  A `Cursor` is a node with
its offset and the nodes above it, innermost first; `children` moves down, `find?` and `innermost?` search.
-/
namespace Downlevel

/-- A node at a place of a tree. -/
structure Cursor where
  node : Node
  start : Nat
  /-- The nodes above with their offsets, innermost first. -/
  above : List (Node × Nat)

namespace Cursor

/-- The place of a whole tree. -/
def root (n : Node) : Cursor := ⟨n, 0, []⟩

def kind (c : Cursor) : NodeKind := c.node.kind

/-- The offset behind the node. -/
def stop (c : Cursor) : Nat := c.start + c.node.fullWidth

/-- Nodes in a row, each with the offset at which it stands. -/
def placed : Nat → List Node → List (Node × Nat)
  | _, [] => []
  | offset, n :: ns => (n, offset) :: placed (offset + n.fullWidth) ns

/-- The members of a separated list, each with the offset at which it stands. -/
def placedSeparated : Nat → List Node → List Token → List (Node × Nat)
  | _, [], _ => []
  | offset, n :: ns, [] => (n, offset) :: placedSeparated (offset + n.fullWidth) ns []
  | offset, n :: ns, s :: ss => (n, offset) :: placedSeparated (offset + n.fullWidth + s.fullWidth) ns ss

/-- The nodes of a slot, each with the offset at which it stands. -/
def placedSlot (offset : Nat) : Slot → List (Node × Nat)
  | .absent => []
  | .token _ => []
  | .node n => [(n, offset)]
  | .list members => placed offset members
  | .separated members separators => placedSeparated offset members separators

/-- The nodes of a row of slots, each with the offset at which it stands. -/
def placedSlots : Nat → List Slot → List (Node × Nat)
  | _, [] => []
  | offset, slot :: slots => placedSlot offset slot ++ placedSlots (offset + slot.fullWidth) slots

/-- The places directly below, in document order. -/
def children (c : Cursor) : List Cursor :=
  (placedSlots c.start c.node.slots).map (fun (n, start) => ⟨n, start, (c.node, c.start) :: c.above⟩)

/-- The first place in document order that passes a test, looking so many levels down. -/
def findUpTo? (test : Cursor → Bool) : Nat → Cursor → Option Cursor
  | 0, _ => none
  | levels + 1, c => if test c then some c else c.children.findSome? (findUpTo? test levels)

/-- The first place in document order, this one included, that passes a test. -/
def find? (c : Cursor) (test : Cursor → Bool) : Option Cursor := findUpTo? test c.node.height c

/-- The place begins at an offset or holds it inside. -/
def holds (c : Cursor) (offset : Nat) : Bool := offset == c.start || (c.start < offset && offset < c.stop)

/-- The deepest place of a kind that holds an offset, looking so many levels down. -/
def innermostUpTo? (offset : Nat) (kind : NodeKind) : Nat → Cursor → Option Cursor
  | 0, _ => none
  | levels + 1, c =>
    if c.holds offset then
      (c.children.findSome? (innermostUpTo? offset kind levels)).or (if c.kind = kind then some c else none)
    else none

/-- The deepest place of a kind, at this one or below, that holds an offset. -/
def innermost? (c : Cursor) (offset : Nat) (kind : NodeKind) : Option Cursor :=
  innermostUpTo? offset kind c.node.height c

/-- The place above. -/
def parent? (c : Cursor) : Option Cursor :=
  match c.above with
  | [] => none
  | (n, start) :: above => some ⟨n, start, above⟩

/-- The kinds from the root down to the place. -/
def path (c : Cursor) : List Char :=
  Text.join " > ".toList ((c.above.reverse.map (fun (n, _) => n.kind.name.toList)) ++ [c.kind.name.toList])

/-- The kind and the offset. -/
def shown (c : Cursor) : List Char := c.kind.name.toList ++ ['@'] ++ Text.ofNat c.start

end Cursor

end Downlevel
