import Downlevel.Text.Basic
/-!
# Text.Indexed — items by their index
-/
namespace Downlevel

/-- An index that is no index of a list. -/
structure IndexError where
  index : Nat
  count : Nat
  deriving DecidableEq, Repr

def IndexError.message (e : IndexError) : List Char :=
  "index ".toList ++ Text.ofNat e.index ++ " is out of range for a list of ".toList ++ Text.ofNat e.count
    ++ " items".toList

def itemAt {α : Type} (items : List α) (index : Nat) : Except IndexError α :=
  match items[index]? with
  | some item => .ok item
  | none => .error ⟨index, items.length⟩

end Downlevel
