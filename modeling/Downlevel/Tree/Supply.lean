import Downlevel.Tree.Basic
/-!
# Tree.Supply — objects get their numbers from a supply

Whoever makes a token or a node takes the next number of a supply, so objects made at different times have different
numbers (`Fresh`).  `Work` is a computation that may fail, keeps a state of its own and makes objects on the way; its
state is kept when it fails.
-/
namespace Downlevel

/-- A computation that makes objects, numbering them from a supply on. -/
abbrev Fresh := StateM ObjectId

/-- A state of one's own beside the next number of the supply. -/
structure Supplied (σ : Type) where
  next : ObjectId
  own : σ

/-- A computation with errors in `ε` and a state of its own in `σ` that makes objects. -/
abbrev Work (ε σ : Type) := EStateM ε (Supplied σ)

/-- The next number of the supply. -/
def Fresh.id : Fresh ObjectId := fun next => (next, next + 1)

/-- A new token object. -/
def Token.fresh (lexeme : Lexeme) : Fresh Token := fun next => (⟨next, lexeme⟩, next + 1)

/-- A new node object. -/
def Node.fresh (kind : NodeKind) (slots : List Slot) : Fresh Node := fun next => (.mk next kind slots, next + 1)

namespace Work

variable {ε σ α : Type}

/-- Making objects within a larger computation. -/
def lift (make : Fresh α) : Work ε σ α := fun s =>
  let (a, next) := make s.next
  .ok a { s with next := next }

instance : MonadLift Fresh (Work ε σ) := ⟨lift⟩

def own : Work ε σ σ := fun s => .ok s.own s

/-- Another state of one's own. -/
def setOwn (own : σ) : Work ε σ Unit := fun s => .ok () { s with own := own }

def modifyOwn (change : σ → σ) : Work ε σ Unit := fun s => .ok () { s with own := change s.own }

/-- A failure; the state stays as it is. -/
def fail (error : ε) : Work ε σ α := fun s => .error error s

/-- An error where there is one. -/
def ofExcept : Except ε α → Work ε σ α
  | .ok a => pure a
  | .error e => fail e

/-- Runs a computation from a state on: its outcome, and the state and supply that it leaves. -/
def runFrom (w : Work ε σ α) (own : σ) (next : ObjectId) : Except ε α × σ × ObjectId :=
  match w ⟨next, own⟩ with
  | .ok a s => (.ok a, s.own, s.next)
  | .error e s => (.error e, s.own, s.next)

/-- A second computation that is run whether or not the first one fails; the outcome is that of the first. -/
def andThen (first : Work ε σ α) (after : σ → σ) : Work ε σ α := fun s =>
  match first s with
  | .ok a s' => .ok a { s' with own := after s'.own }
  | .error e s' => .error e { s' with own := after s'.own }

end Work

namespace Token

/-- The same token with other trivia in front, as a new object. -/
def withLeading (t : Token) (leading : TriviaList) : Fresh Token := fresh (t.lexeme.withLeading leading)

/-- The same token with other trivia behind, as a new object. -/
def withTrailing (t : Token) (trailing : TriviaList) : Fresh Token := fresh (t.lexeme.withTrailing trailing)

/-- A new object of the same content. -/
def copy (t : Token) : Fresh Token := fresh t.lexeme

/-- A reserved word as a plain name; any other token is itself. -/
def toName (t : Token) : Fresh Token :=
  if t.kind.isKeyword then fresh t.lexeme.asName else pure t

/-- The same token with other trivia on both sides, as a new object. -/
def withTrivia (t : Token) (leading trailing : TriviaList) : Fresh Token := do
  (← t.withLeading leading).withTrailing trailing

def bare (t : Token) : Fresh Token := t.withTrivia .empty .empty

end Token

end Downlevel
