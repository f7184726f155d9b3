import Downlevel.Tree.Transform
import Downlevel.Trivia.Placement
/-!
# Tree.Reindent — moving the lines of a tree, and telling its tokens apart

`reindented` moves every line of a tree by some columns and touches blanks at the start of lines only.
`withUniqueTokens` puts a copy in the place of every token object that was met before, so that no object stands at two
places.  Both give the same tree back where there is nothing to change.
-/
namespace Downlevel

/-- Moves the lines that start in the trivia of a token; the state says whether a line starts in front of it. -/
def Shift.token (s : Shift) (t : Token) : Work SlotError Bool Token := do
  if t.fullWidth = 0 then return t
  let leading := s.apply (← Work.own) true t.leading
  let trailing := s.apply (leading.atLineStart && t.width == 0) false t.trailing
  Work.setOwn trailing.atLineStart
  let t ← match leading.result? with
    | some trivia => t.withLeading trivia
    | none => pure t
  match trailing.result? with
  | some trivia => t.withTrailing trivia
  | none => pure t

/-- The tree with its lines moved; `first` says whether its first token starts a line. -/
def Node.reindented (n : Node) (s : Shift) (first : Bool) : Fresh (Except SlotError Node) := fun next =>
  if s.delta = 0 then (.ok n, next)
  else
    let (outcome, _, next) := (n.transformTokens s.token).runFrom first next
    (outcome, next)

/-- A token object that was not met before, or a copy of it; the state holds the objects met. -/
def Token.unlessMet (t : Token) : Work SlotError (List ObjectId) Token := do
  if (← Work.own).contains t.id then t.copy
  else
    Work.modifyOwn (t.id :: ·)
    return t

/-- The tree with a copy in place of every token object that was met before. -/
def Node.withUniqueTokens (n : Node) : Fresh (Except SlotError Node) := fun next =>
  let (outcome, _, next) := (n.transformTokens Token.unlessMet).runFrom [] next
  (outcome, next)

end Downlevel
