import Downlevel.Command.Arguments
import Downlevel.Command.Run
import Downlevel.Command.Settings
import Downlevel.Command.Sources
import Downlevel.Disk.Basic
import Downlevel.Disk.FilePath
import Downlevel.Grammar.Declarations
import Downlevel.Grammar.Error
import Downlevel.Grammar.Expressions
import Downlevel.Grammar.Parts
import Downlevel.Grammar.Program
import Downlevel.Grammar.Reading
import Downlevel.Grammar.Statements
import Downlevel.Grammar.Types
import Downlevel.Json.Basic
import Downlevel.Json.Reader
import Downlevel.Layout.Options
import Downlevel.Lexer.Lexeme
import Downlevel.Lexer.Reader
import Downlevel.Lexer.Trivia
import Downlevel.Lowering.Arrows
import Downlevel.Lowering.Classes
import Downlevel.Lowering.Context
import Downlevel.Lowering.Enums
import Downlevel.Lowering.Erasure
import Downlevel.Lowering.Error
import Downlevel.Lowering.Functions
import Downlevel.Lowering.Members
import Downlevel.Lowering.Namespaces
import Downlevel.Lowering.Parameters
import Downlevel.Lowering.Program
import Downlevel.Lowering.Super
import Downlevel.Main
import Downlevel.Number.Binary64
import Downlevel.Number.Literal
import Downlevel.Number.Text
import Downlevel.Proofs.Command.Collisions
import Downlevel.Proofs.Command.Sources
import Downlevel.Proofs.Disk.Names
import Downlevel.Proofs.Disk.Sound
import Downlevel.Proofs.Grammar.Alike
import Downlevel.Proofs.Grammar.ErrorPlaces
import Downlevel.Proofs.Grammar.Fidelity
import Downlevel.Proofs.Grammar.Forms
import Downlevel.Proofs.Grammar.Groups
import Downlevel.Proofs.Grammar.Keeps
import Downlevel.Proofs.Grammar.Layout
import Downlevel.Proofs.Grammar.LineMoves
import Downlevel.Proofs.Grammar.LineStarts
import Downlevel.Proofs.Grammar.Mirrors
import Downlevel.Proofs.Grammar.Moves
import Downlevel.Proofs.Grammar.Parallel
import Downlevel.Proofs.Grammar.Reads
import Downlevel.Proofs.Grammar.Rules
import Downlevel.Proofs.Grammar.Seen
import Downlevel.Proofs.Grammar.Slots
import Downlevel.Proofs.Grammar.Termination
import Downlevel.Proofs.Grammar.Yields
import Downlevel.Proofs.Lexer.Alone
import Downlevel.Proofs.Lexer.Breaks
import Downlevel.Proofs.Lexer.Canonical
import Downlevel.Proofs.Lexer.Denotes
import Downlevel.Proofs.Lexer.Escapes
import Downlevel.Proofs.Lexer.Lines
import Downlevel.Proofs.Lexer.Lossless
import Downlevel.Proofs.Lexer.Numbers
import Downlevel.Proofs.Lexer.Strings
import Downlevel.Proofs.Lexer.Trivia
import Downlevel.Proofs.Lowering.Balance
import Downlevel.Proofs.Lowering.BalancedRules
import Downlevel.Proofs.Lowering.Classes
import Downlevel.Proofs.Lowering.Context
import Downlevel.Proofs.Lowering.Enums
import Downlevel.Proofs.Lowering.Erasure
import Downlevel.Proofs.Lowering.Functions
import Downlevel.Proofs.Lowering.LineEndings
import Downlevel.Proofs.Lowering.Members
import Downlevel.Proofs.Lowering.Namespaces
import Downlevel.Proofs.Lowering.Outcome
import Downlevel.Proofs.Lowering.Parameters
import Downlevel.Proofs.Lowering.Pass
import Downlevel.Proofs.Lowering.Program
import Downlevel.Proofs.Lowering.Reach
import Downlevel.Proofs.Lowering.Super
import Downlevel.Proofs.Lowering.Untouched
import Downlevel.Proofs.Outline.Account
import Downlevel.Proofs.Outline.Agrees
import Downlevel.Proofs.Outline.Basic
import Downlevel.Proofs.Outline.Bodies
import Downlevel.Proofs.Outline.Builds
import Downlevel.Proofs.Outline.Captures
import Downlevel.Proofs.Outline.ClassMembers
import Downlevel.Proofs.Outline.ClassRows
import Downlevel.Proofs.Outline.Classes
import Downlevel.Proofs.Outline.Code
import Downlevel.Proofs.Outline.Derived
import Downlevel.Proofs.Outline.Draft
import Downlevel.Proofs.Outline.Edges
import Downlevel.Proofs.Outline.Elements
import Downlevel.Proofs.Outline.EnumValues
import Downlevel.Proofs.Outline.Enums
import Downlevel.Proofs.Outline.Erased
import Downlevel.Proofs.Outline.Follows
import Downlevel.Proofs.Outline.Functions
import Downlevel.Proofs.Outline.Gives
import Downlevel.Proofs.Outline.Held
import Downlevel.Proofs.Outline.Helper
import Downlevel.Proofs.Outline.HelperCalls
import Downlevel.Proofs.Outline.Kept
import Downlevel.Proofs.Outline.Lexical
import Downlevel.Proofs.Outline.Marked
import Downlevel.Proofs.Outline.Mentions
import Downlevel.Proofs.Outline.NamespaceRows
import Downlevel.Proofs.Outline.Namespaces
import Downlevel.Proofs.Outline.Opens
import Downlevel.Proofs.Outline.Operands
import Downlevel.Proofs.Outline.Parameters
import Downlevel.Proofs.Outline.Parts
import Downlevel.Proofs.Outline.Program
import Downlevel.Proofs.Outline.Quiet
import Downlevel.Proofs.Outline.Registry
import Downlevel.Proofs.Outline.Shaped
import Downlevel.Proofs.Outline.Shapes
import Downlevel.Proofs.Outline.Super
import Downlevel.Proofs.Outline.Twice
import Downlevel.Proofs.Outline.Untyped
import Downlevel.Proofs.Outline.ValueFree
import Downlevel.Proofs.Outline.Views
import Downlevel.Proofs.Outline.Walk
import Downlevel.Proofs.Outline.Whole
import Downlevel.Proofs.Outline.Wrapped
import Downlevel.Proofs.Schema.Brought
import Downlevel.Proofs.Schema.Classes
import Downlevel.Proofs.Schema.Edits
import Downlevel.Proofs.Schema.Functions
import Downlevel.Proofs.Schema.Namespaces
import Downlevel.Proofs.Schema.Obtainable
import Downlevel.Proofs.Schema.Parts
import Downlevel.Proofs.Schema.Views
import Downlevel.Proofs.Text.Lines
import Downlevel.Proofs.Tree.Answers
import Downlevel.Proofs.Tree.Builds
import Downlevel.Proofs.Tree.Checked
import Downlevel.Proofs.Tree.Copies
import Downlevel.Proofs.Tree.EdgeTokens
import Downlevel.Proofs.Tree.Edges
import Downlevel.Proofs.Tree.Ends
import Downlevel.Proofs.Tree.Every
import Downlevel.Proofs.Tree.Faults
import Downlevel.Proofs.Tree.Grouping
import Downlevel.Proofs.Tree.Innermost
import Downlevel.Proofs.Tree.Places
import Downlevel.Proofs.Tree.Reindented
import Downlevel.Proofs.Tree.Runs
import Downlevel.Proofs.Tree.Schematic
import Downlevel.Proofs.Tree.Shapes
import Downlevel.Proofs.Tree.Skeleton
import Downlevel.Proofs.Tree.Sorts
import Downlevel.Proofs.Tree.Stands
import Downlevel.Proofs.Tree.Tightness
import Downlevel.Proofs.Tree.TokenPasses
import Downlevel.Proofs.Tree.Views
import Downlevel.Proofs.Tree.Walks
import Downlevel.Proofs.Trivia.Comments
import Downlevel.Proofs.Trivia.Demand
import Downlevel.Proofs.Trivia.Pieces
import Downlevel.Proofs.Trivia.Sequence
import Downlevel.Proofs.Trivia.Shifts
import Downlevel.Text.Basic
import Downlevel.Text.CharClass
import Downlevel.Text.Escapes
import Downlevel.Text.Indexed
import Downlevel.Text.Lines
import Downlevel.Text.Quoted
import Downlevel.Text.Unicode
import Downlevel.Token.Basic
import Downlevel.Token.Kind
import Downlevel.Token.Value
import Downlevel.Tree.Basic
import Downlevel.Tree.Build
import Downlevel.Tree.Cursor
import Downlevel.Tree.Edit
import Downlevel.Tree.Equality
import Downlevel.Tree.Facts
import Downlevel.Tree.Invariants
import Downlevel.Tree.Kind
import Downlevel.Tree.Positions
import Downlevel.Tree.Reindent
import Downlevel.Tree.Supply
import Downlevel.Tree.Transform
import Downlevel.Tree.View
import Downlevel.Trivia.Basic
import Downlevel.Trivia.Placement
