import Downlevel.Tree.Basic
/-!
# Tree.Equality — trees with the same structure

Two trees have the same structure when they have the same kinds of node, slot by slot the same contents, and tokens of
the same kind and characters.  An `Comparison` may also ask for the same widths of trivia, so that all tokens stand at
the same offsets, and for the same comments.  One object is equal to itself without a look inside.
-/
namespace Downlevel

/-- What is compared besides the structure. -/
structure Comparison where
  /-- Tokens must stand at the same offsets. -/
  offsets : Bool
  /-- Comments on both sides of tokens must agree. -/
  comments : Bool
  deriving DecidableEq, Repr

def TriviaList.comments (t : TriviaList) : List Trivia := t.toList.filter Trivia.isComment

/-- Two tokens agree. -/
def Token.agrees (how : Comparison) (s t : Token) : Bool :=
  s.kind == t.kind && s.text == t.text
    && (!how.offsets || (s.leading.fullWidth == t.leading.fullWidth && s.trailing.fullWidth == t.trailing.fullWidth))
    && (!how.comments || (s.leading.comments == t.leading.comments && s.trailing.comments == t.trailing.comments))

def Token.allAgree (how : Comparison) : List Token → List Token → Bool
  | [], [] => true
  | s :: ss, t :: ts => s.agrees how t && allAgree how ss ts
  | _, _ => false

mutual

/-- **Two trees have the same structure.** -/
def Node.agrees (how : Comparison) : Node → Node → Bool
  | .mk i k ss, .mk j l ts =>
    i == j
      || (k == l && (!how.offsets || Slot.allFullWidth ss == Slot.allFullWidth ts) && Slot.allAgree how ss ts)
termination_by structural n => n

/-- Two rows of slots have the same structure. -/
def Slot.allAgree (how : Comparison) : List Slot → List Slot → Bool
  | [], [] => true
  | s :: ss, t :: ts => Slot.agrees how s t && Slot.allAgree how ss ts
  | _, _ => false
termination_by structural slots => slots

/-- Two slots have the same structure. -/
def Slot.agrees (how : Comparison) : Slot → Slot → Bool
  | .absent, .absent => true
  | .token s, .token t => s.agrees how t
  | .node m, .node n => Node.agrees how m n
  | .list ms, .list ns => Node.listAgrees how ms ns
  | .separated ms ss, .separated ns ts => Node.listAgrees how ms ns && Token.allAgree how ss ts
  | _, _ => false
termination_by structural slot => slot

/-- Two lists of nodes have the same structure. -/
def Node.listAgrees (how : Comparison) : List Node → List Node → Bool
  | [], [] => true
  | m :: ms, n :: ns => Node.agrees how m n && Node.listAgrees how ms ns
  | _, _ => false
termination_by structural ns => ns

end

end Downlevel
