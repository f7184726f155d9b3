import Downlevel.Token.Basic
import Downlevel.Tree.Kind
/-!
# Tree.Basic — nodes, lists and separated lists

A `Node` has a number of its own, a kind and one `Slot` after the other.  A slot is absent, or holds a token, a node, a
list of nodes, or a list of nodes with separators in between.  The view of a tree is the row of its tokens
(`Node.tokens`): text, width and the tokens at the edges are read off it, and `fullWidth_eq` says that the width, which
is summed up slot by slot, is the number of bytes of the text.
-/
namespace Downlevel

mutual

/-- A node of a tree. -/
inductive Node where
  | mk (id : ObjectId) (kind : NodeKind) (slots : List Slot)

/-- What one slot of a node holds. -/
inductive Slot where
  | absent
  | token (token : Token)
  | node (node : Node)
  | list (members : List Node)
  | separated (members : List Node) (separators : List Token)

end

instance : Inhabited Node := ⟨.mk 0 .omittedExpression []⟩

instance : Inhabited Slot := ⟨.absent⟩

/-- The items of two lists in turn, the first list first; when one has run out, the rest of the other. -/
def interleave {α : Type} : List α → List α → List α
  | [], bs => bs
  | a :: as, [] => a :: as
  | a :: as, b :: bs => a :: b :: interleave as bs

theorem flatten_map_singleton {α : Type} (l : List α) : (l.map (fun a => [a])).flatten = l := by
  induction l with
  | nil => rfl
  | cons a l ih => simp [ih]

@[simp] theorem interleave_nil_right {α : Type} (as : List α) : interleave as [] = as := by cases as <;> rfl

/-- An item of a separated list. -/
inductive SeparatedItem where
  | member (node : Node)
  | separator (token : Token)

/-- The members and separators of a separated list in document order. -/
def separatedItems (members : List Node) (separators : List Token) : List SeparatedItem :=
  interleave (members.map .member) (separators.map .separator)

namespace Node

def id : Node → ObjectId
  | mk id _ _ => id

def kind : Node → NodeKind
  | mk _ kind _ => kind

/-- The slots in document order. -/
def slots : Node → List Slot
  | mk _ _ slots => slots

/-- The two are one object. -/
def isSame (a b : Node) : Bool := a.id == b.id

end Node

/-! ## The tokens of a tree -/

mutual

/-- The tokens of a node in front of others. -/
def Node.tokensOnto : Node → List Token → List Token
  | .mk _ _ slots, behind => Slot.allTokensOnto slots behind

/-- The tokens of a row of slots in front of others. -/
def Slot.allTokensOnto : List Slot → List Token → List Token
  | [], behind => behind
  | slot :: slots, behind => slot.tokensOnto (Slot.allTokensOnto slots behind)

/-- The tokens of a slot in front of others. -/
def Slot.tokensOnto : Slot → List Token → List Token
  | .absent, behind => behind
  | .token t, behind => t :: behind
  | .node n, behind => n.tokensOnto behind
  | .list members, behind => Node.listTokensOnto members behind
  | .separated members separators, behind => Node.separatedTokensOnto members separators behind

/-- The tokens of a list of nodes in front of others. -/
def Node.listTokensOnto : List Node → List Token → List Token
  | [], behind => behind
  | n :: ns, behind => n.tokensOnto (Node.listTokensOnto ns behind)

/-- The tokens of a separated list in front of others. -/
def Node.separatedTokensOnto : List Node → List Token → List Token → List Token
  | [], separators, behind => separators ++ behind
  | n :: ns, [], behind => n.tokensOnto (Node.separatedTokensOnto ns [] behind)
  | n :: ns, s :: ss, behind => n.tokensOnto (s :: Node.separatedTokensOnto ns ss behind)

end

/-- The tokens of a tree in document order, empty ones among them. -/
def Node.tokens (n : Node) : List Token := n.tokensOnto []

/-- The tokens of a slot in document order. -/
def Slot.tokens (s : Slot) : List Token := s.tokensOnto []

mutual

theorem Node.tokensOnto_eq : ∀ (n : Node) (behind : List Token), n.tokensOnto behind = n.tokens ++ behind
  | .mk _ _ slots, behind => by
    simp only [Node.tokens, Node.tokensOnto]
    rw [Slot.allTokensOnto_eq slots behind, Slot.allTokensOnto_eq slots []]
    simp

theorem Slot.allTokensOnto_eq : ∀ (slots : List Slot) (behind : List Token),
    Slot.allTokensOnto slots behind = slots.flatMap Slot.tokens ++ behind
  | [], _ => rfl
  | slot :: slots, behind => by
    simp only [Slot.allTokensOnto, List.flatMap_cons, List.append_assoc]
    rw [Slot.tokensOnto_eq slot, Slot.allTokensOnto_eq slots]

theorem Slot.tokensOnto_eq : ∀ (s : Slot) (behind : List Token), s.tokensOnto behind = s.tokens ++ behind
  | .absent, _ => rfl
  | .token _, _ => rfl
  | .node n, behind => by
    simp only [Slot.tokens, Slot.tokensOnto]
    rw [Node.tokensOnto_eq n behind, Node.tokensOnto_eq n []]
    simp
  | .list members, behind => by
    simp only [Slot.tokens, Slot.tokensOnto]
    rw [Node.listTokensOnto_eq members behind, Node.listTokensOnto_eq members []]
    simp
  | .separated members separators, behind => by
    simp only [Slot.tokens, Slot.tokensOnto]
    rw [Node.separatedTokensOnto_eq members separators behind, Node.separatedTokensOnto_eq members separators []]
    simp

theorem Node.listTokensOnto_eq : ∀ (ns : List Node) (behind : List Token),
    Node.listTokensOnto ns behind = ns.flatMap Node.tokens ++ behind
  | [], _ => rfl
  | n :: ns, behind => by
    simp only [Node.listTokensOnto, List.flatMap_cons, List.append_assoc]
    rw [Node.tokensOnto_eq n, Node.listTokensOnto_eq ns]

theorem Node.separatedTokensOnto_eq : ∀ (ns : List Node) (ss behind : List Token),
    Node.separatedTokensOnto ns ss behind
      = (interleave (ns.map Node.tokens) (ss.map (fun s => [s]))).flatten ++ behind
  | [], ss, behind => by simp [Node.separatedTokensOnto, interleave, flatten_map_singleton]
  | n :: ns, [], behind => by
    simp only [Node.separatedTokensOnto, List.map_cons, List.map_nil, interleave_nil_right, List.flatten_cons,
      List.append_assoc]
    rw [Node.tokensOnto_eq n, Node.separatedTokensOnto_eq ns []]
    simp
  | n :: ns, s :: ss, behind => by
    simp only [Node.separatedTokensOnto, List.map_cons, interleave, List.flatten_cons, List.append_assoc]
    rw [Node.tokensOnto_eq n, Node.separatedTokensOnto_eq ns ss]
    rfl

end

@[simp] theorem Node.tokens_mk (id : ObjectId) (kind : NodeKind) (slots : List Slot) :
    (Node.mk id kind slots).tokens = slots.flatMap Slot.tokens := by
  simp [Node.tokens, Node.tokensOnto, Slot.allTokensOnto_eq]

@[simp] theorem Slot.tokens_absent : Slot.absent.tokens = [] := rfl

@[simp] theorem Slot.tokens_token (t : Token) : (Slot.token t).tokens = [t] := rfl

@[simp] theorem Slot.tokens_node (n : Node) : (Slot.node n).tokens = n.tokens := rfl

@[simp] theorem Slot.tokens_list (ns : List Node) : (Slot.list ns).tokens = ns.flatMap Node.tokens := by
  simp [Slot.tokens, Slot.tokensOnto, Node.listTokensOnto_eq]

@[simp] theorem Slot.tokens_separated (ns : List Node) (ss : List Token) :
    (Slot.separated ns ss).tokens = (interleave (ns.map Node.tokens) (ss.map (fun s => [s]))).flatten := by
  simp [Slot.tokens, Slot.tokensOnto, Node.separatedTokensOnto_eq]

/-! ## Text and width -/

/-- The tokens' texts with their trivia, one after the other. -/
def Token.texts (tokens : List Token) : List Char := tokens.flatMap Token.fullText

/-- The widths of separators added up. -/
def Token.widths : List Token → Nat
  | [] => 0
  | t :: ts => t.fullWidth + widths ts

mutual

/-- The bytes of a node with its trivia. -/
def Node.fullWidth : Node → Nat
  | .mk _ _ slots => Slot.allFullWidth slots

/-- The bytes of a row of slots. -/
def Slot.allFullWidth : List Slot → Nat
  | [] => 0
  | slot :: slots => slot.fullWidth + Slot.allFullWidth slots

def Slot.fullWidth : Slot → Nat
  | .absent => 0
  | .token t => t.fullWidth
  | .node n => n.fullWidth
  | .list members => Node.listFullWidth members
  | .separated members separators => Node.listFullWidth members + Token.widths separators

def Node.listFullWidth : List Node → Nat
  | [] => 0
  | n :: ns => n.fullWidth + Node.listFullWidth ns

end

namespace Node

/-- The text of a tree with all trivia. -/
def fullText (n : Node) : List Char := Token.texts n.tokens

end Node

def Slot.fullText (s : Slot) : List Char := Token.texts s.tokens

theorem Token.widths_eq (tokens : List Token) : Token.widths tokens = Text.width (Token.texts tokens) := by
  induction tokens with
  | nil => rfl
  | cons t ts ih =>
    have ht : t.fullWidth = Text.width t.fullText := Lexeme.fullWidth_eq t.lexeme
    have : Token.widths (t :: ts) = t.fullWidth + Token.widths ts := by simp [Token.widths]
    rw [this, ih, ht]
    simp [Token.texts]

@[simp] theorem Token.texts_append (a b : List Token) : Token.texts (a ++ b) = Token.texts a ++ Token.texts b := by
  simp [Token.texts]

theorem Token.width_interleave (ns : List (List Token)) (ss : List Token) :
    Text.width (Token.texts (interleave ns (ss.map (fun s => [s]))).flatten)
      = Text.width (Token.texts ns.flatten) + Token.widths ss := by
  induction ns generalizing ss with
  | nil => simp [interleave, flatten_map_singleton, Token.widths_eq, Token.texts]
  | cons n ns ih =>
    cases ss with
    | nil => simp [Token.widths]
    | cons s ss =>
      have hs : Token.widths (s :: ss) = s.fullWidth + Token.widths ss := by simp [Token.widths]
      have hw : s.fullWidth = Text.width (Token.texts [s]) := by
        rw [← Token.widths_eq]; simp [Token.widths]
      simp only [List.map_cons, interleave, List.flatten_cons, Token.texts_append, Text.width_append, ih, hs, hw]
      omega

mutual

/-- **The full width is the number of bytes of the full text.** -/
theorem Node.fullWidth_eq : ∀ n : Node, n.fullWidth = Text.width n.fullText
  | .mk _ _ slots => by
    simp only [Node.fullWidth, Node.fullText, Node.tokens_mk]
    exact Slot.allFullWidth_eq slots

theorem Slot.allFullWidth_eq : ∀ slots : List Slot,
    Slot.allFullWidth slots = Text.width (Token.texts (slots.flatMap Slot.tokens))
  | [] => rfl
  | slot :: slots => by
    simp only [Slot.allFullWidth, List.flatMap_cons, Token.texts_append, Text.width_append]
    rw [Slot.fullWidth_eq slot, Slot.allFullWidth_eq slots]
    rfl

theorem Slot.fullWidth_eq : ∀ s : Slot, s.fullWidth = Text.width s.fullText
  | .absent => rfl
  | .token t => by
    simp only [Slot.fullWidth, Slot.fullText, Slot.tokens_token]
    rw [← Token.widths_eq]; simp [Token.widths]
  | .node n => by
    simp only [Slot.fullWidth, Slot.fullText, Slot.tokens_node]
    exact Node.fullWidth_eq n
  | .list members => by
    simp only [Slot.fullWidth, Slot.fullText, Slot.tokens_list]
    exact Node.listFullWidth_eq members
  | .separated members separators => by
    simp only [Slot.fullWidth, Slot.fullText, Slot.tokens_separated, Token.width_interleave]
    rw [Node.listFullWidth_eq members]
    simp [List.flatMap_def]

theorem Node.listFullWidth_eq : ∀ ns : List Node,
    Node.listFullWidth ns = Text.width (Token.texts (ns.flatMap Node.tokens))
  | [] => rfl
  | n :: ns => by
    simp only [Node.listFullWidth, List.flatMap_cons, Token.texts_append, Text.width_append]
    rw [Node.fullWidth_eq n, Node.listFullWidth_eq ns]
    rfl

end

/-! ## Edges, children and descendants -/

namespace Node

/-- The first token that has characters or trivia. -/
def firstToken? (n : Node) : Option Token := n.tokens.find? (fun t => 0 < t.fullWidth)

/-- The last token that has characters or trivia. -/
def lastToken? (n : Node) : Option Token := n.tokens.reverse.find? (fun t => 0 < t.fullWidth)

def leading (n : Node) : TriviaList := (n.firstToken?.map Token.leading).getD .empty

def trailing (n : Node) : TriviaList := (n.lastToken?.map Token.trailing).getD .empty

/-- The bytes without the trivia at the edges. -/
def width (n : Node) : Nat := n.fullWidth - (n.leading.fullWidth + n.trailing.fullWidth)

def shown (n : Node) : List Char := n.kind.name.toList ++ ['@'] ++ Quoted.text n.fullText

end Node

/-- The nodes that a slot holds directly. -/
def Slot.nodes : Slot → List Node
  | .absent => []
  | .token _ => []
  | .node n => [n]
  | .list members => members
  | .separated members _ => members

/-- The nodes directly below a node, in slot order. -/
def Node.children (n : Node) : List Node := n.slots.flatMap Slot.nodes

mutual

/-- The levels of nodes in a tree. -/
def Node.height : Node → Nat
  | .mk _ _ slots => Slot.allHeight slots + 1

/-- The levels of the highest slot of a row. -/
def Slot.allHeight : List Slot → Nat
  | [] => 0
  | slot :: slots => max slot.height (Slot.allHeight slots)

/-- The levels of nodes in a slot. -/
def Slot.height : Slot → Nat
  | .absent => 0
  | .token _ => 0
  | .node n => n.height
  | .list members => Node.listHeight members
  | .separated members _ => Node.listHeight members

/-- The levels of the highest node of a list. -/
def Node.listHeight : List Node → Nat
  | [] => 0
  | n :: ns => max n.height (Node.listHeight ns)

end

mutual

/-- The nodes of a tree from the root down, in front of others. -/
def Node.allOnto : Node → List Node → List Node
  | .mk id kind slots, behind => .mk id kind slots :: Slot.allNodesOnto slots behind
termination_by structural n => n

/-- The nodes below a row of slots in front of others. -/
def Slot.allNodesOnto : List Slot → List Node → List Node
  | [], behind => behind
  | slot :: slots, behind => slot.nodesOnto (Slot.allNodesOnto slots behind)
termination_by structural slots => slots

/-- The nodes of a slot and below in front of others. -/
def Slot.nodesOnto : Slot → List Node → List Node
  | .absent, behind => behind
  | .token _, behind => behind
  | .node n, behind => n.allOnto behind
  | .list members, behind => Node.listAllOnto members behind
  | .separated members _, behind => Node.listAllOnto members behind
termination_by structural slot => slot

/-- The nodes of a list and below in front of others. -/
def Node.listAllOnto : List Node → List Node → List Node
  | [], behind => behind
  | n :: ns, behind => n.allOnto (Node.listAllOnto ns behind)
termination_by structural ns => ns

end

/-- The node and all nodes below it, each in front of its children. -/
def Node.all (n : Node) : List Node := n.allOnto []

/-! ## Slots as they are shown -/

/-- Shown items between brackets. -/
def shownList (items : List (List Char)) : List Char := ['['] ++ Text.join [',', ' '] items ++ [']']

def shownAs (word : String) (part : List Char) : List Char := word.toList ++ ['('] ++ part ++ [')']

def SeparatedItem.shown : SeparatedItem → List Char
  | member n => shownAs "Node" n.shown
  | separator t => shownAs "Separator" t.shown

namespace Slot

def shownMembers (members : List Node) : List Char := shownList (members.map Node.shown)

def shownSeparated (members : List Node) (separators : List Token) : List Char :=
  shownList ((separatedItems members separators).map SeparatedItem.shown)

/-- What a slot holds, with the sort of it in front. -/
def shown : Slot → List Char
  | absent => []
  | token t => shownAs "Token" t.shown
  | node n => shownAs "Node" n.shown
  | list members => shownAs "List" (shownMembers members)
  | separated members separators => shownAs "SeparatedList" (shownSeparated members separators)

def token? : Slot → Option Token
  | token t => some t
  | _ => none

def node? : Slot → Option Node
  | node n => some n
  | _ => none

/-- A slot that may be left out, with a token. -/
def ofToken? : Option Token → Slot
  | some t => token t
  | none => absent

/-- A slot that may be left out, with a node. -/
def ofNode? : Option Node → Slot
  | some n => node n
  | none => absent

/-- The slot holds what a slot of this shape may hold. -/
def fits : Slot → SlotShape → Bool
  | absent, shape => shape.isOptional
  | token _, shape => shape == .token || shape == .optionalToken
  | node _, shape => shape == .node || shape == .optionalNode
  | list _, shape => shape == .list
  | separated _ _, shape => shape == .separatedList

end Slot

/-- The slots of a node are as many as its kind has, and each holds what it may. -/
def Node.matchesSchema (n : Node) : Bool :=
  n.slots.length == n.kind.shapes.length && (n.slots.zip n.kind.shapes).all (fun (slot, shape) => slot.fits shape)

end Downlevel
