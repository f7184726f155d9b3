import Downlevel.Proofs.Outline.Notes
/-!
# Proofs.Outline.Mentions — where code mentions the helper for derived classes

The name `__extends` stands in an expression, is called, or is loose: then it is declared there, or it is the name of a
member (`Mention`).  A node mentions what its parts mention (`Node.mentions_mk`), so the forms that lowering writes mention
what they are written with, and only the call that sets up inheritance mentions the helper itself
(`LoweringContext.mentions_extendsCall`).
-/
namespace Downlevel

/-- A place where the name of the helper stands. -/
inductive Mention where
  /-- The name is declared, or it is that of a member. -/
  | loose
  /-- The name is an expression. -/
  | name
  /-- What the name stands for is called. -/
  | call
  deriving DecidableEq

/-- The word `__extends`. -/
def Lexeme.isExtends (l : Lexeme) : Bool := (l.kind == .identifier || l.kind.isKeyword) && l.text == "__extends".toList

/-- The token is the word `__extends`. -/
def Token.isExtends (t : Token) : Bool := t.lexeme.isExtends

/-- The expression `__extends`. -/
def Node.isExtends : Node → Bool
  | .mk _ .identifierName [.token t] => t.isExtends
  | _ => false

/-- The call `__extends(…)`. -/
def Node.callsExtends : Node → Bool
  | .mk _ .invocationExpression (.node callee :: _) => callee.isExtends
  | _ => false

/-- What a node mentions by itself. -/
def Node.mentionsHere (n : Node) : List Mention :=
  ((n.slots.flatMap Slot.ownTokens).filter Token.isExtends).map
    (fun _ => if n.kind = .identifierName then .name else .loose) ++ if n.callsExtends then [.call] else []

/-- **What a tree mentions.** -/
def Node.mentions (n : Node) : List Mention := n.all.flatMap Node.mentionsHere

theorem Node.mentions_eq (n : Node) : n.mentions = n.mentionsHere ++ n.children.flatMap Node.mentions := by
  rw [mentions, Node.all_eq, List.flatMap_cons, List.flatMap_assoc]
  rfl

/-! ## Tokens -/

section

variable {l : Lexeme} {t : Token} {trivia : TriviaList} {i : ObjectId}

@[simp] theorem isExtends_mk : Token.isExtends ⟨i, l⟩ = l.isExtends := rfl

@[simp] theorem isExtends_leading : (l.withLeading trivia).isExtends = l.isExtends := rfl

@[simp] theorem isExtends_trailing : (l.withTrailing trivia).isExtends = l.isExtends := rfl

/-- The helper's name is no reserved word. -/
@[simp] theorem isExtends_ofKind (kind : TokenKind) : (Lexeme.ofKind kind).isExtends = false := by
  cases kind with
  | keyword k => cases k <;> decide
  | _ => rfl

@[simp] theorem isExtends_bare : (t.bare i).1.isExtends = t.isExtends := rfl

@[simp] theorem isExtends_toName : (t.toName i).1.isExtends = t.isExtends := by
  unfold Token.toName
  split
  · rename_i hkeyword
    have hword : (t.kind == .identifier || t.kind.isKeyword) = true := by rw [hkeyword, Bool.or_true]
    exact congrArg (· && t.text == "__extends".toList) hword.symm
  · rfl

end

/-! ## Slots without the name -/

/-- No token that the slot holds itself is the name. -/
abbrev Slot.Nameless (s : Slot) : Prop := s.Each (fun _ => True) (fun t => t.isExtends = false)

section

variable {t : Token} {ts : List Token} {n : Node} {ns : List Node} {id : ObjectId} {kind : NodeKind} {slots : List Slot}

theorem Node.mentionsHere_eq (h : ∀ s ∈ n.slots, s.Nameless) :
    n.mentionsHere = if n.callsExtends then [.call] else [] := by
  have hnone : (n.slots.flatMap Slot.ownTokens).filter Token.isExtends = [] :=
    List.filter_eq_nil_iff.2 (fun t ht => by
      obtain ⟨s, hs, hts⟩ := List.mem_flatMap.1 ht
      simp [(h s hs).tokens t hts])
  rw [mentionsHere, hnone]
  rfl

/-- **A node mentions what its parts mention**, if no token of its own is the name and it is no call of the helper. -/
theorem Node.mentions_mk (hcall : (Node.mk id kind slots).callsExtends = false) (h : ∀ s ∈ slots, s.Nameless) :
    (Node.mk id kind slots).mentions = (slots.flatMap Slot.nodes).flatMap Node.mentions := by
  rw [mentions_eq, mentionsHere_eq (n := .mk id kind slots) h, hcall]
  rfl

theorem Node.callsExtends_invocation {callee : Node} :
    (Node.mk id .invocationExpression (.node callee :: slots)).callsExtends = callee.isExtends := rfl

theorem Node.callsExtends_of_kind (h : n.kind ≠ .invocationExpression) : n.callsExtends = false := by
  obtain ⟨id, kind, slots⟩ := n
  unfold callsExtends
  split
  · rename_i heq
    exact absurd (congrArg Node.kind heq) h
  · rfl

theorem Node.isExtends_of_kind (h : n.kind ≠ .identifierName) : n.isExtends = false := by
  obtain ⟨id, kind, slots⟩ := n
  unfold isExtends
  split
  · rename_i heq
    exact absurd (congrArg Node.kind heq) h
  · rfl

theorem Node.mentions_inner (hkind : kind ≠ .invocationExpression) (h : ∀ s ∈ slots, s.Nameless) :
    (Node.mk id kind slots).mentions = (slots.flatMap Slot.nodes).flatMap Node.mentions :=
  mentions_mk (callsExtends_of_kind hkind) h

end

/-! ## Forms -/

namespace Build

variable {t : Token} {e left right : Node} {args ns : List Node} {s : Slot} {o : Option Node} {kind : TokenKind} {i : ObjectId}

@[simp] theorem isExtends_token : (token kind i).1.isExtends = false := isExtends_ofKind kind

@[simp] theorem isExtends_mark {p : Punctuation} : (mark p i).1.isExtends = false := rfl

@[simp] theorem isExtends_tokenThenSpace : (tokenThenSpace kind i).1.isExtends = false := isExtends_ofKind kind

@[simp] theorem isExtends_markThenSpace {p : Punctuation} : (markThenSpace p i).1.isExtends = false := rfl

@[simp] theorem isExtends_wordThenSpace {k : Keyword} : (wordThenSpace k i).1.isExtends = false := isExtends_tokenThenSpace

@[simp] theorem isExtends_identifier {text : List Char} : (identifier text i).1.isExtends = (text == "__extends".toList) := rfl

theorem mentions_fresh {kind : NodeKind} {slots : List Slot} (hkind : kind ≠ .invocationExpression)
    (h : ∀ s ∈ slots, s.Nameless) :
    (Node.fresh kind slots i).1.mentions = (slots.flatMap Slot.nodes).flatMap Node.mentions := Node.mentions_inner hkind h

theorem isExtends_commas : ∀ {ns : List Node} {j : ObjectId},
    ∀ t ∈ (separatorsBetween (markThenSpace .comma) ns j).1, t.isExtends = false
  | [], _, _, ht => by cases ht
  | [_], _, _, ht => by cases ht
  | _ :: n :: ns, j, t, ht => by
    rw [separatorsBetween] at ht
    rcases List.mem_cons.1 ht with rfl | ht
    · exact isExtends_markThenSpace (i := j)
    · exact isExtends_commas t ht

@[simp] theorem nameless_commaSeparated : (commaSeparated args i).1.Nameless :=
  Slot.each_separated.2 ⟨fun _ _ => trivial, isExtends_commas⟩

@[simp] theorem nodes_commaSeparated : (commaSeparated args i).1.nodes = args := rfl

theorem mentions_nameExpression (ht : t.isExtends = false) : (nameExpression t i).1.mentions = [] :=
  (Node.mentions_inner (by decide) (by simp [ht])).trans (by simp)

theorem mentions_name {text : List Char} (h : text ≠ "__extends".toList) : (name text i).1.mentions = [] :=
  mentions_nameExpression (isExtends_identifier.trans (beq_eq_false_iff_ne.2 h))

@[simp] theorem mentions_thisExpression : (thisExpression i).1.mentions = [] :=
  (Node.mentions_inner (by decide) (by simp)).trans (by simp)

theorem mentions_literal (ht : t.isExtends = false) : (literal t i).1.mentions = [] :=
  (Node.mentions_inner (by decide) (by simp [ht])).trans (by simp)

@[simp] theorem mentions_stringLiteral {value : List Char} : (stringLiteral value i).1.mentions = [] := mentions_literal rfl

@[simp] theorem mentions_numericLiteral {text : List Char} : (numericLiteral text i).1.mentions = [] := mentions_literal rfl

@[simp] theorem mentions_keywordLiteral : (keywordLiteral kind i).1.mentions = [] :=
  mentions_literal (isExtends_token (i := i))

theorem mentions_memberAccess (ht : t.isExtends = false) : (memberAccess e t i).1.mentions = e.mentions := by
  show (Node.mk _ .memberAccessExpression [.node e, .token (mark .dot i).1, .token (t.toName _).1]).mentions = _
  rw [Node.mentions_inner (by decide) (by simp [ht])]
  simp

theorem mentions_memberNamed {text : List Char} {j : ObjectId} (h : text ≠ "__extends".toList) :
    (memberAccess e (identifier text j).1 i).1.mentions = e.mentions :=
  mentions_memberAccess (isExtends_identifier.trans (beq_eq_false_iff_ne.2 h))

theorem mentions_memberPath {names : List (List Char)} (h : ∀ name ∈ names, name ≠ "__extends".toList) :
    (memberPath e names i).1.mentions = e.mentions := by
  induction names generalizing e i with
  | nil => rfl
  | cons name names ih =>
    obtain ⟨hname, hnames⟩ := List.forall_mem_cons.1 h
    unfold memberPath
    rw [Fresh.bind_apply, Fresh.bind_apply, ih hnames, mentions_memberNamed hname]

@[simp] theorem mentions_elementAccess : (elementAccess left right i).1.mentions = left.mentions ++ right.mentions :=
  (Node.mentions_inner (by decide) (by simp)).trans (by simp)

@[simp] theorem mentions_argumentList : (argumentList args i).1.mentions = args.flatMap Node.mentions := by
  show (Node.mk _ .argumentList [.token (mark .openParen _).1, (commaSeparated args _).1,
    .token (mark .closeParen _).1]).mentions = _
  rw [Node.mentions_inner (by decide) (by simp)]
  simp

theorem mentions_invocation (h : e.isExtends = false) :
    (invocation e args i).1.mentions = e.mentions ++ args.flatMap Node.mentions := by
  show (Node.mk _ .invocationExpression [.node e, .node (argumentList args i).1]).mentions = _
  rw [Node.mentions_mk (Node.callsExtends_invocation.trans h) (by simp)]
  simp

@[simp] theorem mentions_binary : (binary left kind right i).1.mentions = left.mentions ++ right.mentions :=
  (Node.mentions_inner (by decide) (by simp)).trans (by simp)

@[simp] theorem mentions_assignment : (assignment left right i).1.mentions = left.mentions ++ right.mentions :=
  mentions_binary

@[simp] theorem mentions_prefixUnary : (prefixUnary kind e i).1.mentions = e.mentions := by
  unfold prefixUnary
  split <;> exact (Node.mentions_inner (by decide) (by simp)).trans (by simp)

@[simp] theorem mentions_postfixUnary : (postfixUnary e kind i).1.mentions = e.mentions :=
  (Node.mentions_inner (by decide) (by simp)).trans (by simp)

@[simp] theorem mentions_arrayLiteral : (arrayLiteral args i).1.mentions = args.flatMap Node.mentions := by
  show (Node.mk _ .arrayLiteralExpression [.token (mark .openBracket _).1, (commaSeparated args _).1,
    .token (mark .closeBracket _).1]).mentions = _
  rw [Node.mentions_inner (by decide) (by simp)]
  simp

@[simp] theorem mentions_parenthesized : (parenthesized e i).1.mentions = e.mentions :=
  (Node.mentions_inner (by decide) (by simp)).trans (by simp)

theorem mentions_propertyAssignment (ht : t.isExtends = false) : (propertyAssignment t e i).1.mentions = e.mentions := by
  show (Node.mk _ .simplePropertyAssignment [.token (t.toName i).1, .token (markThenSpace .colon _).1, .node e]).mentions = _
  rw [Node.mentions_inner (by decide) (by simp [ht])]
  simp

theorem mentions_objectLiteral {openBrace closeBrace : Token} (ho : openBrace.isExtends = false)
    (hc : closeBrace.isExtends = false) (hs : s.Nameless) :
    (objectLiteral openBrace s closeBrace i).1.mentions = s.nodes.flatMap Node.mentions :=
  (Node.mentions_inner (by decide) (by simp [ho, hc, hs])).trans (by simp)

@[simp] theorem mentions_emptyObject : (emptyObject i).1.mentions = [] := mentions_objectLiteral rfl rfl (by simp)

@[simp] theorem mentions_expressionStatement : (expressionStatement e i).1.mentions = e.mentions :=
  (Node.mentions_inner (by decide) (by simp)).trans (by simp)

@[simp] theorem mentions_returnStatement : (returnStatement o i).1.mentions = o.toList.flatMap Node.mentions := by
  cases o <;> exact (Node.mentions_inner (by decide) (by simp)).trans (by simp)

@[simp] theorem mentions_equalsValueClause : (equalsValueClause e i).1.mentions = e.mentions :=
  (Node.mentions_inner (by decide) (by simp)).trans (by simp)

theorem mentions_declarator (ht : t.isExtends = false) {id : ObjectId} (hs : s.Nameless) :
    (Node.mk id .variableDeclarator [.token t, .absent, s]).mentions = s.nodes.flatMap Node.mentions :=
  (Node.mentions_inner (by decide) (by simp [ht, hs])).trans (by simp)

theorem mentions_variableDeclaration (ht : t.isExtends = false) :
    (variableDeclaration t o i).1.mentions = o.toList.flatMap Node.mentions := by
  cases o with
  | none =>
    show (Node.mk _ .variableDeclaration [.token (wordThenSpace .varKw _).1,
      .separated [.mk _ .variableDeclarator [.token t, .absent, .absent]] []]).mentions = _
    rw [Node.mentions_inner (by decide) (by simp)]
    simp [mentions_declarator ht]
  | some e =>
    show (Node.mk _ .variableDeclaration [.token (wordThenSpace .varKw _).1,
      .separated [.mk _ .variableDeclarator [.token t, .absent, .node (equalsValueClause e i).1]] []]).mentions = _
    rw [Node.mentions_inner (by decide) (by simp)]
    simp [mentions_declarator ht]

theorem mentions_variableNamed {text : List Char} {j : ObjectId} (h : text ≠ "__extends".toList) :
    (variableDeclaration (identifier text j).1 o i).1.mentions = o.toList.flatMap Node.mentions :=
  mentions_variableDeclaration (isExtends_identifier.trans (beq_eq_false_iff_ne.2 h))

theorem mentions_variableStatement (ht : t.isExtends = false) :
    (variableStatement t o i).1.mentions = o.toList.flatMap Node.mentions := by
  show (Node.mk _ .variableStatement [.absent, .absent, .node (variableDeclaration t o i).1,
    .token (mark .semicolon _).1]).mentions = _
  rw [Node.mentions_inner (by decide) (by simp)]
  simp [mentions_variableDeclaration ht]

theorem mentions_parameter (ht : t.isExtends = false) : (parameter t i).1.mentions = [] :=
  (Node.mentions_inner (by decide) (by simp [ht])).trans (by simp)

@[simp] theorem mentions_parameterList : (parameterList args i).1.mentions = args.flatMap Node.mentions := by
  show (Node.mk _ .parameterList [.token (mark .openParen _).1, (commaSeparated args _).1,
    .token (mark .closeParen _).1]).mentions = _
  rw [Node.mentions_inner (by decide) (by simp)]
  simp

@[simp] theorem mentions_callSignature : (callSignature e i).1.mentions = e.mentions :=
  (Node.mentions_inner (by decide) (by simp)).trans (by simp)

theorem mentions_block {openBrace closeBrace : Token} (ho : openBrace.isExtends = false)
    (hc : closeBrace.isExtends = false) : (block openBrace ns closeBrace i).1.mentions = ns.flatMap Node.mentions :=
  (Node.mentions_inner (by decide) (by simp [ho, hc])).trans (by simp)

@[simp] theorem mentions_ifStatement : (ifStatement left right i).1.mentions = left.mentions ++ right.mentions :=
  (Node.mentions_inner (by decide) (by simp)).trans (by simp)

end Build

variable {t name inner : Token} {n b parameters : Node} {ns args : List Node} {j : ObjectId}

theorem Node.mentions_toNode {α : Type} [NodeView α] (v : α) (hkind : NodeView.kind α ≠ .invocationExpression)
    (h : ∀ s ∈ NodeView.toSlots v, s.Nameless) :
    (NodeView.toNode v j).1.mentions = ((NodeView.toSlots v).flatMap Slot.nodes).flatMap Node.mentions :=
  mentions_inner hkind h

namespace LoweringContext

/-! ## Parameters -/

theorem mentions_isUndefined (ht : t.isExtends = false) : (isUndefined t j).1.mentions = [] := by
  simp [isUndefined, Fresh.bind_apply, Build.mentions_nameExpression ht]

@[simp] theorem mentions_argumentCounter : (argumentCounter j).1.mentions = [] := Build.mentions_name (by decide)

theorem mentions_copyArgument {rest : RestParameter} (ht : rest.name.isExtends = false) :
    (copyArgument rest j).1.mentions = [] := by
  unfold copyArgument
  split <;>
    simp (disch := decide) [-String.reduceToList, Fresh.bind_apply, Build.mentions_nameExpression ht, Build.mentions_name]

theorem mentions_argumentLoop {index : Nat} : (argumentLoop index b j).1.mentions = b.mentions := by
  simp only [argumentLoop, Fresh.bind_apply]
  rw [Build.mentions_fresh (by decide) (by simp)]
  simp (disch := decide) [-String.reduceToList, Build.mentions_variableNamed, Build.mentions_memberPath,
    Build.mentions_name]

/-! ## Members -/

theorem mentions_memberTarget (ht : t.isExtends = false) : (memberTarget n t j).1.mentions = n.mentions := by
  unfold memberTarget
  split <;> simp [Fresh.bind_apply, Build.mentions_literal, Build.mentions_memberAccess, ht]

@[simp] theorem mentions_assignmentStatement : (assignmentStatement n b j).1.mentions = n.mentions ++ b.mentions := by
  simp [assignmentStatement, Fresh.bind_apply]

theorem mentions_assignSameName (ht : t.isExtends = false) : (assignSameName n t j).1.mentions = n.mentions := by
  simp [assignSameName, Fresh.bind_apply, Build.mentions_nameExpression ht, Build.mentions_memberAccess ht]

@[simp] theorem mentions_orCreate : (orCreate n b j).1.mentions = n.mentions ++ b.mentions := by
  simp [orCreate, Fresh.bind_apply]

/-! ## Enums -/

@[simp] theorem mentions_numberExpression {x : Binary64} : (numberExpression x j).1.mentions = [] := by
  unfold numberExpression
  split <;> simp [Fresh.bind_apply]

theorem mentions_implicitValue (ht : name.isExtends = false) {previous : PreviousValue}
    (hprevious : ∀ t, previous = .member t → t.isExtends = false) : (implicitValue name t previous j).1.1.mentions = [] := by
  cases previous with
  | ordinal next => exact mentions_numberExpression
  | known x => exact mentions_numberExpression
  | member before =>
    simp only [implicitValue, Fresh.bind_apply, Fresh.pure_apply]
    simp [Build.mentions_nameExpression ht, mentions_memberTarget (hprevious before rfl)]

theorem mentions_reverseMap (ht : t.isExtends = false) : (reverseMap t j).1.mentions = [] := by
  simp (disch := decide) [-String.reduceToList, reverseMap, Fresh.bind_apply, Build.mentions_nameExpression ht,
    Build.mentions_memberPath]

theorem mentions_enumRecord (hname : name.isExtends = false) (ht : t.isExtends = false) :
    (enumRecord name t n j).1.mentions = n.mentions := by
  simp [enumRecord, Fresh.bind_apply, Build.mentions_nameExpression hname, mentions_reverseMap hname,
    mentions_memberTarget ht]

theorem mentions_reverseMapStart (ht : t.isExtends = false) : (reverseMapStart t j).1.mentions = [] := by
  simp [reverseMapStart, Fresh.bind_apply, mentions_reverseMap ht]

theorem mentions_reopened (ht : t.isExtends = false) : (reopened t j).1.mentions = [] := by
  simp [reopened, Fresh.bind_apply, Build.mentions_nameExpression ht]

/-! ## Classes and namespaces -/

theorem mentions_callMember : (callMember n j).1.mentions = n.mentions := by
  simp (disch := decide) [-String.reduceToList, callMember, Fresh.bind_apply, Build.mentions_memberNamed]

theorem mentions_forwardToBase : (forwardToBase j).1.mentions = [] := by
  have hcallee : ∀ i l, (Build.memberPath (Build.name "_super".toList i).1 ["apply".toList] l).1.isExtends = false :=
    fun _ _ => rfl
  have harguments : ∀ l, (Build.name "arguments".toList l).1.mentions = [] := fun _ => Build.mentions_name (by decide)
  simp only [forwardToBase, Fresh.bind_apply, Build.mentions_expressionStatement, Build.mentions_invocation (hcallee _ _)]
  simp (disch := decide) [-String.reduceToList, harguments, Build.mentions_memberPath, Build.mentions_name]

theorem mentions_classReceiver {isStatic : Bool} (ht : t.isExtends = false) :
    (classReceiver t isStatic j).1.mentions = [] := by
  unfold classReceiver
  cases isStatic <;>
    simp (disch := decide) [-String.reduceToList, Fresh.bind_apply, Fresh.pure_apply, Build.mentions_nameExpression ht,
      Build.mentions_memberNamed]

/-- **The call that sets up inheritance calls the helper.** -/
theorem mentions_extendsCall (ht : t.isExtends = false) : (extendsCall t j).1.mentions = [.call, .name] := by
  have hname : ∀ i, (Build.name "__extends".toList i).1.mentions = [.name] := fun i => by
    rw [Node.mentions_eq]
    rfl
  have hcall : ∀ (args : List Node) (i l : ObjectId), (Build.invocation (Build.name "__extends".toList i).1 args l).1.mentions =
      .call :: .name :: args.flatMap Node.mentions := fun args i l => by
    show (Node.mk _ .invocationExpression [.node (Build.name "__extends".toList i).1,
      .node (Build.argumentList args l).1]).mentions = _
    rw [Node.mentions_eq, Node.mentionsHere_eq (by simp [Node.slots]), Node.callsExtends_invocation]
    simp [-String.reduceToList, Node.children, Node.slots, hname]
    rfl
  simp (disch := decide) [-String.reduceToList, extendsCall, Fresh.bind_apply, hcall, Build.mentions_nameExpression ht,
    Build.mentions_name]

theorem mentions_attachName (hinner : inner.isExtends = false) (ht : t.isExtends = false) :
    (attachName inner t j).1.mentions = [] := by
  simp [attachName, Fresh.bind_apply, mentions_assignSameName ht, Build.mentions_nameExpression hinner]

theorem mentions_memberOf (ht : t.isExtends = false) (hname : name.isExtends = false) :
    (memberOf t name j).1.mentions = [] := by
  simp [memberOf, Fresh.bind_apply, Build.mentions_memberAccess hname, Build.mentions_nameExpression ht]

theorem mentions_wrapperArgument {parent : Option Token} (ht : t.isExtends = false)
    (hparent : ∀ p ∈ parent, p.isExtends = false) : (wrapperArgument t parent j).1.mentions = [] := by
  cases parent with
  | none => simp [wrapperArgument, Fresh.bind_apply, Build.mentions_nameExpression ht]
  | some p =>
    simp [wrapperArgument, Fresh.bind_apply, Build.mentions_nameExpression ht, mentions_memberOf (hparent p rfl) ht]

end LoweringContext

namespace Draft

open LoweringContext

/-! ## Functions and blocks -/

theorem mentions_functionExpression (hp : parameters.mentions = []) :
    (functionExpression parameters b j).1.mentions = b.mentions := by
  show (Node.mk _ .functionExpression [.token (Build.wordThenSpace .functionKw _).1, .absent,
    .node (Build.callSignature parameters _).1, .node b]).mentions = _
  rw [Node.mentions_inner (by decide) (by simp)]
  simp [hp]

theorem mentions_functionDeclaration (ht : t.isExtends = false) (hp : parameters.mentions = []) :
    (functionDeclaration t parameters b j).1.mentions = b.mentions := by
  show (Node.mk _ .functionDeclaration [.absent, .absent, .token (Build.wordThenSpace .functionKw _).1, .token t,
    .node (Build.callSignature parameters _).1, .node b, .absent]).mentions = _
  rw [Node.mentions_inner (by decide) (by simp [ht])]
  simp [hp]

@[simp] theorem mentions_braced : (braced ns j).1.mentions = ns.flatMap Node.mentions := Build.mentions_block rfl rfl

theorem mentions_wrapperCall (hp : ns.flatMap Node.mentions = []) :
    (wrapperCall ns b args j).1.mentions = b.mentions ++ args.flatMap Node.mentions := by
  show (Build.invocation (Build.parenthesized (functionExpression (Build.parameterList ns j).1 b _).1 _).1 args
    _).1.mentions = _
  rw [Build.mentions_invocation rfl, Build.mentions_parenthesized, mentions_functionExpression (by simp [hp])]

@[simp] theorem mentions_captureStatement : (captureStatement j).1.mentions = [] := by
  have hname : ∀ l, (Build.identifier "_this".toList l).1.isExtends = false := fun _ => rfl
  simp [-String.reduceToList, captureStatement, Fresh.bind_apply, Build.mentions_variableStatement (hname _)]

@[simp] theorem mentions_withCapture {captured : Bool} :
    (withCapture captured ns j).1.flatMap Node.mentions = ns.flatMap Node.mentions := by
  cases captured with
  | false => rfl
  | true =>
    show (captureStatement j).1.mentions ++ ns.flatMap Node.mentions = _
    rw [mentions_captureStatement, List.nil_append]

theorem mentions_setDefault (ht : t.isExtends = false) : (setDefault t n j).1.mentions = n.mentions := by
  unfold setDefault
  have hblock : ∀ (ns : List Node) l l' l'', (Build.block (Build.markThenSpace .openBrace l).1 ns (Build.mark .closeBrace l').1
      l'').1.mentions = ns.flatMap Node.mentions := fun _ _ _ _ => Build.mentions_block rfl rfl
  simp [Fresh.bind_apply, Build.mentions_nameExpression ht, mentions_isUndefined ht, hblock]

theorem mentions_restStatements {rest : RestParameter} (ht : rest.name.isExtends = false) :
    (restStatements rest j).1.flatMap Node.mentions = [] := by
  simp only [restStatements, Fresh.bind_apply, Fresh.pure_apply]
  simp [Build.mentions_variableStatement ht, mentions_argumentLoop, mentions_copyArgument ht]

theorem mentions_superPrototype : (superPrototype j).1.mentions = [] := by
  simp (disch := decide) [-String.reduceToList, superPrototype, Fresh.bind_apply, Build.mentions_name,
    Build.mentions_memberNamed]

theorem mentions_propertyStatement (ht : t.isExtends = false) : (propertyStatement t j).1.mentions = [] := by
  simp [propertyStatement, Fresh.bind_apply, mentions_assignSameName ht]

theorem mentions_descriptorProperty {word : String} (h : word.toList ≠ "__extends".toList) :
    (descriptorProperty word n j).1.mentions = n.mentions := by
  simp only [descriptorProperty, Fresh.bind_apply]
  exact Build.mentions_propertyAssignment (Build.isExtends_identifier.trans (beq_eq_false_iff_ne.2 h))

theorem mentions_flagProperty {word : String} (h : word.toList ≠ "__extends".toList) :
    (flagProperty word j).1.mentions = [] := by
  simp [flagProperty, Fresh.bind_apply, mentions_descriptorProperty h]

theorem mentions_baseAccess : ∀ {ts : List Token} {n : Node} {j : ObjectId}, (∀ t ∈ ts, t.isExtends = false) →
    (ts.foldlM Build.memberAccess n j).1.mentions = n.mentions
  | [], _, _, _ => rfl
  | t :: ts, n, j, h => by
    obtain ⟨ht, hts⟩ := List.forall_mem_cons.1 h
    rw [List.foldlM_cons, Fresh.bind_apply, mentions_baseAccess hts, Build.mentions_memberAccess ht]

/-! ## Namespaces -/

theorem mentions_namespaceWrapper {parent : Option Token} (ht : t.isExtends = false)
    (hparent : ∀ p ∈ parent, p.isExtends = false) :
    (namespaceWrapper t parent b j).1.flatMap Node.mentions = b.mentions := by
  cases parent with
  | none =>
    simp only [namespaceWrapper, Fresh.bind_apply, Fresh.pure_apply]
    simp [Build.mentions_variableStatement ht, mentions_wrapperCall, Build.mentions_parameter ht,
      mentions_wrapperArgument ht]
  | some p =>
    simp only [namespaceWrapper, Fresh.bind_apply, Fresh.pure_apply]
    simp [Build.mentions_variableStatement ht, mentions_wrapperCall, Build.mentions_parameter ht,
      mentions_wrapperArgument ht hparent, mentions_attachName (hparent p rfl) ht]

/-- **Wrappers mention what is wrapped.** -/
theorem mentions_wrapLevels : ∀ {ts : List Token} {parent : Option Token} {j : ObjectId},
    (∀ t ∈ ts, t.isExtends = false) → (∀ p ∈ parent, p.isExtends = false) →
    (wrapLevels ns parent ts j).1.flatMap Node.mentions = ns.flatMap Node.mentions
  | [], _, _, _, _ => rfl
  | t :: ts, parent, j, hts, hparent => by
    obtain ⟨ht, hts⟩ := List.forall_mem_cons.1 hts
    rw [wrapLevels, Fresh.bind_apply, Fresh.bind_apply, mentions_namespaceWrapper ht hparent, mentions_braced]
    exact mentions_wrapLevels hts (fun p hp => Option.some.inj hp ▸ ht)

end Draft

end Downlevel
