import Downlevel.Proofs.Tree.Edges
/-!
# Proofs.Tree.Builds — code that was not written by hand is plain code

Each form of the target language that is built of plain parts is plain code of its class, and meets the demand that its
parts meet: the words and marks that it adds are among those that a demand grants (`Demand.Suits`).
-/
namespace Downlevel.Build

variable {L : Demand} {o : LayoutOptions} {c : NodeClass} {i i' k : Nat} {t : Token} {m n : Node} {ns : List Node}
  {trivia : TriviaList}

/-! ## Tokens -/

theorem makes_token (hL : L.Suits o) (kind : TokenKind) : Makes k (token kind) (fun j t => t.Meets L j) :=
  makes_ofKind hL kind

theorem makes_mark (hL : L.Suits o) (p : Punctuation) : Makes k (mark p) (fun j t => t.Meets L j) :=
  makes_ofKind hL _

theorem makes_tokenThenSpace (hL : L.Suits o) (kind : TokenKind) :
    Makes k (tokenThenSpace kind) (fun j t => t.Meets L j) :=
  (makes_token hL kind).bind (fun _ _ _ ht => makes_tokenWithTrailing ht hL.oneSpace)

theorem makes_spacedToken (hL : L.Suits o) (kind : TokenKind) : Makes k (spacedToken kind) (fun j t => t.Meets L j) :=
  (makes_token hL kind).bind (fun _ _ _ ht => makes_tokenWithTrivia ht hL.oneSpace hL.oneSpace)

theorem makes_markThenSpace (hL : L.Suits o) (p : Punctuation) :
    Makes k (markThenSpace p) (fun j t => t.Meets L j) := makes_tokenThenSpace hL _

theorem makes_wordThenSpace (hL : L.Suits o) (w : Keyword) : Makes k (wordThenSpace w) (fun j t => t.Meets L j) :=
  makes_tokenThenSpace hL _

theorem makes_openBrace (hL : L.Suits o) (h : trivia.Meets L) : Makes k (openBrace trivia) (fun j t => t.Meets L j) :=
  (makes_mark hL _).bind (fun _ _ _ ht => makes_tokenWithTrailing ht h)

theorem makes_closeBrace (hL : L.Suits o) (h : trivia.Meets L) :
    Makes k (closeBrace trivia) (fun j t => t.Meets L j) :=
  (makes_mark hL _).bind (fun _ _ _ ht => makes_tokenWithLeading ht h)

theorem makes_identifier (hL : L.Suits o) {name : List Char} (h : IsWord name) :
    Makes k (identifier name) (fun j t => t.Meets L j) := makes_fresh .empty .empty (hL.word name h)

/-! ## Expressions -/

theorem makes_nameExpression (ht : t.Meets L i) (hi : i ≤ k) :
    Makes k (nameExpression t) (Node.Plain L .expression) :=
  makes_node (.cons (ht.slot (by omega)) .nil) (fun _ => rfl) rfl

theorem makes_name (hL : L.Suits o) {text : List Char} (h : IsWord text) :
    Makes k (name text) (Node.Plain L .expression) :=
  (makes_identifier hL h).bind (fun _ _ _ ht => makes_nameExpression ht (by omega))

theorem makes_thisExpression (hL : L.Suits o) : Makes k thisExpression (Node.Plain L .expression) :=
  (makes_token hL _).bind (fun _ _ _ ht => makes_node (.cons (ht.slot (by omega)) .nil) (fun _ => rfl) rfl)

theorem makes_literal (ht : t.Meets L i) (hi : i ≤ k) :
    Makes k (literal t) (Node.Plain L .expression) := makes_node (.cons (ht.slot (by omega)) .nil) (fun _ => rfl) rfl

theorem makes_stringLiteral (hL : L.Suits o) (value : List Char) :
    Makes k (stringLiteral value) (Node.Plain L .expression) :=
  (makes_fresh (x := .stringLiteral _) .empty .empty (hL.string value)).bind
    (fun _ _ _ ht => makes_literal ht (by omega))

theorem makes_numericLiteral {text : List Char} (h : L.text .number text) :
    Makes k (numericLiteral text) (Node.Plain L .expression) :=
  (makes_fresh (x := .numericLiteral text) .empty .empty h).bind (fun _ _ _ ht => makes_literal ht (by omega))

theorem makes_keywordLiteral (hL : L.Suits o) (kind : TokenKind) :
    Makes k (keywordLiteral kind) (Node.Plain L .expression) :=
  (makes_token hL kind).bind (fun _ _ _ ht => makes_literal ht (by omega))

theorem makes_memberAccess (hL : L.Suits o) (hn : n.Plain L .expression i) (ht : t.Meets L i') (hi : i ≤ k)
    (hi' : i' ≤ k) : Makes k (memberAccess n t) (Node.Plain L .expression) := by
  refine (makes_mark hL _).bind (fun j hj dot hdot => ?_)
  refine (makes_toName hL ht (by omega)).bind (fun j' hj' name hname => ?_)
  exact makes_node (.cons (hn.slot (by omega)) (.cons (hdot.slot (by omega)) (.cons (hname.slot (by omega)) .nil)))
    (fun _ => rfl) rfl

theorem makes_memberPath (hL : L.Suits o) : ∀ (names : List (List Char)) {n : Node} {i k : Nat},
    (∀ name ∈ names, IsWord name) → n.Plain L .expression i → i ≤ k →
    Makes k (memberPath n names) (Node.Plain L .expression)
  | [], n, i, k, _, hn, hi => .pure (fun _ _ => hn.up (by omega))
  | name :: names, n, i, k, h, hn, hi => by
    refine (makes_identifier hL (h name (List.mem_cons_self ..))).bind (fun j hj t ht => ?_)
    refine (makes_memberAccess hL hn ht (by omega) (by omega)).bind (fun j' hj' m hm => ?_)
    exact makes_memberPath hL names (fun name' h' => h name' (List.mem_cons_of_mem _ h')) hm (Nat.le_refl j')

theorem makes_elementAccess (hL : L.Suits o) (hn : n.Plain L .expression i) (hm : m.Plain L .expression i')
    (hi : i ≤ k) (hi' : i' ≤ k) :
    Makes k (elementAccess n m) (Node.Plain L .expression) := by
  refine (makes_mark hL _).bind (fun j hj opened hopened => ?_)
  refine (makes_mark hL _).bind (fun j' hj' closed hclosed => ?_)
  exact makes_node (.cons (hn.slot (by omega)) (.cons (hopened.slot (by omega))
    (.cons (hm.slot (by omega)) (.cons (hclosed.slot (by omega)) .nil)))) (fun _ => rfl) rfl

/-- There are as many separators as places between the members. -/
theorem makes_separatorsBetween {separator : Fresh Token} (h : ∀ j, k ≤ j → Makes j separator (fun i t => t.Meets L i)) :
    ∀ ns : List Node, Makes k (separatorsBetween separator ns) (fun j ts =>
      (∀ t ∈ ts, t.Meets L j) ∧ (ns = [] ∧ ts = [] ∨ ns.length = ts.length + 1))
  | [] => .pure (fun _ _ => ⟨fun _ ht => (by cases ht), .inl ⟨rfl, rfl⟩⟩)
  | [_] => .pure (fun _ _ => ⟨fun _ ht => (by cases ht), .inr rfl⟩)
  | _ :: n :: ns => by
    unfold separatorsBetween
    refine (h k (Nat.le_refl k)).bind (fun j hj t ht => ?_)
    have hrest := makes_separatorsBetween h (n :: ns)
    refine (hrest.up (k := j) (by omega)).bindPure (fun i hi ts hts => ⟨?_, .inr ?_⟩)
    · exact List.forall_mem_cons.2 ⟨ht.up (by omega), hts.1⟩
    · obtain ⟨-, ⟨h, -⟩ | h⟩ := hts
      · cases h
      · simp only [List.length_cons] at h ⊢
        omega

theorem makes_commaSeparated (hL : L.Suits o) (h : ∀ n ∈ ns, n.Plain L c i) (hi : i ≤ k) :
    Makes k (commaSeparated ns) (fun j s => Slot.Stands PlainForm L j (.separated c) s) :=
  (makes_separatorsBetween (fun _ _ => makes_markThenSpace hL _) ns).bindPure (fun _ _ _ hts =>
    Slot.stands_separated.2 ⟨fun n hn => (h n hn).up (by omega), hts⟩)

theorem makes_argumentList (hL : L.Suits o) (h : ∀ n ∈ ns, n.Plain L .expression i) (hi : i ≤ k) :
    Makes k (argumentList ns) (Node.Plain L (.only .argumentList)) := by
  refine (makes_mark hL _).bind (fun j hj opened hopened => ?_)
  refine (makes_commaSeparated hL h (by omega)).bind (fun j' hj' s hs => ?_)
  refine (makes_mark hL _).bind (fun j'' hj'' closed hclosed => ?_)
  exact makes_node (.cons (hopened.slot (by omega)) (.cons (hs.up (by omega)) (.cons (hclosed.slot (by omega)) .nil)))
    (fun _ => rfl) rfl

theorem makes_invocation (hL : L.Suits o) (hn : n.Plain L .expression i) (h : ∀ n ∈ ns, n.Plain L .expression i')
    (hi : i ≤ k) (hi' : i' ≤ k) :
    Makes k (invocation n ns) (Node.Plain L .expression) := by
  refine (makes_argumentList hL h (by omega)).bind (fun j hj list hlist => ?_)
  exact makes_node (.cons (hn.slot (by omega)) (.cons (hlist.slot (by omega)) .nil)) (fun _ => rfl) rfl

theorem makes_binary (hL : L.Suits o) (kind : TokenKind) (hn : n.Plain L .expression i) (hm : m.Plain L .expression i')
    (hi : i ≤ k) (hi' : i' ≤ k) :
    Makes k (binary n kind m) (Node.Plain L .expression) := by
  refine (makes_spacedToken hL kind).bind (fun j hj operator hoperator => ?_)
  exact makes_node (.cons (hn.slot (by omega)) (.cons (hoperator.slot (by omega)) (.cons (hm.slot (by omega)) .nil)))
    (fun _ => rfl) rfl

theorem makes_assignment (hL : L.Suits o) (hn : n.Plain L .expression i) (hm : m.Plain L .expression i')
    (hi : i ≤ k) (hi' : i' ≤ k) :
    Makes k (assignment n m) (Node.Plain L .expression) := makes_binary hL _ hn hm (by omega) (by omega)

theorem makes_prefixUnary (hL : L.Suits o) (kind : TokenKind) (hn : n.Plain L .expression i) (hi : i ≤ k) :
    Makes k (prefixUnary kind n) (Node.Plain L .expression) := by
  have hnode : ∀ j, k ≤ j → ∀ operator : Token, operator.Meets L j →
      Makes j (Node.fresh .prefixUnaryExpression [.token operator, .node n]) (Node.Plain L .expression) :=
    fun j hj operator ho => makes_node (.cons (ho.slot (by omega)) (.cons (hn.slot (by omega)) .nil)) (fun _ => rfl) rfl
  unfold prefixUnary
  dsimp only
  split
  · exact (makes_tokenThenSpace hL kind).bind hnode
  · exact (makes_token hL kind).bind hnode

theorem makes_postfixUnary (hL : L.Suits o) (kind : TokenKind) (hn : n.Plain L .expression i)
    (hi : i ≤ k) : Makes k (postfixUnary n kind) (Node.Plain L .expression) := by
  refine (makes_token hL kind).bind (fun j hj operator hoperator => ?_)
  exact makes_node (.cons (hn.slot (by omega)) (.cons (hoperator.slot (by omega)) .nil)) (fun _ => rfl) rfl

theorem makes_emptyArray (hL : L.Suits o) : Makes k (arrayLiteral []) (Node.Plain L .expression) := by
  refine (makes_mark hL _).bind (fun j hj opened hopened => ?_)
  refine (makes_commaSeparated hL (c := .listed) (i := j) (fun n hn => by cases hn) (by omega)).bind
    (fun j' hj' s hs => ?_)
  refine (makes_mark hL _).bind (fun j'' hj'' closed hclosed => ?_)
  exact makes_node (.cons (hopened.slot (by omega)) (.cons (hs.up (by omega)) (.cons (hclosed.slot (by omega)) .nil)))
    (fun _ => rfl) rfl

theorem makes_parenthesized (hL : L.Suits o) (hn : n.Plain L .expression i) (hi : i ≤ k) :
    Makes k (parenthesized n) (Node.Plain L .expression) := by
  refine (makes_mark hL _).bind (fun j hj opened hopened => ?_)
  refine (makes_mark hL _).bind (fun j' hj' closed hclosed => ?_)
  exact makes_node (.cons (hopened.slot (by omega))
    (.cons (hn.slot (by omega)) (.cons (hclosed.slot (by omega)) .nil))) (fun _ => rfl) rfl

theorem makes_propertyAssignment (hL : L.Suits o) (ht : t.Meets L i) (hn : n.Plain L .expression i')
    (hi : i ≤ k) (hi' : i' ≤ k) :
    Makes k (propertyAssignment t n) (Node.Plain L .objectMember) := by
  refine (makes_toName hL ht (by omega)).bind (fun j hj name hname => ?_)
  refine (makes_markThenSpace hL _).bind (fun j' hj' colon hcolon => ?_)
  exact makes_node (.cons (hname.slot (by omega)) (.cons (hcolon.slot (by omega)) (.cons (hn.slot (by omega)) .nil)))
    (fun _ => rfl) rfl

theorem makes_objectLiteral {t' : Token} {s : Slot} (ht : t.Meets L k)
    (hs : Slot.Stands PlainForm L k (.separated .objectMember) s) (ht' : t'.Meets L k) :
    Makes k (objectLiteral t s t') (Node.Plain L .expression) :=
  makes_node (.cons (ht.slot (by omega)) (.cons hs (.cons (ht'.slot (by omega)) .nil))) (fun _ => rfl) rfl

theorem makes_emptyObject (hL : L.Suits o) : Makes k emptyObject (Node.Plain L .expression) := by
  refine (makes_mark hL _).bind (fun j hj opened hopened => ?_)
  refine (makes_mark hL _).bind (fun j' hj' closed hclosed => ?_)
  exact makes_objectLiteral (hopened.up (by omega)) (Slot.stands_separated.2 (by simp)) hclosed

/-! ## Statements -/

theorem makes_expressionStatement (hL : L.Suits o) (hn : n.Plain L .expression i) (hi : i ≤ k) :
    Makes k (expressionStatement n) (Node.Plain L .statement) :=
  (makes_mark hL _).bind (fun _ _ _ ht => makes_node (.cons (hn.slot (by omega)) (.cons (ht.slot (by omega)) .nil))
    (fun _ => rfl) rfl)

theorem makes_returnStatement (hL : L.Suits o) (hn : n.Plain L .expression i) (hi : i ≤ k) :
    Makes k (returnStatement (some n)) (Node.Plain L .statement) := by
  refine (makes_wordThenSpace hL _).bind (fun j hj keyword hkeyword => ?_)
  refine (makes_mark hL _).bind (fun j' hj' semicolon hsemicolon => ?_)
  have hvalue : Slot.Stands PlainForm L j' (.optionalNode .expression) (.ofNode? (some n)) :=
    Slot.stands_ofNode?.2 (fun m hm => by cases hm; exact hn.up (by omega))
  exact makes_node (.cons (hkeyword.slot (by omega)) (.cons hvalue (.cons (hsemicolon.slot (by omega)) .nil)))
    (fun _ => rfl) rfl

theorem makes_equalsValueClause (hL : L.Suits o) (hn : n.Plain L .expression i) (hi : i ≤ k) :
    Makes k (equalsValueClause n) (Node.Plain L (.only .equalsValueClause)) :=
  (makes_spacedToken hL _).bind (fun _ _ _ ht =>
    makes_node (.cons (ht.slot (by omega)) (.cons (hn.slot (by omega)) .nil)) (fun _ => rfl) rfl)

theorem makes_variableDeclaration (hL : L.Suits o) {value : Option Node} (ht : t.Meets L i)
    (hn : ∀ n, value = some n → n.Plain L .expression i') (hi : i ≤ k) (hi' : i' ≤ k) :
    Makes k (variableDeclaration t value) (Node.Plain L (.only .variableDeclaration)) := by
  have hrest : ∀ j, k ≤ j → ∀ s : Slot, s.Stands PlainForm L j (.optionalNode (.only .equalsValueClause)) →
      Makes j (do
        let declarator ← Node.fresh .variableDeclarator [.token t, .absent, s]
        Node.fresh .variableDeclaration [.token (← wordThenSpace .varKw), .separated [declarator] []])
        (Node.Plain L (.only .variableDeclaration)) := by
    intro j hj s hs
    have hdeclarator : Makes j (Node.fresh .variableDeclarator [.token t, .absent, s])
        (Node.Plain L (.only .variableDeclarator)) :=
      makes_node (.cons (ht.slot (by omega)) (.cons Slot.stands_absentNode (.cons hs .nil))) (fun _ => rfl) rfl
    refine hdeclarator.bind (fun j' hj' declarator hdeclarator => ?_)
    refine (makes_wordThenSpace hL _).bind (fun j'' hj'' keyword hkeyword => ?_)
    refine makes_node (.cons (hkeyword.slot (by omega))
      (.cons (Slot.stands_nonempty.2 ⟨fun m hm => ?_, fun u hu => ?_, rfl⟩) .nil))
      (fun _ => rfl) rfl
    · rw [List.mem_singleton.1 hm]; exact hdeclarator.up (by omega)
    · cases hu
  cases value with
  | none => exact (Makes.pure (fun _ _ => Slot.stands_absentNode)).bind hrest
  | some v =>
    refine ((makes_equalsValueClause hL (hn v rfl) (by omega)).map (fun j _ m hm => ?_)).bind hrest
    exact (Slot.stands_ofNode? (o := some m)).2 (fun m' hm' => by cases hm'; exact hm)

/-- A variable that starts without a value. -/
theorem plain_noValue (i : Nat) : ∀ n, (none : Option Node) = some n → n.Plain L .expression i := fun _ hn => by cases hn

theorem makes_variableStatement (hL : L.Suits o) {value : Option Node} (ht : t.Meets L i)
    (hn : ∀ n, value = some n → n.Plain L .expression i') (hi : i ≤ k) (hi' : i' ≤ k) :
    Makes k (variableStatement t value) (Node.Plain L .statement) := by
  refine (makes_variableDeclaration hL ht hn (by omega) (by omega)).bind (fun j hj declaration hdeclaration => ?_)
  refine (makes_mark hL _).bind (fun j' hj' semicolon hsemicolon => ?_)
  exact makes_node (.cons Slot.stands_absentToken (.cons Slot.stands_absentToken
    (.cons (hdeclaration.slot (by omega)) (.cons (hsemicolon.slot (by omega)) .nil)))) (fun _ => rfl) rfl

/-- The statement that declares a variable is a node of its own. -/
theorem makes_newVariable (hL : L.Suits o) {value : Option Node} (ht : t.Meets L i)
    (hn : ∀ n, value = some n → n.Plain L .expression i') (hi : i ≤ k) (hi' : i' ≤ k) :
    Makes k (variableStatement t value) (fun _ n => k ≤ n.id) := by
  refine (makes_variableDeclaration hL ht hn (by omega) (by omega)).bind (fun j hj declaration _ => ?_)
  refine (makes_mark hL _).bind (fun j' hj' semicolon _ => ?_)
  exact Makes.mono makes_new (fun l _ n hn => Nat.le_trans (by omega : k ≤ j') hn)

theorem makes_parameter (ht : t.Meets L i) (hi : i ≤ k) :
    Makes k (parameter t) (Node.Plain L (.only .parameter)) :=
  makes_node (.cons Slot.stands_absentToken (.cons Slot.stands_absentToken (.cons (ht.slot (by omega))
    (.cons Slot.stands_absentToken (.cons Slot.stands_absentNode (.cons Slot.stands_absentNode .nil))))))
    (fun _ => rfl) rfl

theorem makes_parameterList (hL : L.Suits o) (h : ∀ n ∈ ns, n.Plain L (.only .parameter) i) (hi : i ≤ k) :
    Makes k (parameterList ns) (Node.Plain L (.only .parameterList)) := by
  refine (makes_mark hL _).bind (fun j hj opened hopened => ?_)
  refine (makes_commaSeparated hL h (by omega)).bind (fun j' hj' s hs => ?_)
  refine (makes_mark hL _).bind (fun j'' hj'' closed hclosed => ?_)
  exact makes_node (.cons (hopened.slot (by omega)) (.cons (hs.up (by omega)) (.cons (hclosed.slot (by omega)) .nil)))
    (fun _ => rfl) rfl

theorem makes_callSignature (h : n.Plain L (.only .parameterList) i) (hi : i ≤ k) :
    Makes k (callSignature n) (Node.Plain L (.only .callSignature)) :=
  makes_node (.cons (h.slot (by omega)) (.cons Slot.stands_absentNode .nil)) (fun _ => rfl) rfl

theorem makes_block {t' : Token} {i'' : Nat} (ht : t.Meets L i) (h : ∀ n ∈ ns, n.Plain L .statement i')
    (ht' : t'.Meets L i'') (hi : i ≤ k) (hi' : i' ≤ k) (hi'' : i'' ≤ k) :
    Makes k (block t ns t') (Node.Plain L (.only .block)) :=
  makes_node (.cons (ht.slot (by omega)) (.cons (Slot.stands_list.2 (fun n hn => (h n hn).up (by omega)))
    (.cons (ht'.slot (by omega)) .nil)))
    (fun _ => rfl) rfl

theorem makes_spaceAfter (hL : L.Suits o) (h : n.Plain L c i) (hi : i ≤ k) :
    Makes k (spaceAfter n) (Node.Plain L c) := by
  unfold spaceAfter
  split
  · exact .pure (fun _ _ => h.up (by omega))
  · exact makes_withTrailing h hL.oneSpace (by omega)

theorem makes_functionExpression (hL : L.Suits o) (hn : n.Plain L (.only .parameterList) i)
    (hm : m.Plain L (.only .block) i') (hi : i ≤ k) (hi' : i' ≤ k) :
    Makes k (functionExpression n m) (Node.Plain L .expression) := by
  refine (makes_wordThenSpace hL _).bind (fun j hj keyword hkeyword => ?_)
  refine (makes_spaceAfter hL hn (by omega)).bind (fun j' hj' parameters hparameters => ?_)
  refine (makes_callSignature hparameters (by omega)).bind (fun j'' hj'' signature hsignature => ?_)
  exact makes_node (.cons (hkeyword.slot (by omega))
    (.cons Slot.stands_absentToken (.cons (hsignature.slot (by omega)) (.cons (hm.slot (by omega)) .nil))))
    (fun _ => rfl) rfl

/-- The row of a function with a body and without words in front of its keyword. -/
theorem row_function {keyword name : Token} {signature body : Node} (semicolon : Option Token)
    (hkeyword : keyword.Meets L k) (hname : name.Meets L k) (hsignature : signature.Plain L (.only .callSignature) k)
    (hbody : body.Plain L (.only .block) k) (hsemicolon : ∀ t, semicolon = some t → t.Meets L k) :
    Slot.Row PlainForm L k NodeKind.functionDeclaration.sorts
      (NodeView.toSlots (FunctionDeclaration.mk none none keyword name signature (some body) semicolon)) := by
  have hblock : Slot.Stands PlainForm L k (.optionalNode (.only .block)) (.ofNode? (some body)) :=
    Slot.stands_ofNode?.2 (fun m hm => by cases hm; exact hbody)
  exact .cons Slot.stands_absentToken (.cons Slot.stands_absentToken (.cons (hkeyword.slot (Nat.le_refl _))
    (.cons (hname.slot (Nat.le_refl _)) (.cons (hsignature.slot (Nat.le_refl _))
      (.cons hblock (.cons (Slot.stands_ofToken?.2 hsemicolon) .nil))))))

theorem makes_functionDeclaration (hL : L.Suits o) {i'' : Nat} (ht : t.Meets L i'')
    (hn : n.Plain L (.only .parameterList) i) (hm : m.Plain L (.only .block) i') (hi : i ≤ k)
    (hi' : i' ≤ k) (hi'' : i'' ≤ k) :
    Makes k (functionDeclaration t n m) (Node.Plain L .statement) := by
  refine (makes_wordThenSpace hL _).bind (fun j hj keyword hkeyword => ?_)
  refine (makes_spaceAfter hL hn (by omega)).bind (fun j' hj' parameters hparameters => ?_)
  refine (makes_callSignature hparameters (by omega)).bind (fun j'' hj'' signature hsignature => ?_)
  exact makes_node (row_function none (hkeyword.up (by omega)) (ht.up (by omega)) hsignature (hm.up (by omega))
    (fun _ hu => by cases hu)) (fun _ => rfl) rfl

theorem makes_ifStatement (hL : L.Suits o) (hn : n.Plain L .expression i) (hm : m.Plain L .statement i')
    (hi : i ≤ k) (hi' : i' ≤ k) :
    Makes k (ifStatement n m) (Node.Plain L .statement) := by
  refine (makes_wordThenSpace hL _).bind (fun j hj keyword hkeyword => ?_)
  refine (makes_mark hL _).bind (fun j' hj' opened hopened => ?_)
  refine (makes_markThenSpace hL _).bind (fun j'' hj'' closed hclosed => ?_)
  exact makes_node (.cons (hkeyword.slot (by omega)) (.cons (hopened.slot (by omega))
    (.cons (hn.slot (by omega)) (.cons (hclosed.slot (by omega)) (.cons (hm.slot (by omega))
    (.cons Slot.stands_absentNode .nil)))))) (fun _ => rfl) rfl

end Downlevel.Build
