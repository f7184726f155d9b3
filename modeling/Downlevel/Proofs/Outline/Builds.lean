import Downlevel.Proofs.Outline.Edges
/-!
# Proofs.Outline.Builds — what is built looks the same from parts that look the same

One fact for each form of the target language: built of parts that look like others, from any number on, it looks like
the form that is built of those others.
-/
namespace Downlevel

variable {W : Registry} {t t' u u' : Token} {n n' m m' : Node} {ns ns' : List Node} {ts ts' : List Token}

/-- Nothing of a tree is another tree; a tree in its place looks like the tree in the other place. -/
theorem Slot.shows_ofNode? {o o' : Option Node} (h : Option.Rel (Node.Shows W) o o') :
    Slot.Shows W (.ofNode? o) (.ofNode? o') := by
  cases h with
  | some h => exact h.slot
  | none => exact Slot.shows_absent

theorem Slot.shows_ofToken? {o o' : Option Token} (h : Option.Rel (Token.Shows W) o o') :
    Slot.Shows W (.ofToken? o) (.ofToken? o') := by
  cases h with
  | some h => exact h.slot
  | none => exact Slot.shows_absent

/-- A node that is made of a view, by a view that looks the same. -/
theorem draws_toNode {α : Type} [NodeView α] {v v' : α}
    (h : Slot.AllShow W (NodeView.toSlots v) (NodeView.toSlots v'))
    (hfits : (Node.mk 0 (NodeView.kind α) (NodeView.toSlots v)).matchesSchema = true) :
    Draws W (NodeView.toNode v) (NodeView.toNode v') (fun W' n n' => n.Shows W' n' ∧ W.next ≤ n.id) :=
  draws_new h hfits

namespace Build

/-! ## Tokens -/

theorem draws_token (kind : TokenKind) : Draws W (token kind) (token kind) Token.Shows := Downlevel.draws_token rfl

theorem draws_mark (p : Punctuation) : Draws W (mark p) (mark p) Token.Shows := draws_token _

/-- A token looks the same whatever trivia it gets. -/
theorem draws_laidOut {w w' : Fresh Token} {lay lay' : Token → Fresh Token} (hw : Draws W w w' Token.Shows)
    (h : ∀ W t, Records W (lay t) (fun W' u => u.Shows W' t)) (h' : ∀ j t, (lay' t j).1.outline = t.outline) :
    Draws W (w >>= lay) (w' >>= lay') Token.Shows :=
  hw.bind (fun W₁ _ t t' ht j => (h W₁ t).mono (fun _ _ _ hu =>
    ⟨hu.known, hu.outline.trans (ht.outline.trans (h' j t').symm)⟩))

theorem draws_tokenThenSpace (kind : TokenKind) : Draws W (tokenThenSpace kind) (tokenThenSpace kind) Token.Shows :=
  draws_laidOut (draws_token kind) (fun _ _ => records_tokenWithTrailing) (fun _ _ => rfl)

theorem draws_spacedToken (kind : TokenKind) : Draws W (spacedToken kind) (spacedToken kind) Token.Shows :=
  draws_laidOut (draws_token kind) (fun _ _ => records_tokenWithTrivia) (fun _ _ => rfl)

theorem draws_markThenSpace (p : Punctuation) : Draws W (markThenSpace p) (markThenSpace p) Token.Shows :=
  draws_tokenThenSpace _

theorem draws_wordThenSpace (k : Keyword) : Draws W (wordThenSpace k) (wordThenSpace k) Token.Shows :=
  draws_tokenThenSpace _

theorem draws_openBrace (trailing trailing' : TriviaList) :
    Draws W (openBrace trailing) (openBrace trailing') Token.Shows :=
  draws_laidOut (draws_mark _) (fun _ _ => records_tokenWithTrailing) (fun _ _ => rfl)

theorem draws_closeBrace (leading leading' : TriviaList) :
    Draws W (closeBrace leading) (closeBrace leading') Token.Shows :=
  draws_laidOut (draws_mark _) (fun _ _ => records_tokenWithLeading) (fun _ _ => rfl)

theorem draws_identifier (name : List Char) : Draws W (identifier name) (identifier name) Token.Shows :=
  Downlevel.draws_token rfl

/-! ## Expressions -/

theorem draws_nameExpression (h : t.Shows W t') : Draws W (nameExpression t) (nameExpression t') Node.Shows :=
  draws_node (.cons h.slot .nil) rfl

theorem draws_name (text : List Char) : Draws W (name text) (name text) Node.Shows :=
  (draws_identifier text).bind (fun _ _ _ _ h => draws_nameExpression h)

theorem draws_thisExpression : Draws W thisExpression thisExpression Node.Shows :=
  (draws_token _).bind (fun _ _ _ _ h => draws_node (.cons h.slot .nil) rfl)

theorem draws_literal (h : t.Shows W t') : Draws W (literal t) (literal t') Node.Shows :=
  draws_node (.cons h.slot .nil) rfl

theorem draws_stringLiteral (value : List Char) : Draws W (stringLiteral value) (stringLiteral value) Node.Shows :=
  (Downlevel.draws_token rfl).bind (fun _ _ _ _ h => draws_literal h)

theorem draws_numericLiteral (text : List Char) : Draws W (numericLiteral text) (numericLiteral text) Node.Shows :=
  (Downlevel.draws_token rfl).bind (fun _ _ _ _ h => draws_literal h)

theorem draws_keywordLiteral (kind : TokenKind) : Draws W (keywordLiteral kind) (keywordLiteral kind) Node.Shows :=
  (draws_token kind).bind (fun _ _ _ _ h => draws_literal h)

theorem draws_memberAccess (hn : n.Shows W n') (ht : t.Shows W t') :
    Draws W (memberAccess n t) (memberAccess n' t') Node.Shows :=
  (draws_mark .dot).bind (fun _ _ _ _ hdot => (draws_toName (ht.up (by order))).bind (fun _ _ _ _ hname =>
    draws_node (.cons (hn.up (by order)).slot <| .cons (hdot.up (by order)).slot <| .cons hname.slot .nil) rfl))

theorem draws_memberPath : ∀ (names : List (List Char)) {W : Registry} {n n' : Node}, n.Shows W n' →
    Draws W (memberPath n names) (memberPath n' names) Node.Shows
  | [], _, _, _, h => .pure h
  | name :: names, _, _, _, h =>
    (draws_identifier name).bind (fun _ _ _ _ hname => (draws_memberAccess (h.up (by order)) hname).bind
      (fun _ _ _ _ haccess =>
      draws_memberPath names haccess))

theorem draws_elementAccess (hn : n.Shows W n') (hm : m.Shows W m') :
    Draws W (elementAccess n m) (elementAccess n' m') Node.Shows :=
  (draws_mark .openBracket).bind (fun _ _ _ _ hopen => (draws_mark .closeBracket).bind (fun _ _ _ _ hclose =>
    draws_node (.cons (hn.up (by order)).slot <| .cons (hopen.up (by order)).slot <| .cons (hm.up (by order)).slot <|
      .cons hclose.slot .nil) rfl))

theorem draws_separatorsBetween {w w' : Fresh Token} (h : ∀ W, Draws W w w' Token.Shows) :
    ∀ {ns ns' : List Node} {W : Registry}, ns.length = ns'.length →
      Draws W (separatorsBetween w ns) (separatorsBetween w' ns') Token.AllShow
  | [], [], _, _ => .pure .nil
  | [_], [_], _, _ => .pure .nil
  | _ :: n :: ns, _ :: n' :: ns', W, hlength =>
    (h W).bind (fun _ _ _ _ ht =>
      have hrest : (n :: ns).length = (n' :: ns').length := Nat.succ.inj hlength
      (draws_separatorsBetween h hrest).map (fun _ _ _ _ hts => .cons (ht.up (by order)) hts))

/-- What is done with members and the commas between them. -/
theorem draws_commaSeparated {γ δ : Type} {Q : Registry → γ → δ → Prop} {f : Slot → Fresh γ} {f' : Slot → Fresh δ}
    (h : Node.AllShow W ns ns')
    (hf : ∀ W', W ≤ W' → ∀ ts ts', Slot.Shows W' (.separated ns ts) (.separated ns' ts') →
      Draws W' (f (.separated ns ts)) (f' (.separated ns' ts')) Q) :
    Draws W (commaSeparated ns >>= f) (commaSeparated ns' >>= f') Q := by
  unfold commaSeparated
  rw [bind_assoc, bind_assoc]
  refine (draws_separatorsBetween (fun _ => draws_markThenSpace _) h.length_eq).bind (fun W' hle ts ts' hts => ?_)
  rw [pure_bind, pure_bind]
  exact hf W' hle ts ts' (Slot.shows_separated (h.up (by order)) hts)

theorem draws_argumentList (h : Node.AllShow W ns ns') : Draws W (argumentList ns) (argumentList ns') Node.Shows :=
  (draws_mark .openParen).bind (fun _ _ _ _ hopen => draws_commaSeparated (h.up (by order)) (fun _ _ _ _ hargs =>
    (draws_mark .closeParen).bind (fun _ _ _ _ hclose =>
      draws_node (.cons (hopen.up (by order)).slot <| .cons (hargs.up (by order)) <| .cons hclose.slot .nil) rfl)))

theorem draws_invocation (hn : n.Shows W n') (h : Node.AllShow W ns ns') :
    Draws W (invocation n ns) (invocation n' ns') Node.Shows :=
  (draws_argumentList h).bind (fun _ _ _ _ hargs => draws_node (.cons (hn.up (by order)).slot <|
    .cons hargs.slot .nil) rfl)

theorem draws_binary (operator : TokenKind) (hn : n.Shows W n') (hm : m.Shows W m') :
    Draws W (binary n operator m) (binary n' operator m') Node.Shows :=
  (draws_spacedToken operator).bind (fun _ _ _ _ hop =>
    draws_node (.cons (hn.up (by order)).slot <| .cons hop.slot <| .cons (hm.up (by order)).slot .nil) rfl)

theorem draws_assignment (hn : n.Shows W n') (hm : m.Shows W m') :
    Draws W (assignment n m) (assignment n' m') Node.Shows := draws_binary _ hn hm

theorem draws_prefixUnary (operator : TokenKind) (hn : n.Shows W n') :
    Draws W (prefixUnary operator n) (prefixUnary operator n') Node.Shows := by
  unfold prefixUnary
  split
  · exact (draws_tokenThenSpace operator).bind
      (fun _ _ _ _ hop => draws_node (.cons hop.slot <| .cons (hn.up (by order)).slot .nil) rfl)
  · exact (draws_token operator).bind (fun _ _ _ _ hop =>
      draws_node (.cons hop.slot <| .cons (hn.up (by order)).slot .nil) rfl)

theorem draws_postfixUnary (operator : TokenKind) (hn : n.Shows W n') :
    Draws W (postfixUnary n operator) (postfixUnary n' operator) Node.Shows :=
  (draws_token operator).bind (fun _ _ _ _ hop => draws_node (.cons (hn.up (by order)).slot <| .cons hop.slot .nil) rfl)

theorem draws_arrayLiteral (h : Node.AllShow W ns ns') : Draws W (arrayLiteral ns) (arrayLiteral ns') Node.Shows :=
  (draws_mark .openBracket).bind (fun _ _ _ _ hopen => draws_commaSeparated (h.up (by order)) (fun _ _ _ _ hs =>
    (draws_mark .closeBracket).bind (fun _ _ _ _ hclose =>
      draws_node (.cons (hopen.up (by order)).slot <| .cons (hs.up (by order)) <| .cons hclose.slot .nil) rfl)))

theorem draws_parenthesized (hn : n.Shows W n') : Draws W (parenthesized n) (parenthesized n') Node.Shows :=
  (draws_mark .openParen).bind (fun _ _ _ _ hopen => (draws_mark .closeParen).bind (fun _ _ _ _ hclose =>
    draws_node (.cons (hopen.up (by order)).slot <| .cons (hn.up (by order)).slot <| .cons hclose.slot .nil) rfl))

theorem draws_propertyAssignment (ht : t.Shows W t') (hn : n.Shows W n') :
    Draws W (propertyAssignment t n) (propertyAssignment t' n') Node.Shows :=
  (draws_toName ht).bind (fun _ _ _ _ hname => (draws_markThenSpace .colon).bind (fun _ _ _ _ hcolon =>
    draws_node (.cons (hname.up (by order)).slot <| .cons hcolon.slot <| .cons (hn.up (by order)).slot .nil) rfl))

theorem draws_objectLiteral {s' : Slot} (hopen : t.Shows W t') (hs : Slot.Shows W (.separated ns ts) s')
    (hclose : u.Shows W u') :
    Draws W (objectLiteral t (.separated ns ts) u) (objectLiteral t' s' u') Node.Shows :=
  draws_node (.cons hopen.slot <| .cons hs <| .cons hclose.slot .nil) rfl

theorem draws_emptyObject : Draws W emptyObject emptyObject Node.Shows :=
  (draws_mark .openBrace).bind (fun _ _ _ _ hopen => (draws_mark .closeBrace).bind (fun _ _ _ _ hclose =>
    draws_objectLiteral (hopen.up (by order)) (Slot.shows_separated .nil .nil) hclose))

/-! ## Statements -/

theorem draws_expressionStatement (hn : n.Shows W n') :
    Draws W (expressionStatement n) (expressionStatement n') Node.Shows :=
  (draws_mark .semicolon).bind (fun _ _ _ _ hend => draws_node (.cons (hn.up (by order)).slot <| .cons hend.slot .nil)
    rfl)

theorem draws_returnStatement (hn : n.Shows W n') :
    Draws W (returnStatement (some n)) (returnStatement (some n')) Node.Shows :=
  (draws_wordThenSpace .returnKw).bind (fun _ _ _ _ hword => (draws_mark .semicolon).bind (fun _ _ _ _ hend =>
    draws_node (.cons (hword.up (by order)).slot <| .cons (hn.up (by order)).slot <| .cons hend.slot .nil) rfl))

theorem draws_equalsValueClause (hn : n.Shows W n') :
    Draws W (equalsValueClause n) (equalsValueClause n') Node.Shows :=
  (draws_spacedToken _).bind (fun _ _ _ _ hequals =>
    draws_node (.cons hequals.slot <| .cons (hn.up (by order)).slot .nil) rfl)

/-- The word `var` and one variable, whose value is in a slot. -/
theorem draws_declares {w w' : Fresh Slot} (ht : t.Shows W t')
    (hw : Draws W w w' (fun W' s s' => s.Shows W' s' ∧ s.fits .optionalNode = true)) :
    Draws W
      (w >>= fun clause => Node.fresh .variableDeclarator [.token t, .absent, clause] >>= fun declarator =>
        wordThenSpace .varKw >>= fun keyword =>
          Node.fresh .variableDeclaration [.token keyword, .separated [declarator] []])
      (w' >>= fun clause => Node.fresh .variableDeclarator [.token t', .absent, clause] >>= fun declarator =>
        wordThenSpace .varKw >>= fun keyword =>
          Node.fresh .variableDeclaration [.token keyword, .separated [declarator] []]) Node.Shows :=
  hw.bind (fun _ _ _ _ hvalue =>
    (draws_node (.cons (ht.up (by order)).slot <| .cons Slot.shows_absent <| .cons hvalue.1 .nil)
      (Node.matchesSchema_iff.2 (by exact .cons rfl <| .cons rfl <| .cons hvalue.2 .nil))).bind (fun _ _ _ _ hd =>
      (draws_wordThenSpace .varKw).bind (fun _ _ _ _ hword =>
        draws_node (.cons hword.slot <| .cons (Slot.shows_separated (.cons (hd.up (by order)) .nil) .nil) .nil) rfl)))

theorem draws_variableDeclaration {o o' : Option Node} (ht : t.Shows W t') (h : Option.Rel (Node.Shows W) o o') :
    Draws W (variableDeclaration t o) (variableDeclaration t' o') Node.Shows := by
  cases h with
  | some h => exact draws_declares ht ((draws_equalsValueClause h).map (fun _ _ _ _ hc => ⟨hc.slot, rfl⟩))
  | none => exact draws_declares ht (.pure ⟨Slot.shows_absent, rfl⟩)

theorem draws_variableStatement {o o' : Option Node} (ht : t.Shows W t') (h : Option.Rel (Node.Shows W) o o') :
    Draws W (variableStatement t o) (variableStatement t' o') Node.Shows :=
  (draws_variableDeclaration ht h).bind (fun _ _ _ _ hd => (draws_mark .semicolon).bind (fun _ _ _ _ hend =>
    draws_node (.cons Slot.shows_absent <| .cons Slot.shows_absent <| .cons (hd.up (by order)).slot <|
      .cons hend.slot .nil) rfl))

theorem draws_parameter (ht : t.Shows W t') : Draws W (parameter t) (parameter t') Node.Shows :=
  draws_node (.cons Slot.shows_absent <| .cons Slot.shows_absent <| .cons ht.slot <| .cons Slot.shows_absent <|
    .cons Slot.shows_absent <| .cons Slot.shows_absent .nil) rfl

theorem draws_parameterList (h : Node.AllShow W ns ns') :
    Draws W (parameterList ns) (parameterList ns') Node.Shows :=
  (draws_mark .openParen).bind (fun _ _ _ _ hopen => draws_commaSeparated (h.up (by order)) (fun _ _ _ _ hs =>
    (draws_mark .closeParen).bind (fun _ _ _ _ hclose =>
      draws_node (.cons (hopen.up (by order)).slot <| .cons (hs.up (by order)) <| .cons hclose.slot .nil) rfl)))

theorem draws_callSignature (hn : n.Shows W n') : Draws W (callSignature n) (callSignature n') Node.Shows :=
  draws_node (.cons hn.slot <| .cons Slot.shows_absent .nil) rfl

theorem draws_block (hopen : t.Shows W t') (h : Node.AllShow W ns ns') (hclose : u.Shows W u') :
    Draws W (block t ns u) (block t' ns' u') Node.Shows :=
  draws_node (.cons hopen.slot <| .cons h.slot <| .cons hclose.slot .nil) rfl

/-- A space behind a tree is no part of its outline. -/
theorem records_spaceAfter (h : n.Shows W n') : Records W (spaceAfter n) (fun W' m => m.Shows W' n') := by
  unfold spaceAfter
  split
  · exact .pure h
  · exact records_withTrailing h

end Build

end Downlevel
