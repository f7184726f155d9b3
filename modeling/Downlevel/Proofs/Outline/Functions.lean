import Downlevel.Proofs.Outline.Parameters
/-!
# Proofs.Outline.Functions — functions, arrow functions, and their draft

A function that is left as it is looks like the one that the draft builds: its signature then had no type, and its
parameters and its body came back as the objects that they were.

Whether an expression starts with `function` is read off its first token that has a width.  That is its first token at
all, whatever trivia there is, because a lowered expression starts with characters (`Draft.opens_walk_statement`).
-/
namespace Downlevel.LoweringContext

variable {c : LoweringContext} {W : Registry} {n n' block : Node}

/-- A list of parameters that is as old as the one that was there had no type behind it. -/
theorem resultType_eq_none {resultType : Option Node} {parameters old : Node} (hold : old.Known W)
    (hnew : resultType.isSome = true → W.next ≤ parameters.id) (hsame : parameters.isSame old = true) :
    resultType = none := by
  by_contra hsome
  have hid : parameters.id = old.id := eq_of_beq hsame
  exact absurd hold.id_lt (Nat.not_lt.2 (hid ▸ hnew (Option.isSome_iff_ne_none.2 hsome)))

/-- What a function that was not changed looks like: the signature that is built of its parameters. -/
theorem outline_callSignature {signature : CallSignature} {s parameters parameters' : Node}
    (hk : s.kind = .callSignature) (hs : s.slots = NodeView.toSlots signature) (hshows : parameters.Shows W parameters')
    (hheld : signature.parameters.Known W) (hsame : parameters.isSame signature.parameters = true)
    (htype : signature.resultType = none) : s.outline = (Build.callSignature parameters' 0).1.outline := by
  have hparameters : signature.parameters.outline = parameters'.outline := by
    rw [← hshows.outline, hshows.known.outline_eq hheld (eq_of_beq hsame)]
  show s.outline = (Node.mk 0 .callSignature [.node parameters', .absent]).outline
  rw [s.outline_eq, Node.outline_mk, hk, hs]
  simp only [NodeView.toSlots, htype, List.map_cons, List.map_nil, Slot.outline_node, hparameters]
  rfl

namespace Drafted

variable {visit : Node → Draft Replacement} (h : c.Drafted visit)

include h

/-- **The parameters and the body of a function look like their draft.** -/
theorem functionLike {parameters : Node} (resultType : Option Node) (column : Nat) (hparameters : parameters.Held W)
    (hblock : block.Held W) :
    Follows W (c.functionLike parameters resultType block column)
      (Draft.functionLike visit parameters.outline block.outline) (fun W' p q =>
        (p.1.Shows W' q.1 ∧ (resultType.isSome = true → W.next ≤ p.1.id)) ∧ p.2.Shows W' q.2) := by
  unfold LoweringContext.functionLike Draft.functionLike
  refine (Follows.inScope (R := fun W' p q =>
    (p.1.Shows W' q.1 ∧ (resultType.isSome = true → W.next ≤ p.1.id)) ∧ Node.AllShow W' p.2.1 q.2.1 ∧
      p.2.2.Shows W' q.2.2) ?_).bind (fun W₁ h₁ p q hp => ?_)
  · refine (follows_parameterList hparameters resultType).bind (fun W₁ h₁ p q hp => ?_)
    refine (h.parameterPrologue _ hp.2).bind (fun W₂ h₂ prologue prologue' hprologue => ?_)
    refine (h.lower (hblock.up (by order))).bind (fun W₃ h₃ lowered lowered' hlowered => ?_)
    exact .pure ⟨⟨hp.1.1.up (by order), hp.1.2⟩, hprologue.up (by order), hlowered⟩
  obtain ⟨⟨hparameters, hprologue, hlowered⟩, hcaptured⟩ := hp
  dsimp only
  rw [hcaptured]
  refine .make (draws_withCapture _ hprologue) (fun W₂ h₂ prologue prologue' hprologue => ?_)
  refine (follows_assembleBlock _ _ (hlowered.up (by order)) hprologue).bind (fun W₃ h₃ b b' hb => ?_)
  exact .pure ⟨⟨hparameters.1.up (by order), hparameters.2⟩, hb⟩

theorem functionDeclaration (hn : n.Held W) :
    Follows W (c.functionDeclaration n) (Draft.functionStatement visit n.outline) Replacement.Shows := by
  unfold LoweringContext.functionDeclaration Draft.functionStatement
  refine .viewHeld hn (fun v hk hs hparts => ?_)
  simp only [NodeView.toSlots, List.forall_mem_cons, Slot.held_token, Slot.held_ofToken?, Slot.held_node,
    Slot.held_ofNode?] at hparts
  obtain ⟨hexported, -, hkeyword, hname, hsignature, hblock, hsemicolon, -⟩ := hparts
  rw [show (OutlineView.outline v).declared.isSome = v.declared.isSome from Option.isSome_map]
  split
  · exact .pure .removed
  rename_i hdeclared
  rw [show (OutlineView.outline v).block = v.block.map Node.outline from rfl]
  cases hb : v.block with
  | none => exact .pure .removed
  | some block =>
    have hblock : block.Held W := hblock block hb
    refine .viewHeld hsignature (fun signature hk' hs' hparts => ?_)
    simp only [NodeView.toSlots, List.forall_mem_cons, Slot.held_node] at hparts
    obtain ⟨hparameters, -, -⟩ := hparts
    refine (h.functionLike signature.resultType (c.lineIndentationOf n) hparameters hblock).bind (fun W₁ h₁ p q hp => ?_)
    obtain ⟨⟨hp, hnew⟩, hlowered⟩ := hp
    dsimp only
    split
    · rename_i hsame
      obtain ⟨⟨hnone, hsame⟩, hsame'⟩ : (v.exported.isNone = true ∧ p.1.isSame signature.parameters = true) ∧
          p.2.isSame block = true := by simpa using hsame
      -- A list of parameters that is still the same object had no type behind it.
      have htype := resultType_eq_none hparameters.known hnew hsame
      have hexported : v.exported = none := Option.isNone_iff_eq_none.1 hnone
      have hdeclared : v.declared = none := by simpa using hdeclared
      have hlowered' : block.outline = q.2.outline := by
        rw [← hlowered.outline, hlowered.known.outline_eq (hblock.known.up (by order)) (eq_of_beq hsame')]
      have hsig := outline_callSignature hk' hs' hp (hparameters.known.up (by order)) hsame htype
      rw [Draft.make_eq_pure, pure_bind, Draft.make_eq_pure, pure_bind]
      refine .pure (.one ⟨hn.known.up (by order), ?_⟩)
      show n.outline = (Node.mk 0 .functionDeclaration _).outline
      rw [n.outline_eq, Node.outline_mk, hk, hs]
      simp only [NodeView.toSlots, OutlineView.outline, hexported, hdeclared, hb, List.map_cons, List.map_nil,
        Slot.outline_token, Slot.outline_node, Slot.outline_ofToken?, Slot.outline_ofNode?, Option.map_none,
        Option.map_some, hlowered', hsig, Option.map_map]
      rfl
    -- Whether `export` gave its trivia to the keyword makes no difference to an outline.
    · have hfunction : ∀ W₂, W₁ ≤ W₂ → ∀ keyword : Token, keyword.Shows W₂ v.keyword.outline → Follows W₂ (do
          let signature ← Build.callSignature p.1
          return .one (← NodeView.toNode
            (FunctionDeclaration.mk none none keyword v.name signature (some p.2) v.semicolon)) : Lowering Replacement)
          (do
            let signature ← Draft.make (Build.callSignature q.1)
            return .one (← Draft.make (NodeView.toNode (FunctionDeclaration.mk none none
              (OutlineView.outline v).keyword (OutlineView.outline v).name signature (some q.2)
              (OutlineView.outline v).semicolon)))) Replacement.Shows := by
        intro W₂ h₂ keyword hkeyword
        refine .make (Build.draws_callSignature (hp.up (by order))) (fun W₃ h₃ s s' hs => ?_)
        refine .make (draws_toNode (.cons Slot.shows_absent <| .cons Slot.shows_absent <|
          .cons (hkeyword.up (by order)).slot <|
          .cons (hname.up (by order)).shows.slot <| .cons hs.slot <| .cons (hlowered.up (by order)).slot <|
            .cons (Slot.shows_ofToken?
            (Token.Known.optionShows (fun t ht => (hsemicolon t ht).up (by order)))) .nil)
          (Node.matchesSchema_iff.2 (.cons rfl <| .cons rfl <| .cons rfl <| .cons rfl <| .cons rfl <| .cons rfl <|
          .cons (Slot.fits_ofToken? _) .nil))) (fun W₄ h₄ m m' hm => .pure (.one hm.1))
      cases v.exported with
      | none => exact hfunction W₁ le_rfl _ (hkeyword.up (by order)).shows
      | some exported => exact .lay records_tokenWithLeading (fun W₂ h₂ keyword hk => hfunction W₂ h₂ _ hk.bare)

theorem functionExpression (hn : n.Held W) :
    Follows W (c.functionExpression n) (Draft.functionValue visit n.outline) Replacement.Shows := by
  unfold LoweringContext.functionExpression Draft.functionValue
  refine .viewHeld hn (fun v hk hs hparts => ?_)
  simp only [NodeView.toSlots, List.forall_mem_cons, Slot.held_token, Slot.held_ofToken?, Slot.held_node] at hparts
  obtain ⟨hkeyword, hname, hsignature, hblock, -⟩ := hparts
  refine .viewHeld hsignature (fun signature hk' hs' hparts => ?_)
  simp only [NodeView.toSlots, List.forall_mem_cons, Slot.held_node] at hparts
  obtain ⟨hparameters, -, -⟩ := hparts
  refine (h.functionLike signature.resultType (c.lineIndentationOf n) hparameters hblock).bind (fun W₁ h₁ p q hp => ?_)
  obtain ⟨⟨hp, hnew⟩, hlowered⟩ := hp
  dsimp only
  split
  · rename_i hsame
    obtain ⟨hsame, hsame'⟩ : p.1.isSame signature.parameters = true ∧ p.2.isSame v.block = true := by simpa using hsame
    have htype := resultType_eq_none hparameters.known hnew hsame
    have hlowered' : v.block.outline = q.2.outline := by
      rw [← hlowered.outline, hlowered.known.outline_eq (hblock.known.up (by order)) (eq_of_beq hsame')]
    have hsig := outline_callSignature hk' hs' hp (hparameters.known.up (by order)) hsame htype
    rw [Draft.make_eq_pure, pure_bind, Draft.make_eq_pure, pure_bind]
    refine .pure (.one ⟨hn.known.up (by order), ?_⟩)
    show n.outline = (Node.mk 0 .functionExpression _).outline
    rw [n.outline_eq, Node.outline_mk, hk, hs]
    simp only [NodeView.toSlots, OutlineView.outline, List.map_cons, List.map_nil, Slot.outline_token,
      Slot.outline_node, Slot.outline_ofToken?, hlowered', hsig, Option.map_map]
    rfl
  · refine .make (Build.draws_callSignature hp) (fun W₂ h₂ s s' hs => ?_)
    exact .make (draws_toNode (.cons (hkeyword.up (by order)).shows.slot <| .cons (Slot.shows_ofToken?
      (Token.Known.optionShows (fun t ht => (hname t ht).up (by order)))) <| .cons hs.slot <|
        .cons (hlowered.up (by order)).slot .nil)
      (Node.matchesSchema_iff.2 (.cons rfl <| .cons (Slot.fits_ofToken? _) <| .cons rfl <| .cons rfl .nil)))
        (fun W₃ h₃ m m' hm => .pure (.one hm.1))

/-! ## Accessors of object literals -/

omit h in
theorem accessorBody {m : Node} (captured : Bool) (hblock : block.Shows W m) :
    Follows W (c.accessorBody n block captured) (Draft.accessorBody m captured) Node.Shows := by
  unfold LoweringContext.accessorBody Draft.accessorBody
  cases captured with
  | false => exact .pure hblock
  | true => exact .make draws_captureStatement (fun W₁ h₁ s s' hs => follows_assembleBlock _ _ (hblock.up (by order))
    (.cons hs .nil))

omit h in
theorem objectSetter {walked walked' : Node} (captured : Bool) (hwalked : walked.Shows W walked') :
    Follows W (c.objectSetter n walked captured) (Draft.objectSetter walked' captured) Replacement.Shows := by
  unfold LoweringContext.objectSetter Draft.objectSetter
  cases captured with
  | false => exact .pure (.one hwalked)
  | true =>
    refine .viewShown hwalked (fun v v' _ hv hparts => ?_)
    simp only [NodeView.toSlots, List.forall_mem_cons, Slot.known_token, Slot.known_node] at hparts
    obtain ⟨hkeyword, hname, hopen, hparameter, hclose, hblock, -⟩ := hparts
    refine (accessorBody true ⟨hblock, congrArg ObjectSetter.block hv⟩).bind (fun W₁ h₁ b b' hb => ?_)
    exact .make (draws_toNode (
      .cons (Token.Shows.slot ⟨hkeyword.up (by order), congrArg ObjectSetter.keyword hv⟩) <|
      .cons (Token.Shows.slot ⟨hname.up (by order), congrArg ObjectSetter.name hv⟩) <|
      .cons (Token.Shows.slot ⟨hopen.up (by order), congrArg ObjectSetter.openParen hv⟩) <|
      .cons (Node.Shows.slot ⟨hparameter.up (by order), congrArg ObjectSetter.parameter hv⟩) <|
      .cons (Token.Shows.slot ⟨hclose.up (by order), congrArg ObjectSetter.closeParen hv⟩) <|
      .cons hb.slot .nil) rfl) (fun W₂ h₂ m m' hm => .pure (.one hm.1))

omit h in
theorem objectGetter {walked walked' : Node} (captured : Bool) (hn : n.Held W) (hwalked : walked.Shows W walked') :
    Follows W (c.objectGetter n walked captured) (Draft.objectGetter n.outline walked' captured) Replacement.Shows := by
  unfold LoweringContext.objectGetter Draft.objectGetter
  refine .viewShown hwalked (fun v v' _ hv hparts => ?_)
  simp only [NodeView.toSlots, List.forall_mem_cons, Slot.known_token, Slot.known_node, Slot.known_ofNode?] at hparts
  obtain ⟨hkeyword, hname, hopen, hclose, htype, hblock, -⟩ := hparts
  refine .viewHeld hn (fun before hk hs _ => ?_)
  rw [show (OutlineView.outline before).resultType.isNone = before.resultType.isNone from Option.isNone_map,
    show (OutlineView.outline before).resultType.isSome = before.resultType.isSome from Option.isSome_map]
  split
  · exact .pure (.one hwalked)
  · have htypes : Option.Rel (Node.Shows W) (if before.resultType.isSome then none else v.resultType)
        (if before.resultType.isSome then none else v'.resultType) := by
      split
      · exact .none
      · have hmap : v.resultType.map Node.outline = v'.resultType.map Node.outline := congrArg ObjectGetter.resultType hv
        cases hw : v.resultType with
        | none =>
          rw [hw] at hmap
          rw [Option.map_eq_none_iff.1 hmap.symm]
          exact .none
        | some m =>
          rw [hw] at hmap
          obtain ⟨m', hm', hm⟩ := Option.map_eq_some_iff.1 hmap.symm
          rw [hm']
          exact .some ⟨htype m hw, hm.symm⟩
    have hgetter : ∀ W₁, W ≤ W₁ → ∀ closeParen : Token, closeParen.Shows W₁ v'.closeParen → Follows W₁ (do
        let resultType := if before.resultType.isSome then none else v.resultType
        let block ← c.accessorBody n v.block captured
        return .one (← NodeView.toNode { v with closeParen, resultType, block }) : Lowering Replacement) (do
        let resultType := if before.resultType.isSome then none else v'.resultType
        let block ← Draft.accessorBody v'.block captured
        return .one (← Draft.make (NodeView.toNode { v' with resultType, block }))) Replacement.Shows := by
      intro W₁ h₁ closeParen hc
      refine (accessorBody captured ⟨hblock.up (by order), congrArg ObjectGetter.block hv⟩).bind
        (fun W₂ h₂ b b' hb => ?_)
      refine .make (draws_toNode (
        .cons (Token.Shows.slot ⟨hkeyword.up (by order), congrArg ObjectGetter.keyword hv⟩) <|
        .cons (Token.Shows.slot ⟨hname.up (by order), congrArg ObjectGetter.name hv⟩) <|
        .cons (Token.Shows.slot ⟨hopen.up (by order), congrArg ObjectGetter.openParen hv⟩) <|
        .cons (hc.up (by order)).slot <| .cons ((Slot.shows_ofNode? htypes).up (by order)) <|
        .cons hb.slot .nil) (Node.matchesSchema_iff.2 (.cons rfl <| .cons rfl <| .cons rfl <| .cons rfl <|
          .cons (Slot.fits_ofNode? _) <| .cons rfl .nil))) (fun W₃ h₃ m m' hm => .pure (.one hm.1))
    cases hbefore : before.resultType with
    | none =>
      rw [hbefore] at hgetter
      exact hgetter W le_rfl _ ⟨hclose, congrArg ObjectGetter.closeParen hv⟩
    | some annotation =>
      rw [hbefore] at hgetter
      exact .lay records_tokenWithTrailing (fun W₁ h₁ closeParen hc =>
        hgetter W₁ h₁ _ (hc.trans (congrArg ObjectGetter.closeParen hv)))

theorem objectAccessor (hn : n.Held W) :
    Follows W (c.objectAccessor n) (Draft.objectAccessor visit n.outline) Replacement.Shows := by
  unfold LoweringContext.objectAccessor Draft.objectAccessor
  refine (Follows.inScope (h.walk hn)).bind (fun W₁ h₁ p q hp => ?_)
  obtain ⟨hwalked, hcaptured⟩ := hp
  have hkind : p.1.kind = q.1.kind := by rw [← Node.kind_outline, hwalked.outline, Node.kind_outline]
  dsimp only
  rw [hcaptured, hkind]
  split
  · exact objectGetter q.2 (hn.up (by order)) hwalked
  · exact objectSetter q.2 hwalked

end Drafted

end Downlevel.LoweringContext

namespace Downlevel

variable {W : Registry} {n n' : Node}

/-- **What a tree starts with is read off what it looks like**, if that starts with characters. -/
theorem Node.Shows.firstToken_any (h : n.Shows W n') (hn : n'.Opens) (p : TokenKind → Bool) :
    n.firstToken?.any (fun t => p t.kind) = n'.tokens.head?.any (fun t => p t.kind) := by
  have hany : ∀ m : Node, m.tokens.head?.any (fun t => p t.kind) = m.outline.tokens.head?.any (fun t => p t.kind) := by
    intro m
    rw [Node.tokens_outline, List.head?_map, Option.any_map]
    rfl
  have hopens : n.Opens := Node.opens_outline.1 (h.outline ▸ Node.opens_outline.2 hn)
  rw [hopens.firstToken?, hany n, hany n', h.outline]

namespace LoweringContext

variable {c : LoweringContext} {parts : ArrowParts} {facts : ParameterFacts} {parameters : Node}

theorem follows_laidOutIndentationOf :
    Follows W (c.laidOutIndentationOf n) (pure ()) (fun _ _ _ => True) := .own (fun _ => .pure trivial)

theorem follows_parenthesize {γ δ : Type} {Q : Registry → γ → δ → Prop} {f : Node → Lowering γ} {f' : Node → Draft δ}
    (h : n.Shows W n') (hf : ∀ W', W ≤ W' → ∀ m m' : Node, m.Shows W' m' → Follows W' (f m) (f' m') Q) :
    Follows W (liftM (parenthesize n) >>= f) (Draft.make (Build.parenthesized n') >>= f') Q := by
  have hdraws : Draws W (parenthesize n) (Build.parenthesized n') Node.Shows := fun j =>
    (records_bare h).bind (fun W₁ h₁ bare hbare => (Build.draws_parenthesized hbare j).bind (fun W₂ h₂ m hm =>
      records_withTrivia hm))
  exact .make hdraws hf

namespace Drafted

variable {visit : Node → Draft Replacement} (h : c.Drafted visit)

include h

/-- **A statement that is an expression looks like its draft.** -/
theorem expressionStatement (hn : n.Held W) (hk : n.kind = .expressionStatement) :
    Follows W (c.expressionStatement n) (Draft.expressionStatement visit n.outline) Replacement.Shows := by
  have hstands : n.outline.Stands OpenForm Demand.any (.only .expressionStatement) 1 :=
    ⟨by rw [Node.kind_outline, hk]; rfl, Node.sound_outline hn.wellFormed hn.opens⟩
  unfold LoweringContext.expressionStatement Draft.expressionStatement
  refine ((h.walk hn).withDraft (Draft.opens_walk_statement h.opens hstands (by rw [Node.kind_outline, hk]))).bind
    (fun W₁ h₁ walked walked' hwalked => ?_)
  obtain ⟨hwalked, hopens⟩ := hwalked
  refine .viewShown hwalked (fun v v' hview hv hparts => ?_)
  simp only [NodeView.toSlots, List.forall_mem_cons, Slot.known_token, Slot.known_node] at hparts
  obtain ⟨hexpression, hsemicolon, -⟩ := hparts
  have hshow : v.expression.Shows W₁ v'.expression := ⟨hexpression, congrArg ExpressionStatement.expression hv⟩
  rw [hshow.firstToken_any (hopens v' hview) (· == .keyword .functionKw)]
  split
  · exact .pure (.one hwalked)
  · refine follows_parenthesize hshow (fun W₂ h₂ e e' he => ?_)
    exact .make (draws_toNode (.cons he.slot <|
      .cons (Token.Shows.slot ⟨hsemicolon.up (by order), congrArg ExpressionStatement.semicolon hv⟩) .nil) rfl)
      (fun W₃ h₃ m m' hm => .pure (.one hm.1))

/-! ## Arrow functions -/

theorem arrowBlock (column : Nat) (hfacts : parts.facts.Shows W facts) (hbody : parts.body.Held W)
    (hk : parts.body.kind = .block) :
    Follows W (c.arrowBlock n parts column) (Draft.arrowBody visit facts parts.body.outline) Node.Shows := by
  unfold LoweringContext.arrowBlock Draft.arrowBody
  refine (h.parameterPrologue _ hfacts).bind (fun W₁ h₁ prologue prologue' hprologue => ?_)
  refine (h.lower (hbody.up (by order))).bind (fun W₂ h₂ lowered lowered' hlowered => ?_)
  rw [Node.kind_outline, if_pos hk]
  exact .aside (follows_reindent _ _ hlowered) (fun W₃ h₃ moved hmoved => follows_assembleBlock _ _ hmoved
    (hprologue.up (by order)))

theorem arrowExpression (column : Nat) (hfacts : parts.facts.Shows W facts) (hbody : parts.body.Held W)
    (hk : parts.body.kind ≠ .block) :
    Follows W (c.arrowExpression n parts column) (Draft.arrowBody visit facts parts.body.outline) Node.Shows := by
  unfold LoweringContext.arrowExpression Draft.arrowBody
  refine (h.parameterPrologue _ hfacts).bind (fun W₁ h₁ prologue prologue' hprologue => ?_)
  refine (h.lowerAtLine _ (hbody.up (by order))).bind (fun W₂ h₂ lowered lowered' hlowered => ?_)
  rw [Node.kind_outline, if_neg hk]
  refine .lay (records_bare hlowered) (fun W₃ h₃ bare hbare => ?_)
  refine .aside (follows_reindent _ _ hbare) (fun W₄ h₄ moved hmoved => ?_)
  refine .make (Build.draws_returnStatement hmoved) (fun W₅ h₅ returned returned' hreturned => ?_)
  refine .lay (records_withTrivia hreturned) (fun W₆ h₆ returned hreturned => ?_)
  refine .lay (records_placeStatements (hprologue.up (by order))) (fun W₇ h₇ statements hstatements => ?_)
  refine .lay (Build.draws_closeBrace _ .empty 0) (fun W₈ h₈ closeBrace hclose => ?_)
  refine .lay records_tokenWithTrailing (fun W₉ h₉ closeBrace' hclose' => ?_)
  refine .lay (Build.draws_openBrace _ .empty 0) (fun W₁₀ h₁₀ openBrace hopen => ?_)
  have hall : Node.AllShow W₁₀ (statements ++ [returned]) (prologue' ++ [returned']) :=
    List.rel_append (hstatements.up (by order)) (.cons (hreturned.up (by order)) .nil)
  refine .lift (fun j => (Build.draws_block hopen hall ((hclose'.up (by order)).trans hclose.outline) 0).mono
    (fun _ _ _ hb => hb.trans ?_))
  show (Node.mk _ .block _).outline = (Node.mk _ .block _).outline
  rw [Node.outline_mk, Node.outline_mk]
  rfl

/-- **An arrow function looks like its draft.** -/
theorem arrowFunction (hparameters : parts.parameters.Shows W parameters) (hfacts : parts.facts.Shows W facts)
    (hbody : parts.body.Held W) :
    Follows W (c.arrowFunction n parts) (Draft.arrowFunction visit parameters facts parts.body.outline)
      Replacement.Shows := by
  unfold LoweringContext.arrowFunction Draft.arrowFunction
  refine .aside follows_laidOutIndentationOf (fun W₁ h₁ column _ => ?_)
  refine .lay (records_withTrivia (hparameters.up (by order))) (fun W₂ h₂ laid hlaid => ?_)
  have hblock : Follows W₂ (if parts.body.kind = .block then c.arrowBlock n parts column
      else c.arrowExpression n parts column) (Draft.arrowBody visit facts parts.body.outline) Node.Shows := by
    split
    · exact h.arrowBlock column (hfacts.up (by order)) (hbody.up (by order)) ‹_›
    · exact h.arrowExpression column (hfacts.up (by order)) (hbody.up (by order)) ‹_›
  refine (Follows.inArrow hblock).bind (fun W₃ h₃ block block' hb => ?_)
  rw [Draft.make_eq_pure, pure_bind]
  refine .lay (Build.draws_wordThenSpace .functionKw 0) (fun W₄ h₄ keyword hkeyword => ?_)
  refine .lay records_tokenWithLeading (fun W₅ h₅ keyword' hkeyword' => ?_)
  refine .lay (Build.draws_callSignature (hlaid.up (by order)) 2) (fun W₆ h₆ signature hsignature => ?_)
  have hfunction : Draws W₆ (NodeView.toNode (FunctionExpression.mk keyword' none signature block))
      (NodeView.toNode (FunctionExpression.mk (Build.wordThenSpace .functionKw 0).1 none
        (Build.callSignature parameters 2).1 block')) (fun W' m m' => m.Shows W' m' ∧ W₆.next ≤ m.id) :=
    draws_toNode (.cons ((hkeyword'.up (by order)).trans hkeyword.outline).slot <| .cons Slot.shows_absent <|
      .cons hsignature.slot <| .cons (hb.up (by order)).slot .nil) rfl
  exact .lay (hfunction 3) (fun W₇ h₇ m hm => .pure (.one hm.1))

theorem simpleArrow (hn : n.Held W) :
    Follows W (c.simpleArrow n) (Draft.simpleArrow visit n.outline) Replacement.Shows := by
  unfold LoweringContext.simpleArrow Draft.simpleArrow
  refine .viewHeld hn (fun v hk hs hparts => ?_)
  simp only [NodeView.toSlots, List.forall_mem_cons, Slot.held_token, Slot.held_node] at hparts
  obtain ⟨hparameter, harrow, hbody, -⟩ := hparts
  rw [Draft.make_eq_pure, pure_bind]
  refine .lay records_bareToken (fun W₁ h₁ bare hbare => ?_)
  refine .lay (Build.draws_parameter hbare.bare 0) (fun W₂ h₂ parameter hparameter => ?_)
  refine .lay (Build.draws_parameterList (.cons hparameter .nil) 1) (fun W₃ h₃ list hlist => ?_)
  refine .lay (records_withTrailing hlist) (fun W₄ h₄ list' hlist' => ?_)
  exact h.arrowFunction hlist' ParameterFacts.shows_none (hbody.up (by order))

theorem parenthesizedArrow (hn : n.Held W) :
    Follows W (c.parenthesizedArrow n) (Draft.parenthesizedArrow visit n.outline) Replacement.Shows := by
  unfold LoweringContext.parenthesizedArrow Draft.parenthesizedArrow
  refine .viewHeld hn (fun v hk hs hparts => ?_)
  simp only [NodeView.toSlots, List.forall_mem_cons, Slot.held_token, Slot.held_node] at hparts
  obtain ⟨hsignature, harrow, hbody, -⟩ := hparts
  refine .viewHeld hsignature (fun signature hk' hs' hparts => ?_)
  simp only [NodeView.toSlots, List.forall_mem_cons, Slot.held_node] at hparts
  obtain ⟨hparameters, -, -⟩ := hparts
  refine (follows_parameterList hparameters signature.resultType).bind (fun W₁ h₁ p q hp => ?_)
  exact h.arrowFunction hp.1.1 hp.2 (hbody.up (by order))

end Drafted

end LoweringContext

end Downlevel
