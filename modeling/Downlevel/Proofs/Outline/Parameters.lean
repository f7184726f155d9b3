import Downlevel.Proofs.Outline.Parts
/-!
# Proofs.Outline.Parameters — parameters, and their draft

Parameters that are left as they are look like those that the draft builds of their names.  What they leave for the body
to do is told of names that look alike and of values that are held.
-/
namespace Downlevel

variable {W W' : Registry} {n : Node} {ns ns' : List Node}

/-- What parameters leave for the body, and what they leave in a draft. -/
structure ParameterFacts.Shows (W : Registry) (f f' : ParameterFacts) : Prop where
  defaults : List.Forall₂ (fun d d' => d.name.Shows W d'.name ∧ d.value.Held W ∧ d'.value = d.value.outline)
    f.defaults f'.defaults
  rest : Option.Rel (fun r r' => r.name.Shows W r'.name ∧ r.index = r'.index) f.rest f'.rest
  properties : Token.AllShow W f.properties f'.properties

theorem ParameterFacts.Shows.up {f f' : ParameterFacts} (h : f.Shows W f') (hW : W ≤ W') :
    f.Shows W' f' where
  defaults := h.defaults.imp (fun _ _ hd => ⟨hd.1.up (by order), hd.2.1.up (by order), hd.2.2⟩)
  rest := by
    have hrest := h.rest
    generalize f.rest = r at hrest ⊢
    generalize f'.rest = r' at hrest ⊢
    cases hrest with
    | none => exact .none
    | some hr => exact .some ⟨hr.1.up (by order), hr.2⟩
  properties := h.properties.up (by order)

theorem ParameterFacts.shows_none : ParameterFacts.none.Shows W .none := ⟨.nil, .none, .nil⟩

/-- Parameters, what they leave, and whether they changed. -/
structure LoweredParameters.Shows (W : Registry) (ns : List Node) (p : LoweredParameters)
    (q : List Node × ParameterFacts) : Prop where
  parameters : Node.AllShow W p.parameters q.1
  facts : p.facts.Shows W q.2
  same : p.changed = false → q.1.map Node.outline = ns.map Node.outline

namespace LoweringContext

/-! ## Parameter lists -/

/-- **A parameter reduced to its name looks like the draft of one.** -/
theorem follows_eraseParameter (hn : n.Held W) :
    Follows W (eraseParameter n) (Draft.eraseParameter n.outline) Node.Shows := by
  unfold eraseParameter Draft.eraseParameter
  refine .viewHeld hn (fun p hk hs hparts => ?_)
  dsimp only
  split
  · rename_i hplain
    have hplain' : ((p.question = none ∧ p.type = none) ∧ p.value = none) ∧ p.dots = none ∧ p.access = none := by
      simpa [Bool.or_eq_false_iff] using hplain
    obtain ⟨⟨⟨hquestion, htype⟩, hvalue⟩, hdots, haccess⟩ := hplain'
    rw [Draft.make_eq_pure]
    refine .pure ⟨hn.known, ?_⟩
    rw [n.outline_eq, hs, hk, OutlineView.toSlots_outline]
    show Node.mk 0 .parameter (NodeView.toSlots (OutlineView.outline p)) = (Node.mk 0 .parameter _).outline
    rw [Node.outline_mk]
    simp only [OutlineView.outline, NodeView.toSlots, hquestion, htype, hvalue, hdots, haccess]
    rfl
  · refine .lay records_tokenWithTrivia (fun W₁ h₁ name hname => .lift (Build.draws_parameter hname.bare))

theorem follows_defaultValue (p : Parameter) (hvalue : ∀ m ∈ p.value, m.Held W) :
    Follows W (defaultValue? p) (Draft.defaultValue? (OutlineView.outline p)) (fun W' =>
      List.Forall₂ (fun d d' => d.name.Shows W' d'.name ∧ d.value.Held W' ∧ d'.value = d.value.outline)) := by
  unfold defaultValue? Draft.defaultValue?
  refine (Follows.viewOption hvalue).bind (fun W₁ h₁ clause clause' hclause => ?_)
  obtain ⟨rfl, hparts⟩ := hclause
  cases clause with
  | none => exact .pure .nil
  | some clause =>
    have hclause := hparts clause rfl
    simp only [NodeView.toSlots, List.forall_mem_cons, Slot.held_node] at hclause
    obtain ⟨-, hvalue, -⟩ := hclause
    exact .lay records_bareToken (fun W₂ h₂ name hn => .pure (.cons ⟨hn.bare, hvalue.up (by order), rfl⟩ .nil))

theorem records_property (p : Parameter) :
    Records W (property? p) (fun W' ts => Token.AllShow W' ts (Draft.property? (OutlineView.outline p))) := by
  unfold property? Draft.property?
  simp only [OutlineView.outline, Option.isSome_map]
  split
  · exact records_bareToken.map (fun _ _ _ ht => .cons ht.bare .nil)
  · exact .pure .nil

theorem follows_parametersFrom : ∀ {index : Nat} {ns : List Node} {W : Registry}, (∀ n ∈ ns, n.Held W) →
    Follows W (parametersFrom index ns) (Draft.parametersFrom index (ns.map Node.outline))
      (fun W' => LoweredParameters.Shows W' ns)
  | _, [], _, _ => .pure ⟨.nil, ParameterFacts.shows_none, fun _ => rfl⟩
  | index, n :: ns, W, hns => by
    obtain ⟨hn, hrest⟩ := List.forall_mem_cons.1 hns
    unfold parametersFrom
    rw [List.map_cons]
    unfold Draft.parametersFrom
    refine .viewHeld hn (fun p hk hs hparts => ?_)
    simp only [NodeView.toSlots, List.forall_mem_cons, Slot.held_token, Slot.held_ofNode?] at hparts
    obtain ⟨-, -, -, -, -, hvalue, -⟩ := hparts
    rw [show (OutlineView.outline p).dots.isSome = p.dots.isSome from Option.isSome_map]
    split
    · refine .lay records_bareToken (fun W₁ h₁ name hn => .pure ⟨.nil, ⟨.nil, .some ⟨hn.bare, rfl⟩, .nil⟩, fun hc => ?_⟩)
      cases hc
    · refine (follows_defaultValue p hvalue).bind (fun W₁ h₁ defaults defaults' hd => ?_)
      refine .lay (records_property p) (fun W₂ h₂ properties hp => ?_)
      refine (follows_eraseParameter (hn.up (by order))).bind (fun W₃ h₃ erased erased' he => ?_)
      refine (follows_parametersFrom (fun m hm => (hrest m hm).up (by order))).bind (fun W₄ h₄ rest rest' hr => ?_)
      refine .pure ⟨.cons (he.up (by order)) hr.parameters, ⟨?_, hr.facts.rest, ?_⟩, fun hc => ?_⟩
      · exact List.rel_append (hd.imp (fun _ _ hd => ⟨hd.1.up (by order), hd.2.1.up (by order), hd.2.2⟩))
          hr.facts.defaults
      · exact List.rel_append (hp.up (by order)) hr.facts.properties
      · obtain ⟨hid, hunchanged⟩ : erased.isSame n = true ∧ rest.changed = false := by simpa using hc
        show (erased' :: rest'.1).map Node.outline = _
        rw [List.map_cons, List.map_cons, hr.same hunchanged, ← he.outline,
          he.known.outline_eq (hn.known.up (by order)) (eq_of_beq hid)]

/-- **A list of parameters looks like its draft**; it is new if a type stood behind it. -/
theorem follows_parameterList (hn : n.Held W) (resultType : Option Node) :
    Follows W (parameterList n resultType) (Draft.parameterList n.outline) (fun W' p q =>
      (p.1.Shows W' q.1 ∧ (resultType.isSome = true → W.next ≤ p.1.id)) ∧ p.2.Shows W' q.2) := by
  unfold parameterList Draft.parameterList
  refine .viewHeld hn (fun v hk hs hparts => ?_)
  have harity : v.parameters.members = [] ∧ v.parameters.separators = [] ∨
      v.parameters.members.length = v.parameters.separators.length + 1 := by
    obtain ⟨v', -, hs', -, hstands, -⟩ := hn.stands.parameterList hk
    have hv : v = v' := Option.some.inj (by
      rw [← NodeView.ofSlots?_toSlots v, ← hs, hs', NodeView.ofSlots?_toSlots])
    rw [hv]
    exact hstands.arity
  simp only [NodeView.toSlots, List.forall_mem_cons, Slot.held_token, Slot.held_separated] at hparts
  obtain ⟨hopen, ⟨hmembers, hseparators⟩, hclose, -⟩ := hparts
  refine (follows_parametersFrom hmembers).bind (fun W₁ h₁ p q hp => ?_)
  obtain ⟨parameters', facts'⟩ := q
  have hlength : p.parameters.length = parameters'.length := hp.parameters.length_eq
  dsimp only
  split
  · rename_i hsame
    obtain ⟨hresult, hunchanged⟩ : resultType = none ∧ p.changed = false := by simpa using hsame
    subst hresult
    rw [Draft.make_eq_pure, pure_bind]
    -- The list that was there comes back, so the draft, which builds one in any case, must build its outline.
    have hlength' : parameters'.length = v.parameters.members.length := by
      simpa using congrArg List.length (hp.same hunchanged)
    have htake : v.parameters.separators.take (v.parameters.members.length - 1) = v.parameters.separators := by
      refine List.take_of_length_le ?_
      rcases harity with ⟨-, hnil⟩ | harity
      · rw [hnil]; exact Nat.zero_le _
      · omega
    refine .pure ⟨⟨⟨hn.known.up (by order), ?_⟩, fun hc => by cases hc⟩, hp.facts⟩
    rw [n.outline_eq, hs, hk, OutlineView.toSlots_outline]
    show Node.mk 0 .parameterList (NodeView.toSlots (OutlineView.outline v)) = (Node.mk 0 .parameterList _).outline
    rw [Node.outline_mk, hlength']
    simp only [OutlineView.outline, NodeView.toSlots, List.map_cons, List.map_nil, Slot.outline_token,
      Slot.outline_separated, SeparatedNodes.outline, hp.same hunchanged, ← List.map_take, htake, List.map_map]
    rfl
  · have htake : Token.AllShow W₁ (v.parameters.separators.take (p.parameters.length - 1))
        ((OutlineView.outline v).parameters.separators.take (parameters'.length - 1)) := by
      show Token.AllShow W₁ _ ((v.parameters.separators.map Token.outline).take _)
      rw [hlength, ← List.map_take]
      exact Token.AllShow.ofKnown (fun t ht => (hseparators t (List.mem_of_mem_take ht)).up (by order))
    -- The closing parenthesis takes what stood behind the type, if one did; the list is built of it alike.
    have hlist : ∀ W₂, W₁ ≤ W₂ → ∀ closeParen : Token, closeParen.Shows W₂ v.closeParen.outline →
        Follows W₂ (do
          let list ← NodeView.toNode (ParameterList.mk v.openParen
            ⟨p.parameters, v.parameters.separators.take (p.parameters.length - 1)⟩ closeParen)
          return (list, p.facts) : Lowering (Node × ParameterFacts))
          (do
            let list ← Draft.make (NodeView.toNode (ParameterList.mk (OutlineView.outline v).openParen
              ⟨parameters', (OutlineView.outline v).parameters.separators.take (parameters'.length - 1)⟩
              (OutlineView.outline v).closeParen))
            return (list, facts')) (fun W' p q =>
          (p.1.Shows W' q.1 ∧ (resultType.isSome = true → W.next ≤ p.1.id)) ∧ p.2.Shows W' q.2) := by
      intro W₂ h₂ closeParen hc
      refine .make (draws_toNode (.cons (hopen.up (by order)).shows.slot <|
        .cons (Slot.shows_separated (hp.parameters.up (by order)) (htake.up (by order))) <| .cons hc.slot .nil) rfl)
          (fun W₃ h₃ m m' hm => ?_)
      have hle : W.next ≤ W₂.next := Registry.next_le (h₁.trans h₂)
      exact .pure ⟨⟨hm.1, fun _ => hle.trans hm.2⟩, hp.facts.up (by order)⟩
    cases resultType with
    | none => exact hlist W₁ le_rfl _ (hclose.up (by order)).shows
    | some annotation => exact .lay records_tokenWithTrailing (fun W₂ h₂ closeParen hc => hlist W₂ h₂ _ hc.bare)

/-! ## What the body does -/

variable {c : LoweringContext} {t t' : Token} {m m' : Node}

theorem draws_isUndefined (h : t.Shows W t') : Draws W (isUndefined t) (isUndefined t') Node.Shows :=
  (Build.draws_nameExpression h).bind (fun _ _ _ _ hname => (Build.draws_prefixUnary _ hname).bind
    (fun _ _ _ _ hoperand => (Build.draws_stringLiteral _).bind (fun _ _ _ _ htext =>
      Build.draws_binary _ (hoperand.up (by order)) htext)))

theorem draws_ifStatement (h : n.Shows W m) {b b' : Node} (hb : b.Shows W b') :
    Draws W (Build.ifStatement n b) (Build.ifStatement m b') Node.Shows :=
  (Build.draws_wordThenSpace .ifKw).bind (fun _ _ _ _ hword => (Build.draws_mark .openParen).bind
    (fun _ _ _ _ hopen => (Build.draws_markThenSpace .closeParen).bind (fun _ _ _ _ hclose =>
      draws_node (.cons (hword.up (by order)).slot <| .cons (hopen.up (by order)).slot <|
        .cons (h.up (by order)).slot <| .cons hclose.slot <|
        .cons (hb.up (by order)).slot <| .cons Slot.shows_absent .nil) rfl)))

theorem draws_setDefault (h : t.Shows W t') (hm : m.Shows W m') :
    Draws W (setDefault t m) (Draft.setDefault t' m') Node.Shows := by
  unfold setDefault Draft.setDefault
  refine (draws_isUndefined h).bind (fun W₁ h₁ condition condition' hcondition => ?_)
  refine (Build.draws_nameExpression (h.up (by order))).bind (fun W₂ h₂ name name' hname => ?_)
  refine (Build.draws_assignment hname (hm.up (by order))).bind (fun W₃ h₃ assignment assignment' ha => ?_)
  refine (Build.draws_expressionStatement ha).bind (fun W₄ h₄ statement statement' hs => ?_)
  refine .left (records_withTrailing hs) (fun W₅ h₅ moved hmoved => ?_)
  refine (Build.draws_markThenSpace _).bind (fun W₆ h₆ openBrace openBrace' hopen => ?_)
  refine (Build.draws_mark _).bind (fun W₇ h₇ closeBrace closeBrace' hclose => ?_)
  refine (Build.draws_block (hopen.up (by order)) (.cons (hmoved.up (by order)) .nil) hclose).bind
    (fun W₈ h₈ block block' hblock => ?_)
  exact draws_ifStatement (hcondition.up (by order)) hblock

theorem draws_argumentCounter : Draws W argumentCounter argumentCounter Node.Shows := Build.draws_name _

theorem draws_copyArgument {r r' : RestParameter} (h : r.name.Shows W r'.name) (hindex : r.index = r'.index) :
    Draws W (copyArgument r) (copyArgument r') Node.Shows := by
  have hcopy : ∀ W', W ≤ W' → ∀ target target' : Node, target.Shows W' target' →
      Draws W' (do
        let left ← Build.elementAccess (← Build.nameExpression r.name) target
        let right ← Build.elementAccess (← Build.name "arguments".toList) (← argumentCounter)
        Build.expressionStatement (← Build.assignment left right))
        (do
        let left ← Build.elementAccess (← Build.nameExpression r'.name) target'
        let right ← Build.elementAccess (← Build.name "arguments".toList) (← argumentCounter)
        Build.expressionStatement (← Build.assignment left right)) Node.Shows := by
    intro W₁ h₁ target target' ht
    refine (Build.draws_nameExpression (h.up (by order))).bind (fun W₂ h₂ name name' hname => ?_)
    refine (Build.draws_elementAccess hname (ht.up (by order))).bind (fun W₃ h₃ left left' hleft => ?_)
    refine (Build.draws_name _).bind (fun W₄ h₄ arguments arguments' ha => ?_)
    refine draws_argumentCounter.bind (fun W₅ h₅ counter counter' hc => ?_)
    refine (Build.draws_elementAccess (ha.up (by order)) hc).bind (fun W₆ h₆ right right' hright => ?_)
    exact (Build.draws_assignment (hleft.up (by order)) hright).bind
      (fun _ _ _ _ ha => Build.draws_expressionStatement ha)
  unfold copyArgument
  rw [hindex]
  dsimp only
  split
  · exact draws_argumentCounter.bind (fun W₁ h₁ _ _ ht => hcopy W₁ h₁ _ _ ht)
  · refine draws_argumentCounter.bind (fun W₁ h₁ counter counter' hcounter => ?_)
    refine (Build.draws_numericLiteral _).bind (fun W₂ h₂ number number' hnumber => ?_)
    exact (Build.draws_binary _ (hcounter.up (by order)) hnumber).bind (fun W₃ h₃ _ _ ht =>
      hcopy W₃ (h₁.trans (h₂.trans h₃)) _ _ ht)

theorem draws_argumentLoop (index : Nat) (h : n.Shows W m) :
    Draws W (argumentLoop index n) (argumentLoop index m) Node.Shows := by
  unfold argumentLoop
  refine (Build.draws_numericLiteral _).bind (fun W₁ h₁ first first' hfirst => ?_)
  refine (Build.draws_identifier _).bind (fun W₂ h₂ name name' hname => ?_)
  refine (Build.draws_variableDeclaration hname (.some (hfirst.up (by order)))).bind
    (fun W₃ h₃ declaration declaration' hd => ?_)
  refine (Build.draws_name _).bind (fun W₄ h₄ arguments arguments' ha => ?_)
  refine (Build.draws_memberPath _ ha).bind (fun W₅ h₅ count count' hcount => ?_)
  refine draws_argumentCounter.bind (fun W₆ h₆ counter counter' hcounter => ?_)
  refine (Build.draws_binary _ hcounter (hcount.up (by order))).bind (fun W₇ h₇ condition condition' hcondition => ?_)
  refine draws_argumentCounter.bind (fun W₈ h₈ counter counter' hcounter => ?_)
  refine (Build.draws_postfixUnary _ hcounter).bind (fun W₉ h₉ step step' hstep => ?_)
  refine (Build.draws_wordThenSpace _).bind (fun V₁ k₁ word word' hword => ?_)
  refine (Build.draws_mark _).bind (fun V₂ k₂ openParen openParen' hopen => ?_)
  refine (Build.draws_markThenSpace _).bind (fun V₃ k₃ semicolon semicolon' hsemicolon => ?_)
  refine (Build.draws_markThenSpace _).bind (fun V₄ k₄ semicolon₂ semicolon₂' hsemicolon₂ => ?_)
  refine (Build.draws_markThenSpace _).bind (fun V₅ k₅ closeParen closeParen' hclose => ?_)
  exact draws_node (.cons (hword.up (by order)).slot <| .cons (hopen.up (by order)).slot <|
    .cons (hd.up (by order)).slot <| .cons Slot.shows_absent <|
    .cons (hsemicolon.up (by order)).slot <| .cons (hcondition.up (by order)).slot <|
      .cons (hsemicolon₂.up (by order)).slot <| .cons (hstep.up (by order)).slot <|
    .cons hclose.slot <| .cons (h.up (by order)).slot .nil) rfl

/-- What is done with statements between braces. -/
theorem draws_braced {α β : Type} {R : Registry → α → β → Prop} {f : Node → Fresh α} {f' : Node → Fresh β}
    (h : Node.AllShow W ns ns') (trailing leading : TriviaList)
    (hf : ∀ W', W ≤ W' → ∀ b b' : Node, b.Shows W' b' → Draws W' (f b) (f' b') R) :
    Draws W (do f (← Build.block (← Build.openBrace trailing) ns (← Build.closeBrace leading)))
      (Draft.braced ns' >>= f') R := by
  unfold Draft.braced
  simp only [bind_assoc]
  refine (Build.draws_openBrace _ _).bind (fun W₁ h₁ _ _ hopen => ?_)
  refine (Build.draws_closeBrace _ _).bind (fun W₂ h₂ _ _ hclose => ?_)
  exact (Build.draws_block (hopen.up (by order)) (h.up (by order)) hclose).bind
    (fun W₃ h₃ _ _ hb => hf W₃ (h₁.trans (h₂.trans h₃)) _ _ hb)

theorem draws_restStatements {r r' : RestParameter} (h : r.name.Shows W r'.name) (hindex : r.index = r'.index)
    (column : Nat) : Draws W (c.restStatements column r) (Draft.restStatements r') Node.AllShow := by
  unfold restStatements Draft.restStatements
  refine (Build.draws_arrayLiteral .nil).bind (fun W₁ h₁ array array' harray => ?_)
  refine (Build.draws_variableStatement (h.up (by order)) (.some harray)).bind
    (fun W₂ h₂ declaration declaration' hd => ?_)
  refine (draws_copyArgument (h.up (by order)) hindex).bind (fun W₃ h₃ copy copy' hcopy => ?_)
  refine .left (records_statementAt hcopy) (fun W₄ h₄ placed hplaced => ?_)
  refine draws_braced (.cons hplaced .nil) _ _ (fun W₅ h₅ body body' hbody => ?_)
  refine .left (records_statementAt (hd.up (by order))) (fun W₆ h₆ declared hdeclared => ?_)
  rw [hindex]
  refine (draws_argumentLoop _ (hbody.up (by order))).bind (fun W₇ h₇ loop loop' hloop => ?_)
  exact .left (records_statementAt hloop) (fun W₈ h₈ looped hlooped =>
    .pure (.cons (hdeclared.up (by order)) <| .cons hlooped .nil))

namespace Drafted

variable {visit : Node → Draft Replacement} (h : c.Drafted visit)

include h

theorem defaultValueStatement (column : Nat) {d d' : DefaultValue} (hname : d.name.Shows W d'.name)
    (hvalue : d.value.Held W) (hsame : d'.value = d.value.outline) :
    Follows W (c.defaultValueStatement column d) (Draft.defaultValueStatement visit d') Node.Shows := by
  unfold LoweringContext.defaultValueStatement Draft.defaultValueStatement
  rw [hsame]
  refine (h.lower hvalue).bind (fun W₁ h₁ value value' hv => ?_)
  refine .lay (records_bare hv) (fun W₂ h₂ bare hbare => ?_)
  refine .aside (follows_reindent _ _ hbare) (fun W₃ h₃ moved hmoved => ?_)
  exact .makeThenLay (draws_setDefault (hname.up (by order)) hmoved) (fun _ _ _ _ hs => records_statementAt hs)

/-- **The statements in front of a body look like their draft.** -/
theorem parameterPrologue (column : Nat) {facts facts' : ParameterFacts} (hfacts : facts.Shows W facts') :
    Follows W (c.parameterPrologue facts column) (Draft.parameterPrologue visit facts') Node.AllShow := by
  unfold LoweringContext.parameterPrologue Draft.parameterPrologue
  refine (Follows.mapM (R := Node.Shows) (fun _ _ hle _ _ hm => hm.up hle) hfacts.defaults
    (fun d d' hd W' hle => h.defaultValueStatement column (hd.1.up hle) (hd.2.1.up hle) hd.2.2)).bind
    (fun W₁ h₁ defaults defaults' hd => ?_)
  have hrest := hfacts.rest
  generalize facts.rest = r at hrest
  generalize facts'.rest = r' at hrest
  cases hrest with
  | none => exact .pure hd
  | some hr =>
    exact .make (draws_restStatements (hr.1.up (by order)) hr.2 column) (fun W₂ h₂ rest rest' hrest =>
      .pure (List.rel_append (Node.AllShow.up hd (by order)) hrest))

end Drafted

end LoweringContext

end Downlevel
