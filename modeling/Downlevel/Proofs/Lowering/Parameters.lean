import Downlevel.Proofs.Lowering.Erasure
/-!
# Proofs.Lowering.Parameters — parameters reduced to their names

A lowered list of parameters is plain, and it is the list that was there only if nothing was dropped
(`ends_parameterList`).  What it leaves for the body are the default values that a function sets, and the statements for
them are made if the values are intact (`ends_parameterPrologue`).
-/
namespace Downlevel

/-- What is left for the body may be used in it. -/
structure ParameterFacts.Stands (L : Demand) (k : Nat) (facts : ParameterFacts) : Prop where
  names : ∀ d ∈ facts.defaults, d.name.Meets L k
  values : ∀ d ∈ facts.defaults, d.value.Given L .expression k
  rest : ∀ r, facts.rest = some r → r.name.Meets L k
  properties : ∀ t ∈ facts.properties, t.Meets L k

theorem ParameterFacts.Stands.up {L : Demand} {i k : Nat} {facts : ParameterFacts}
    (h : facts.Stands L i) (hi : i ≤ k) : facts.Stands L k :=
  ⟨fun d hd => (h.names d hd).up (by omega), fun d hd => (h.values d hd).up (by omega), fun r hr =>
    (h.rest r hr).up (by omega),
    fun t ht => (h.properties t ht).up (by omega)⟩

theorem ParameterFacts.Stands.none {L : Demand} {k : Nat} : ParameterFacts.none.Stands L k :=
  ⟨fun _ hd => (by cases hd), fun _ hd => (by cases hd), fun _ hr => (by cases hr), fun _ ht => by cases ht⟩

/-- What became of parameters in a row. -/
structure LoweredParameters.Fits (L : Demand) (ns : List Node) (k : Nat) (r : LoweredParameters) :
    Prop where
  parameters : ∀ m ∈ r.parameters, m.Plain L (.only .parameter) k
  length : r.parameters.length ≤ ns.length
  same : r.changed = false → r.parameters = ns
  facts : r.facts.Stands L k
  values : r.facts.defaults.map DefaultValue.value = Node.defaultValues ns

/-- A tree of which every node has an allowed form is sound. -/
theorem Node.Sound.reform {F F' : Node → Prop} {L : Demand} {k : Nat} {n : Node} (h : n.Sound F L k)
    (h' : n.Every F') : n.Sound F' L k :=
  fun m hm => ⟨(h m hm).id_lt, (h m hm).fits, h' m hm, (h m hm).tokens⟩

/-- A node whose children are plain is plain if its form is. -/
theorem Node.Stands.plain {F : Node → Prop} {L : Demand} {c : NodeClass} {j k : Nat} {n : Node} (h : n.Stands F L c k)
    (hform : PlainForm n) (hchildren : ∀ m ∈ n.children, m.Sound PlainForm L j) (hk : k ≤ j) :
    n.Plain L c j := by
  refine ⟨h.kind, (h.sound.up (by omega)).reform (Node.every_iff.2 ⟨hform, fun m hm => ?_⟩)⟩
  exact Node.Every.mono (hchildren m hm) (fun _ hm => hm.form)

/-- A node of a tree that is given is the tree if it is the same object. -/
theorem Node.Stands.eq_of_back {L : Demand} {c : NodeClass} {i k : Nat} {n m : Node} (h : n.Given L c k)
    (hm : m ∈ n.all ∨ i ≤ m.id) (hsame : m.isSame n = true) (hi : k ≤ i) : m = n := by
  rcases hm with hm | hnew
  · exact h.form.apart m hm (eq_of_beq hsame)
  · exact absurd (Nat.lt_of_lt_of_le h.id_lt hi) (Nat.not_lt.2 (eq_of_beq hsame ▸ hnew))

/-- Parts of a tree that is given are no other parts of it if they are the same object. -/
theorem Node.Stands.eq_of_renews {F : Node → Prop} {L : Demand} {c : NodeClass} {k : Nat} {n m : Node}
    (h : n.Stands F L c k) (hm : m.Renews k n) (hsame : m.isSame n = true) : m = n :=
  hm.resolve_right (fun hnew => absurd h.id_lt (Nat.not_lt.2 (eq_of_beq hsame ▸ hnew)))

namespace LoweringContext

variable {c : LoweringContext} {L : Demand} {i k levels : Nat} {cl : NodeClass} {n : Node}

/-! ## Parameter lists -/

/-- **A parameter becomes its name**, and stays the same object only if it was nothing else. -/
theorem ends_eraseParameter (hn : n.Given L (.only .parameter) k) :
    Ends IsRefusal k (eraseParameter n) True (fun j m => m.Plain L (.only .parameter) j ∧ m.Renews k n) := by
  obtain ⟨v, hv, hs, hdots, haccess, hname, hquestion, htype, hvalue⟩ := hn.parameter hn.kind_eq
  unfold eraseParameter
  rw [Lowering.view_eq hv, pure_bind]
  dsimp only
  split
  · rename_i hbare
    simp only [Bool.and_eq_true, Bool.not_eq_true', Bool.or_eq_false_iff, Option.isSome_eq_false_iff,
      Option.isNone_iff_eq_none] at hbare
    obtain ⟨⟨⟨hnoQuestion, hnoType⟩, hnoValue⟩, hnoDots, hnoAccess⟩ := hbare
    have hform : PlainForm n := by
      simp [PlainForm, Node.isDialectForm, hn.kind_eq, Node.has_eq, hs, NodeView.toSlots, hnoQuestion, hnoType,
        hnoValue, hnoDots, hnoAccess]
    have hchildren : n.children = [] := by
      simp [Node.children, hs, NodeView.toSlots, hnoType, hnoValue]
    exact .pure (fun j hj => ⟨hn.plain hform (fun m hm => by rw [hchildren] at hm; cases hm) (by omega),
      .inl rfl⟩)
  -- The trivia of each modifier that is left out goes to what stands behind it.
  · have hleading : ∀ (modifiers : List Token) (next : TriviaList), (∀ t ∈ modifiers, t.Meets L k) → next.Meets L →
        (modifiers.foldl (fun leading modifier => modifier.leadingWithout leading) next).Meets L := by
      intro modifiers
      induction modifiers with
      | nil => exact fun _ _ hnext => hnext
      | cons t ts ih =>
        intro next hts hnext
        exact ih _ (fun u hu => hts u (List.mem_cons_of_mem _ hu))
          (Token.leadingWithout_meets (hts t (List.mem_cons_self ..)) hnext)
    have hmodifiers : ∀ t ∈ [v.access, v.dots].filterMap id, t.Meets L k := fun t ht => by
      obtain ⟨o, ho, hot⟩ := List.mem_filterMap.1 ht
      rcases List.mem_cons.1 ho with rfl | ho
      · exact haccess t hot
      · rw [List.mem_singleton.1 ho] at hot
        exact hdots t hot
    have htrailing : (if (v.question.isSome || v.type.isSome || v.value.isSome) = true
        then v.name.trailing.afterErasure n.trailing else v.name.trailing).Meets L := by
      split
      · exact hname.trailing.afterErasure hn.trailing
      · exact hname.trailing
    refine .make (makes_tokenWithTrivia hname (hleading _ _ hmodifiers hname.leading) htrailing) (fun j hj t ht => ?_)
    exact .lift (((Build.makes_parameter ht (by omega)).and makes_new).mono (fun _ _ m hm => ⟨hm.1, .inr (by omega)⟩))

theorem viewOption_clause {o : Option Node} (h : ∀ m, o = some m → m.Given L (.only .equalsValueClause) k) :
    ∃ clause : Option EqualsValueClause, Lowering.viewOption EqualsValueClause o = pure clause ∧
      (clause.map EqualsValueClause.value).toList = Node.clauseValue o ∧
      ∀ v, clause = some v → v.value.Given L .expression k := by
  cases o with
  | none => exact ⟨none, rfl, rfl, fun v hv => by cases hv⟩
  | some m =>
    have hm := h m rfl
    obtain ⟨v, hv, hs, -, hvalue⟩ := hm.equalsValueClause hm.kind_eq
    refine ⟨some v, ?_, ?_, ?_⟩
    · rw [Lowering.viewOption_eq (fun n hn => by cases hn; exact ⟨v, hv⟩), Option.bind_some, hv]
    · simp [Node.clauseValue, hv]
    · rintro v' ⟨⟩
      exact hvalue

theorem ends_defaultValue {v : Parameter} (hname : v.name.Meets L k)
    (hclause : ∀ m, v.value = some m → m.Given L (.only .equalsValueClause) k) :
    Ends IsRefusal k (defaultValue? v) True (fun j ds =>
      (∀ d ∈ ds, d.name.Meets L j ∧ d.value.Given L .expression j) ∧
        ds.map DefaultValue.value = Node.clauseValue v.value) := by
  obtain ⟨clause, hview, hvalue, hgiven⟩ := viewOption_clause hclause
  unfold defaultValue?
  rw [hview, pure_bind]
  cases clause with
  | none => exact .pure (fun j hj => ⟨fun _ hd => (by cases hd), hvalue⟩)
  | some w =>
    refine .make (makes_bareToken hname) (fun j hj t ht => .pure (fun l hl => ⟨fun d hd => ?_, hvalue⟩))
    rw [List.mem_singleton.1 hd]
    exact ⟨ht.up (by omega), (hgiven w rfl).up (by omega)⟩

theorem makes_property {v : Parameter} (hname : v.name.Meets L k) :
    Makes k (property? v) (fun j ts => ∀ t ∈ ts, t.Meets L j) := by
  unfold property?
  split
  · refine (makes_bareToken hname).bindPure (fun j hj t ht u hu => ?_)
    exact List.mem_singleton.1 hu ▸ ht
  · exact .pure (fun _ _ _ ht => by cases ht)

/-- **Parameters become their names**, one after the other. -/
theorem ends_parametersFrom : ∀ {ns : List Node} {index k : Nat}, (∀ n ∈ ns, n.Given L (.only .parameter) k) →
    Ends IsRefusal k (parametersFrom index ns) True (fun j r => r.Fits L ns j)
  | [], index, k, _ =>
    .pure (fun _ _ => ⟨fun _ hm => (by cases hm), Nat.le_refl _, fun _ => rfl, .none, rfl⟩)
  | n :: ns, index, k, h => by
    have hn : n.Given L (.only .parameter) k := h n (List.mem_cons_self ..)
    obtain ⟨v, hv, hs, hdots, haccess, hname, hquestion, htype, hvalue⟩ := hn.parameter hn.kind_eq
    unfold parametersFrom
    rw [Lowering.view_eq hv, pure_bind]
    split
    -- A rest parameter is the last one that is looked at; the body fills it from the arguments.
    · rename_i hrest
      refine .make (makes_bareToken hname) (fun j hj t ht => .pure (fun l hl => ?_))
      refine ⟨fun _ hm => (by cases hm), Nat.zero_le _, fun hc => (by cases hc), ?_, ?_⟩
      · exact ⟨fun _ hd => (by cases hd), fun _ hd => (by cases hd), fun r hr => (by cases hr; exact ht.up (by omega)),
          fun _ ht => by cases ht⟩
      · simp [Node.defaultValues, hv, hrest]
    · rename_i hrest
      refine (ends_defaultValue hname hvalue).sureThen (fun i₁ h₁ defaults hdefaults => ?_)
      refine .make (makes_property (hname.up (by omega))) (fun i₂ h₂ properties hproperties => ?_)
      refine (ends_eraseParameter (hn.up (k := i₂) (by omega))).sureThen (fun i₃ h₃ erased herased => ?_)
      have hothers : ∀ m ∈ ns, m.Given L (.only .parameter) i₃ := fun m hm =>
        (h m (List.mem_cons_of_mem _ hm)).up (by omega)
      refine (ends_parametersFrom hothers).sureThen (fun i₄ h₄ rest hfits => .pure (fun l hl => ?_))
      refine ⟨?_, Nat.succ_le_succ hfits.length, fun hc => ?_, ?_, ?_⟩
      · exact List.forall_mem_cons.2 ⟨herased.1.up (by omega), fun m hm => (hfits.parameters m hm).up (by omega)⟩
      · obtain ⟨hsame, hsames⟩ : erased.isSame n = true ∧ rest.changed = false := by simpa using hc
        exact congr_arg₂ List.cons ((hn.up (k := i₂) (by omega)).eq_of_renews herased.2 hsame) (hfits.same hsames)
      · refine ⟨fun d hd => ?_, fun d hd => ?_, fun r hr => (hfits.facts.rest r hr).up (by omega), fun t ht => ?_⟩
        · rcases List.mem_append.1 hd with hd | hd
          · exact (hdefaults.1 d hd).1.up (by omega)
          · exact (hfits.facts.names d hd).up (by omega)
        · rcases List.mem_append.1 hd with hd | hd
          · exact (hdefaults.1 d hd).2.up (by omega)
          · exact (hfits.facts.values d hd).up (by omega)
        · rcases List.mem_append.1 ht with ht | ht
          · exact (hproperties t ht).up (by omega)
          · exact (hfits.facts.properties t ht).up (by omega)
      · simp [Node.defaultValues, hv, hrest, hdefaults.2, hfits.values]

/-- What became of a list of parameters in front of a type of the result. -/
structure ListFits (L : Demand) (list : Node) (resultType : Option Node) (k j : Nat)
    (r : Node × ParameterFacts) : Prop where
  plain : r.1.Plain L (.only .parameterList) j
  renews : r.1.Renews k list
  same : r.1.isSame list = true → r.1 = list ∧ resultType = none
  facts : r.2.Stands L j
  values : r.2.defaults.map DefaultValue.value = list.listedDefaults

/-- **A list of parameters loses what is no name**, and stays the same object only if it loses nothing. -/
theorem ends_parameterList {list : Node} {resultType : Option Node}
    (hlist : list.Given L (.only .parameterList) k)
    (htype : ∀ m, resultType = some m → m.Stands GivenForm L (.only .typeClause) k) :
    Ends IsRefusal k (parameterList list resultType) True (fun j r => ListFits L list resultType k j r) := by
  obtain ⟨v, hv, hs, hopen, hparameters, hclose⟩ := hlist.parameterList hlist.kind_eq
  unfold parameterList
  rw [Lowering.view_eq hv, pure_bind]
  refine (ends_parametersFrom hparameters.members).sureThen (fun j hj lowered hfits => ?_)
  have hvalues : lowered.facts.defaults.map DefaultValue.value = list.listedDefaults :=
    hfits.values.trans (Node.partsAs_eq hv (fun v => Node.defaultValues v.parameters.members)).symm
  split
  · rename_i hkept
    simp only [Bool.not_eq_true', Bool.or_eq_false_iff, Option.isSome_eq_false_iff, Option.isNone_iff_eq_none] at hkept
    obtain ⟨hnoType, hsame⟩ := hkept
    have hform : PlainForm list := by simp [PlainForm, Node.isDialectForm, hlist.kind_eq]
    have hplain : ∀ l, j ≤ l → list.Plain L (.only .parameterList) l := fun l hl => by
      refine hlist.plain hform (fun m hm => ?_) (by omega)
      have hm' : m ∈ lowered.parameters := by
        rw [hfits.same hsame]
        simpa [Node.children, hs, NodeView.toSlots] using hm
      exact (hfits.parameters m hm').sound.up (by omega)
    exact .pure (fun l hl => ⟨hplain l hl, .inl rfl, fun _ => ⟨rfl, hnoType⟩, hfits.facts.up (by omega), hvalues⟩)
  · have hseparators : ∀ t ∈ v.parameters.separators.take (lowered.parameters.length - 1), t.Meets L k := fun t ht =>
      hparameters.separators t (List.mem_of_mem_take ht)
    -- With a rest parameter gone, as many separators are left as the names that are left need.
    have harity : lowered.parameters = [] ∧ v.parameters.separators.take (lowered.parameters.length - 1) = [] ∨
        lowered.parameters.length = (v.parameters.separators.take (lowered.parameters.length - 1)).length + 1 := by
      have hlength := hfits.length
      rcases List.eq_nil_or_concat lowered.parameters with hnil | ⟨_, _, hcons⟩
      · rw [hnil]
        exact .inl ⟨rfl, rfl⟩
      · have hpos : 0 < lowered.parameters.length := by rw [hcons]; simp
        have hcount : v.parameters.members.length = v.parameters.separators.length + 1 :=
          hparameters.arity.resolve_left (fun h => by rw [h.1, List.length_nil] at hlength; omega)
        rw [List.length_take]
        exact .inr (by omega)
    have hrest : ∀ i, j ≤ i → ∀ closeParen : Token, closeParen.Meets L i →
        Ends IsRefusal i (do
          let made ← NodeView.toNode (ParameterList.mk v.openParen
            ⟨lowered.parameters, v.parameters.separators.take (lowered.parameters.length - 1)⟩ closeParen)
          return (made, lowered.facts) : Lowering (Node × ParameterFacts)) True
          (fun l r => ListFits L list resultType k l r) := by
      intro i hi closeParen hcloseParen
      have hslot : Slot.Stands PlainForm L i (.separated (.only .parameter)) (.separated lowered.parameters
          (v.parameters.separators.take (lowered.parameters.length - 1))) :=
        Slot.stands_separated.2 ⟨fun m hm => (hfits.parameters m hm).up (by omega), fun t ht =>
          (hseparators t ht).up (by omega), harity⟩
      have hnode : Slot.Row PlainForm L i NodeKind.parameterList.sorts (NodeView.toSlots (ParameterList.mk v.openParen
          ⟨lowered.parameters, v.parameters.separators.take (lowered.parameters.length - 1)⟩ closeParen)) :=
        .cons (hopen.slot (by omega)) (.cons hslot (.cons (hcloseParen.slot (by omega)) .nil))
      refine .make ((makes_node (c := .only .parameterList) hnode (fun _ => rfl) rfl).and makes_new)
        (fun l hl m hm => .pure (fun l' hl' => ?_))
      have hnew : k ≤ m.id := Nat.le_trans (Nat.le_trans hj hi) hm.2
      refine ⟨hm.1.up (by omega), .inr hnew, fun hsame => ?_, hfits.facts.up (by omega), hvalues⟩
      -- The new list has a number that the old one cannot have.
      exact absurd hlist.id_lt (Nat.not_lt.2 (eq_of_beq hsame ▸ hnew))
    dsimp only
    cases htyped : resultType with
    | some annotation =>
      have htrailing := hclose.trailing.afterErasure (htype annotation htyped).trailing
      rw [htyped] at hrest
      exact .make (makes_tokenWithTrailing hclose htrailing) hrest
    | none =>
      rw [htyped] at hrest
      exact .sureThen (.pure (fun l hl => hclose.up (by omega))) hrest

/-! ## What the body does -/

open Build

theorem makes_isUndefined {o : LayoutOptions} (hL : L.Suits o) {t : Token} (ht : t.Meets L k) :
    Makes k (isUndefined t) (fun j n => n.Plain L .expression j) := by
  refine (makes_nameExpression ht (by omega)).bind (fun j hj name hname => ?_)
  refine (makes_prefixUnary hL _ hname (by omega)).bind (fun j' hj' operand hoperand => ?_)
  exact (makes_stringLiteral hL _).bind (fun j'' hj'' text htext => makes_binary hL _ hoperand htext (by omega)
    (by omega))

theorem makes_setDefault {o : LayoutOptions} (hL : L.Suits o) {t : Token} {value : Node} (ht : t.Meets L k)
    (hvalue : value.Plain L .expression k) : Makes k (setDefault t value) (fun j n => n.Plain L .statement j) := by
  refine (makes_isUndefined hL ht).bind (fun i₁ h₁ condition hcondition => ?_)
  refine (makes_nameExpression ht (by omega)).bind (fun i₂ h₂ name hname => ?_)
  refine (makes_assignment hL hname hvalue (by omega) (by omega)).bind (fun i₃ h₃ assignment hassignment => ?_)
  refine (makes_expressionStatement hL hassignment (by omega)).bind (fun i₄ h₄ statement hstatement => ?_)
  refine (makes_withTrailing hstatement hL.oneSpace (by omega)).bind (fun i₅ h₅ statement' hstatement' => ?_)
  refine (makes_markThenSpace hL _).bind (fun i₆ h₆ opened hopened => ?_)
  refine (makes_mark hL _).bind (fun i₇ h₇ closed hclosed => ?_)
  have hstatements : ∀ n ∈ [statement'], n.Plain L .statement i₅ := fun n hn => List.mem_singleton.1 hn ▸ hstatement'
  refine (makes_block hopened hstatements hclosed (by omega) (by omega) (by omega)).bind (fun i₈ h₈ block hblock => ?_)
  exact makes_ifStatement hL hcondition (hblock.widen (fun _ hk => by rw [eq_of_beq hk]; rfl)) (by omega) (by omega)

/-- **A default value becomes a statement if it is intact.** -/
theorem ends_defaultValueStatement (h : c.Sound L levels) (bodyColumn : Nat) {d : DefaultValue} (hname : d.name.Meets L k)
    (hvalue : d.value.Given L .expression k) :
    Ends IsRefusal k (c.defaultValueStatement bodyColumn d) (d.value.Intact levels)
      (fun j n => n.Plain L .statement j) := by
  refine (h.lower hvalue rfl).thenSure (fun i₁ h₁ value hplain => ?_)
  refine .make (makes_bare hplain (by omega)) (fun i₂ h₂ value hplain => ?_)
  refine (ends_reindent h.suits hplain _ _ (by omega)).sureThen (fun i₃ h₃ value hmoved => ?_)
  refine .make (makes_setDefault h.suits (hname.up (by omega)) hmoved.1) (fun i₄ h₄ statement hstatement => ?_)
  exact .lift (makes_statementAt h.suits _ hstatement (by omega))

theorem makes_argumentCounter {o : LayoutOptions} (hL : L.Suits o) :
    Makes k argumentCounter (fun j n => n.Plain L .expression j) := makes_name hL (by decide)

theorem makes_copyArgument {o : LayoutOptions} (hL : L.Suits o) {rest : RestParameter} (hrest : rest.name.Meets L k) :
    Makes k (copyArgument rest) (fun j n => n.Plain L .statement j) := by
  have hcopy : ∀ j, k ≤ j → ∀ target : Node, target.Plain L .expression j →
      Makes j (do
        let left ← elementAccess (← nameExpression rest.name) target
        let right ← elementAccess (← name "arguments".toList) (← argumentCounter)
        Build.expressionStatement (← assignment left right)) (fun j n => n.Plain L .statement j) := by
    intro j hj target htarget
    refine (makes_nameExpression hrest (by omega)).bind (fun i₁ h₁ name hname => ?_)
    refine (makes_elementAccess hL hname htarget (by omega) (by omega)).bind (fun i₂ h₂ left hleft => ?_)
    refine (makes_name hL (by decide)).bind (fun i₃ h₃ arguments harguments => ?_)
    refine (makes_argumentCounter hL).bind (fun i₄ h₄ counter hcounter => ?_)
    refine (makes_elementAccess hL harguments hcounter (by omega) (by omega)).bind (fun i₅ h₅ right hright => ?_)
    exact (makes_assignment hL hleft hright (by omega) (by omega)).bind
      (fun i₆ h₆ a ha => makes_expressionStatement hL ha (by omega))
  unfold copyArgument
  dsimp only
  split
  · exact (makes_argumentCounter hL).bind hcopy
  · refine (makes_argumentCounter hL).bind (fun i₁ h₁ counter hcounter => ?_)
    refine (makes_numericLiteral (hL.natural _)).bind (fun i₂ h₂ index hindex => ?_)
    exact (makes_binary hL _ hcounter hindex (by omega) (by omega)).bind (fun j hj => hcopy j (by omega))

theorem makes_argumentLoop {o : LayoutOptions} (hL : L.Suits o) (index : Nat) {body : Node}
    (hbody : body.Plain L .statement k) : Makes k (argumentLoop index body) (fun j n => n.Plain L .statement j) := by
  refine (makes_numericLiteral (hL.natural _)).bind (fun i₁ h₁ first hfirst => ?_)
  refine (makes_identifier hL (by decide)).bind (fun i₂ h₂ counter hcounter => ?_)
  have hvalue : ∀ m, some first = some m → m.Plain L .expression i₁ := fun m hm => by cases hm; exact hfirst
  refine (makes_variableDeclaration hL hcounter hvalue (by omega) (by omega)).bind
    (fun i₃ h₃ declaration hdeclaration => ?_)
  refine (makes_name hL (by decide)).bind (fun i₄ h₄ arguments harguments => ?_)
  refine (makes_memberPath hL _ (by decide) harguments (Nat.le_refl _)).bind (fun i₅ h₅ count hcount => ?_)
  refine (makes_argumentCounter hL).bind (fun i₆ h₆ left hleft => ?_)
  refine (makes_binary hL _ hleft hcount (by omega) (by omega)).bind (fun i₇ h₇ condition hcondition => ?_)
  refine (makes_argumentCounter hL).bind (fun i₈ h₈ counted hcounted => ?_)
  refine (makes_postfixUnary hL _ hcounted (by omega)).bind (fun i₉ h₉ step hstep => ?_)
  refine (makes_wordThenSpace hL _).bind (fun j₁ hj₁ word hword => ?_)
  refine (makes_mark hL _).bind (fun j₂ hj₂ opened hopened => ?_)
  refine (makes_markThenSpace hL _).bind (fun j₃ hj₃ semicolon hsemicolon => ?_)
  refine (makes_markThenSpace hL _).bind (fun j₄ hj₄ semicolon' hsemicolon' => ?_)
  refine (makes_markThenSpace hL _).bind (fun j₅ hj₅ closed hclosed => ?_)
  have hinitial : Slot.Stands PlainForm L j₅ (.optionalNode (.only .variableDeclaration)) (.node declaration) :=
    (Slot.stands_ofNode? (o := some declaration)).2 (fun m hm => by cases hm; exact hdeclaration.up (by omega))
  have hcondition' : Slot.Stands PlainForm L j₅ (.optionalNode .expression) (.node condition) :=
    (Slot.stands_ofNode? (o := some condition)).2 (fun m hm => by cases hm; exact hcondition.up (by omega))
  have hstep' : Slot.Stands PlainForm L j₅ (.optionalNode .expression) (.node step) :=
    (Slot.stands_ofNode? (o := some step)).2 (fun m hm => by cases hm; exact hstep.up (by omega))
  exact makes_node (.cons (hword.slot (by omega))
    (.cons (hopened.slot (by omega)) (.cons hinitial (.cons Slot.stands_absentNode
    (.cons (hsemicolon.slot (by omega)) (.cons hcondition'
      (.cons (hsemicolon'.slot (by omega)) (.cons hstep' (.cons (hclosed.slot (by omega))
      (.cons (hbody.slot (by omega)) .nil)))))))))) (fun _ => rfl) rfl

theorem makes_restStatements (hL : L.Suits c.layout) (bodyColumn : Nat) {rest : RestParameter}
    (hrest : rest.name.Meets L k) :
    Makes k (c.restStatements bodyColumn rest) (fun j ns => ∀ n ∈ ns, n.Plain L .statement j) := by
  refine (makes_emptyArray hL).bind (fun i₁ h₁ array harray => ?_)
  have hvalue : ∀ m, some array = some m → m.Plain L .expression i₁ := fun m hm => by cases hm; exact harray
  refine (makes_variableStatement hL hrest hvalue (by omega) (by omega)).bind (fun i₂ h₂ declaration hdeclaration => ?_)
  refine (makes_copyArgument hL (hrest.up (by omega))).bind (fun i₃ h₃ copy hcopy => ?_)
  refine (makes_statementAt hL _ hcopy (by omega)).bind (fun i₄ h₄ copy hcopy => ?_)
  refine (makes_openBrace hL hL.lineBreak).bind (fun i₅ h₅ opened hopened => ?_)
  refine (makes_closeBrace hL (hL.indentation bodyColumn)).bind (fun i₆ h₆ closed hclosed => ?_)
  have hcopies : ∀ n ∈ [copy], n.Plain L .statement i₄ := fun n hn => List.mem_singleton.1 hn ▸ hcopy
  refine (makes_block hopened hcopies hclosed (by omega) (by omega) (by omega)).bind (fun i₇ h₇ body hbody => ?_)
  refine (makes_statementAt hL bodyColumn hdeclaration (by omega)).bind (fun i₈ h₈ declaration hdeclaration => ?_)
  have hstatement : body.Plain L .statement i₈ := (hbody.up (k := i₈) (by omega)).widen
    (fun _ hk => by rw [eq_of_beq hk]; rfl)
  refine (makes_argumentLoop hL rest.index hstatement).bind (fun i₉ h₉ loop hloop => ?_)
  refine (makes_statementAt hL bodyColumn hloop (by omega)).bindPure (fun j hj loop hloop => ?_)
  exact List.forall_mem_cons.2 ⟨hdeclaration.up (by omega), fun n hn => List.mem_singleton.1 hn ▸ hloop⟩

/-- **What parameters leave for the body becomes statements if the default values are intact.** -/
theorem ends_parameterPrologue (h : c.Sound L levels) (bodyColumn : Nat) {facts : ParameterFacts}
    (hfacts : facts.Stands L k) :
    Ends IsRefusal k (c.parameterPrologue facts bodyColumn)
      (∀ v ∈ facts.defaults.map DefaultValue.value, v.Intact levels)
      (fun j ns => ∀ n ∈ ns, n.Plain L .statement j) := by
  have hdefaults := Ends.mapM (k := k) (l := facts.defaults) Node.Stands.lasts (fun d hd j hj =>
    ends_defaultValueStatement h bodyColumn ((hfacts.names d hd).up (by omega)) ((hfacts.values d hd).up (by omega)))
  refine (hdefaults.iff List.forall_mem_map.symm).thenSure (fun j hj defaults hplain => ?_)
  cases hrest : facts.rest with
  | none => exact .pure (fun l hl n hn => (hplain n hn).up (by omega))
  | some rest =>
    refine .make (makes_restStatements h.suits bodyColumn ((hfacts.rest rest hrest).up (by omega)))
      (fun i hi rest hr => ?_)
    refine .pure (fun l hl n hn => ?_)
    rcases List.mem_append.1 hn with hn | hn
    · exact (hplain n hn).up (by omega)
    · exact (hr n hn).up (by omega)

end LoweringContext

end Downlevel
