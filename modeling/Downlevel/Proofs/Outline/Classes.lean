import Downlevel.Lowering.Classes
import Downlevel.Proofs.Outline.Namespaces
/-!
# Proofs.Outline.Classes — classes, and their draft

Which members are accessors of one property, which constructor has a body and which of its statements call the base is
read off the tree that was given, and so it is read off the outline.
-/
namespace Downlevel

variable {W W' : Registry} {n n' m m' : Node} {ns ns' : List Node} {t t' name name' : Token}

/-- Two steps that make objects are one. -/
theorem Follows.paired {α β γ δ : Type} {Q : Registry → γ → δ → Prop} {make : Fresh α} {next : α → Fresh β}
    {f : β → Lowering γ} {d : Draft δ} (h : Follows W (liftM (make >>= next) >>= f) d Q) :
    Follows W (liftM make >>= fun a => liftM (next a) >>= f) d Q := h

/-! ## What is read off members -/

/-- **The key of an accessor is read off its outline.** -/
theorem Node.Held.accessorKey? (h : n.Held W) : n.outline.accessorKey? = n.accessorKey? := by
  have hgetter := h.reads (α := MemberGetter)
  have hsetter := h.reads (α := MemberSetter)
  unfold Node.accessorKey?
  generalize n.view? MemberGetter = getter at hgetter
  generalize n.outline.view? MemberGetter = getter' at hgetter
  generalize n.view? MemberSetter = setter at hsetter
  generalize n.outline.view? MemberSetter = setter' at hsetter
  have hstatic : ∀ o : Option Token, (o.map Token.outline).isSome = o.isSome := fun _ => Option.isSome_map
  cases hgetter with
  | some => exact congrArg some (congrArg₂ AccessorKey.mk rfl (hstatic _))
  | none =>
    cases hsetter with
    | some => exact congrArg some (congrArg₂ AccessorKey.mk rfl (hstatic _))
    | none => rfl

/-- **Whether a statement calls the base constructor is read off its outline.** -/
theorem Node.Held.isSuperCall (h : n.Held W) : n.outline.isSuperCall = n.isSuperCall := by
  have hstatement := h.reads (α := ExpressionStatement)
  unfold Node.isSuperCall
  generalize n.view? ExpressionStatement = statement at hstatement
  generalize n.outline.view? ExpressionStatement = statement' at hstatement
  cases hstatement with
  | none => rfl
  | @some v hk hs hparts =>
    simp only [NodeView.toSlots, List.forall_mem_cons, Slot.held_node] at hparts
    have hcall := hparts.1.reads (α := Invocation)
    dsimp only
    rw [show (OutlineView.outline v).expression = v.expression.outline from rfl]
    generalize v.expression.view? Invocation = call at hcall
    generalize v.expression.outline.view? Invocation = call' at hcall
    cases hcall with
    | none => rfl
    | @some call =>
      show (call.callee.outline.kind == _) = (call.callee.kind == _)
      rw [Node.kind_outline]

namespace LoweringContext

/-- The first constructor with a body is the same one, and its parts are held. -/
structure ConstructorHeld (W : Registry) (p q : Node × ConstructorDeclaration × Node) : Prop where
  parameters : p.2.1.parameters.Held W
  block : p.2.2.Held W
  sameParameters : q.2.1.parameters = p.2.1.parameters.outline
  sameBlock : q.2.2 = p.2.2.outline

theorem firstConstructor_held (h : ∀ n ∈ ns, n.Held W) :
    Option.Rel (ConstructorHeld W) (firstConstructor? ns) (firstConstructor? (ns.map Node.outline)) := by
  induction ns with
  | nil => exact .none
  | cons n ns ih =>
    obtain ⟨hn, hns⟩ := List.forall_mem_cons.1 h
    have hreads := hn.reads (α := ConstructorDeclaration)
    rw [List.map_cons, firstConstructor?, firstConstructor?]
    generalize n.view? ConstructorDeclaration = o at hreads
    generalize n.outline.view? ConstructorDeclaration = o' at hreads
    cases hreads with
    | none => exact ih hns
    | @some v hk hs hparts =>
      simp only [NodeView.toSlots, List.forall_mem_cons, Slot.held_node, Slot.held_ofNode?] at hparts
      obtain ⟨-, hparameters, hblock, -⟩ := hparts
      dsimp only
      rw [show (OutlineView.outline v).block = v.block.map Node.outline from rfl]
      cases hb : v.block with
      | none => exact ih hns
      | some block => exact .some ⟨hparameters, hblock block hb, rfl, rfl⟩

/-- **The accessors of a property are found in the outlines of the members too.** -/
theorem accessorsOf_held (h : ∀ n ∈ ns, n.Held W) (key : AccessorKey) :
    List.Forall₂ (fun p q => p.1 = q.1 ∧ p.2.Held W ∧ q.2 = p.2.outline) (accessorsOf ns key)
      (accessorsOf (ns.map Node.outline) key) := by
  have hkey : (ns.map Node.outline).filter (fun n => n.accessorKey? == some key) =
      (ns.filter (fun n => n.accessorKey? == some key)).map Node.outline := by
    rw [List.filter_map]
    refine congrArg (List.map Node.outline) (List.filter_congr (fun n hn => ?_))
    show (n.outline.accessorKey? == some key) = (n.accessorKey? == some key)
    rw [(h n hn).accessorKey?]
  have hfind : ∀ (word : String) (kind : NodeKind) (l : List Node), (∀ n ∈ l, n.Held W) →
      List.Forall₂ (fun p q => p.1 = q.1 ∧ p.2.Held W ∧ q.2 = p.2.outline)
        ((l.find? (fun n => n.kind == kind)).map (fun n => (word, n))).toList
        (((l.map Node.outline).find? (fun n => n.kind == kind)).map (fun n => (word, n))).toList := by
    intro word kind l hl
    have hkind : ((fun n : Node => n.kind == kind) ∘ Node.outline) = fun n => n.kind == kind := by
      funext n
      show (n.outline.kind == kind) = (n.kind == kind)
      rw [Node.kind_outline]
    rw [List.find?_map, hkind]
    cases hf : l.find? (fun n => n.kind == kind) with
    | none => exact .nil
    | some n => exact .cons ⟨rfl, hl n (List.mem_of_find?_eq_some hf), rfl⟩ .nil
  unfold accessorsOf
  dsimp only
  rw [hkey]
  have hfiltered : ∀ n ∈ ns.filter (fun n => n.accessorKey? == some key), n.Held W := fun n hn =>
    h n (List.mem_filter.1 hn).1
  exact List.rel_append (hfind _ _ _ hfiltered) (hfind _ _ _ hfiltered)

/-! ## Forms -/

variable {c : LoweringContext} {column : Nat}

theorem draws_propertyStatement (h : t.Shows W t') :
    Draws W (c.propertyStatement column t) (Draft.propertyStatement t') Node.Shows :=
  Build.draws_thisExpression.bind (fun _ _ _ _ hthis => (draws_assignSameName hthis (h.up (by order))).layAfter
    (fun _ _ _ _ hs => records_statementAt hs))

theorem draws_forwardToBase : Draws W forwardToBase forwardToBase Node.Shows := by
  refine (Build.draws_name _).bind (fun W₁ h₁ base base' hbase => ?_)
  refine (Build.draws_memberPath _ hbase).bind (fun W₂ h₂ apply apply' happly => ?_)
  refine Build.draws_thisExpression.bind (fun W₃ h₃ this this' hthis => ?_)
  refine (Build.draws_name _).bind (fun W₄ h₄ arguments arguments' harguments => ?_)
  exact (Build.draws_invocation (happly.up (by order)) (.cons (hthis.up (by order)) <| .cons harguments .nil)).bind
    (fun W₅ h₅ call call' hcall =>
    Build.draws_expressionStatement hcall)

theorem draws_classReceiver (hname : name.Shows W name') (isStatic : Bool) :
    Draws W (classReceiver name isStatic) (classReceiver name' isStatic) Node.Shows := by
  refine (Build.draws_nameExpression hname).bind (fun W₁ h₁ constructor constructor' hconstructor => ?_)
  split
  · exact .pure hconstructor
  · exact (Build.draws_identifier _).bind (fun _ _ _ _ hprototype => Build.draws_memberAccess
      (hconstructor.up (by order)) hprototype)

theorem draws_extendsCall (hname : name.Shows W name') : Draws W (extendsCall name) (extendsCall name') Node.Shows := by
  refine (Build.draws_name _).bind (fun W₁ h₁ callee callee' hcallee => ?_)
  refine (Build.draws_nameExpression (hname.up (by order))).bind (fun W₂ h₂ object object' hobject => ?_)
  refine (Build.draws_name _).bind (fun W₃ h₃ base base' hbase => ?_)
  exact (Build.draws_invocation (hcallee.up (by order)) (.cons (hobject.up (by order)) <| .cons hbase .nil)).bind
    (fun W₄ h₄ call call' hcall =>
    Build.draws_expressionStatement hcall)

theorem draws_descriptorProperty (word : String) (h : n.Shows W n') :
    Draws W (c.descriptorProperty column word n) (Draft.descriptorProperty word n') Node.Shows :=
  (Build.draws_identifier _).bind (fun _ _ _ _ hname => (Build.draws_propertyAssignment hname (h.up (by order))).layAfter
    (fun _ _ _ _ hp => records_withLeading hp))

theorem draws_flagProperty (word : String) :
    Draws W (c.flagProperty column word) (Draft.flagProperty word) (fun W' p m => p.1.Shows W' m) :=
  (Build.draws_keywordLiteral _).bind (fun _ _ _ _ hvalue => (draws_descriptorProperty word hvalue).layAfter
    (fun _ _ _ _ hp => .pure hp))

theorem draws_descriptorSeparators : ∀ {ps : List (Node × TriviaList)} {ns : List Node} {W : Registry},
    ps.length = ns.length →
    Draws W (c.descriptorSeparators ps) (Build.separatorsBetween (Build.markThenSpace .comma) ns) Token.AllShow
  | [], [], _, _ => .pure .nil
  | [_], [_], _, _ => .pure .nil
  | (_, comments) :: p :: ps, _ :: n :: ns, W, hlength => by
    have hcomma : Draws W (c.separatorLine comments) (Build.markThenSpace .comma) Token.Shows :=
      Build.draws_laidOut (Build.draws_mark _) (fun _ _ => records_tokenWithTrailing) (fun _ _ => rfl)
    have hrest : (p :: ps).length = (n :: ns).length := Nat.succ.inj hlength
    exact hcomma.bind (fun _ _ _ _ ht => (draws_descriptorSeparators hrest).map
      (fun _ _ _ _ hts => .cons (ht.up (by order)) hts))

theorem records_withLastTrailing {trailing : TriviaList} : ∀ {ns ns' : List Node} {W : Registry},
    Node.AllShow W ns ns' → Records W (withLastTrailing trailing ns) (fun W' ms => Node.AllShow W' ms ns')
  | [], _, _, h => by
    cases h
    exact .pure .nil
  | [n], _, _, h => by
    cases h with
    | cons hn hrest =>
      cases hrest
      exact (records_withTrailing hn).map (fun _ _ _ hm => .cons hm .nil)
  | n :: m :: ns, _, _, h => by
    cases h with
    | cons hn hrest => exact (records_withLastTrailing hrest).map (fun _ _ _ hms => .cons (hn.up (by order)) hms)

namespace Drafted

variable {visit : Node → Draft Replacement} (h : c.Drafted visit)

include h

/-! ## Fields -/

/-- **The assignment to a field looks like its draft.** -/
theorem fieldAssignment {receiver receiver' : Fresh Node} {field : MemberVariable}
    (hreceiver : ∀ W', W ≤ W' → Draws W' receiver receiver' Node.Shows) (hfield : field.declarator.Held W) :
    Follows W (c.fieldAssignment receiver n field column)
      (Draft.fieldAssignment visit receiver' (OutlineView.outline field)) Node.AllShow := by
  unfold LoweringContext.fieldAssignment Draft.fieldAssignment
  refine .viewHeld hfield (fun declarator hk hs hparts => ?_)
  simp only [NodeView.toSlots, List.forall_mem_cons, Slot.held_token, Slot.held_ofNode?] at hparts
  obtain ⟨hname, -, hvalue, -⟩ := hparts
  refine (Follows.viewOption hvalue).bind (fun W₁ h₁ clause clause' hclause => ?_)
  obtain ⟨rfl, hparts⟩ := hclause
  cases clause with
  | none => exact .pure .nil
  | some clause =>
    have hclause := hparts clause rfl
    simp only [NodeView.toSlots, List.forall_mem_cons, Slot.held_node] at hclause
    obtain ⟨-, hexpression, -⟩ := hclause
    refine (h.lower hexpression).bind (fun W₂ h₂ lowered lowered' hlowered => ?_)
    refine .lay (records_bare hlowered) (fun W₃ h₃ bare hbare => ?_)
    refine .aside (follows_reindent _ _ hbare) (fun W₄ h₄ value hvalue => ?_)
    have htarget : Draws W₄ (do memberTarget (← receiver) declarator.name)
        (do memberTarget (← receiver') declarator.name.outline) Node.Shows :=
      (hreceiver W₄ (by order)).bind (fun _ _ _ _ hobject => draws_memberTarget hobject (hname.up (by order)).shows)
    refine .paired (.make htarget (fun W₅ h₅ target target' ht => ?_))
    refine .make (draws_assignmentStatement ht (hvalue.up (by order))) (fun W₆ h₆ statement statement' hs => ?_)
    exact .lay (records_withTrivia hs) (fun W₇ h₇ laid hlaid => .pure (.cons hlaid .nil))

theorem instanceFields : ∀ {ns : List Node} {W : Registry}, (∀ n ∈ ns, n.Held W) →
    Follows W (c.instanceFields column ns) (Draft.instanceFields visit (ns.map Node.outline)) Node.AllShow
  | [], _, _ => .pure .nil
  | n :: ns, W, hns => by
    obtain ⟨hn, hrest⟩ := List.forall_mem_cons.1 hns
    have hreads := hn.reads (α := MemberVariable)
    unfold LoweringContext.instanceFields
    rw [List.map_cons, Draft.instanceFields]
    generalize n.view? MemberVariable = o at hreads
    generalize n.outline.view? MemberVariable = o' at hreads
    have hgoes : ∀ W₁, W ≤ W₁ → ∀ here here' : List Node, Node.AllShow W₁ here here' → Follows W₁ (do
        return here ++ (← c.instanceFields column ns) : Lowering (List Node)) (do
        return here' ++ (← Draft.instanceFields visit (ns.map Node.outline))) Node.AllShow := fun W₁ h₁ here here' hh =>
      (instanceFields (fun m hm => (hrest m hm).up (by order))).map (fun W₂ h₂ rest rest' hr =>
        List.rel_append (Node.AllShow.up hh (by order)) hr)
    cases hreads with
    | none =>
      dsimp only
      rw [pure_bind, pure_bind]
      exact hgoes W le_rfl [] [] .nil
    | @some field hk hs hparts =>
      simp only [NodeView.toSlots, List.forall_mem_cons, Slot.held_node] at hparts
      dsimp only
      rw [show (OutlineView.outline field).isStatic.isSome = field.isStatic.isSome from Option.isSome_map]
      split
      · rw [pure_bind, pure_bind]
        exact hgoes W le_rfl [] [] .nil
      · exact (h.fieldAssignment (fun _ _ => Build.draws_thisExpression) hparts.2.2.1).bind hgoes

theorem staticField (hname : name.Shows W name') (hn : n.Held W) :
    Follows W (c.staticField name n column) (Draft.staticField visit name' n.outline) Node.AllShow := by
  unfold LoweringContext.staticField Draft.staticField
  refine .viewHeld hn (fun field hk hs hparts => ?_)
  simp only [NodeView.toSlots, List.forall_mem_cons, Slot.held_node] at hparts
  rw [show (OutlineView.outline field).isStatic.isNone = field.isStatic.isNone from Option.isNone_map]
  split
  · exact .pure .nil
  · exact h.fieldAssignment (fun _ _ => Build.draws_nameExpression (hname.up (by order))) hparts.2.2.1

/-! ## The constructor -/

/-- **The statements of a constructor look like their draft**, in which the same ones call the base. -/
theorem constructorStatements (derived : HasBase) : ∀ {ns : List Node} {W : Registry}, (∀ n ∈ ns, n.Held W) →
    Follows W (c.constructorStatements derived ns) (Draft.constructorStatements visit derived (ns.map Node.outline))
      (fun W' p q => Node.AllShow W' p.1 q.1 ∧ Node.AllShow W' p.2 q.2)
  | [], _, _ => .pure ⟨.nil, .nil⟩
  | n :: ns, W, hns => by
    obtain ⟨hn, hrest⟩ := List.forall_mem_cons.1 hns
    unfold LoweringContext.constructorStatements
    rw [List.map_cons, Draft.constructorStatements, hn.isSuperCall]
    refine (h.follows W n hn).bind (fun W₁ h₁ r r' hr => ?_)
    refine (constructorStatements derived (fun m hm => (hrest m hm).up (by order))).bind (fun W₂ h₂ p q hp => ?_)
    have hnodes : Node.AllShow W₂ r.nodes r'.nodes := hr.nodes.up (by order)
    dsimp only
    split
    · exact .pure ⟨List.rel_append hnodes hp.1, hp.2⟩
    · exact .pure ⟨hp.1, List.rel_append hnodes hp.2⟩

/-- **The function for a constructor with a body looks like its draft.** -/
theorem constructorFunction {block parameters : Node} (derived : HasBase) (hname : name.Shows W name')
    (hns : ∀ m ∈ ns, m.Held W) (hblock : block.Held W) (hparameters : parameters.Held W) :
    Follows W (c.constructorFunction ns name n block parameters derived column)
      (Draft.constructorFunction visit (ns.map Node.outline) name' block.outline parameters.outline derived)
      Node.Shows := by
  unfold LoweringContext.constructorFunction Draft.constructorFunction
  refine (Follows.inScope (R := fun W' p q =>
    p.1.Shows W' q.1 ∧ Node.AllShow W' p.2.1 q.2.1 ∧ Node.AllShow W' p.2.2 q.2.2) ?_).bind (fun W₁ h₁ p q hp => ?_)
  · refine (follows_parameterList hparameters none).bind (fun W₁ h₁ p q hp => ?_)
    refine .viewHeld (hblock.up (by order)) (fun v hk hs hparts => ?_)
    simp only [NodeView.toSlots, List.forall_mem_cons, Slot.held_list] at hparts
    refine (h.constructorStatements derived hparts.2.1).bind (fun W₂ h₂ statements statements' hstatements => ?_)
    refine (h.parameterPrologue _ (hp.2.up (by order))).bind (fun W₃ h₃ prologue prologue' hprologue => ?_)
    have hproperty : ∀ {W' : Registry} {t t' : Token}, t.Shows W' t' →
        Follows W' (liftM (c.propertyStatement (column + c.indentSize) t) : Lowering Node)
          (Draft.make (Draft.propertyStatement t')) Node.Shows := fun ht => .lift (draws_propertyStatement ht)
    have hproperties : Follows W₃ (p.2.properties.mapM (fun name =>
        Work.lift (c.propertyStatement (column + c.indentSize) name)) : Lowering (List Node))
        (q.2.properties.mapM (fun name => Draft.make (Draft.propertyStatement name))) Node.AllShow :=
      .mapM (fun _ _ _ _ _ hm => hm.up (by order)) (hp.2.up (by order) : p.2.Shows W₃ q.2).properties
        (fun _ _ ht _ hle => hproperty (ht.up hle))
    refine hproperties.bind (fun W₄ h₄ properties properties' hproperties => ?_)
    refine (h.instanceFields (fun m hm => (hns m hm).up (by order))).bind (fun W₅ h₅ fields fields' hfields => ?_)
    refine .pure ⟨hp.1.1.up (by order), ?_, Node.AllShow.up hstatements.2 (by order)⟩
    exact List.rel_append (List.rel_append (List.rel_append (Node.AllShow.up hstatements.1 (by order))
      (Node.AllShow.up hprologue (by order)))
      (Node.AllShow.up hproperties (by order))) hfields
  obtain ⟨⟨hlist, hprologue, hrest⟩, hcaptured⟩ := hp
  dsimp only
  rw [hcaptured]
  refine .make (draws_withCapture _ hprologue) (fun W₂ h₂ prologue prologue' hprologue => ?_)
  refine .viewHeld (hblock.up (by order)) (fun v hk hs hparts => ?_)
  simp only [NodeView.toSlots, List.forall_mem_cons, Slot.held_token] at hparts
  refine .make (draws_toNode (.cons hparts.1.shows.slot <|
    .cons (Node.AllShow.slot (Node.AllShow.up hrest (by order))) <|
    .cons hparts.2.2.1.shows.slot .nil) rfl) (fun W₃ h₃ lowered lowered' hlowered => ?_)
  refine (follows_assembleBlock _ _ hlowered.1 (Node.AllShow.up hprologue (by order))).bind (fun W₄ h₄ b b' hb => ?_)
  refine .lay (Build.draws_wordThenSpace .functionKw 0) (fun W₅ h₅ keyword hkeyword => ?_)
  refine .lay records_tokenWithLeading (fun W₆ h₆ keyword' hkeyword' => ?_)
  refine .lay (Build.draws_callSignature (hlist.up (by order)) 2) (fun W₇ h₇ signature hsignature => ?_)
  have hfunction : Draws W₇ (NodeView.toNode (FunctionDeclaration.mk none none keyword' name signature (some b) none))
      (NodeView.toNode (FunctionDeclaration.mk none none (Build.wordThenSpace .functionKw 0).1 name'
        (Build.callSignature q.1.1 2).1 (some b') none)) (fun W' m m' => m.Shows W' m' ∧ W₇.next ≤ m.id) :=
    draws_toNode (.cons Slot.shows_absent <| .cons Slot.shows_absent <|
      .cons ((hkeyword'.up (by order)).trans hkeyword.outline).slot <| .cons (hname.up (by order)).slot <|
        .cons hsignature.slot <|
      .cons (hb.up (by order)).slot <| .cons Slot.shows_absent .nil) rfl
  exact .layLast ((hfunction 3).mono (fun _ _ _ hm => hm.1))

theorem synthesizedConstructor (derived : HasBase) (hname : name.Shows W name') (hns : ∀ m ∈ ns, m.Held W) :
    Follows W (c.synthesizedConstructor ns name derived column)
      (Draft.synthesizedConstructor visit (ns.map Node.outline) name' derived) Node.Shows := by
  unfold LoweringContext.synthesizedConstructor Draft.synthesizedConstructor
  refine (Follows.inScope (h.instanceFields hns)).bind (fun W₁ h₁ p q hp => ?_)
  obtain ⟨hfields, hcaptured⟩ := hp
  dsimp only
  rw [hcaptured]
  have hgoes : ∀ W₂, W₁ ≤ W₂ → ∀ forward forward' : List Node, Node.AllShow W₂ forward forward' → Follows W₂ (do
      let statements ← c.withCapture q.2 (column + c.indentSize) (forward ++ p.1)
      let block ← Build.block (← Build.openBrace c.newLine) statements (← Build.closeBrace (c.indentation column))
      c.statementAt column (← Build.functionDeclaration name (← Build.parameterList []) block) : Lowering Node) (do
      let statements ← Draft.make (Draft.withCapture q.2 (forward' ++ q.1))
      let block ← Draft.make (Draft.braced statements)
      Draft.make (do Draft.functionDeclaration name' (← Build.parameterList []) block)) Node.Shows := by
    intro W₂ h₂ forward forward' hforward
    refine .make (draws_withCapture _ (List.rel_append hforward (Node.AllShow.up hfields (by order))))
      (fun W₃ h₃ statements statements' hs => ?_)
    refine .joined (.make (draws_bracedBlock _ _ hs) (fun W₄ h₄ block block' hblock => ?_))
    have hfunction : Draws W₄ (do Build.functionDeclaration name (← Build.parameterList []) block)
        (do Draft.functionDeclaration name' (← Build.parameterList []) block') Node.Shows :=
      (Build.draws_parameterList .nil).bind (fun _ _ _ _ hlist => draws_functionDeclaration (hname.up (by order))
        hlist (hblock.up (by order)))
    exact .paired (.makeThenLay hfunction (fun _ _ _ _ hf => records_statementAt hf))
  cases derived with
  | true =>
    refine .make draws_forwardToBase (fun W₂ h₂ call call' hcall => ?_)
    refine .lay (records_statementAt hcall) (fun W₃ h₃ placed hplaced => ?_)
    rw [pure_bind, pure_bind]
    exact hgoes W₃ (by order) _ _ (.cons hplaced .nil)
  | false =>
    simp only [Bool.false_eq_true, if_false, pure_bind]
    exact hgoes W₁ le_rfl [] [] .nil

theorem classConstructor (derived : HasBase) (hname : name.Shows W name') (hns : ∀ m ∈ ns, m.Held W) :
    Follows W (c.classConstructor ns name derived column)
      (Draft.classConstructor visit (ns.map Node.outline) name' derived) Node.Shows := by
  have hfirst := firstConstructor_held hns
  unfold LoweringContext.classConstructor Draft.classConstructor
  generalize firstConstructor? ns = o at hfirst
  generalize firstConstructor? (ns.map Node.outline) = o' at hfirst
  cases hfirst with
  | none => exact h.synthesizedConstructor derived hname hns
  | @some p q hp =>
    dsimp only
    rw [hp.sameParameters, hp.sameBlock]
    exact h.constructorFunction derived hname hns hp.block hp.parameters

/-! ## Methods and accessors -/

theorem method (hname : name.Shows W name') (hn : n.Held W) :
    Follows W (c.method name n column) (Draft.method visit name' n.outline) Node.AllShow := by
  unfold LoweringContext.method Draft.method
  refine .viewHeld hn (fun v hk hs hparts => ?_)
  simp only [NodeView.toSlots, List.forall_mem_cons, Slot.held_token, Slot.held_node, Slot.held_ofNode?] at hparts
  obtain ⟨-, -, hmember, hsignature, hblock, -⟩ := hparts
  rw [show (OutlineView.outline v).block = v.block.map Node.outline from rfl,
    show (OutlineView.outline v).isStatic.isSome = v.isStatic.isSome from Option.isSome_map]
  cases hb : v.block with
  | none => exact .pure .nil
  | some block =>
    refine .viewHeld hsignature (fun signature hk' hs' hparts => ?_)
    simp only [NodeView.toSlots, List.forall_mem_cons, Slot.held_node] at hparts
    refine (h.functionLike signature.resultType column hparts.1 (hblock block hb)).bind (fun W₁ h₁ p q hp => ?_)
    obtain ⟨⟨hlist, -⟩, hlowered⟩ := hp
    dsimp only
    refine .lay (records_withTrailing hlowered) (fun W₂ h₂ bare hbare => ?_)
    refine .make (draws_functionExpression (hlist.up (by order)) hbare) (fun W₃ h₃ value value' hvalue => ?_)
    have htarget : Draws W₃ (do memberTarget (← classReceiver name v.isStatic.isSome) v.name)
        (do memberTarget (← classReceiver name' v.isStatic.isSome) v.name.outline) Node.Shows :=
      (draws_classReceiver (hname.up (by order)) _).bind (fun _ _ _ _ hobject => draws_memberTarget hobject
        (hmember.up (by order)).shows)
    refine .paired (.make htarget (fun W₄ h₄ target target' ht => ?_))
    refine .make (draws_assignmentStatement ht (hvalue.up (by order))) (fun W₅ h₅ statement statement' hs => ?_)
    exact .lay (records_withTrivia hs) (fun W₆ h₆ laid hlaid => .pure (.cons hlaid .nil))

/-- **The function in place of an accessor looks like its draft.** -/
theorem accessorFunction (hn : n.Held W) :
    Follows W (c.accessorFunction n column) (Draft.accessorFunction visit n.outline) Node.Shows := by
  have hgetter := hn.reads (α := MemberGetter)
  unfold LoweringContext.accessorFunction Draft.accessorFunction
  extract_lets own finish finishDraft
  have hgoes : ∀ (parameters block : Node) (resultType : Option Node), parameters.Held W → block.Held W →
      Follows W (finish (parameters, resultType, block)) (finishDraft (parameters.outline, block.outline)) Node.Shows := by
    intro parameters block resultType hparameters hblock
    refine (h.functionLike resultType _ hparameters hblock).bind (fun W₁ h₁ r r' hr => ?_)
    have hmade : Follows W₁ (do
        let function ← Build.functionExpression r.1 r.2
        c.reindent function false ((column : Int) - (c.columnOf n : Int)) : Lowering Node)
        (Draft.make (Draft.functionExpression r'.1 r'.2) >>= pure) Node.Shows :=
      .make (draws_functionExpression hr.1.1 hr.2) (fun W₂ h₂ function function' hf => follows_reindent _ _ hf)
    rwa [bind_pure] at hmade
  generalize n.view? MemberGetter = o at hgetter
  generalize n.outline.view? MemberGetter = o' at hgetter
  cases hgetter with
  | some hk hs hparts =>
    simp only [NodeView.toSlots, List.forall_mem_cons, Slot.held_node] at hparts
    dsimp only
    rw [pure_bind, pure_bind]
    exact hgoes _ _ _ hparts.2.2.2.2.1 hparts.2.2.2.2.2.2.1
  | none =>
    refine .viewHeld hn (fun v hk hs hparts => ?_)
    simp only [NodeView.toSlots, List.forall_mem_cons, Slot.held_node] at hparts
    rw [pure_bind, pure_bind]
    exact hgoes _ _ none hparts.2.2.2.2.1 hparts.2.2.2.2.2.1

theorem accessorProperties : ∀ {ps ps' : List (String × Node)} {W : Registry},
    List.Forall₂ (fun p q => p.1 = q.1 ∧ p.2.Held W ∧ q.2 = p.2.outline) ps ps' →
    Follows W (c.accessorProperties column ps) (Draft.accessorProperties visit ps')
      (fun W' => List.Forall₂ (fun p m => p.1.Shows W' m))
  | [], _, _, hps => by
    cases hps
    exact .pure .nil
  | (word, accessor) :: ps, _, W, hps => by
    cases hps with
    | @cons _ q _ _ hp hrest =>
      obtain ⟨word', accessor'⟩ := q
      obtain ⟨rfl, haccessor, rfl⟩ := hp
      refine (h.accessorFunction haccessor).bind (fun W₁ h₁ function function' hf => ?_)
      refine .lay (records_withTrailing hf) (fun W₂ h₂ bare hbare => ?_)
      refine .make (draws_descriptorProperty _ hbare) (fun W₃ h₃ property property' hproperty => ?_)
      have hrest₃ : List.Forall₂ (fun p q : String × Node => p.1 = q.1 ∧ p.2.Held W₃ ∧ q.2 = p.2.outline) ps _ :=
        hrest.imp (fun _ _ hp => ⟨hp.1, hp.2.1.up (by order), hp.2.2⟩)
      exact (accessorProperties hrest₃).map (fun W₄ h₄ rest rest' hr => .cons (hproperty.up (by order)) hr)

/-- **The descriptor of a property looks like its draft.** -/
theorem descriptor {ps ps' : List (String × Node)}
    (hps : List.Forall₂ (fun p q => p.1 = q.1 ∧ p.2.Held W ∧ q.2 = p.2.outline) ps ps') :
    Follows W (c.descriptor ps column) (Draft.descriptor visit ps') Node.Shows := by
  unfold LoweringContext.descriptor Draft.descriptor
  refine (h.accessorProperties hps).bind (fun W₁ h₁ functions functions' hfunctions => ?_)
  refine .make (draws_flagProperty _) (fun W₂ h₂ enumerable enumerable' henumerable => ?_)
  refine .make (draws_flagProperty _) (fun W₃ h₃ configurable configurable' hconfigurable => ?_)
  have hall : List.Forall₂ (fun p m => p.1.Shows W₃ m) (functions ++ [enumerable, configurable])
      (functions' ++ [enumerable', configurable']) :=
    List.rel_append (hfunctions.imp (fun _ _ hp => hp.up (by order))) (.cons (henumerable.up (by order)) <|
      .cons hconfigurable .nil)
  generalize functions ++ [enumerable, configurable] = properties at hall
  generalize functions' ++ [enumerable', configurable'] = properties' at hall
  have hnodes : Node.AllShow W₃ (properties.map Prod.fst) properties' := List.forall₂_map_left_iff.2 hall
  refine .make (draws_descriptorSeparators hall.length_eq) (fun W₄ h₄ separators separators' hs => ?_)
  refine .lay (records_withLastTrailing (Node.AllShow.up hnodes (by order))) (fun W₅ h₅ members hmembers => ?_)
  refine .make (Build.draws_openBrace _ _) (fun W₆ h₆ openBrace openBrace' hopen => ?_)
  refine .make (Build.draws_closeBrace _ _) (fun W₇ h₇ closeBrace closeBrace' hclose => ?_)
  exact .lift (Build.draws_objectLiteral (hopen.up (by order))
    (Slot.shows_separated (Node.AllShow.up hmembers (by order)) (Token.AllShow.up hs (by order))) hclose)

theorem defineProperty (hname : name.Shows W name') (hns : ∀ m ∈ ns, m.Held W) (key : AccessorKey) :
    Follows W (c.defineProperty name ns n key column) (Draft.defineProperty visit name' (ns.map Node.outline) key)
      Node.Shows := by
  unfold LoweringContext.defineProperty Draft.defineProperty
  refine (h.descriptor (accessorsOf_held hns key)).bind (fun W₁ h₁ descriptor descriptor' hdescriptor => ?_)
  refine .make (Build.draws_name _) (fun W₂ h₂ object object' hobject => ?_)
  refine .make (Build.draws_memberPath _ hobject) (fun W₃ h₃ define define' hdefine => ?_)
  refine .make (draws_classReceiver (hname.up (by order)) _) (fun W₄ h₄ receiver receiver' hreceiver => ?_)
  refine .make (Build.draws_stringLiteral _) (fun W₅ h₅ named named' hnamed => ?_)
  refine .make (Build.draws_invocation (hdefine.up (by order)) (.cons (hreceiver.up (by order)) <| .cons hnamed <|
    .cons (hdescriptor.up (by order)) .nil))
    (fun W₆ h₆ call call' hcall => ?_)
  exact .makeThenLay (Build.draws_expressionStatement hcall) (fun _ _ _ _ hs => records_withTrivia hs)

/-! ## The class -/

/-- **The statements for a member look like their draft.** -/
theorem classMember (seen : List AccessorKey) (hname : name.Shows W name') (hns : ∀ m ∈ ns, m.Held W) (hn : n.Held W) :
    Follows W (c.classMember name ns seen n column) (Draft.classMember visit name' (ns.map Node.outline) seen n.outline)
      Node.AllShow := by
  unfold LoweringContext.classMember Draft.classMember
  rw [Node.kind_outline, hn.accessorKey?]
  by_cases hmethod : n.kind = .memberFunctionDeclaration
  · rw [hmethod]
    exact h.method hname hn
  by_cases hfield : n.kind = .memberVariableDeclaration
  · rw [hfield]
    exact h.staticField hname hn
  generalize n.kind = kind at hmethod hfield
  cases n.accessorKey? with
  | none => cases kind <;> first | exact absurd rfl hmethod | exact absurd rfl hfield | exact .pure .nil
  | some key =>
    have hproperty : Follows W
        (if seen.contains key then pure [] else do return [← c.defineProperty name ns n key column] : Lowering (List Node))
        (if seen.contains key then pure [] else do return [← Draft.defineProperty visit name' (ns.map Node.outline) key])
        Node.AllShow := by
      split
      · exact .pure .nil
      · exact (h.defineProperty hname hns key).map (fun _ _ _ _ hm => .cons hm .nil)
    cases kind <;> first | exact absurd rfl hmethod | exact absurd rfl hfield | exact hproperty

theorem classMembers (hns : ∀ m ∈ ns, m.Held W) : ∀ {seen : List AccessorKey} {ms : List Node} {W' : Registry}, W ≤ W' →
    name.Shows W' name' → (∀ m ∈ ms, m.Held W') →
    Follows W' (c.classMembers name ns column seen ms)
      (Draft.classMembers visit name' (ns.map Node.outline) seen (ms.map Node.outline)) Node.AllShow
  | _, [], _, _, _, _ => .pure .nil
  | seen, m :: ms, W', hle, hname, hms => by
    obtain ⟨hm, hrest⟩ := List.forall_mem_cons.1 hms
    unfold LoweringContext.classMembers
    rw [List.map_cons, Draft.classMembers, hm.accessorKey?]
    refine (h.classMember seen hname (fun m hm => (hns m hm).up (by order)) hm).bind
      (fun W₁ h₁ statements statements' hs => ?_)
    exact (classMembers hns (hle.trans h₁) (hname.up (by order)) (fun m hm => (hrest m hm).up (by order))).map
      (fun W₂ h₂ rest rest' hr =>
      List.rel_append (Node.AllShow.up hs (by order)) hr)

/-- **The statements of the function around a class look like their draft.** -/
theorem classBody {v : ClassDeclaration} (derived : HasBase) (hname : name.Shows W v.name.outline)
    (hns : ∀ m ∈ v.members, m.Held W) :
    Follows W (c.classBody v name derived column) (Draft.classBody visit (OutlineView.outline v) derived)
      (fun W' p q => Node.AllShow W' p.1 q.1 ∧ Node.AllShow W' p.2 q.2) := by
  unfold LoweringContext.classBody Draft.classBody
  rw [show (OutlineView.outline v).name = v.name.outline from rfl,
    show (OutlineView.outline v).members = v.members.map Node.outline from rfl]
  -- With a base the class is marked first, and its call stands in front; what is behind follows alike.
  have hgoes : ∀ W₁, W ≤ W₁ → ∀ inheritance inheritance' : List Node, Node.AllShow W₁ inheritance inheritance' →
      Follows W₁ (do
        let constructor ← c.classConstructor v.members name derived column
        let members ← c.classMembers name v.members column [] v.members
        let returned ← c.statementAt column (← Build.returnStatement (some (← Build.nameExpression name)))
        return (inheritance, constructor :: members ++ [returned]) : Lowering (List Node × List Node)) (do
        let constructor ← Draft.classConstructor visit (v.members.map Node.outline) v.name.outline derived
        let members ← Draft.classMembers visit v.name.outline (v.members.map Node.outline) []
          (v.members.map Node.outline)
        let returned ← Draft.make (do Build.returnStatement (some (← Build.nameExpression v.name.outline)))
        return (inheritance', constructor :: members ++ [returned])) (fun W' p q =>
          Node.AllShow W' p.1 q.1 ∧ Node.AllShow W' p.2 q.2) := by
    intro W₁ h₁ inheritance inheritance' hinheritance
    refine (h.classConstructor derived (hname.up (by order)) (fun m hm => (hns m hm).up (by order))).bind
      (fun W₂ h₂ constructor constructor' hconstructor => ?_)
    refine (h.classMembers hns (h₁.trans h₂) (hname.up (by order)) (fun m hm => (hns m hm).up (by order))).bind
      (fun W₃ h₃ members members' hmembers => ?_)
    have hreturned : Draws W₃ (do Build.returnStatement (some (← Build.nameExpression name)))
        (do Build.returnStatement (some (← Build.nameExpression v.name.outline))) Node.Shows :=
      (Build.draws_nameExpression (hname.up (by order))).bind (fun _ _ _ _ hn => Build.draws_returnStatement hn)
    refine .paired (.make hreturned (fun W₄ h₄ returned returned' hr => ?_))
    refine .lay (records_statementAt hr) (fun W₅ h₅ placed hplaced =>
      .pure ⟨Node.AllShow.up hinheritance (by order), ?_⟩)
    exact List.rel_append (.cons (hconstructor.up (by order)) (Node.AllShow.up hmembers (by order))) (.cons hplaced .nil)
  cases derived with
  | true =>
    refine Follows.markDerived.bind (fun W₁ h₁ _ _ _ => ?_)
    refine .make (draws_extendsCall (hname.up (by order))) (fun W₂ h₂ call call' hcall => ?_)
    refine .lay (records_statementAt hcall) (fun W₃ h₃ placed hplaced => ?_)
    rw [pure_bind, pure_bind]
    exact hgoes W₃ (by order) _ _ (.cons hplaced .nil)
  | false =>
    simp only [Bool.false_eq_true, if_false, pure_bind]
    exact hgoes W le_rfl [] [] .nil

omit h in
theorem draws_baseAccess : ∀ {ts ts' : List Token} {n n' : Node} {W : Registry}, Token.AllShow W ts ts' →
    n.Shows W n' → Draws W (ts.foldlM (fun n part => do Build.memberAccess n (← part.bare)) n)
      (ts'.foldlM Build.memberAccess n') Node.Shows
  | [], _, n, n', _, hts, hn => by
    cases hts
    exact .pure hn
  | t :: ts, _, n, n', W, hts, hn => by
    cases hts with
    | cons ht hrest =>
      rw [List.foldlM_cons, List.foldlM_cons]
      refine Draws.bind (R := Node.Shows) ?_ (fun W₁ h₁ access access' haccess =>
        draws_baseAccess (Token.AllShow.up hrest (by order)) haccess)
      exact .left records_bareToken (fun W₁ h₁ u hu => Build.draws_memberAccess (hn.up (by order)) (hu.trans ht.outline))

omit h in
/-- **The base class looks like its draft.** -/
theorem baseExpression (hn : n.Held W) : Follows W (baseExpression n) (Draft.baseExpression n.outline) Node.Shows := by
  unfold LoweringContext.baseExpression Draft.baseExpression
  refine .viewHeld hn (fun v hk hs hparts => ?_)
  simp only [NodeView.toSlots, List.forall_mem_cons, Slot.held_separated] at hparts
  obtain ⟨-, ⟨hnames, -⟩, -⟩ := hparts
  rw [show (OutlineView.outline v).names.members = v.names.members.map Node.outline from rfl]
  cases hmembers : v.names.members with
  | nil => exact .fail
  | cons base rest =>
    have hbase : base.Held W := hnames base (by rw [hmembers]; exact List.mem_cons_self ..)
    have hparts := hbase.known.nameParts
    simp only [List.map_cons]
    generalize base.nameParts = parts at hparts
    generalize base.outline.nameParts = parts' at hparts
    cases hparts with
    | nil => exact .fail
    | cons hfirst hparts =>
      refine .lay records_bareToken (fun W₁ h₁ bare hbare => ?_)
      refine .make (Build.draws_nameExpression (hbare.trans hfirst.outline)) (fun W₂ h₂ first first' hf => ?_)
      exact .lift (draws_baseAccess (Token.AllShow.up hparts (by order)) hf)

/-- **A class looks like its draft.** -/
theorem classDeclaration (hn : n.Held W) :
    Follows W (c.classDeclaration n) (Draft.classDeclaration visit n.outline) Replacement.Shows := by
  unfold LoweringContext.classDeclaration Draft.classDeclaration
  refine .viewHeld hn (fun v hk hs hparts => ?_)
  simp only [NodeView.toSlots, List.forall_mem_cons, Slot.held_token, Slot.held_ofNode?, Slot.held_list] at hparts
  obtain ⟨-, -, -, -, hbase, -, -, hmembers, -, -⟩ := hparts
  rw [show (OutlineView.outline v).declared.isSome = v.declared.isSome from Option.isSome_map,
    show (OutlineView.outline v).name = v.name.outline from rfl,
    show (OutlineView.outline v).base = v.base.map Node.outline from rfl]
  split
  · exact .pure .removed
  refine .lay records_bareToken (fun W₁ h₁ name hname => ?_)
  have hname : name.Shows W₁ v.name.outline := hname.bare
  have hrel : Option.Rel (fun m m' => m.Held W₁ ∧ m' = m.outline) v.base (v.base.map Node.outline) := by
    cases hb : v.base with
    | none => exact .none
    | some m => exact .some ⟨(hbase m hb).up (by order), rfl⟩
  have hbases : Follows W₁ (v.base.mapM LoweringContext.baseExpression)
      ((v.base.map Node.outline).mapM Draft.baseExpression) (fun W' => Option.Rel (Node.Shows W')) :=
    .optionMapM hrel (fun m m' hm => by rw [hm.2]; exact baseExpression hm.1)
  refine hbases.bind (fun W₂ h₂ base base' hb => ?_)
  have hderived : base'.isSome = base.isSome := by cases hb <;> rfl
  rw [hderived]
  refine (Follows.inScope (h.classBody base.isSome (hname.up (by order))
    (fun m hm => (hmembers m hm).up (by order)))).bind
    (fun W₃ h₃ p q hp => ?_)
  obtain ⟨⟨hinheritance, hstatements⟩, hcaptured⟩ := hp
  dsimp only
  rw [hcaptured]
  refine .make (draws_withCapture _ hstatements) (fun W₄ h₄ statements statements' hs => ?_)
  refine .lay (records_placeStatements (List.rel_append (Node.AllShow.up hinheritance (by order)) hs))
    (fun W₅ h₅ placed hplaced => ?_)
  refine .make (draws_bodyBlock hplaced) (fun W₆ h₆ block block' hblock => ?_)
  have hgoes : ∀ W₇, W₆ ≤ W₇ → ∀ parameters parameters' arguments arguments' : List Node,
      Node.AllShow W₇ parameters parameters' → Node.AllShow W₇ arguments arguments' → Follows W₇ (do
        let call ← wrapperCall parameters block arguments
        let statement ← Build.variableStatement name (some call)
        let leading := v.keyword.leadingWithoutExport v.exported
        return .one (← statement.withTrivia leading (c.lineEnd v.closeBrace.trailing)) : Lowering Replacement) (do
        let call ← Draft.make (Draft.wrapperCall parameters' block' arguments')
        return .one (← Draft.make (Build.variableStatement v.name.outline (some call)))) Replacement.Shows := by
    intro W₇ h₇ parameters parameters' arguments arguments' hparameters harguments
    refine .make (draws_wrapperCall hparameters (hblock.up (by order)) harguments) (fun W₈ h₈ call call' hcall => ?_)
    refine .make (Build.draws_variableStatement (hname.up (by order)) (.some hcall))
      (fun W₉ h₉ statement statement' hs => ?_)
    exact .lay (records_withTrivia hs) (fun W₁₀ h₁₀ laid hlaid => .pure (.one hlaid))
  cases hb with
  | none =>
    simp only [Option.isSome_none, Bool.false_eq_true, if_false, pure_bind]
    exact hgoes W₆ le_rfl [] [] [] [] .nil .nil
  | some hm =>
    have hparameter : Draws W₆ (do Build.parameter (← Build.identifier "_super".toList))
        (do Build.parameter (← Build.identifier "_super".toList)) Node.Shows :=
      (Build.draws_identifier _).bind (fun _ _ _ _ ht => Build.draws_parameter ht)
    refine .paired (.make hparameter (fun W₇ h₇ parameter parameter' hp => ?_))
    rw [pure_bind, pure_bind]
    exact hgoes W₇ h₇ _ _ _ _ (.cons hp .nil) (.cons (hm.up (by order)) .nil)

end Drafted

end LoweringContext

end Downlevel
