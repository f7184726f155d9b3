import Downlevel.Proofs.Outline.Operands
/-!
# Proofs.Outline.Wrapped — operands in what becomes of enums, classes and namespaces

The values of enum members and fields become right sides of assignments; methods and bodies become functions, which
are operands only in parentheses.  With these every rule keeps operands as tight as they were (`Draft.keepsTight_rule`),
and so does the whole draft (`Draft.keepsTight_visitUpTo`).
-/
namespace Downlevel

variable {k : Nat} {n : Node} {ns members : List Node} {name : Token}

namespace Draft

section Rules

variable {visit : Node → Draft Replacement} (h : KeepsTight visit)

include h

theorem tight_walkAll (hns : ∀ n ∈ ns, n.Firm k) : (walkList visit ns).Gives (fun ms => ∀ m ∈ ms, m.Tight 0) :=
  (tight_walkList h hns).mono (fun _ hms m hm => let ⟨_, _, htight⟩ := hms m hm; htight.loose)

/-! ## Enums -/

theorem tight_enumValue {e : EnumElement} (previous : PreviousValue) (hv : ∀ n ∈ e.value, n.Firm k) :
    (enumValue visit name e previous).Gives (fun p => p.1.Tight 1) := by
  refine (firm_viewClause hv).bind (fun o ho => ?_)
  cases o with
  | none => exact .made (LoweringContext.tight_implicitValue previous)
  | some clause =>
    have hvalue := ho clause rfl
    refine (tight_lower h hvalue.firm).bind (fun value hm => ?_)
    cases value.constant? with
    | some x => exact .pure (hm.weaken hvalue.value)
    | none => exact .pure (hm.weaken hvalue.value)

theorem tight_enumRecords : ∀ {ns : List Node} (previous : PreviousValue), (∀ n ∈ ns, n.Firm k) →
    (enumRecords visit name ns previous).Gives (fun ms => ∀ m ∈ ms, m.Tight 0)
  | [], _, _ => .pure (fun _ hm => by cases hm)
  | n :: ns, previous, hns => by
    obtain ⟨hn, hns⟩ := List.forall_mem_cons.1 hns
    rw [enumRecords]
    by_cases hk : n.kind = NodeView.kind EnumElement
    · obtain ⟨e, hs⟩ := FittingView.slots_eq (α := EnumElement) hn.stands hk
      have hvalue : (Slot.ofNode? e.value).Firm k := hn.slots _ (by rw [hs]; simp [NodeView.toSlots])
      rw [Node.view?_eq hk hs]
      refine (tight_enumValue h previous (Slot.firm_ofNode?.1 hvalue)).bind (fun p hp => ?_)
      refine (Gives.made (LoweringContext.tight_enumRecord hp)).bind (fun record hrecord => ?_)
      exact (tight_enumRecords _ hns).bind (fun ms hms => .pure (List.forall_mem_cons.2 ⟨hrecord.loose, hms⟩))
    · rw [Node.view?_eq_none hk]
      exact tight_enumRecords _ hns

theorem tight_enumDeclaration (hn : n.Firm k) : (enumDeclaration visit n).Gives (Replacement.Tight tightest) := by
  refine .viewFirm hn (fun v _ _ hparts => .ite (.pure Replacement.tight_removed) ?_)
  simp only [NodeView.toSlots, List.forall_mem_cons, Slot.firm_separated] at hparts
  obtain ⟨-, -, -, -, -, hmembers, -⟩ := hparts
  refine (Gives.made LoweringContext.tight_reverseMapStart).bind (fun start hstart => ?_)
  refine (tight_enumRecords h _ hmembers).bind (fun records hrecords => ?_)
  refine (Gives.made (tight_braced (List.forall_mem_cons.2 ⟨hstart.loose, hrecords⟩))).bind (fun block hblock => ?_)
  have hcall : Fresh.Gives (do
      wrapperCall [← Build.parameter v.name] block [← LoweringContext.reopened v.name]) (Node.Tight tightest) :=
    Build.tight_parameter.bind (fun _ hp => LoweringContext.tight_reopened.bind (fun _ ha =>
      tight_wrapperCall (List.forall_mem_singleton.2 hp) hblock (List.forall_mem_singleton.2 ha)))
  refine (Gives.made hcall).bind (fun call hcall => ?_)
  refine (Gives.made (Build.tight_variableStatement (fun _ hv => by cases hv))).bind (fun binding hbinding => ?_)
  refine (Gives.made (Build.tight_expressionStatement hcall)).bind (fun filled hfilled => .pure ?_)
  exact List.forall_mem_cons.2 ⟨hbinding, List.forall_mem_singleton.2 hfilled⟩

/-! ## Fields and constructors -/

theorem tight_fieldAssignment {receiver : Fresh Node} {field : MemberVariable} (hr : receiver.Gives (Node.Tight tightest))
    (hf : field.declarator.Firm k) :
    (fieldAssignment visit receiver field).Gives (fun ms => ∀ m ∈ ms, m.Tight 0) := by
  refine .viewFirm hf (fun v _ _ hparts => ?_)
  simp only [NodeView.toSlots, List.forall_mem_cons, Slot.firm_ofNode?] at hparts
  refine (firm_viewClause hparts.2.2.1).bind (fun o ho => ?_)
  cases o with
  | none => exact .pure (fun _ hm => by cases hm)
  | some clause =>
    have hvalue := ho clause rfl
    have htarget : Fresh.Gives (do LoweringContext.memberTarget (← receiver) v.name) (Node.Tight tightest) :=
      hr.bind (fun _ hr => LoweringContext.tight_memberTarget hr)
    refine (tight_lower h hvalue.firm).bind (fun value hm => (Gives.made htarget).bind (fun target ht => ?_))
    refine (Gives.made (LoweringContext.tight_assignmentStatement ht (hm.weaken hvalue.value))).bind (fun s hs => .pure ?_)
    exact List.forall_mem_singleton.2 hs.loose

theorem tight_instanceFields : ∀ {members : List Node}, (∀ n ∈ members, n.Firm k) →
    (instanceFields visit members).Gives (fun ms => ∀ m ∈ ms, m.Tight 0)
  | [], _ => .pure (fun _ hm => by cases hm)
  | n :: members, hmembers => by
    obtain ⟨hn, hmembers⟩ := List.forall_mem_cons.1 hmembers
    have hrest : ∀ here : List Node, (∀ m ∈ here, m.Tight 0) →
        (do return here ++ (← instanceFields visit members) : Draft (List Node)).Gives (fun ms => ∀ m ∈ ms, m.Tight 0) :=
      fun here hhere => (tight_instanceFields hmembers).bind (fun ms hms => .pure (List.forall_mem_append.2 ⟨hhere, hms⟩))
    rw [instanceFields]
    by_cases hk : n.kind = NodeView.kind MemberVariable
    · obtain ⟨field, hs⟩ := FittingView.slots_eq (α := MemberVariable) hn.stands hk
      have hdeclarator : (Slot.node field.declarator).Firm k := hn.slots _ (by rw [hs]; simp [NodeView.toSlots])
      rw [Node.view?_eq hk hs]
      exact .ite (.given (hrest [] (fun _ hm => by cases hm)))
        ((tight_fieldAssignment h Build.tight_thisExpression (Slot.firm_node.1 hdeclarator)).bind hrest)
    · rw [Node.view?_eq_none hk]
      exact .given (hrest [] (fun _ hm => by cases hm))

theorem tight_staticField (hn : n.Firm k) :
    (staticField visit name n).Gives (fun ms => ∀ m ∈ ms, m.Tight 0) := by
  refine .viewFirm hn (fun field _ _ hparts => .ite (.pure (fun _ hm => by cases hm)) ?_)
  simp only [NodeView.toSlots, List.forall_mem_cons, Slot.firm_node] at hparts
  exact tight_fieldAssignment h Build.tight_nameExpression hparts.2.2.1

theorem tight_constructorStatements (derived : HasBase) : ∀ {ns : List Node}, (∀ n ∈ ns, n.Firm k) →
    (constructorStatements visit derived ns).Gives (fun p => (∀ m ∈ p.1, m.Tight 0) ∧ ∀ m ∈ p.2, m.Tight 0)
  | [], _ => .pure ⟨fun _ hm => (by cases hm), fun _ hm => by cases hm⟩
  | n :: ns, hns => by
    obtain ⟨hn, hns⟩ := List.forall_mem_cons.1 hns
    refine (h n k hn).bind (fun r hr => (tight_constructorStatements derived hns).bind (fun p hp => ?_))
    have hlowered : ∀ m ∈ r.nodes, m.Tight 0 := fun m hm => (hr m hm).loose
    exact .ite (.pure ⟨List.forall_mem_append.2 ⟨hlowered, hp.1⟩, hp.2⟩)
      (.pure ⟨hp.1, List.forall_mem_append.2 ⟨hlowered, hp.2⟩⟩)

omit h in
theorem tight_propertyStatement : (propertyStatement name).Gives (Node.Tight tightest) :=
  Build.tight_thisExpression.bind (fun _ ht => LoweringContext.tight_assignSameName ht)

theorem tight_constructorFunction {block parameters : Node} (derived : HasBase) (hmembers : ∀ n ∈ members, n.Firm k)
    (hb : block.Firm k) (hp : parameters.Firm k) :
    (constructorFunction visit members name block parameters derived).Gives (Node.Tight tightest) := by
  unfold constructorFunction
  refine (Gives.inScope (P := fun p => p.1.Tight 0 ∧ (∀ m ∈ p.2.1, m.Tight 0) ∧ ∀ m ∈ p.2.2, m.Tight 0) ?_).bind
    (fun p hp => ?_)
  · refine (tight_parameterList hp).bind (fun p hp => .viewFirm hb (fun v _ _ hparts => ?_))
    simp only [NodeView.toSlots, List.forall_mem_cons, Slot.firm_list] at hparts
    refine (tight_constructorStatements h derived hparts.2.1).bind (fun s hs => ?_)
    refine (tight_parameterPrologue h hp.2).bind (fun prologue hprologue => ?_)
    have hproperties : (p.2.properties.mapM (fun name => make (propertyStatement name))).Gives
        (fun ms => ∀ m ∈ ms, m.Tight 0) :=
      .mapM (fun _ _ => .made (tight_propertyStatement.mono (fun _ hm => hm.loose)))
    refine hproperties.bind (fun properties hproperties => (tight_instanceFields h hmembers).bind (fun fields hfields => ?_))
    refine .pure ⟨hp.1.loose, ?_, hs.2⟩
    simp only [List.forall_mem_append]
    exact ⟨⟨⟨hs.1, hprologue⟩, hproperties⟩, hfields⟩
  refine (Gives.made (tight_withCapture p.2 hp.2.1)).bind (fun prologue hprologue => ?_)
  refine .viewFirm hb (fun v _ _ _ => ?_)
  have hblock : (NodeView.toNode { v with statements := p.1.2.2 }).Gives (Node.Tight tightest) :=
    tight_toNode (.cons Slot.tight_token <| .cons (Slot.tight_list hp.2.2) <| .cons Slot.tight_token .nil) rfl
  refine (Gives.made hblock).bind (fun lowered hlowered => (tight_assembleBlock hlowered hprologue).bind (fun b hb => ?_))
  exact .made (tight_functionDeclaration hp.1 hb)

theorem tight_synthesizedConstructor (derived : HasBase) (hmembers : ∀ n ∈ members, n.Firm k) :
    (synthesizedConstructor visit members name derived).Gives (Node.Tight tightest) := by
  refine (tight_instanceFields h hmembers).inScope.bind (fun p hp => ?_)
  have hrest : ∀ forward : List Node, (∀ m ∈ forward, m.Tight 0) → (do
      let statements ← make (withCapture p.2 (forward ++ p.1))
      let block ← make (braced statements)
      make (do functionDeclaration name (← Build.parameterList []) block) : Draft Node).Gives (Node.Tight tightest) := by
    intro forward hforward
    refine (Gives.made (tight_withCapture p.2 (List.forall_mem_append.2 ⟨hforward, hp⟩))).bind (fun ms hms => ?_)
    refine (Gives.made (tight_braced hms)).bind (fun block hblock => .made ?_)
    have hnone : ∀ m ∈ ([] : List Node), m.Tight 0 := fun _ hm => by cases hm
    exact (Build.tight_parameterList hnone).bind (fun _ hl => tight_functionDeclaration hl hblock)
  refine .ite (((Gives.made LoweringContext.tight_forwardToBase).bind (P := Node.Tight tightest) (fun m hm => ?_))) ?_
  · exact hrest [m] (List.forall_mem_singleton.2 hm.loose)
  · exact hrest [] (fun _ hm => by cases hm)

theorem tight_classConstructor (derived : HasBase) (hmembers : ∀ n ∈ members, n.Firm k) :
    (classConstructor visit members name derived).Gives (Node.Tight tightest) := by
  have hfirst : ∀ {ns : List Node}, (∀ n ∈ ns, n.Firm k) → ∀ p ∈ LoweringContext.firstConstructor? ns,
      p.2.1.parameters.Firm k ∧ p.2.2.Firm k := by
    intro ns hns
    induction ns with
    | nil => exact fun _ hp => by cases hp
    | cons n ns ih =>
      obtain ⟨hn, hns⟩ := List.forall_mem_cons.1 hns
      rw [LoweringContext.firstConstructor?]
      by_cases hk : n.kind = NodeView.kind ConstructorDeclaration
      · obtain ⟨v, hs⟩ := FittingView.slots_eq (α := ConstructorDeclaration) hn.stands hk
        have hparts : ∀ s ∈ NodeView.toSlots v, s.Firm k := fun s hmem => hn.slots s (hs ▸ hmem)
        simp only [NodeView.toSlots, List.forall_mem_cons, Slot.firm_node, Slot.firm_ofNode?] at hparts
        rw [Node.view?_eq hk hs]
        dsimp only
        split
        · rename_i block hb
          intro p hp
          rw [← Option.some.inj hp]
          exact ⟨hparts.2.1, hparts.2.2.1 block hb⟩
        · exact ih hns
      · rw [Node.view?_eq_none hk]
        exact ih hns
  unfold classConstructor
  split
  · rename_i first v block heq
    obtain ⟨hparameters, hblock⟩ := hfirst hmembers _ heq
    exact tight_constructorFunction h derived hmembers hblock hparameters
  · exact tight_synthesizedConstructor h derived hmembers

/-! ## Methods and accessors -/

theorem tight_method (hn : n.Firm k) : (method visit name n).Gives (fun ms => ∀ m ∈ ms, m.Tight 0) := by
  refine .viewFirm hn (fun v _ _ hparts => ?_)
  simp only [NodeView.toSlots, List.forall_mem_cons, Slot.firm_node, Slot.firm_ofNode?] at hparts
  split
  · exact .pure (fun _ hm => by cases hm)
  · rename_i block hb
    refine .viewFirm hparts.2.2.2.1 (fun s _ _ hsignature => ?_)
    simp only [NodeView.toSlots, List.forall_mem_cons, Slot.firm_node] at hsignature
    refine (tight_functionLike h hsignature.1 (hparts.2.2.2.2.1 block hb)).bind (fun p hp => ?_)
    refine (Gives.made (tight_functionExpression hp.1 hp.2)).bind (fun value hvalue => ?_)
    have htarget : Fresh.Gives (do
        LoweringContext.memberTarget (← LoweringContext.classReceiver name v.isStatic.isSome) v.name)
        (Node.Tight tightest) :=
      (LoweringContext.tight_classReceiver _).bind (fun _ hr => LoweringContext.tight_memberTarget hr)
    refine (Gives.made htarget).bind (fun target ht => ?_)
    refine (Gives.made (LoweringContext.tight_assignmentStatement ht (hvalue.weaken (by decide)))).bind
      (fun s hs => .pure (List.forall_mem_singleton.2 hs.loose))

theorem tight_accessorFunction (hn : n.Firm k) : (accessorFunction visit n).Gives (Node.Tight tightest) := by
  unfold accessorFunction
  extract_lets finish
  have hfunction : ∀ parts : Node × Node, parts.1.Firm k → parts.2.Firm k →
      (finish parts).Gives (Node.Tight tightest) := fun _ hp hb =>
    (tight_functionLike h hp hb).bind (fun p hp => .made (tight_functionExpression hp.1 hp.2))
  by_cases hk : n.kind = NodeView.kind MemberGetter
  · obtain ⟨v, hs⟩ := FittingView.slots_eq (α := MemberGetter) hn.stands hk
    have hparts : ∀ s ∈ NodeView.toSlots v, s.Firm k := fun s hmem => hn.slots s (hs ▸ hmem)
    simp only [NodeView.toSlots, List.forall_mem_cons, Slot.firm_node] at hparts
    obtain ⟨-, -, -, -, hparameters, -, hblock, -⟩ := hparts
    rw [Node.view?_eq hk hs]
    exact .given (hfunction (v.parameters, v.block) hparameters hblock)
  · rw [Node.view?_eq_none hk]
    dsimp only
    refine .viewFirm hn (fun v _ _ hparts => ?_)
    simp only [NodeView.toSlots, List.forall_mem_cons, Slot.firm_node] at hparts
    obtain ⟨-, -, -, -, hparameters, hblock, -⟩ := hparts
    exact .given (hfunction (v.parameters, v.block) hparameters hblock)

omit h in
theorem tight_descriptorProperty (keyword : String) (hn : n.Tight tightest) :
    (descriptorProperty keyword n).Gives (Node.Tight tightest) :=
  .andThen (fun _ => Build.tight_propertyAssignment hn)

theorem tight_accessorProperties : ∀ {accessors : List (String × Node)}, (∀ p ∈ accessors, p.2.Firm k) →
    (accessorProperties visit accessors).Gives (fun ms => ∀ m ∈ ms, m.Tight tightest)
  | [], _ => .pure (fun _ hm => by cases hm)
  | (keyword, accessor) :: rest, haccessors => by
    obtain ⟨haccessor, hrest⟩ := List.forall_mem_cons.1 haccessors
    refine (tight_accessorFunction h haccessor).bind (fun f hf => ?_)
    refine (Gives.made (tight_descriptorProperty keyword hf)).bind (fun p hp => ?_)
    exact (tight_accessorProperties hrest).bind (fun ms hms => .pure (List.forall_mem_cons.2 ⟨hp, hms⟩))

theorem tight_descriptor {accessors : List (String × Node)} (haccessors : ∀ p ∈ accessors, p.2.Firm k) :
    (descriptor visit accessors).Gives (Node.Tight tightest) := by
  have hflag : ∀ name : String, (flagProperty name).Gives (Node.Tight tightest) := fun name =>
    (Build.tight_keywordLiteral _).bind (fun _ hl => tight_descriptorProperty name hl)
  refine (tight_accessorProperties h haccessors).bind (fun functions hfunctions => ?_)
  refine (Gives.made (hflag "enumerable")).bind (fun e he => (Gives.made (hflag "configurable")).bind (fun c hc => ?_))
  refine .andThen (fun separators => .andThen (fun openBrace => .andThen (fun closeBrace => .made ?_)))
  refine Build.tight_objectLiteral (Slot.tight_separated ?_)
  simp only [List.forall_mem_append, List.forall_mem_cons]
  exact ⟨fun m hm => (hfunctions m hm).loose, he.loose, hc.loose, fun _ hm => by cases hm⟩

theorem tight_defineProperty (key : AccessorKey) (hmembers : ∀ n ∈ members, n.Firm k) :
    (defineProperty visit name members key).Gives (Node.Tight tightest) := by
  have haccessors : ∀ p ∈ LoweringContext.accessorsOf members key, p.2.Firm k := by
    intro p hp
    unfold LoweringContext.accessorsOf at hp
    simp only [List.mem_append, Option.mem_toList, Option.map_eq_some_iff] at hp
    rcases hp with ⟨m, hm, rfl⟩ | ⟨m, hm, rfl⟩
    · exact hmembers m (List.mem_filter.1 (List.mem_of_find?_eq_some hm)).1
    · exact hmembers m (List.mem_filter.1 (List.mem_of_find?_eq_some hm)).1
  refine (tight_descriptor h haccessors).bind (fun d hd => (Gives.made (Build.tight_name _)).bind (fun object ho => ?_))
  refine (Gives.made (Build.tight_memberPath _ ho)).bind (fun define hdefine => ?_)
  refine (Gives.made (LoweringContext.tight_classReceiver key.isStatic)).bind (fun receiver hreceiver => ?_)
  refine (Gives.made (Build.tight_stringLiteral key.name)).bind (fun named hnamed => ?_)
  have harguments : ∀ m ∈ [receiver, named, d], m.Tight 1 := by
    simp only [List.forall_mem_cons]
    exact ⟨hreceiver.weaken (by decide), hnamed.weaken (by decide), hd.weaken (by decide), fun _ hm => by cases hm⟩
  exact (Gives.made (Build.tight_invocation hdefine harguments)).bind (fun call hcall =>
    .made (Build.tight_expressionStatement hcall))

/-! ## Classes -/

theorem tight_classMember (seen : List AccessorKey) (hmembers : ∀ n ∈ members, n.Firm k) (hn : n.Firm k) :
    (classMember visit name members seen n).Gives (fun ms => ∀ m ∈ ms, m.Tight 0) := by
  unfold classMember
  split
  · exact tight_method h hn
  · exact tight_staticField h hn
  · split
    · refine .ite (.pure (fun _ hm => by cases hm)) ?_
      exact (tight_defineProperty h _ hmembers).bind (fun s hs => .pure (List.forall_mem_singleton.2 hs.loose))
    · exact .pure (fun _ hm => by cases hm)

theorem tight_classMembers (hmembers : ∀ n ∈ members, n.Firm k) : ∀ (seen : List AccessorKey) {rest : List Node},
    (∀ n ∈ rest, n.Firm k) → (classMembers visit name members seen rest).Gives (fun ms => ∀ m ∈ ms, m.Tight 0)
  | _, [], _ => .pure (fun _ hm => by cases hm)
  | seen, n :: rest, hrest => by
    obtain ⟨hn, hrest⟩ := List.forall_mem_cons.1 hrest
    refine (tight_classMember h seen hmembers hn).bind (fun ms hms => ?_)
    exact (tight_classMembers hmembers _ hrest).bind (fun ms' hms' => .pure (List.forall_mem_append.2 ⟨hms, hms'⟩))

theorem tight_classBody {v : ClassDeclaration} (derived : HasBase) (hmembers : ∀ n ∈ v.members, n.Firm k) :
    (classBody visit v derived).Gives (fun p => (∀ m ∈ p.1, m.Tight 0) ∧ ∀ m ∈ p.2, m.Tight 0) := by
  have hrest : ∀ inheritance : List Node, (∀ m ∈ inheritance, m.Tight 0) → (do
      let constructor ← classConstructor visit v.members v.name derived
      let members ← classMembers visit v.name v.members [] v.members
      let returned ← make (do Build.returnStatement (some (← Build.nameExpression v.name)))
      return (inheritance, constructor :: members ++ [returned]) : Draft (List Node × List Node)).Gives
        (fun p => (∀ m ∈ p.1, m.Tight 0) ∧ ∀ m ∈ p.2, m.Tight 0) := by
    intro inheritance hinheritance
    refine (tight_classConstructor h derived hmembers).bind (fun c hc => ?_)
    refine (tight_classMembers h hmembers [] hmembers).bind (fun ms hms => ?_)
    have hreturn : Fresh.Gives (do Build.returnStatement (some (← Build.nameExpression v.name))) (Node.Tight tightest) :=
      Build.tight_nameExpression.bind (fun _ hn => Build.tight_returnStatement hn)
    refine (Gives.made hreturn).bind (fun r hr => .pure ⟨hinheritance, ?_⟩)
    simp only [List.cons_append, List.forall_mem_cons, List.forall_mem_append]
    exact ⟨hc.loose, hms, hr.loose, fun _ hm => by cases hm⟩
  have hnone : ∀ m ∈ ([] : List Node), m.Tight 0 := fun _ hm => by cases hm
  unfold classBody
  cases derived with
  | true =>
    exact .andThen (fun _ => (Gives.made LoweringContext.tight_extendsCall).bind (fun e he =>
      .given (hrest [e] (List.forall_mem_singleton.2 he.loose))))
  | false => exact .given (hrest [] hnone)

omit h in
theorem tight_baseExpression : (baseExpression n).Gives (Node.Tight tightest) := by
  refine .andThen (fun clause => ?_)
  split
  · exact .fail
  · split
    · exact .fail
    · have hpath : ∀ (rest : List Token) {m : Node}, m.Tight tightest →
          (rest.foldlM Build.memberAccess m).Gives (Node.Tight tightest) := by
        intro rest
        induction rest with
        | nil => exact fun hm => .pure hm
        | cons t rest ih => exact fun hm => (Build.tight_memberAccess hm).bind (fun _ hm => ih hm)
      exact (Gives.made Build.tight_nameExpression).bind (fun first hfirst => .made (hpath _ hfirst))

/-- **A class becomes a call with its base as an argument.** -/
theorem tight_classDeclaration (hn : n.Firm k) : (classDeclaration visit n).Gives (Replacement.Tight tightest) := by
  refine .viewFirm hn (fun v _ _ hparts => .ite (.pure Replacement.tight_removed) ?_)
  simp only [NodeView.toSlots, List.forall_mem_cons, Slot.firm_list] at hparts
  obtain ⟨-, -, -, -, -, -, -, hmembers, -⟩ := hparts
  have hbase : (v.base.mapM baseExpression).Gives (fun o => ∀ m ∈ o, m.Tight tightest) := by
    cases v.base with
    | none => exact .pure (fun _ hm => by cases hm)
    | some n => exact tight_baseExpression.bind (fun m hm => .pure (fun _ heq => Option.some.inj heq ▸ hm))
  refine hbase.bind (fun base hbase => (tight_classBody h base.isSome hmembers).inScope.bind (fun p hp => ?_))
  refine (Gives.made (tight_withCapture p.2 hp.2)).bind (fun statements hstatements => ?_)
  refine (Gives.made (tight_braced (List.forall_mem_append.2 ⟨hp.1, hstatements⟩))).bind (fun block hblock => ?_)
  have hcall : ∀ parameters : List Node, (∀ m ∈ parameters, m.Tight 0) → (do
      let call ← make (wrapperCall parameters block base.toList)
      return .one (← make (Build.variableStatement v.name (some call))) : Draft Replacement).Gives
        (Replacement.Tight tightest) := by
    intro parameters hparameters
    have hbases : ∀ m ∈ base.toList, m.Tight 1 := fun m hm => (hbase m (Option.mem_toList.1 hm)).weaken (by decide)
    refine (Gives.made (tight_wrapperCall hparameters hblock hbases)).bind (fun call hcall => ?_)
    refine (Gives.made (Build.tight_variableStatement (fun _ hv => ?_))).bind (fun m hm => .pure (Replacement.tight_one hm))
    exact Option.some.inj hv ▸ hcall.weaken (by decide)
  have hparameter : Fresh.Gives (do Build.parameter (← Build.identifier "_super".toList)) (Node.Tight tightest) :=
    .andThen (fun _ => Build.tight_parameter)
  refine .ite ((Gives.made hparameter).bind (P := Node.Tight tightest) (fun p hp => ?_)) ?_
  · exact hcall [p] (List.forall_mem_singleton.2 hp.loose)
  · exact hcall [] (fun _ hm => by cases hm)

/-! ## Namespaces and programs -/

theorem tight_moduleElements {ns : List Node} (hns : ∀ n ∈ ns, n.Firm k) :
    (moduleElements visit ns).Gives (fun p => ∀ m ∈ p.1, m.Tight 0) := by
  induction ns with
  | nil => exact .pure (fun _ hm => by cases hm)
  | cons n ns ih =>
    obtain ⟨hn, hns⟩ := List.forall_mem_cons.1 hns
    unfold moduleElements
    refine (h n k hn).bind (fun r hr => ?_)
    have hlowered : ∀ m ∈ r.nodes, m.Tight 0 := fun m hm => (hr m hm).loose
    extract_lets lowered finish
    have hrest : ∀ names : List Token, (finish names).Gives (fun p => ∀ m ∈ p.1, m.Tight 0) := fun names =>
      (ih hns).bind (fun p hp => .pure (List.forall_mem_append.2 ⟨hlowered, hp⟩))
    exact .ite (.given (hrest [])) (.andThen (fun names => hrest names))

theorem tight_moduleDeclaration (hn : n.Firm k) :
    (moduleDeclaration visit n).Gives (Replacement.Tight tightest) := by
  refine .viewFirm hn (fun v _ _ hparts => .ite (.pure Replacement.tight_removed) ?_)
  simp only [NodeView.toSlots, List.forall_mem_cons, Slot.firm_list] at hparts
  obtain ⟨-, -, -, -, -, helements, -⟩ := hparts
  have hparts : (namespaceParts v.name).Gives (fun parts => parts ≠ []) := by
    unfold namespaceParts
    split
    · exact .fail
    · rename_i hne
      exact .pure (fun hnil => hne (.inl (by rw [hnil]; rfl)))
  refine hparts.bind (fun parts hparts => (tight_moduleElements h helements).inScope.bind (fun p hp => ?_))
  refine .ite (.pure Replacement.tight_removed) ?_
  obtain ⟨part, parts, rfl⟩ := List.exists_cons_of_ne_nil hparts
  have hwrapped : ∀ attached : List Node, (∀ m ∈ attached, m.Tight 0) → (do
      let statements ← make (withCapture p.2 p.1.1)
      return .many (← make (wrapLevels (statements ++ attached) none (part :: parts))) : Draft Replacement).Gives
        (Replacement.Tight tightest) := fun attached hattached =>
    (Gives.made (tight_withCapture p.2 hp)).bind (fun statements hstatements =>
      (Gives.made (tight_wrapLevels part parts none (List.forall_mem_append.2 ⟨hstatements, hattached⟩))).bind
        (fun ms hms => .pure hms))
  dsimp only
  split
  · exact (Gives.mapM (fun _ _ => .made (LoweringContext.tight_attachName.mono (fun _ hm => hm.loose)))).bind hwrapped
  · exact .given (hwrapped [] (fun _ hm => by cases hm))

/-- **What becomes of a whole program is tight.** -/
theorem tight_sourceUnit (hn : n.Firm k) : (sourceUnit visit n).Gives (Replacement.Tight tightest) := by
  refine .viewFirm hn (fun v _ _ hparts => ?_)
  simp only [NodeView.toSlots, List.forall_mem_cons, Slot.firm_list] at hparts
  refine (tight_walkAll h hparts.1).inScope.bind (fun p hp => ?_)
  refine (Gives.made (tight_withCapture p.2 hp)).bind (fun statements hstatements => ?_)
  have hunit : (NodeView.toNode (SourceUnit.mk statements v.endOfFile)).Gives (Node.Tight tightest) :=
    tight_toNode (.cons (Slot.tight_list hstatements) <| .cons Slot.tight_token .nil) rfl
  exact (Gives.made hunit).bind (fun m hm => .pure (Replacement.tight_one hm))

omit h in
theorem tight_signature (hn : n.Firm k) : (callSignature n).Gives (Replacement.Tight tightest) := by
  refine .viewFirm hn (fun v _ _ hparts => ?_)
  simp only [NodeView.toSlots, List.forall_mem_cons, Slot.firm_node] at hparts
  exact (tight_parameterList hparts.1).bind (fun p hp =>
    (Gives.made (Build.tight_callSignature hp.1)).bind (fun m hm => .pure (Replacement.tight_one hm)))

/-- **Each rule keeps operands as tight as they were.** -/
theorem keepsTight_rule : KeepsTight (rule visit) := by
  intro n k hn
  have htightest : ∀ {kind : NodeKind}, n.kind = kind → kind.tightness = tightest → kind ≠ .binaryExpression →
      n.tightness = tightest := fun hk ht hb => (Node.tightness_of_kind hk hb).trans ht
  have hweaken : ∀ {d : Draft Replacement}, d.Gives (Replacement.Tight tightest) → d.Gives (Replacement.Tight n.tightness) :=
    fun hd => hd.mono (fun _ hr m hm => (hr m hm).weaken n.tightness_le)
  unfold rule
  split
  · exact hweaken (tight_sourceUnit h hn)
  · exact .pure Replacement.tight_removed
  · exact hweaken (tight_classDeclaration h hn)
  · exact hweaken (tight_moduleDeclaration h hn)
  · exact hweaken (tight_enumDeclaration h hn)
  · exact hweaken (tight_functionStatement h hn)
  · exact hweaken (tight_variableStatement h hn (htightest ‹_› rfl (by decide)))
  · exact hweaken (tight_variableDeclarator h hn (htightest ‹_› rfl (by decide)))
  · exact .pure Replacement.tight_removed
  · exact hweaken (tight_signature hn)
  · exact hweaken ((tight_parameterList hn).bind (fun p hp => .pure (Replacement.tight_one hp.1)))
  · exact hweaken (tight_eraseParameter.bind (fun p hp => .pure (Replacement.tight_one hp)))
  · exact hweaken (tight_expressionStatement h hn (htightest ‹_› rfl (by decide)))
  · exact hweaken tight_thisExpression
  · exact hweaken (tight_castExpression h hn ‹_›)
  · exact hweaken (tight_invocation h hn (htightest ‹_› rfl (by decide)))
  · exact hweaken (tight_memberAccess h hn (htightest ‹_› rfl (by decide)))
  · exact hweaken (tight_functionValue h hn)
  · exact hweaken (tight_objectAccessor h hn (htightest ‹_› rfl (by decide)))
  · exact hweaken (tight_objectAccessor h hn (htightest ‹_› rfl (by decide)))
  · exact hweaken (tight_simpleArrow h hn)
  · exact hweaken (tight_parenthesizedArrow h hn)
  · exact (tight_walk h hn).bind (fun m hm => .pure (Replacement.tight_one hm))

end Rules

/-- **The draft of lowering keeps operands as tight as they were.** -/
theorem keepsTight_visitUpTo : ∀ levels, KeepsTight (visitUpTo levels)
  | 0 => fun _ _ _ => .fail
  | levels + 1 => keepsTight_rule (keepsTight_visitUpTo levels)

end Draft

end Downlevel
