import Downlevel.Proofs.Outline.Shapes
/-!
# Proofs.Outline.Operands — no rule puts an operand where it needs parentheses

Every rule puts what becomes of a part into a place that asks for no more than the part's own place did, or it adds
parentheses (`Draft.tight_rule`).  A default value, an initializer and the value of a field or of a member of an enum
were values already, so they have no comma, and they become arguments and right sides of assignments.
-/
namespace Downlevel

variable {k least : Nat} {n m : Node} {ns : List Node}

theorem Replacement.tight_one (h : n.Tight least) : (Replacement.one n).Tight least := List.forall_mem_singleton.2 h

theorem Replacement.tight_removed : Replacement.removed.Tight least := fun _ h => by cases h

/-- The tree may be lowered to a value. -/
structure Node.FirmValue (k : Nat) (n : Node) : Prop where
  firm : n.Firm k
  value : 1 ≤ n.tightness

/-- The default values that parameters leave for the body are values. -/
def ParameterFacts.Firm (k : Nat) (facts : ParameterFacts) : Prop := ∀ d ∈ facts.defaults, d.value.FirmValue k

theorem ParameterFacts.firm_none : ParameterFacts.none.Firm k := fun _ h => by cases h

/-- What stands in a slot of a tree that is to be lowered binds as tightly as the kind asks for there. -/
theorem Node.Firm.demand_le {kind : NodeKind} (h : n.Firm k) (index : Nat) (hk : n.kind = kind)
    (hb : kind ≠ .binaryExpression) (hm : n.slots[index]? = some (.node m)) : kind.demand index ≤ m.tightness := by
  refine h.bound.self.at_kind hk hb (?_ : m ∈ n.nodesAt index)
  unfold Node.nodesAt
  rw [hm]
  exact List.mem_singleton.2 rfl

namespace Draft

/-- What a clause assigns is a value. -/
theorem firm_viewClause {o : Option Node} (h : ∀ n ∈ o, n.Firm k) :
    (viewOption EqualsValueClause o).Gives (fun o => ∀ clause ∈ o, clause.value.FirmValue k) := by
  cases o with
  | none => exact .pure (fun _ hc => by cases hc)
  | some n =>
    show (some <$> view EqualsValueClause n).Gives _
    rw [map_eq_pure_bind]
    refine .viewFirm (h n rfl) (fun v hk hs hparts => .pure (fun clause hc => ?_))
    rw [← Option.some.inj hc]
    simp only [NodeView.toSlots, List.forall_mem_cons, Slot.firm_node] at hparts
    exact ⟨hparts.2.1, (h n rfl).demand_le 1 hk (by decide) (by rw [hs]; rfl)⟩

section Rules

variable {visit : Node → Draft Replacement} (h : KeepsTight visit)

/-! ## Parameters -/

theorem tight_eraseParameter : (eraseParameter n).Gives (Node.Tight tightest) :=
  .andThen (fun _ => .made Build.tight_parameter)

theorem firm_defaultValue? {p : Parameter} (hp : ∀ n ∈ p.value, n.Firm k) :
    (defaultValue? p).Gives (fun ds => ∀ d ∈ ds, d.value.FirmValue k) := by
  refine (firm_viewClause hp).bind (fun o ho => ?_)
  cases o with
  | none => exact .pure (fun _ hd => by cases hd)
  | some clause => exact .pure (List.forall_mem_singleton.2 (ho clause rfl))

theorem tight_parametersFrom : ∀ (index : Nat) {ns : List Node}, (∀ n ∈ ns, n.Firm k) →
    (parametersFrom index ns).Gives (fun p => (∀ m ∈ p.1, m.Tight tightest) ∧ p.2.Firm k)
  | _, [], _ => .pure ⟨fun _ hm => (by cases hm), ParameterFacts.firm_none⟩
  | index, n :: ns, hns => by
    obtain ⟨hn, hns⟩ := List.forall_mem_cons.1 hns
    refine .viewFirm hn (fun p _ _ hparts => ?_)
    simp only [NodeView.toSlots, List.forall_mem_cons, Slot.firm_ofNode?] at hparts
    dsimp only
    split
    · exact .pure ⟨fun _ hm => (by cases hm), fun _ hd => by cases hd⟩
    · refine (firm_defaultValue? hparts.2.2.2.2.2.1).bind (fun ds hds => tight_eraseParameter.bind (fun m hm => ?_))
      refine (tight_parametersFrom (index + 1) hns).bind (fun p hp => .pure ⟨List.forall_mem_cons.2 ⟨hm, hp.1⟩, ?_⟩)
      intro d hd
      exact (List.mem_append.1 hd).elim (hds d) (hp.2 d)

/-- **Default values stay values**, and the parameters are names. -/
theorem tight_parameterList (hn : n.Firm k) :
    (parameterList n).Gives (fun p => p.1.Tight tightest ∧ p.2.Firm k) := by
  refine .viewFirm hn (fun v _ _ hparts => ?_)
  simp only [NodeView.toSlots, List.forall_mem_cons, Slot.firm_separated] at hparts
  refine (tight_parametersFrom 0 hparts.2.1).bind (fun p hp => ?_)
  have hlist : ∀ separators : List Token,
      (NodeView.toNode (ParameterList.mk v.openParen ⟨p.1, separators⟩ v.closeParen)).Gives (Node.Tight tightest) :=
    fun separators => tight_toNode (.cons Slot.tight_token <|
      .cons (Slot.tight_separated (fun m hm => (hp.1 m hm).loose)) <| .cons Slot.tight_token .nil) rfl
  exact (Gives.made (hlist _)).bind (fun m hm => .pure ⟨hm, hp.2⟩)

include h

theorem tight_parameterPrologue {facts : ParameterFacts} (hf : facts.Firm k) :
    (parameterPrologue visit facts).Gives (fun ms => ∀ m ∈ ms, m.Tight 0) := by
  have hdefault : ∀ d ∈ facts.defaults, (defaultValueStatement visit d).Gives (Node.Tight 0) := fun d hd =>
    (tight_lower h (hf d hd).firm).bind (fun m hm =>
      .make (tight_setDefault (hm.weaken (hf d hd).value) 0).loose)
  refine (Gives.mapM hdefault).bind (fun ms hms => ?_)
  split
  · exact (Gives.made (tight_restStatements _)).bind (fun rs hrs => .pure (List.forall_mem_append.2 ⟨hms, hrs⟩))
  · exact .pure hms

/-! ## Functions -/

theorem tight_functionLike {parameters block : Node} (hp : parameters.Firm k) (hb : block.Firm k) :
    (functionLike visit parameters block).Gives (fun p => p.1.Tight 0 ∧ p.2.Tight 0) := by
  unfold functionLike
  refine (Gives.inScope (P := fun p => p.1.Tight 0 ∧ (∀ m ∈ p.2.1, m.Tight 0) ∧ p.2.2.Tight 0) ?_).bind (fun p hp => ?_)
  · exact (tight_parameterList hp).bind (fun p hp => (tight_parameterPrologue h hp.2).bind (fun ms hms =>
      (tight_lower h hb).bind (fun b hb => .pure ⟨hp.1.loose, hms, hb.loose⟩)))
  · refine (Gives.made (tight_withCapture p.2 hp.2.1)).bind (fun ms hms => ?_)
    exact (tight_assembleBlock hp.2.2 hms).bind (fun b hb => .pure ⟨hp.1, hb⟩)

theorem tight_functionStatement (hn : n.Firm k) :
    (functionStatement visit n).Gives (Replacement.Tight tightest) := by
  refine .viewFirm hn (fun v _ _ hparts => ?_)
  simp only [NodeView.toSlots, List.forall_mem_cons, Slot.firm_ofNode?, Slot.firm_node] at hparts
  obtain ⟨-, -, -, -, hsignature, hblock, -⟩ := hparts
  dsimp only
  split
  · exact .pure Replacement.tight_removed
  · split
    · exact .pure Replacement.tight_removed
    · rename_i block hb
      refine .viewFirm hsignature (fun s _ _ hparts => ?_)
      simp only [NodeView.toSlots, List.forall_mem_cons, Slot.firm_node] at hparts
      refine (tight_functionLike h hparts.1 (hblock block hb)).bind (fun p hp => ?_)
      refine (Gives.made (Build.tight_callSignature hp.1)).bind (fun signature hs => ?_)
      have hfunction : (NodeView.toNode (FunctionDeclaration.mk none none v.keyword v.name signature (some p.2)
          v.semicolon)).Gives (Node.Tight tightest) :=
        tight_toNode (.cons Slot.tight_ofToken? <| .cons Slot.tight_ofToken? <| .cons Slot.tight_token <|
          .cons Slot.tight_token <| .cons hs.loose.slot <| .cons hp.2.slot <| .cons Slot.tight_ofToken? .nil) rfl
      exact (Gives.made hfunction).bind (fun m hm => .pure (Replacement.tight_one hm))

theorem tight_functionValue (hn : n.Firm k) : (functionValue visit n).Gives (Replacement.Tight tightest) := by
  refine .viewFirm hn (fun v _ _ hparts => ?_)
  simp only [NodeView.toSlots, List.forall_mem_cons, Slot.firm_node] at hparts
  obtain ⟨-, -, hsignature, hblock, -⟩ := hparts
  refine .viewFirm hsignature (fun s _ _ hparts => ?_)
  simp only [NodeView.toSlots, List.forall_mem_cons, Slot.firm_node] at hparts
  refine (tight_functionLike h hparts.1 hblock).bind (fun p hp => ?_)
  refine (Gives.made (Build.tight_callSignature hp.1)).bind (fun signature hs => ?_)
  have hfunction : (NodeView.toNode (FunctionExpression.mk v.keyword v.name signature p.2)).Gives
      (Node.Tight tightest) :=
    tight_toNode (.cons Slot.tight_token <| .cons Slot.tight_ofToken? <| .cons hs.loose.slot <|
      .cons hp.2.slot .nil) rfl
  exact (Gives.made hfunction).bind (fun m hm => .pure (Replacement.tight_one hm))

omit h in
theorem tight_accessorBody {block : Node} (captured : Bool) (hb : block.Tight 0) :
    (accessorBody block captured).Gives (Node.Tight 0) := by
  refine .ite (.pure hb) ((Gives.made tight_captureStatement).bind (fun m hm => ?_))
  exact tight_assembleBlock hb (List.forall_mem_singleton.2 hm.loose)

omit h in
theorem tight_objectGetter {walked : Node} (captured : Bool) (hn : n.Firm k) (hw : walked.Tight tightest) :
    (objectGetter n walked captured).Gives (Replacement.Tight tightest) := by
  refine .viewTight hw (fun v hparts => .viewFirm hn (fun before _ _ _ => ?_))
  simp only [NodeView.toSlots, List.forall_mem_cons] at hparts
  obtain ⟨-, -, -, -, htype, hblock, -⟩ := hparts
  refine .ite (.pure (Replacement.tight_one hw)) ?_
  refine (tight_accessorBody captured (hblock v.block (List.mem_singleton.2 rfl))).bind (fun block hb => ?_)
  have hresult : (Slot.ofNode? (if before.resultType.isSome then none else v.resultType)).Tight 0 := by
    split
    · exact Slot.tight_absent
    · exact htype
  have haccessor : (NodeView.toNode { v with
      resultType := if before.resultType.isSome then none else v.resultType, block }).Gives (Node.Tight tightest) :=
    tight_toNode (.cons Slot.tight_token <| .cons Slot.tight_token <| .cons Slot.tight_token <|
      .cons Slot.tight_token <| .cons hresult <| .cons hb.slot .nil) rfl
  exact (Gives.made haccessor).bind (fun m hm => .pure (Replacement.tight_one hm))

omit h in
theorem tight_objectSetter {walked : Node} (captured : Bool) (hw : walked.Tight tightest) :
    (objectSetter walked captured).Gives (Replacement.Tight tightest) := by
  refine .ite (.pure (Replacement.tight_one hw)) (.viewTight hw (fun v hparts => ?_))
  simp only [NodeView.toSlots, List.forall_mem_cons] at hparts
  obtain ⟨-, -, -, hparameter, -, hblock, -⟩ := hparts
  refine (tight_accessorBody captured (hblock v.block (List.mem_singleton.2 rfl))).bind (fun block hb => ?_)
  have haccessor : (NodeView.toNode { v with block }).Gives (Node.Tight tightest) :=
    tight_toNode (.cons Slot.tight_token <| .cons Slot.tight_token <| .cons Slot.tight_token <|
      .cons hparameter <| .cons Slot.tight_token <| .cons hb.slot .nil) rfl
  exact (Gives.made haccessor).bind (fun m hm => .pure (Replacement.tight_one hm))

theorem tight_objectAccessor (hn : n.Firm k) (ht : n.tightness = tightest) :
    (objectAccessor visit n).Gives (Replacement.Tight tightest) := by
  refine (tight_walk h hn).inScope.bind (fun p hp => ?_)
  rw [ht] at hp
  exact .ite (tight_objectGetter p.2 hn hp) (tight_objectSetter p.2 hp)

/-! ## Statements and values -/

theorem tight_variableStatement (hn : n.Firm k) (ht : n.tightness = tightest) :
    (variableStatement visit n).Gives (Replacement.Tight tightest) := by
  refine .viewFirm hn (fun v _ _ _ => .ite (.pure Replacement.tight_removed) ?_)
  refine (tight_walk h hn).bind (fun walked hw => ?_)
  rw [ht] at hw
  split
  · exact .pure (Replacement.tight_one hw)
  · refine .viewTight hw (fun v hparts => ?_)
    simp only [NodeView.toSlots, List.forall_mem_cons] at hparts
    have hstatement : (NodeView.toNode (VariableStatement.mk none none v.declaration v.semicolon)).Gives
        (Node.Tight tightest) :=
      tight_toNode (.cons Slot.tight_ofToken? <| .cons Slot.tight_ofToken? <| .cons hparts.2.2.1 <|
        .cons Slot.tight_token .nil) rfl
    exact (Gives.made hstatement).bind (fun m hm => .pure (Replacement.tight_one hm))

theorem tight_variableDeclarator (hn : n.Firm k) (ht : n.tightness = tightest) :
    (variableDeclarator visit n).Gives (Replacement.Tight tightest) := by
  refine .viewFirm hn (fun v _ _ hparts => ?_)
  simp only [NodeView.toSlots, List.forall_mem_cons, Slot.firm_ofNode?] at hparts
  split
  · exact (tight_walk h hn).bind (fun m hm => .pure (Replacement.tight_one (ht ▸ hm)))
  · have hvalue : (v.value.mapM (lower visit)).Gives (fun o => ∀ m ∈ o, m.Tight 0) := by
      cases hv : v.value with
      | none => exact .pure (fun _ hm => by cases hm)
      | some n =>
        exact (tight_lower h (hparts.2.2.1 n hv)).bind (fun m hm => .pure (fun _ heq => Option.some.inj heq ▸ hm.loose))
    refine hvalue.bind (fun value hvalue => ?_)
    have hdeclarator : (NodeView.toNode (VariableDeclarator.mk v.name none value)).Gives (Node.Tight tightest) :=
      tight_toNode (.cons Slot.tight_token <| .cons Slot.tight_absent <| .cons (Slot.tight_ofNode? hvalue) .nil) rfl
    exact (Gives.made hdeclarator).bind (fun m hm => .pure (Replacement.tight_one hm))

/-- **The operand of a cast takes the place of the cast**: both bind most tightly. -/
theorem tight_castExpression (hn : n.Firm k) (hk : n.kind = .castExpression) :
    (castExpression visit n).Gives (Replacement.Tight tightest) := by
  refine .viewFirm hn (fun v _ hs hparts => ?_)
  simp only [NodeView.toSlots, List.forall_mem_cons, Slot.firm_node] at hparts
  have hoperand : tightest ≤ v.expression.tightness :=
    hn.demand_le 3 hk (by decide) (by rw [hs]; rfl)
  exact (tight_lower h hparts.2.2.2.1).bind (fun m hm => .pure (Replacement.tight_one (hm.weaken hoperand)))

theorem tight_expressionStatement (hn : n.Firm k) (ht : n.tightness = tightest) :
    (expressionStatement visit n).Gives (Replacement.Tight tightest) := by
  refine (tight_walk h hn).bind (fun walked hw => ?_)
  rw [ht] at hw
  refine .viewTight hw (fun v hparts => .ite (.pure (Replacement.tight_one hw)) ?_)
  simp only [NodeView.toSlots, List.forall_mem_cons] at hparts
  have hexpression : v.expression.Tight 0 := hparts.1 v.expression (List.mem_singleton.2 rfl)
  refine (Gives.made (Build.tight_parenthesized hexpression)).bind (fun e he => ?_)
  have hstatement : (NodeView.toNode (ExpressionStatement.mk e v.semicolon)).Gives (Node.Tight tightest) :=
    tight_toNode (.cons he.loose.slot <| .cons Slot.tight_token .nil) rfl
  exact (Gives.made hstatement).bind (fun m hm => .pure (Replacement.tight_one hm))

/-! ## Arrow functions -/

theorem tight_arrowBody {facts : ParameterFacts} (hf : facts.Firm k) (hn : n.Firm k) :
    (arrowBody visit facts n).Gives (Node.Tight 0) := by
  refine (tight_parameterPrologue h hf).bind (fun ms hms => (tight_lower h hn).bind (fun m hm => ?_))
  refine .ite (tight_assembleBlock hm hms) ?_
  refine (Gives.made (Build.tight_returnStatement hm)).bind (fun r hr => .make ?_)
  exact (tight_braced (List.forall_mem_append.2 ⟨hms, List.forall_mem_singleton.2 hr.loose⟩) 0).loose

/-- **The body of an arrow function is returned**, whatever expression it is. -/
theorem tight_arrowFunction {facts : ParameterFacts} {parameters : Node} (hp : parameters.Tight tightest)
    (hf : facts.Firm k) (hn : n.Firm k) :
    (arrowFunction visit parameters facts n).Gives (Replacement.Tight tightest) :=
  (tight_arrowBody h hf hn).inArrow.bind (fun _ hb =>
    (Gives.made (tight_functionExpression hp.loose hb)).bind (fun _ hm => .pure (Replacement.tight_one hm)))

theorem tight_simpleArrow (hn : n.Firm k) : (simpleArrow visit n).Gives (Replacement.Tight tightest) := by
  refine .viewFirm hn (fun v _ _ hparts => ?_)
  simp only [NodeView.toSlots, List.forall_mem_cons, Slot.firm_node] at hparts
  have hparameters : Fresh.Gives (do Build.parameterList [← Build.parameter v.parameter]) (Node.Tight tightest) :=
    Build.tight_parameter.bind (fun _ hp => Build.tight_parameterList (List.forall_mem_singleton.2 hp))
  exact (Gives.made hparameters).bind (fun _ hp =>
    tight_arrowFunction h hp ParameterFacts.firm_none hparts.2.2.1)

theorem tight_parenthesizedArrow (hn : n.Firm k) :
    (parenthesizedArrow visit n).Gives (Replacement.Tight tightest) := by
  refine .viewFirm hn (fun v _ _ hparts => ?_)
  simp only [NodeView.toSlots, List.forall_mem_cons, Slot.firm_node] at hparts
  refine .viewFirm hparts.1 (fun s _ _ hsignature => ?_)
  simp only [NodeView.toSlots, List.forall_mem_cons, Slot.firm_node] at hsignature
  exact (tight_parameterList hsignature.1).bind (fun p hp => tight_arrowFunction h hp.1 hp.2 hparts.2.2.1)

/-! ## References to the base class -/

omit h in
theorem tight_thisReference (t : Token) : (thisReference t).Gives (Node.Tight tightest) := by
  have hkeyword : (NodeView.toNode (ThisExpression.mk t)).Gives (Node.Tight tightest) :=
    tight_toNode (.cons Slot.tight_token .nil) rfl
  intro inArrow m marks heq
  unfold thisReference at heq
  split at heq
  · obtain ⟨rfl, -⟩ := Prod.mk.inj (Option.some.inj heq)
    exact Build.tight_name _ 0
  · obtain ⟨rfl, -⟩ := Prod.mk.inj (Option.some.inj heq)
    exact hkeyword 0

omit h in
/-- The members of a list of arguments that was made bind as arguments do. -/
theorem tight_arguments {v : ArgumentList} (hn : n.Tight 0) (hv : n.view? ArgumentList = some v) :
    ∀ m ∈ v.arguments.members, m.Tight 1 := by
  intro m hm
  obtain ⟨id, kind, slots⟩ := n
  unfold Node.view? at hv
  split at hv
  · rename_i hk
    obtain rfl : kind = .argumentList := hk
    change NodeView.ofSlots? slots = some v at hv
    rcases slots with _ | ⟨_ | _ | _ | _ | _, _ | ⟨_ | _ | _ | _ | ⟨members, separators⟩, _ | ⟨_ | _ | _ | _ | _, _ | _⟩⟩⟩
    all_goals cases hv
    refine ⟨hn.bound.child (List.mem_flatMap.2 ⟨_, List.mem_cons_of_mem _ (List.mem_cons_self ..), hm⟩), ?_⟩
    exact hn.bound.self 1 m hm
  · cases hv

theorem tight_callWithThis {target arguments : Node} (ht : target.Tight tightest) (ha : arguments.Firm k) :
    (callWithThis visit target arguments).Gives (Replacement.Tight tightest) := by
  refine (tight_lower h ha).bind (fun lowered hlowered => ?_)
  unfold Draft.view
  split
  · rename_i list hv
    rw [pure_bind]
    refine (tight_thisReference _).bind (fun this hthis => ?_)
    have hpassed : ∀ m ∈ this :: list.arguments.members, m.Tight 1 :=
      List.forall_mem_cons.2 ⟨hthis.weaken (by decide), tight_arguments hlowered.loose hv⟩
    have hlist : ∀ separators : List Token,
        (NodeView.toNode { list with arguments := ⟨this :: list.arguments.members, separators⟩ }).Gives
          (Node.Tight tightest) := fun separators =>
      tight_toNode (.cons Slot.tight_token <| .cons (Slot.tight_separated hpassed) <| .cons Slot.tight_token .nil) rfl
    have hcall : ∀ arguments : Node, arguments.Tight tightest →
        (do return .one (← make (NodeView.toNode (Invocation.mk target arguments))) : Draft Replacement).Gives
          (Replacement.Tight tightest) := fun arguments ha =>
      (Gives.made (tight_toNode (.cons ht.slot <| .cons ha.loose.slot .nil) rfl)).bind
        (fun m hm => .pure (Replacement.tight_one hm))
    refine .ite (.andThen (fun comma => ?_)) (.andThen (fun mark => .andThen (fun comma => ?_)))
    · exact (Gives.made (hlist _)).bind hcall
    · exact (Gives.made (hlist _)).bind hcall
  · exact Gives.bind (P := fun _ => False) .fail (fun _ hfalse => hfalse.elim)

theorem tight_invocation (hn : n.Firm k) (ht : n.tightness = tightest) :
    (invocation visit n).Gives (Replacement.Tight tightest) := by
  refine .viewFirm hn (fun v _ _ hparts => ?_)
  simp only [NodeView.toSlots, List.forall_mem_cons, Slot.firm_node] at hparts
  refine (Gives.made (tight_superCallee? v.callee)).bind (fun o ho => ?_)
  cases o with
  | some target => exact tight_callWithThis h (ho target rfl) hparts.2.1
  | none => exact (tight_walk h hn).bind (fun m hm => .pure (Replacement.tight_one (ht ▸ hm)))

theorem tight_memberAccess (hn : n.Firm k) (ht : n.tightness = tightest) :
    (memberAccess visit n).Gives (Replacement.Tight tightest) := by
  refine .viewFirm hn (fun v _ _ _ => ?_)
  split
  · have haccess : Fresh.Gives (do NodeView.toNode (MemberAccess.mk (← superPrototype) v.dot v.name))
        (Node.Tight tightest) :=
      tight_superPrototype.bind (fun _ hp =>
        tight_toNode (.cons hp.slot <| .cons Slot.tight_token <| .cons Slot.tight_token .nil) rfl)
    exact (Gives.made haccess).bind (fun m hm => .pure (Replacement.tight_one hm))
  · exact (tight_walk h hn).bind (fun m hm => .pure (Replacement.tight_one (ht ▸ hm)))

omit h in
theorem tight_thisExpression : (thisExpression n).Gives (Replacement.Tight tightest) :=
  .andThen (fun v => (tight_thisReference v.keyword).bind (fun _ hm => .pure (Replacement.tight_one hm)))

end Rules

end Draft

end Downlevel
