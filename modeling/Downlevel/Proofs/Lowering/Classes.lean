import Downlevel.Proofs.Lowering.Functions
import Downlevel.Proofs.Lowering.Members
/-!
# Proofs.Lowering.Classes — classes as constructor functions

A class becomes a statement if what runs in its body is intact: the constructor with a body, the values of fields, the
methods that have a body, and the accessors of each property (`ClassDeclaration.bodyParts`).  Each of the loops over the
members needs some of these parts; together they need all of them.
-/
namespace Downlevel.LoweringContext

open Build

variable {c : LoweringContext} {L : Demand} {o : LayoutOptions} {i k levels : Nat} {cl : NodeClass} {n : Node} {t : Token}

/-! ## Fields -/

/-- The values of fields of objects are intact. -/
def InstanceIntact (levels : Nat) (members : List Node) : Prop :=
  ∀ m ∈ members, ∀ v, m.view? MemberVariable = some v → v.isStatic = none → ∀ p ∈ v.parts, p.Intact levels

/-- **A field becomes a statement if its value is intact**, and nothing if it has none. -/
theorem ends_fieldAssignment (h : c.Sound L levels) {receiver : Fresh Node} {member : Node} {v : MemberVariable}
    (column : Nat) (hreceiver : ∀ j, k ≤ j → Makes j receiver (fun j m => m.Plain L .expression j))
    (hmember : member.Given L cl k) (hv : member.view? MemberVariable = some v) :
    Ends IsRefusal k (c.fieldAssignment receiver member v column) (∀ p ∈ v.parts, p.Intact levels)
      (fun j ms => ∀ m ∈ ms, m.Plain L .statement j) := by
  obtain ⟨v', hv', hs, -, -, hdeclarator, hsemicolon⟩ := hmember.memberVariable (Node.kind_of_view? hv)
  obtain rfl : v = v' := Option.some.inj (hv.symm.trans hv')
  obtain ⟨w, hw, hws, hname, -, hvalue⟩ := hdeclarator.variableDeclarator hdeclarator.kind_eq
  obtain ⟨clause, hview, hvalues, hdeclarator⟩ := viewOption_clause hvalue
  have hparts : v.parts = (clause.map EqualsValueClause.value).toList := by
    rw [MemberVariable.parts, Node.partsAs_eq hw, hvalues]
  unfold fieldAssignment
  rw [Lowering.view_eq hw, pure_bind, hview, pure_bind, hparts]
  cases clause with
  | none => exact (Ends.pure (fun _ _ m hm => by cases hm)).iff (by simp)
  | some clause =>
    refine ((h.lower (hdeclarator clause rfl) rfl).thenSure (fun i₁ h₁ value hplain => ?_)).iff (by simp)
    refine .make (makes_bare hplain (by omega)) (fun i₂ h₂ value hplain => ?_)
    refine (ends_reindent h.suits hplain _ _ (by omega)).sureThen (fun i₃ h₃ value hplain => ?_)
    refine .make (hreceiver i₃ (by omega)) (fun i₄ h₄ object hobject => ?_)
    refine .make (makes_memberTarget h.suits hobject (hname.up (by omega))) (fun i₅ h₅ target htarget => ?_)
    refine .make (makes_assignmentStatement h.suits htarget hplain.1 (by omega)) (fun i₆ h₆ statement hstatement => ?_)
    refine .make (makes_withTrivia hstatement (h.suits.relocated hmember.leading column)
      (h.suits.endingLine hsemicolon.trailing) (by omega)) (fun i₇ h₇ statement hstatement =>
        .pure (fun l hl m hm => ?_))
    exact List.mem_singleton.1 hm ▸ hstatement.up (by omega)

/-- **Fields of objects become statements if their values are intact.** -/
theorem ends_instanceFields (h : c.Sound L levels) (column : Nat) : ∀ {members : List Node} {k : Nat},
    (∀ m ∈ members, m.Given L .classMember k) →
    Ends IsRefusal k (c.instanceFields column members) (InstanceIntact levels members)
      (fun j ms => ∀ m ∈ ms, m.Plain L .statement j)
  | [], k, _ => (Ends.pure (fun _ _ m hm => by cases hm)).iff (by simp [InstanceIntact])
  | member :: members, k, hmembers => by
    have hmember : member.Given L .classMember k := hmembers member (List.mem_cons_self ..)
    have hrest : ∀ j, k ≤ j → ∀ here : List Node, (∀ m ∈ here, m.Plain L .statement j) → Ends IsRefusal j (do
        return here ++ (← c.instanceFields column members) : Lowering (List Node)) (InstanceIntact levels members)
        (fun l ms => ∀ m ∈ ms, m.Plain L .statement l) := by
      intro j hj here hhere
      have hmembers' : ∀ m ∈ members, m.Given L .classMember j := fun m hm =>
        (hmembers m (List.mem_cons_of_mem _ hm)).up (by omega)
      refine (ends_instanceFields h column hmembers').map (fun l hl rest hrest m hm => ?_)
      rcases List.mem_append.1 hm with hm | hm
      · exact (hhere m hm).up (by omega)
      · exact (hrest m hm).up (by omega)
    have hnone : ∀ j, k ≤ j → ∀ m ∈ ([] : List Node), m.Plain L .statement j := fun _ _ m hm => by cases hm
    unfold instanceFields
    dsimp only
    cases hv : member.view? MemberVariable with
    | none => exact (Ends.sureThen (.pure hnone) hrest).iff (by simp [InstanceIntact, hv])
    | some field =>
      dsimp only
      cases hstatic : field.isStatic with
      | some t => exact (Ends.sureThen (.pure hnone) hrest).iff (by simp [InstanceIntact, hv, hstatic])
      | none =>
        have hhere := ends_fieldAssignment h column (fun j _ => makes_thisExpression h.suits) hmember hv
        exact (hhere.bind hrest).iff (by simp [InstanceIntact, hv, hstatic])

/-- **A field of the class itself becomes a statement if its value is intact.** -/
theorem ends_staticField (h : c.Sound L levels) (column : Nat) {name : Token} {member : Node} (hname : name.Meets L k)
    (hmember : member.Given L .classMember k) {v : MemberVariable}
    (hv : member.view? MemberVariable = some v) :
    Ends IsRefusal k (c.staticField name member column) (v.isStatic ≠ none → ∀ p ∈ v.parts, p.Intact levels)
      (fun j ms => ∀ m ∈ ms, m.Plain L .statement j) := by
  unfold staticField
  rw [Lowering.view_eq hv, pure_bind]
  cases hstatic : v.isStatic with
  | none => exact (Ends.pure (fun _ _ m hm => by cases hm)).iff (by simp)
  | some t =>
    exact (ends_fieldAssignment h column (fun j hj => makes_nameExpression hname (by omega)) hmember hv).iff (by simp)

/-! ## The constructor -/

theorem makes_propertyStatement (hL : L.Suits c.layout) (column : Nat) (ht : t.Meets L k) :
    Makes k (c.propertyStatement column t) (fun j m => m.Plain L .statement j) := by
  refine (makes_thisExpression hL).bind (fun i₁ h₁ this hthis => ?_)
  exact (makes_assignSameName hL hthis (ht.up (by omega))).bind (fun i₂ h₂ m hm => makes_statementAt hL column hm
    (by omega))

/-- **The statements of a constructor are lowered if they are intact**, wherever they are moved. -/
theorem ends_constructorStatements (h : c.Sound L levels) (derived : HasBase) : ∀ {ns : List Node} {k : Nat},
    (∀ n ∈ ns, n.Given L .statement k) →
    Ends IsRefusal k (c.constructorStatements derived ns) (∀ n ∈ ns, n.Intact levels)
      (fun j r => (∀ m ∈ r.1, m.Plain L .statement j) ∧ ∀ m ∈ r.2, m.Plain L .statement j)
  | [], k, _ => (Ends.pure (fun _ _ => ⟨fun _ hm => (by cases hm), fun _ hm => by cases hm⟩)).iff (by simp)
  | n :: ns, k, hns => by
    have hn : n.Given L .statement k := hns n (List.mem_cons_self ..)
    have hsteady : SlotSort.Steady .lowering (.list .statement) :=
      Treatment.lowering_steady (k := .block) _ (List.mem_cons_of_mem _ (List.mem_cons_self ..))
    have hvisit : Ends IsRefusal k (c.visit n) (n.Intact levels) (fun j r => r.Suits .lowering L k n j) :=
      h.treats.node n .statement k hn
    refine (hvisit.bind (fun j hj rep hrep => ?_)).iff List.forall_mem_cons.symm
    have hnodes : ∀ m ∈ rep.nodes, m.Plain L .statement j := Transformer.Treats.nodes hn hsteady hrep
    have hrest : ∀ m ∈ ns, m.Given L .statement j := fun m hm => (hns m (List.mem_cons_of_mem _ hm)).up (by omega)
    refine (ends_constructorStatements h derived hrest).thenSure (fun l hl rest hrest => ?_)
    obtain ⟨calls, others⟩ := rest
    have happend : ∀ ms : List Node, (∀ m ∈ ms, m.Plain L .statement l) →
        ∀ l', l ≤ l' → ∀ m ∈ rep.nodes ++ ms, m.Plain L .statement l' := fun ms hms l' hl' m hm => by
      rcases List.mem_append.1 hm with hm | hm
      · exact (hnodes m hm).up (by omega)
      · exact (hms m hm).up (by omega)
    dsimp only
    split
    · exact .pure (fun l' hl' => ⟨happend calls hrest.1 l' hl', fun m hm => (hrest.2 m hm).up (by omega)⟩)
    · exact .pure (fun l' hl' => ⟨fun m hm => (hrest.1 m hm).up (by omega), happend others hrest.2 l' hl'⟩)

/-- **A constructor with a body becomes a function if its parts and the values of fields are intact.** -/
theorem ends_constructorFunction (h : c.Sound L levels) {members : List Node} {name : Token} {block parameters : Node}
    (derived : HasBase) (column : Nat) (hmembers : ∀ m ∈ members, m.Given L .classMember k)
    (hname : name.Meets L k) (hn : n.Given L .classMember k)
    (hparameters : parameters.Given L (.only .parameterList) k)
    (hblock : block.Given L (.only .block) k) :
    Ends IsRefusal k (c.constructorFunction members name n block parameters derived column)
      ((∀ p ∈ parameters.listedDefaults ++ block.partsAs Block Block.statements, p.Intact levels) ∧
        InstanceIntact levels members)
      (fun j m => m.Plain L .statement j) := by
  obtain ⟨v, hv, hs, hopen, hstatements, hclose⟩ := hblock.block hblock.kind_eq
  have hintact : ((∀ s ∈ v.statements, s.Intact levels) ∧ (∀ p ∈ parameters.listedDefaults, p.Intact levels) ∧
      InstanceIntact levels members) ↔
      ((∀ p ∈ parameters.listedDefaults ++ block.partsAs Block Block.statements, p.Intact levels) ∧
        InstanceIntact levels members) := by
    rw [Node.partsAs_eq hv, List.forall_mem_append]
    constructor
    · rintro ⟨hs, hp, hf⟩
      exact ⟨⟨hp, hs⟩, hf⟩
    · rintro ⟨⟨hp, hs⟩, hf⟩
      exact ⟨hs, hp, hf⟩
  unfold constructorFunction
  refine ((Ends.inScope (P := fun j r => r.1.Plain L (.only .parameterList) j ∧
    (∀ m ∈ r.2.1, m.Plain L .statement j) ∧ ∀ m ∈ r.2.2, m.Plain L .statement j) ?_).iff hintact).thenSure
    (fun i₁ h₁ r hr => ?_)
  · refine (ends_parameterList hparameters (fun _ hm => by cases hm)).sureThen (fun i₁ h₁ r hr => ?_)
    obtain ⟨list, facts⟩ := r
    dsimp only
    rw [Lowering.view_eq hv, pure_bind, ← hr.values]
    refine (ends_constructorStatements h derived (fun m hm => (hstatements m hm).up (by omega))).bind
      (fun i₂ h₂ split hsplit => ?_)
    obtain ⟨calls, rest⟩ := split
    dsimp only
    refine (ends_parameterPrologue h _ (hr.facts.up (by omega))).bind (fun i₃ h₃ prologue hprologue => ?_)
    refine (Ends.mapMake Node.Stands.lasts (fun t ht j hj =>
      makes_propertyStatement h.suits _ ((hr.facts.properties t ht).up (by omega)))).sureThen
        (fun i₄ h₄ properties hproperties => ?_)
    refine (ends_instanceFields h _ (fun m hm => (hmembers m hm).up (by omega))).map (fun i₅ h₅ fields hfields => ?_)
    -- In front of the statements: calls of the base constructor, the prologue, the parameter properties, the fields.
    refine ⟨hr.plain.up (by omega), fun m hm => ?_, fun m hm => (hsplit.2 m hm).up (by omega)⟩
    rcases List.mem_append.1 hm with hm | hm
    · rcases List.mem_append.1 hm with hm | hm
      · rcases List.mem_append.1 hm with hm | hm
        · exact (hsplit.1 m hm).up (by omega)
        · exact (hprologue m hm).up (by omega)
      · exact (hproperties m hm).up (by omega)
    · exact hfields m hm
  -- Behind the scope nothing can be refused any more: what is left builds plain nodes.
  obtain ⟨⟨list, prologue, rest⟩, captured⟩ := r
  obtain ⟨hlist, hprologue, hrest⟩ := hr
  refine .make (makes_withCapture h.suits captured _ hprologue (by omega)) (fun i₂ h₂ prologue hprologue => ?_)
  rw [Lowering.view_eq hv, pure_bind]
  have hnode : Slot.Row PlainForm L i₂ NodeKind.block.sorts (NodeView.toSlots { v with statements := rest }) :=
    .cons (hopen.slot (by omega)) (.cons (Slot.stands_list.2 (fun m hm => (hrest m hm).up (by omega)))
      (.cons (hclose.slot (by omega)) .nil))
  refine .make (makes_node (c := .only .block) hnode (fun _ => rfl) rfl) (fun i₃ h₃ lowered hlowered => ?_)
  refine (ends_assembleBlock h.suits _ _ hlowered (fun m hm => (hprologue m hm).up (by omega))).sureThen
    (fun i₄ h₄ body hbody => ?_)
  refine .make (makes_wordThenSpace h.suits _) (fun i₅ h₅ word hword => ?_)
  refine .make (makes_tokenWithLeading hword (h.suits.relocated hn.leading column))
    (fun i₆ h₆ keyword hkeyword => ?_)
  refine .make (makes_callSignature hlist (by omega)) (fun i₇ h₇ signature hsignature => .lift ?_)
  have hfunction := row_function none (hkeyword.up (by omega)) (hname.up (by omega)) hsignature (hbody.1.up (by omega))
    (fun _ hu => by cases hu)
  exact makes_node hfunction (fun _ => rfl) rfl

theorem makes_forwardToBase (hL : L.Suits o) : Makes k forwardToBase (fun j m => m.Plain L .statement j) := by
  refine (makes_name hL (by decide)).bind (fun i₁ h₁ base hbase => ?_)
  refine (makes_memberPath hL _ (by decide) hbase (Nat.le_refl _)).bind (fun i₂ h₂ apply happly => ?_)
  refine (makes_thisExpression hL).bind (fun i₃ h₃ this hthis => ?_)
  refine (makes_name hL (by decide)).bind (fun i₄ h₄ arguments harguments => ?_)
  have hpassed : ∀ m ∈ [this, arguments], m.Plain L .expression i₄ :=
    List.forall_mem_cons.2 ⟨hthis.up (by omega), fun m hm => List.mem_singleton.1 hm ▸ harguments⟩
  exact (makes_invocation hL happly hpassed (by omega) (by omega)).bind
    (fun i₅ h₅ call hcall => makes_expressionStatement hL hcall (by omega))

/-- **A class without a constructor gets one if the values of its fields are intact.** -/
theorem ends_synthesizedConstructor (h : c.Sound L levels) {members : List Node} {name : Token} (derived : HasBase)
    (column : Nat) (hmembers : ∀ m ∈ members, m.Given L .classMember k) (hname : name.Meets L k) :
    Ends IsRefusal k (c.synthesizedConstructor members name derived column) (InstanceIntact levels members)
      (fun j m => m.Plain L .statement j) := by
  refine (ends_instanceFields h _ hmembers).inScope.thenSure (fun i₁ h₁ r hfields => ?_)
  obtain ⟨fields, captured⟩ := r
  -- With a base the arguments are forwarded first; the rest goes on alike.
  have hrest : ∀ j, i₁ ≤ j → ∀ forward : List Node, (∀ m ∈ forward, m.Plain L .statement j) → Ends IsRefusal j (do
      let statements ← c.withCapture captured (column + c.indentSize) (forward ++ fields)
      let block ← Build.block (← Build.openBrace c.newLine) statements (← Build.closeBrace (c.indentation column))
      c.statementAt column (← Build.functionDeclaration name (← Build.parameterList []) block) : Lowering Node) True
      (fun l m => m.Plain L .statement l) := by
    intro j hj forward hforward
    have hall : ∀ m ∈ forward ++ fields, m.Plain L .statement j := fun m hm => by
      rcases List.mem_append.1 hm with hm | hm
      · exact hforward m hm
      · exact (hfields m hm).up (by omega)
    refine .make (makes_withCapture h.suits captured _ hall (by omega)) (fun i₂ h₂ statements hstatements => ?_)
    refine .make (makes_openBrace h.suits h.suits.lineBreak) (fun i₃ h₃ opened hopened => ?_)
    refine .make (makes_closeBrace h.suits (h.suits.indentation column)) (fun i₄ h₄ closed hclosed => ?_)
    refine .make (makes_block hopened hstatements hclosed (by omega) (by omega) (by omega))
      (fun i₅ h₅ block hblock => ?_)
    refine .make (makes_parameterList h.suits (i := i₅) (fun m hm => by cases hm) (by omega))
      (fun i₆ h₆ list hlist => ?_)
    refine .make (makes_functionDeclaration h.suits hname hlist hblock (by omega) (by omega) (by omega))
      (fun i₇ h₇ function hfunction => ?_)
    exact .lift (makes_statementAt h.suits column hfunction (by omega))
  dsimp only
  split
  · -- The call is a closed term, which would be run here.
    have hcall := makes_forwardToBase (k := i₁) h.suits
    generalize forwardToBase = call at hcall ⊢
    refine .make hcall (fun i₂ h₂ forward hforward => ?_)
    refine .make (makes_statementAt h.suits _ hforward (by omega)) (fun i₃ h₃ forward hforward => ?_)
    exact .sureThen (.pure (fun l hl m hm => List.mem_singleton.1 hm ▸ hforward.up (by omega)))
      (fun l hl => hrest l (by omega))
  · exact .sureThen (.pure (fun l hl m hm => by cases hm)) hrest

/-- The constructor that is found is a member with a body. -/
theorem firstConstructor_eq_some : ∀ {members : List Node} {n block : Node} {v : ConstructorDeclaration},
    firstConstructor? members = some (n, v, block) →
    n ∈ members ∧ n.view? ConstructorDeclaration = some v ∧ v.block = some block
  | [], _, _, _, h => by cases h
  | m :: members, n, block, v, h => by
    unfold firstConstructor? at h
    have htail : firstConstructor? members = some (n, v, block) →
        n ∈ m :: members ∧ n.view? ConstructorDeclaration = some v ∧ v.block = some block := fun h => by
      obtain ⟨hmem, hrest⟩ := firstConstructor_eq_some h
      exact ⟨List.mem_cons_of_mem _ hmem, hrest⟩
    split at h
    · rename_i w hw
      split at h
      · rename_i b hb
        cases h
        exact ⟨List.mem_cons_self .., hw, hb⟩
      · exact htail h
    · exact htail h

/-- **A class has a constructor function if the parts of its constructor and the values of its fields are intact.** -/
theorem ends_classConstructor (h : c.Sound L levels) {members : List Node} {name : Token} (derived : HasBase)
    (column : Nat) (hmembers : ∀ m ∈ members, m.Given L .classMember k) (hname : name.Meets L k) :
    Ends IsRefusal k (c.classConstructor members name derived column)
      ((∀ p ∈ Node.constructorParts members, p.Intact levels) ∧ InstanceIntact levels members)
      (fun j m => m.Plain L .statement j) := by
  unfold classConstructor Node.constructorParts
  cases hfirst : firstConstructor? members with
  | none =>
    dsimp only
    exact (ends_synthesizedConstructor h derived column hmembers hname).iff (by simp)
  | some found =>
    obtain ⟨n, v, block⟩ := found
    obtain ⟨hmem, hv, hblock⟩ := firstConstructor_eq_some hfirst
    have hn := hmembers n hmem
    obtain ⟨v', hv', hs, -, hparameters, hblock', -⟩ := hn.constructorDeclaration (Node.kind_of_view? hv)
    obtain rfl : v = v' := Option.some.inj (hv.symm.trans hv')
    dsimp only
    exact ends_constructorFunction h derived column hmembers hname hn hparameters (hblock' block hblock)

/-! ## Methods and accessors -/

theorem makes_classReceiver (hL : L.Suits o) (isStatic : Bool) (ht : t.Meets L i) (hi : i ≤ k) :
    Makes k (classReceiver t isStatic) (fun j m => m.Plain L .expression j) := by
  refine (makes_nameExpression ht (by omega)).bind (fun i₁ h₁ constructor hconstructor => ?_)
  split
  · exact .pure (fun j hj => hconstructor.up (by omega))
  · exact (makes_identifier hL (by decide)).bind (fun i₂ h₂ name hname => makes_memberAccess hL hconstructor hname
      (by omega) (by omega))

/-- **A method becomes a statement if its parts are intact**, and nothing if it has no body. -/
theorem ends_method (h : c.Sound L levels) (column : Nat) {name : Token} {member : Node} (hname : name.Meets L k)
    (hmember : member.Given L .classMember k) {v : MemberFunction}
    (hv : member.view? MemberFunction = some v) :
    Ends IsRefusal k (c.method name member column) (∀ p ∈ v.parts, p.Intact levels)
      (fun j ms => ∀ m ∈ ms, m.Plain L .statement j) := by
  obtain ⟨v', hv', hs, -, -, hmemberName, hsignature, hblock, -⟩ :=
    hmember.memberFunction (Node.kind_of_view? hv)
  obtain rfl : v = v' := Option.some.inj (hv.symm.trans hv')
  unfold method
  rw [Lowering.view_eq hv, pure_bind]
  cases hbody : v.block with
  | none => exact (Ends.pure (fun _ _ m hm => by cases hm)).iff (by simp [MemberFunction.parts, hbody])
  | some block =>
    obtain ⟨w, hw, hws, hparameters, htype⟩ := hsignature.callSignature hsignature.kind_eq
    have hparts : v.parts = Node.functionParts w.parameters block := by
      simp [MemberFunction.parts, hbody, Node.signatureParts, Node.partsAs_eq hw]
    dsimp only
    rw [Lowering.view_eq hw, pure_bind, hparts]
    refine (ends_functionLike h column hparameters htype (hblock block hbody)).thenSure (fun i₁ h₁ r hr => ?_)
    obtain ⟨list, body⟩ := r
    refine .make (makes_withTrailing hr.body .empty (by omega)) (fun i₂ h₂ bare hbare => ?_)
    refine .make (makes_functionExpression h.suits hr.list hbare (by omega) (by omega)) (fun i₃ h₃ value hvalue => ?_)
    refine .make (makes_classReceiver h.suits v.isStatic.isSome hname (by omega)) (fun i₄ h₄ receiver hreceiver => ?_)
    refine .make (makes_memberTarget h.suits hreceiver (hmemberName.up (by omega))) (fun i₅ h₅ target htarget => ?_)
    refine .make (makes_assignmentStatement h.suits htarget hvalue (by omega)) (fun i₆ h₆ statement hstatement => ?_)
    refine .make (makes_withTrivia hstatement (h.suits.relocated hmember.leading column)
      (h.suits.endingLine hr.body.trailing) (by omega)) (fun i₇ h₇ statement hstatement => .pure (fun l hl m hm => ?_))
    exact List.mem_singleton.1 hm ▸ hstatement.up (by omega)

/-- A getter or setter of a class that is given. -/
structure IsAccessor (L : Demand) (k : Nat) (n : Node) : Prop where
  given : n.Given L .classMember k
  kind : n.kind = .getMemberAccessorDeclaration ∨ n.kind = .setMemberAccessorDeclaration

theorem IsAccessor.up (h : IsAccessor L i n) (hi : i ≤ k) : IsAccessor L k n :=
  ⟨h.given.up (by omega), h.kind⟩

/-- **An accessor becomes a function if its parts are intact.** -/
theorem ends_accessorFunction (h : c.Sound L levels) (propertyColumn : Nat) {accessor : Node}
    (haccessor : IsAccessor L k accessor) :
    Ends IsRefusal k (c.accessorFunction accessor propertyColumn) (∀ p ∈ accessor.accessorParts, p.Intact levels)
      (fun j m => m.Plain L .expression j) := by
  unfold accessorFunction
  extract_lets own finish
  have hrest : ∀ (parameters block : Node) (resultType : Option Node),
      parameters.Given L (.only .parameterList) k → block.Given L (.only .block) k →
      (∀ m, resultType = some m → m.Stands GivenForm L (.only .typeClause) k) →
      Ends IsRefusal k (finish (parameters, resultType, block))
        (∀ p ∈ Node.functionParts parameters block, p.Intact levels) (fun j m => m.Plain L .expression j) := by
    intro parameters block resultType hparameters hblock htype
    refine (ends_functionLike h _ hparameters htype hblock).thenSure (fun i₁ h₁ r hr => ?_)
    obtain ⟨list, body⟩ := r
    refine .make (makes_functionExpression h.suits hr.list hr.body (by omega) (by omega))
      (fun i₂ h₂ function hfunction => ?_)
    exact (ends_reindent h.suits hfunction _ _ (by omega)).mono (fun _ _ _ hm => hm.1)
  have hgiven := haccessor.given
  unfold Node.accessorParts
  rcases haccessor.kind with hk | hk
  · obtain ⟨v, hv, hs, -, -, -, -, hparameters, htype, hblock⟩ := hgiven.memberGetter hk
    rw [hv]
    dsimp only
    rw [pure_bind]
    exact hrest _ _ _ hparameters hblock htype
  · obtain ⟨v, hv, hs, -, -, -, -, hparameters, hblock⟩ := hgiven.memberSetter hk
    have hnone : accessor.view? MemberGetter = none := Node.view?_eq_none (by rw [hk]; decide)
    rw [hnone, hv]
    dsimp only
    rw [Lowering.view_eq hv, pure_bind, pure_bind]
    exact hrest _ _ none hparameters hblock (fun _ hm => by cases hm)

theorem makes_separatorLine (hL : L.Suits c.layout) {comments : TriviaList} (hcomments : comments.Meets L) :
    Makes k (c.separatorLine comments) (fun j t => t.Meets L j) :=
  (makes_mark hL _).bind (fun _ _ _ ht => makes_tokenWithTrailing ht (hL.trailingCommentLine hcomments))

theorem makes_descriptorProperty (hL : L.Suits c.layout) (column : Nat) {name : String} {value : Node}
    (hname : IsWord name.toList) (hvalue : value.Plain L .expression i) (hi : i ≤ k) :
    Makes k (c.descriptorProperty column name value) (fun j m => m.Plain L .objectMember j) := by
  refine (makes_identifier hL hname).bind (fun i₁ h₁ key hkey => ?_)
  refine (makes_propertyAssignment hL hkey hvalue (by omega) (by omega)).bind (fun i₂ h₂ property hproperty => ?_)
  exact makes_withLeading hproperty (hL.indentation column) (by omega)

/-- A property of a descriptor with the comments behind it. -/
def PropertyStands (L : Demand) (k : Nat) (p : Node × TriviaList) : Prop :=
  p.1.Plain L .objectMember k ∧ p.2.Meets L

theorem PropertyStands.lasts : Lasts (PropertyStands L) := fun _ _ _ hi h => ⟨h.1.up hi, h.2⟩

/-- **Accessors become properties if their parts are intact.** -/
theorem ends_accessorProperties (h : c.Sound L levels) (column : Nat) : ∀ {accessors : List (String × Node)} {k : Nat},
    (∀ a ∈ accessors, IsWord a.1.toList ∧ IsAccessor L k a.2) →
    Ends IsRefusal k (c.accessorProperties column accessors)
      (∀ p ∈ accessors.flatMap (fun a => a.2.accessorParts), p.Intact levels)
      (fun j ps => ∀ p ∈ ps, PropertyStands L j p)
  | [], k, _ => (Ends.pure (fun _ _ p hp => by cases hp)).iff (by simp)
  | (keyword, accessor) :: rest, k, haccessors => by
    obtain ⟨hword, haccessor⟩ := haccessors (keyword, accessor) (List.mem_cons_self ..)
    rw [List.flatMap_cons, List.forall_mem_append]
    refine (ends_accessorFunction h column haccessor).bind (fun i₁ h₁ function hfunction => ?_)
    refine .make (makes_withTrailing hfunction .empty (by omega)) (fun i₂ h₂ bare hbare => ?_)
    refine .make (makes_descriptorProperty h.suits column hword hbare (by omega)) (fun i₃ h₃ property hproperty => ?_)
    have hrest : ∀ a ∈ rest, IsWord a.1.toList ∧ IsAccessor L i₃ a.2 := fun a ha =>
      ⟨(haccessors a (List.mem_cons_of_mem _ ha)).1, (haccessors a (List.mem_cons_of_mem _ ha)).2.up (by omega)⟩
    refine (ends_accessorProperties h column hrest).map (fun i₄ h₄ others hothers => ?_)
    exact List.forall_mem_cons.2 ⟨⟨hproperty.up (by omega), hfunction.trailing⟩, hothers⟩

theorem makes_flagProperty (hL : L.Suits c.layout) (column : Nat) {name : String} (hname : IsWord name.toList) :
    Makes k (c.flagProperty column name) (fun j p => PropertyStands L j p) := by
  refine (makes_keywordLiteral hL _).bind (fun i₁ h₁ value hvalue => ?_)
  exact (makes_descriptorProperty hL column hname hvalue (by omega)).bindPure (fun j hj m hm => ⟨hm, .empty⟩)

theorem makes_descriptorSeparators (hL : L.Suits c.layout) : ∀ {properties : List (Node × TriviaList)} {k : Nat},
    (∀ p ∈ properties, PropertyStands L k p) →
    Makes k (c.descriptorSeparators properties) (fun j ts => (∀ t ∈ ts, t.Meets L j) ∧
      (properties ≠ [] → properties.length = ts.length + 1))
  | [], _, _ => .pure (fun _ _ => ⟨fun _ ht => (by cases ht), fun h => absurd rfl h⟩)
  | [_], _, _ => .pure (fun _ _ => ⟨fun _ ht => (by cases ht), fun _ => rfl⟩)
  | (_, comments) :: next :: rest, k, h => by
    refine (makes_separatorLine hL (h _ (List.mem_cons_self ..)).2).bind (fun i₁ h₁ separator hseparator => ?_)
    have hrest : ∀ p ∈ next :: rest, PropertyStands L i₁ p := fun p hp =>
      PropertyStands.lasts k i₁ p h₁ (h p (List.mem_cons_of_mem _ hp))
    refine (makes_descriptorSeparators hL hrest).bindPure (fun j hj ts hts => ?_)
    have hlength := hts.2 (List.cons_ne_nil _ _)
    exact ⟨List.forall_mem_cons.2 ⟨hseparator.up (by omega), hts.1⟩, fun _ => congrArg (· + 1) hlength⟩

theorem makes_withLastTrailing {trivia : TriviaList} (ht : trivia.Meets L) : ∀ {ns : List Node} {k : Nat},
    (∀ n ∈ ns, n.Plain L cl k) →
    Makes k (withLastTrailing trivia ns) (fun j ms => (∀ m ∈ ms, m.Plain L cl j) ∧ ms.length = ns.length)
  | [], _, _ => .pure (fun _ _ => ⟨fun _ hm => (by cases hm), rfl⟩)
  | [n], k, h => by
    refine (makes_withTrailing (h n (List.mem_singleton.2 rfl)) ht (by omega)).bindPure
      (fun j hj m hm => ⟨fun m' hm' => ?_, rfl⟩)
    exact List.mem_singleton.1 hm' ▸ hm
  | n :: n' :: ns, k, h => by
    refine (makes_withLastTrailing ht (fun m hm => h m (List.mem_cons_of_mem _ hm))).bindPure (fun j hj ms hms => ?_)
    exact ⟨List.forall_mem_cons.2 ⟨(h n (List.mem_cons_self ..)).up (by omega), hms.1⟩, congrArg (· + 1) hms.2⟩

/-- **A property with accessors has a descriptor if their parts are intact.** -/
theorem ends_descriptor (h : c.Sound L levels) (column : Nat) {accessors : List (String × Node)}
    (haccessors : ∀ a ∈ accessors, IsWord a.1.toList ∧ IsAccessor L k a.2) :
    Ends IsRefusal k (c.descriptor accessors column)
      (∀ p ∈ accessors.flatMap (fun a => a.2.accessorParts), p.Intact levels)
      (fun j m => m.Plain L .expression j) := by
  refine (ends_accessorProperties h _ haccessors).thenSure (fun i₁ h₁ functions hfunctions => ?_)
  refine .make (makes_flagProperty h.suits _ (by decide)) (fun i₂ h₂ enumerable henumerable => ?_)
  refine .make (makes_flagProperty h.suits _ (by decide)) (fun i₃ h₃ configurable hconfigurable => ?_)
  have hall : ∀ p ∈ functions ++ [enumerable, configurable], PropertyStands L i₃ p := fun p hp => by
    rcases List.mem_append.1 hp with hp | hp
    · exact PropertyStands.lasts i₁ i₃ p (by omega) (hfunctions p hp)
    · rcases List.mem_cons.1 hp with rfl | hp
      · exact PropertyStands.lasts i₂ i₃ _ h₃ henumerable
      · exact List.mem_singleton.1 hp ▸ hconfigurable
  refine .make (makes_descriptorSeparators h.suits hall) (fun i₄ h₄ separators hseparators => ?_)
  have hproperties : ∀ m ∈ (functions ++ [enumerable, configurable]).map Prod.fst, m.Plain L .objectMember i₄ :=
    fun m hm => by
      obtain ⟨p, hp, rfl⟩ := List.mem_map.1 hm
      exact (hall p hp).1.up (by omega)
  refine .make (makes_withLastTrailing h.suits.lineBreak hproperties) (fun i₅ h₅ members hmembers => ?_)
  refine .make (makes_openBrace h.suits h.suits.lineBreak) (fun i₆ h₆ opened hopened => ?_)
  refine .make (makes_closeBrace h.suits (h.suits.indentation column)) (fun i₇ h₇ closed hclosed => .lift ?_)
  have harity : members.length = separators.length + 1 := by
    rw [hmembers.2, List.length_map]
    exact hseparators.2 (List.append_ne_nil_of_right_ne_nil _ (List.cons_ne_nil _ _))
  exact makes_objectLiteral (hopened.up (by omega)) (Slot.stands_separated.2
    ⟨fun m hm => (hmembers.1 m hm).up (by omega), fun t ht => (hseparators.1 t ht).up (by omega), .inr harity⟩) hclosed

/-- The accessors of a property are accessors among the members, and are named so. -/
theorem accessorsOf_stand {members : List Node} (hmembers : ∀ m ∈ members, m.Given L .classMember k)
    (key : AccessorKey) : ∀ a ∈ accessorsOf members key, IsWord a.1.toList ∧ IsAccessor L k a.2 := by
  have hfound : ∀ (kind : NodeKind) (m : Node),
      (members.filter (fun n => n.accessorKey? == some key)).find? (fun n => n.kind == kind) = some m →
      m ∈ members ∧ m.kind = kind := fun kind m hm => by
    have hk := List.find?_some hm
    exact ⟨(List.mem_filter.1 (List.mem_of_find?_eq_some hm)).1, eq_of_beq hk⟩
  have hget : IsWord "get".toList := by decide
  have hset : IsWord "set".toList := by decide
  intro a ha
  unfold accessorsOf at ha
  rcases List.mem_append.1 ha with ha | ha
  · obtain ⟨m, hm, rfl⟩ := Option.map_eq_some_iff.1 (Option.mem_toList.1 ha)
    obtain ⟨hmem, hk⟩ := hfound _ m hm
    exact ⟨hget, hmembers m hmem, .inl hk⟩
  · obtain ⟨m, hm, rfl⟩ := Option.map_eq_some_iff.1 (Option.mem_toList.1 ha)
    obtain ⟨hmem, hk⟩ := hfound _ m hm
    exact ⟨hset, hmembers m hmem, .inr hk⟩

/-- **A property with accessors becomes a statement if their parts are intact.** -/
theorem ends_defineProperty (h : c.Sound L levels) {members : List Node} {name : Token} {first : Node}
    (key : AccessorKey) (column : Nat) (hmembers : ∀ m ∈ members, m.Given L .classMember k)
    (hname : name.Meets L k) (hfirst : first ∈ members) :
    Ends IsRefusal k (c.defineProperty name members first key column)
      (∀ p ∈ Node.propertyParts members key, p.Intact levels) (fun j m => m.Plain L .statement j) := by
  refine (ends_descriptor h column (accessorsOf_stand hmembers key)).thenSure (fun i₁ h₁ descriptor hdescriptor => ?_)
  refine .make (makes_name h.suits (by decide)) (fun i₂ h₂ object hobject => ?_)
  refine .make (makes_memberPath h.suits _ (by decide) hobject (Nat.le_refl _)) (fun i₃ h₃ define hdefine => ?_)
  refine .make (makes_classReceiver h.suits key.isStatic hname (by omega)) (fun i₄ h₄ receiver hreceiver => ?_)
  refine .make (makes_stringLiteral h.suits _) (fun i₅ h₅ text htext => ?_)
  have harguments : ∀ m ∈ [receiver, text, descriptor], m.Plain L .expression i₅ :=
    List.forall_mem_cons.2 ⟨hreceiver.up (by omega), List.forall_mem_cons.2 ⟨htext, fun m hm =>
      List.mem_singleton.1 hm ▸ hdescriptor.up (by omega)⟩⟩
  refine .make (makes_invocation h.suits hdefine harguments (by omega) (by omega)) (fun i₆ h₆ call hcall => ?_)
  refine .make (makes_expressionStatement h.suits hcall (by omega)) (fun i₇ h₇ statement hstatement => .lift ?_)
  exact makes_withTrivia hstatement (h.suits.relocated (hmembers first hfirst).leading column)
    h.suits.lineBreak (by omega)

/-! ## The class -/

/-- What runs for a member besides the constructor is intact, given the keys of the accessors in front of it. -/
structure MemberIntact (levels : Nat) (members : List Node) (seen : List AccessorKey) (m : Node) : Prop where
  method : ∀ v, m.view? MemberFunction = some v → ∀ p ∈ v.parts, p.Intact levels
  field : ∀ v, m.view? MemberVariable = some v → v.isStatic ≠ none → ∀ p ∈ v.parts, p.Intact levels
  property : ∀ key, m.accessorKey? = some key → key ∉ seen → ∀ p ∈ Node.propertyParts members key, p.Intact levels

theorem accessorKey_eq_none {m : Node} (hget : m.kind ≠ .getMemberAccessorDeclaration)
    (hset : m.kind ≠ .setMemberAccessorDeclaration) : m.accessorKey? = none := by
  unfold Node.accessorKey?
  rw [Node.view?_eq_none hget, Node.view?_eq_none hset]

/-- **A member becomes statements if what runs for it is intact.** -/
theorem ends_classMember (h : c.Sound L levels) {members : List Node} {name : Token} (seen : List AccessorKey)
    {member : Node} (column : Nat) (hmembers : ∀ m ∈ members, m.Given L .classMember k) (hname : name.Meets L k)
    (hmember : member ∈ members) :
    Ends IsRefusal k (c.classMember name members seen member column) (MemberIntact levels members seen member)
      (fun j ms => ∀ m ∈ ms, m.Plain L .statement j) := by
  have hgiven := hmembers member hmember
  unfold classMember
  by_cases hfunction : member.kind = .memberFunctionDeclaration
  · obtain ⟨v, hv, -⟩ := hgiven.memberFunction hfunction
    rw [hfunction]
    refine (ends_method h column hname hgiven hv).iff ⟨fun h => ⟨fun w hw => ?_, fun w hw => ?_, fun key hkey => ?_⟩,
      fun h => h.method v hv⟩
    · rwa [← Option.some.inj (hv.symm.trans hw)]
    · have hkind := hfunction.symm.trans (Node.kind_of_view? hw)
      cases hkind
    · rw [accessorKey_eq_none (by rw [hfunction]; decide) (by rw [hfunction]; decide)] at hkey
      cases hkey
  · by_cases hvariable : member.kind = .memberVariableDeclaration
    · obtain ⟨v, hv, -⟩ := hgiven.memberVariable hvariable
      rw [hvariable]
      refine (ends_staticField h column hname hgiven hv).iff ⟨fun h => ⟨fun w hw => ?_, fun w hw => ?_, fun key hkey => ?_⟩,
        fun h => h.field v hv⟩
      · have hkind := hvariable.symm.trans (Node.kind_of_view? hw)
        cases hkind
      · rwa [← Option.some.inj (hv.symm.trans hw)]
      · rw [accessorKey_eq_none (by rw [hvariable]; decide) (by rw [hvariable]; decide)] at hkey
        cases hkey
    -- Neither a method nor a field: an accessor, or a constructor, which is told by having no key.
    · have hnoFunction : member.view? MemberFunction = none := Node.view?_eq_none hfunction
      have hnoVariable : member.view? MemberVariable = none := Node.view?_eq_none hvariable
      have hiff : (∀ key, member.accessorKey? = some key → key ∉ seen →
          ∀ p ∈ Node.propertyParts members key, p.Intact levels) ↔ MemberIntact levels members seen member :=
        ⟨fun h => ⟨fun v hv => (by rw [hnoFunction] at hv; cases hv),
          fun v hv => (by rw [hnoVariable] at hv; cases hv), h⟩, fun h => h.property⟩
      refine Ends.iff ?_ hiff
      split
      · exact absurd ‹_› hfunction
      · exact absurd ‹_› hvariable
      cases hkey : member.accessorKey? with
      | none => exact (Ends.pure (fun _ _ m hm => by cases hm)).iff (by simp)
      | some key =>
        dsimp only
        split
        -- The property was defined where its first accessor stood.
        · rename_i hseen
          have hmem : key ∈ seen := List.contains_iff_mem.1 hseen
          exact (Ends.pure (fun _ _ m hm => by cases hm)).iff (by simp [hmem])
        · rename_i hseen
          have hmem : key ∉ seen := fun hmem => hseen (List.contains_iff_mem.2 hmem)
          refine ((ends_defineProperty h key column hmembers hname hmember).map (fun j hj m hm m' hm' => ?_)).iff
            (by simp [hmem])
          exact List.mem_singleton.1 hm' ▸ hm

/-- A member after another one is told apart by the key of that one too. -/
theorem memberIntact_cons {members rest : List Node} {seen : List AccessorKey} {key : AccessorKey}
    (hkey : key ∉ seen → ∀ p ∈ Node.propertyParts members key, p.Intact levels) :
    (∀ m ∈ rest, MemberIntact levels members (key :: seen) m) ↔ ∀ m ∈ rest, MemberIntact levels members seen m := by
  refine forall₂_congr (fun m _ => ⟨fun h => ⟨h.method, h.field, fun key' hkey' hseen => ?_⟩,
    fun h => ⟨h.method, h.field, fun key' hkey' hseen => h.property key' hkey' (fun hmem => hseen
      (List.mem_cons_of_mem _ hmem))⟩⟩)
  by_cases hsame : key' = key
  · exact hsame ▸ hkey (hsame ▸ hseen)
  · refine h.property key' hkey' (fun hmem => ?_)
    rcases List.mem_cons.1 hmem with hmem | hmem
    · exact hsame hmem
    · exact hseen hmem

/-- **Members become statements if what runs for each of them is intact.** -/
theorem ends_classMembers (h : c.Sound L levels) {members : List Node} {name : Token} (column : Nat) :
    ∀ {seen : List AccessorKey} {rest : List Node} {k : Nat}, (∀ m ∈ members, m.Given L .classMember k) →
    name.Meets L k → (∀ m ∈ rest, m ∈ members) →
    Ends IsRefusal k (c.classMembers name members column seen rest) (∀ m ∈ rest, MemberIntact levels members seen m)
      (fun j ms => ∀ m ∈ ms, m.Plain L .statement j)
  | seen, [], k, _, _, _ => (Ends.pure (fun _ _ m hm => by cases hm)).iff (by simp)
  | seen, member :: rest, k, hmembers, hname, hrest => by
    have hmember : member ∈ members := hrest member (List.mem_cons_self ..)
    have hbehind : ∀ (seen' : List AccessorKey) (j : Nat), k ≤ j → ∀ statements : List Node,
        (∀ m ∈ statements, m.Plain L .statement j) →
        Ends IsRefusal j (do return statements ++ (← c.classMembers name members column seen' rest) :
          Lowering (List Node)) (∀ m ∈ rest, MemberIntact levels members seen' m)
          (fun l ms => ∀ m ∈ ms, m.Plain L .statement l) := by
      intro seen' j hj statements hstatements
      refine (ends_classMembers h column (fun m hm => (hmembers m hm).up (by omega)) (hname.up (by omega))
        (fun m hm => hrest m (List.mem_cons_of_mem _ hm))).map (fun l hl others hothers m hm => ?_)
      rcases List.mem_append.1 hm with hm | hm
      · exact (hstatements m hm).up (by omega)
      · exact hothers m hm
    have hfirst := ends_classMember h seen column hmembers hname hmember
    rw [List.forall_mem_cons]
    unfold classMembers
    dsimp only
    cases hkey : member.accessorKey? with
    | none => exact hfirst.bind (hbehind seen)
    | some key =>
      refine (hfirst.bind (hbehind (key :: seen))).iff (and_congr_right (fun hintact => ?_))
      exact memberIntact_cons (hintact.property key hkey)

/-- **The parts of the body of a class are what its constructor and its members need.** -/
theorem intact_bodyParts (v : ClassDeclaration) :
    (((∀ p ∈ Node.constructorParts v.members, p.Intact levels) ∧ InstanceIntact levels v.members) ∧
      ∀ m ∈ v.members, MemberIntact levels v.members [] m) ↔ ∀ p ∈ v.bodyParts, p.Intact levels := by
  constructor
  · rintro ⟨⟨hconstructor, hfields⟩, hmembers⟩ p hp
    rcases List.mem_append.1 hp with hp | hp
    · rcases List.mem_append.1 hp with hp | hp
      · exact hconstructor p hp
      · obtain ⟨m, hm, hp⟩ := List.mem_flatMap.1 hp
        rcases List.mem_append.1 hp with hp | hp
        · obtain ⟨w, hw, hp⟩ := Node.mem_partsAs.1 hp
          exact (hmembers m hm).method w hw p hp
        · obtain ⟨w, hw, hp⟩ := Node.mem_partsAs.1 hp
          by_cases hstatic : w.isStatic = none
          · exact hfields m hm w hw hstatic p hp
          · exact (hmembers m hm).field w hw hstatic p hp
    · obtain ⟨key, hkey, hp⟩ := List.mem_flatMap.1 hp
      obtain ⟨m, hm, hkey⟩ := List.mem_filterMap.1 hkey
      exact (hmembers m hm).property key hkey List.not_mem_nil p hp
  · intro h
    have hmember : ∀ m ∈ v.members, ∀ p ∈ m.memberParts, p.Intact levels := fun m hm p hp =>
      h p (List.mem_append_left _ (List.mem_append_right _ (List.mem_flatMap.2 ⟨m, hm, hp⟩)))
    have hvariable : ∀ m ∈ v.members, ∀ w, m.view? MemberVariable = some w → ∀ p ∈ w.parts, p.Intact levels :=
      fun m hm w hw p hp => hmember m hm p (List.mem_append_right _ (Node.mem_partsAs.2 ⟨w, hw, hp⟩))
    refine ⟨⟨fun p hp => h p (List.mem_append_left _ (List.mem_append_left _ hp)),
      fun m hm w hw _ => hvariable m hm w hw⟩, fun m hm => ⟨fun w hw p hp => ?_, fun w hw _ => hvariable m hm w hw,
        fun key hkey _ p hp => ?_⟩⟩
    · exact hmember m hm p (List.mem_append_left _ (Node.mem_partsAs.2 ⟨w, hw, hp⟩))
    · exact h p (List.mem_append_right _ (List.mem_flatMap.2 ⟨key, List.mem_filterMap.2 ⟨m, hm, hkey⟩, hp⟩))

theorem makes_extendsCall (hL : L.Suits o) (ht : t.Meets L k) :
    Makes k (extendsCall t) (fun j m => m.Plain L .statement j) := by
  refine (makes_name hL (by decide)).bind (fun i₁ h₁ extend hextend => ?_)
  refine (makes_nameExpression ht (by omega)).bind (fun i₂ h₂ derived hderived => ?_)
  refine (makes_name hL (by decide)).bind (fun i₃ h₃ base hbase => ?_)
  have harguments : ∀ m ∈ [derived, base], m.Plain L .expression i₃ :=
    List.forall_mem_cons.2 ⟨hderived.up (by omega), fun m hm => List.mem_singleton.1 hm ▸ hbase⟩
  exact (makes_invocation hL hextend harguments (by omega) (by omega)).bind
    (fun i₄ h₄ call hcall => makes_expressionStatement hL hcall (by omega))

/-- **The body of a class is lowered if its parts are intact.** -/
theorem ends_classBody (h : c.Sound L levels) {v : ClassDeclaration} {name : Token} (derived : HasBase) (column : Nat)
    (hmembers : ∀ m ∈ v.members, m.Given L .classMember k) (hname : name.Meets L k) :
    Ends IsRefusal k (c.classBody v name derived column) (∀ p ∈ v.bodyParts, p.Intact levels)
      (fun j r => (∀ m ∈ r.1, m.Plain L .statement j) ∧ ∀ m ∈ r.2, m.Plain L .statement j) := by
  -- The call that extends the class comes first where there is a base; the rest goes on alike.
  have hrest : ∀ j, k ≤ j → ∀ inheritance : List Node, (∀ m ∈ inheritance, m.Plain L .statement j) →
      Ends IsRefusal j (do
        let constructor ← c.classConstructor v.members name derived column
        let members ← c.classMembers name v.members column [] v.members
        let returned ← c.statementAt column (← Build.returnStatement (some (← Build.nameExpression name)))
        return (inheritance, constructor :: members ++ [returned]) : Lowering (List Node × List Node))
        (∀ p ∈ v.bodyParts, p.Intact levels)
        (fun l r => (∀ m ∈ r.1, m.Plain L .statement l) ∧ ∀ m ∈ r.2, m.Plain L .statement l) := by
    intro j hj inheritance hinheritance
    refine ((ends_classConstructor h derived column (fun m hm => (hmembers m hm).up (by omega))
      (hname.up (by omega))).bind
      (fun i₁ h₁ constructor hconstructor => ?_)).iff (intact_bodyParts v)
    refine (ends_classMembers h column (fun m hm => (hmembers m hm).up (by omega)) (hname.up (by omega))
      (fun m hm => hm)).thenSure
      (fun i₂ h₂ members hmembers' => ?_)
    refine .make (makes_nameExpression hname (by omega)) (fun i₃ h₃ self hself => ?_)
    refine .make (makes_returnStatement h.suits hself (by omega)) (fun i₄ h₄ returned hreturned => ?_)
    refine .make (makes_statementAt h.suits column hreturned (by omega)) (fun i₅ h₅ returned hreturned =>
      .pure (fun l hl => ?_))
    refine ⟨fun m hm => (hinheritance m hm).up (by omega), fun m hm => ?_⟩
    rcases List.mem_append.1 hm with hm | hm
    · rcases List.mem_cons.1 hm with rfl | hm
      · exact hconstructor.up (by omega)
      · exact (hmembers' m hm).up (by omega)
    · exact List.mem_singleton.1 hm ▸ hreturned.up (by omega)
  unfold classBody
  dsimp only
  split
  · refine .modifyOwn (.make (makes_extendsCall h.suits hname) (fun i₁ h₁ call hcall => ?_))
    refine .make (makes_statementAt h.suits column hcall (by omega)) (fun i₂ h₂ call hcall => ?_)
    exact .sureThen (.pure (fun l hl m hm => List.mem_singleton.1 hm ▸ hcall.up (by omega)))
      (fun l hl => hrest l (by omega))
  · exact .sureThen (.pure (fun l hl m hm => by cases hm)) hrest

/-- **The base class is an expression.** -/
theorem ends_baseExpression (hL : L.Suits o) (hn : n.Stands GivenForm L (.only .extendsClause) k) :
    Ends IsRefusal k (baseExpression n) True (fun j m => m.Plain L .expression j) := by
  obtain ⟨v, hv, -, -, hnames, hne⟩ := hn.extendsClause hn.kind_eq
  unfold baseExpression
  rw [Lowering.view_eq hv, pure_bind]
  cases hmembers : v.names.members with
  | nil => exact absurd hmembers hne
  | cons name names =>
    have hname : name.Stands GivenForm L .name k := hnames.members name (by rw [hmembers]; exact List.mem_cons_self ..)
    dsimp only
    cases hparts : name.nameParts with
    | nil => exact absurd hparts hname.nameParts_ne_nil
    | cons first rest =>
      have hmeets : ∀ t ∈ first :: rest, t.Meets L k := fun t ht => hname.nameParts t (by rw [hparts]; exact ht)
      -- The expression so far is general in the induction: each part of the name is one more access.
      have hfold : ∀ (parts : List Token) (j : Nat) (m : Node), k ≤ j → (∀ t ∈ parts, t.Meets L k) →
          m.Plain L .expression j →
          Makes j (parts.foldlM (fun n part => do Build.memberAccess n (← part.bare)) m)
            (fun l m => m.Plain L .expression l) := by
        intro parts
        induction parts with
        | nil => exact fun j m hj _ hm => .pure (fun l hl => hm.up (by omega))
        | cons t ts ih =>
          intro j m hj hts hm
          rw [List.foldlM_cons]
          have hstep : Makes j (do Build.memberAccess m (← t.bare)) (fun l m => m.Plain L .expression l) :=
            (makes_bareToken (hts t (List.mem_cons_self ..))).bind (fun i₁ h₁ part hpart =>
              makes_memberAccess hL hm hpart (by omega) (by omega))
          exact hstep.bind (fun i₁ h₁ m' hm' => ih i₁ m' (by omega) (fun u hu => hts u (List.mem_cons_of_mem _ hu)) hm')
      dsimp only
      refine .make (makes_bareToken (hmeets first (List.mem_cons_self ..))) (fun i₁ h₁ name hname => ?_)
      refine .make (makes_nameExpression hname (by omega)) (fun i₂ h₂ base hbase => .lift ?_)
      exact hfold rest i₂ base (by omega) (fun t ht => hmeets t (List.mem_cons_of_mem _ ht)) hbase

/-- **A class that is not ambient becomes a statement if the parts of its body are intact.** -/
theorem lowers_classDeclaration (h : c.Sound L levels) (hn : n.Given L cl k)
    (hk : n.kind = .classDeclaration) : LowersTo L k (levels + 1) n (c.classDeclaration n) := by
  obtain ⟨v, hv, hs, hexported, -, hkeyword, hname, hbase, -, hopen, hmembers, hclose⟩ := hn.classDeclaration hk
  have hrequired : n.kind.keepsRequired = true := by rw [hk]; rfl
  have hspread : n.kind.isSpread = true := by rw [hk]; rfl
  have hleaves : n.leavesNothing = false := by simp [Node.leavesNothing, hk]
  have hparts : n.loweredParts = if v.declared.isSome then [] else v.bodyParts := by
    unfold Node.loweredParts
    rw [hk]
    exact Node.partsAs_eq hv _
  have hintact : (∀ p ∈ n.loweredParts, p.Intact levels) ↔ n.Intact (levels + 1) :=
    (Node.intact_of_parts hn.fits hrequired (by simp [hk])).symm
  rw [hparts] at hintact
  unfold classDeclaration
  rw [Lowering.view_eq hv, pure_bind]
  cases hdeclared : v.declared with
  | some t =>
    rw [hdeclared] at hintact
    refine (Ends.pure (fun j hj => .ofSpread hspread hleaves (fun m hm => (by cases hm)) (fun m hm => by cases hm))).iff ?_
    exact (iff_true_intro (fun p hp => by cases hp)).symm.trans hintact
  | none =>
    rw [hdeclared] at hintact
    refine Ends.iff ?_ hintact
    refine .make (makes_bareToken hname) (fun i₁ h₁ name hname => ?_)
    have hbases := Ends.optionMapM (E := IsRefusal) (k := i₁) (o := v.base) (C := fun _ => True) (fun m hm =>
      ends_baseExpression h.suits ((hbase m hm).up (k := i₁) (by omega)))
    refine (hbases.iff (iff_true_intro (fun _ _ => trivial))).sureThen (fun i₂ h₂ base hbase' => ?_)
    refine (ends_classBody h base.isSome _ (fun m hm => (hmembers m hm).up (by omega))
      (hname.up (by omega))).inScope.thenSure
      (fun i₃ h₃ r hr => ?_)
    obtain ⟨⟨inheritance, statements⟩, captured⟩ := r
    refine .make (makes_withCapture h.suits captured _ hr.2 (by omega)) (fun i₄ h₄ statements hstatements => ?_)
    have hall : ∀ m ∈ inheritance ++ statements, m.Plain L .statement i₄ := fun m hm => by
      rcases List.mem_append.1 hm with hm | hm
      · exact (hr.1 m hm).up (by omega)
      · exact hstatements m hm
    refine .make (makes_placeStatements h.suits _ hall (by omega)) (fun i₅ h₅ statements hstatements => ?_)
    refine .make (makes_bodyBlock h.suits _ hopen hclose hstatements) (fun i₆ h₆ block hblock => ?_)
    -- The wrapper takes the base as its parameter if there is one; the call of it is built alike.
    have hrest : ∀ j, i₆ ≤ j → ∀ parameters : List Node, (∀ m ∈ parameters, m.Plain L (.only .parameter) j) →
        Ends IsRefusal j (do
          let call ← wrapperCall parameters block base.toList
          let statement ← Build.variableStatement name (some call)
          return .one (← statement.withTrivia (v.keyword.leadingWithoutExport v.exported)
            (c.lineEnd v.closeBrace.trailing)) : Lowering Replacement) True
          (fun l r => r.Suits .lowering L k n l) := by
      intro j hj parameters hparameters
      have hbases : ∀ m ∈ base.toList, m.Plain L .expression j := fun m hm =>
        (hbase'.2 m (Option.mem_toList.1 hm)).up (by omega)
      refine .make (makes_wrapperCall h.suits hparameters (hblock.up (by omega)) hbases) (fun i₇ h₇ call hcall => ?_)
      have hvalue : ∀ m, some call = some m → m.Plain L .expression i₇ := fun m hm => by cases hm; exact hcall
      refine .make ((makes_variableStatement h.suits hname hvalue (by omega) (by omega)).and
        (makes_newVariable h.suits hname hvalue (by omega) (by omega)))
        (fun i₈ h₈ statement hstatement => ?_)
      refine .make (makes_renewedTrivia hstatement.1 (Token.leadingWithoutExport_meets hkeyword hexported)
        (h.suits.endingLine hclose.trailing) (by omega)) (fun i₉ h₉ m hm => .pure (fun l hl => ?_))
      refine .ofSpread hspread hleaves (fun m' hm' => List.mem_singleton.1 hm' ▸ hm.1.up (by omega)) (fun m' hm' => ?_)
      cases hm'
      -- The statement is new whether its trivia were renewed or not, so it is not the class.
      rcases hm.2 with rfl | hnew
      · have := hstatement.2
        omega
      · omega
    dsimp only
    split
    · refine .make (makes_identifier h.suits (by decide)) (fun i₇ h₇ name hname => ?_)
      refine .make (makes_parameter hname (by omega)) (fun i₈ h₈ parameter hparameter => ?_)
      exact .sureThen (.pure (fun l hl m hm => List.mem_singleton.1 hm ▸ hparameter.up (by omega)))
        (fun l hl => hrest l (by omega))
    · exact .sureThen (.pure (fun l hl m hm => by cases hm)) hrest

end Downlevel.LoweringContext
