import Downlevel.Lowering.Arrows
import Downlevel.Lowering.Super
import Downlevel.Proofs.Schema.Parts
/-!
# Proofs.Schema.Functions — functions, and what is said about `super` and `this`

The rules for functions, accessors, arrow functions and references to the base class answer with schematic trees about
schematic trees.
-/
namespace Downlevel.LoweringContext

variable {c : LoweringContext} {n m : Node} {ns : List Node} {t : Token}

/-! ## Functions and accessors -/

theorem schematic_withCapture (captured : Bool) (bodyColumn : Nat) (h : AllSchematic ns) :
    (c.withCapture captured bodyColumn ns).Gives AllSchematic := by
  unfold withCapture
  split
  · exact (schematic_captureStatement bodyColumn).bindPure (fun capture hcapture => by simp [hcapture, h])
  · exact .pure h

theorem schematic_functionLike (hc : c.transformer.KeepsSchema) (hn : n.Schematic) (hm : m.Schematic)
    (resultType : Option Node) (column : Nat) : (c.functionLike n resultType m column).Gives AllSchematic := by
  unfold functionLike
  refine .bind (P := fun p => AllSchematic p.1) (.inScope ?_) (fun p hp => ?_)
  · refine (schematic_parameterList hn resultType).bind (fun parts hparts => ?_)
    obtain ⟨hparameters, hfacts⟩ := AllSchematic.pair_iff.1 hparts
    refine (schematic_parameterPrologue hc hfacts _).bind (fun prologue hprologue => ?_)
    exact (hc.root hm).bindPure (fun lowered hlowered =>
      AllSchematic.pair_iff.2 ⟨hparameters, AllSchematic.pair_iff.2 ⟨hprologue, AllSchematic.node_iff.2 hlowered⟩⟩)
  · obtain ⟨⟨parameters, prologue, lowered⟩, captured⟩ := p
    simp only [AllSchematic.pair_iff, AllSchematic.node_iff] at hp
    obtain ⟨hparameters, hprologue, hlowered⟩ := hp
    refine .make (schematic_withCapture captured _ hprologue) (fun prologue hprologue => ?_)
    exact (schematic_assembleBlock hlowered hprologue _ _).bindPure (fun block hblock => by simp [hparameters, hblock])

theorem schematic_functionDeclaration (hc : c.transformer.KeepsSchema) (hn : n.Schematic) :
    (c.functionDeclaration n).Gives AllSchematic := by
  unfold functionDeclaration
  refine (Work.Gives.view hn).bind (fun v hv => ?_)
  obtain ⟨hsignature, hblock⟩ : v.signature.Schematic ∧ AllSchematic v.block := by simpa [NodeView.toSlots] using hv
  split
  · exact .pure AllSchematic.removed
  · split
    · exact .pure AllSchematic.removed
    · rename_i block heq
      rw [heq] at hblock
      refine (Work.Gives.view hsignature).bind (fun signature hs => ?_)
      obtain ⟨hparameters, -⟩ : signature.parameters.Schematic ∧ AllSchematic signature.resultType := by
        simpa [NodeView.toSlots] using hs
      refine (schematic_functionLike hc hparameters (by simpa using hblock) _ _).bind (fun p hp => ?_)
      obtain ⟨parameters, lowered⟩ := p
      obtain ⟨hparameters, hlowered⟩ : parameters.Schematic ∧ lowered.Schematic := by simpa using hp
      have hrest : ∀ keyword : Token, (do
          let signature ← Build.callSignature parameters
          return .one (← NodeView.toNode (FunctionDeclaration.mk none none keyword v.name signature (some lowered)
            v.semicolon)) : Lowering Replacement).Gives AllSchematic := fun keyword =>
        .make (Build.schematic_callSignature hparameters) (fun signature hs =>
          .one (.lift (schematic_toNode (by simp [NodeView.toSlots, hs, hlowered]))))
      dsimp only
      split
      · exact .pure (AllSchematic.one_iff.2 hn)
      · split
        · exact .andThen hrest
        · exact hrest _

theorem schematic_functionExpression (hc : c.transformer.KeepsSchema) (hn : n.Schematic) :
    (c.functionExpression n).Gives AllSchematic := by
  unfold functionExpression
  refine (Work.Gives.view hn).bind (fun v hv => ?_)
  obtain ⟨hsignature, hblock⟩ : v.signature.Schematic ∧ v.block.Schematic := by simpa [NodeView.toSlots] using hv
  refine (Work.Gives.view hsignature).bind (fun signature hs => ?_)
  obtain ⟨hparameters, -⟩ : signature.parameters.Schematic ∧ AllSchematic signature.resultType := by
    simpa [NodeView.toSlots] using hs
  refine (schematic_functionLike hc hparameters hblock _ _).bind (fun p hp => ?_)
  obtain ⟨parameters, lowered⟩ := p
  obtain ⟨hparameters, hlowered⟩ : parameters.Schematic ∧ lowered.Schematic := by simpa using hp
  dsimp only
  split
  · exact .pure (AllSchematic.one_iff.2 hn)
  · exact .make (Build.schematic_callSignature hparameters) (fun signature hs =>
      .one (.lift (schematic_toNode (by simp [NodeView.toSlots, hs, hlowered]))))

theorem schematic_accessorBody (hm : m.Schematic) (captured : Bool) :
    (c.accessorBody n m captured).Gives Node.Schematic := by
  unfold accessorBody
  split
  · exact .pure hm
  · exact .make (schematic_captureStatement _) (fun capture hcapture =>
      schematic_assembleBlock hm (by simpa using hcapture) _ _)

theorem schematic_objectGetter (hm : m.Schematic) (captured : Bool) :
    (c.objectGetter n m captured).Gives AllSchematic := by
  unfold objectGetter
  refine (Work.Gives.view hm).bind (fun v hv => .andThen (fun before => ?_))
  obtain ⟨hresult, hblock⟩ : AllSchematic v.resultType ∧ v.block.Schematic := by simpa [NodeView.toSlots] using hv
  have hrest : ∀ closeParen : Token, (do
      let block ← c.accessorBody n v.block captured
      return .one (← NodeView.toNode { v with
        closeParen, resultType := if before.resultType.isSome then none else v.resultType, block }) :
        Lowering Replacement).Gives AllSchematic := by
    intro closeParen
    refine (schematic_accessorBody hblock captured).bind (fun block hb => .one (.lift (schematic_toNode ?_)))
    cases before.resultType <;> simp [NodeView.toSlots, hb, hresult]
  dsimp only
  split
  · exact .pure (AllSchematic.one_iff.2 hm)
  · split
    · exact .andThen hrest
    · exact hrest _

theorem schematic_objectSetter (hm : m.Schematic) (captured : Bool) :
    (c.objectSetter n m captured).Gives AllSchematic := by
  unfold objectSetter
  split
  · exact .pure (AllSchematic.one_iff.2 hm)
  · refine (Work.Gives.view hm).bind (fun v hv => ?_)
    obtain ⟨hparameter, hblock⟩ : v.parameter.Schematic ∧ v.block.Schematic := by simpa [NodeView.toSlots] using hv
    exact (schematic_accessorBody hblock captured).bind (fun block hb =>
      .one (.lift (schematic_toNode (by simp [NodeView.toSlots, hparameter, hb]))))

theorem schematic_objectAccessor (hc : c.transformer.KeepsSchema) (hn : n.Schematic) :
    (c.objectAccessor n).Gives AllSchematic := by
  unfold objectAccessor
  refine (Work.Gives.inScope (hc.walk hn)).bind (fun p hp => ?_)
  dsimp only
  split
  · exact schematic_objectGetter hp _
  · exact schematic_objectSetter hp _

theorem schematic_parenthesize (hn : n.Schematic) : (parenthesize n).Gives Node.Schematic :=
  hn.bare.bind (fun _ hbare => (Build.schematic_parenthesized hbare).bind (fun _ hm => hm.withTrivia _ _))

theorem schematic_expressionStatement (hc : c.transformer.KeepsSchema) (hn : n.Schematic) :
    (c.expressionStatement n).Gives AllSchematic := by
  unfold expressionStatement
  refine (hc.walk hn).bind (fun walked hwalked => (Work.Gives.view hwalked).bind (fun v hv => ?_))
  have hexpression : v.expression.Schematic := by simpa [NodeView.toSlots] using hv
  split
  · exact .pure (AllSchematic.one_iff.2 hwalked)
  · exact .make (schematic_parenthesize hexpression) (fun m hm =>
      .one (.lift (schematic_toNode (by simp [NodeView.toSlots, hm]))))

/-! ## Arrow functions -/

instance : HasTrees ArrowParts where
  trees parts := parts.parameters :: parts.body :: HasTrees.trees parts.facts

theorem allSchematic_arrowParts {parts : ArrowParts} :
    AllSchematic parts ↔ parts.parameters.Schematic ∧ parts.body.Schematic ∧ AllSchematic parts.facts := by
  simp only [AllSchematic, HasTrees.trees, List.forall_mem_cons]

theorem schematic_arrowBlock (hc : c.transformer.KeepsSchema) {parts : ArrowParts} (h : AllSchematic parts)
    (column : Nat) : (c.arrowBlock n parts column).Gives Node.Schematic := by
  obtain ⟨-, hbody, hfacts⟩ := allSchematic_arrowParts.1 h
  unfold arrowBlock
  refine (schematic_parameterPrologue hc hfacts _).bind (fun prologue hprologue => ?_)
  refine (hc.root hbody).bind (fun block hblock => (schematic_reindent hblock _ _).bind (fun moved hmoved => ?_))
  exact schematic_assembleBlock hmoved hprologue _ _

theorem schematic_arrowExpression (hc : c.transformer.KeepsSchema) {parts : ArrowParts} (h : AllSchematic parts)
    (column : Nat) : (c.arrowExpression n parts column).Gives Node.Schematic := by
  obtain ⟨-, hbody, hfacts⟩ := allSchematic_arrowParts.1 h
  unfold arrowExpression
  refine (schematic_parameterPrologue hc hfacts _).bind (fun prologue hprologue => ?_)
  refine (schematic_lowerAtLine hc hbody _).bind (fun lowered hlowered => .make hlowered.bare (fun bare hbare => ?_))
  refine (schematic_reindent hbare _ _).bind (fun moved hmoved => ?_)
  refine .make (Build.schematic_returnStatement (o := some moved) (by simpa using hmoved)) (fun returned hr => ?_)
  refine .make (hr.withTrivia _ _) (fun returned hr => ?_)
  refine .make (schematic_placeStatements hprologue _) (fun statements hs => ?_)
  refine .andThen (fun _ => .andThen (fun _ => .andThen (fun _ => .lift (Build.schematic_block ?_))))
  simp [hs, hr]

theorem schematic_arrowFunction (hc : c.transformer.KeepsSchema) {parts : ArrowParts} (h : AllSchematic parts) :
    (c.arrowFunction n parts).Gives AllSchematic := by
  obtain ⟨hparameters, -, -⟩ := allSchematic_arrowParts.1 h
  have hbody : ∀ column, (if parts.body.kind = .block then c.arrowBlock n parts column
      else c.arrowExpression n parts column).Gives Node.Schematic := by
    intro column
    split
    · exact schematic_arrowBlock hc h column
    · exact schematic_arrowExpression hc h column
  unfold arrowFunction
  refine .andThen (fun column => .make (hparameters.withTrivia _ _) (fun parameters hp => ?_))
  refine (Work.Gives.inArrow (hbody column)).bind (fun block hblock => .andThen (fun _ => .andThen (fun _ => ?_)))
  exact .make (Build.schematic_callSignature hp) (fun signature hs =>
    .one (.lift (schematic_toNode (by simp [NodeView.toSlots, hs, hblock]))))

theorem schematic_simpleArrow (hc : c.transformer.KeepsSchema) (hn : n.Schematic) :
    (c.simpleArrow n).Gives AllSchematic := by
  unfold simpleArrow
  refine (Work.Gives.view hn).bind (fun v hv => .andThen (fun _ => ?_))
  have hbody : v.body.Schematic := by simpa [NodeView.toSlots] using hv
  refine .make Build.schematic_parameter (fun parameter hp => ?_)
  refine .make (Build.schematic_parameterList (.cons hp .nil)) (fun list hlist => ?_)
  refine .make (hlist.withTrailing _) (fun parameters hparameters => schematic_arrowFunction hc ?_)
  exact allSchematic_arrowParts.2 ⟨hparameters, hbody, AllSchematic.nil⟩

theorem schematic_parenthesizedArrow (hc : c.transformer.KeepsSchema) (hn : n.Schematic) :
    (c.parenthesizedArrow n).Gives AllSchematic := by
  unfold parenthesizedArrow
  refine (Work.Gives.view hn).bind (fun v hv => ?_)
  obtain ⟨hsignature, hbody⟩ : v.signature.Schematic ∧ v.body.Schematic := by simpa [NodeView.toSlots] using hv
  refine (Work.Gives.view hsignature).bind (fun signature hs => ?_)
  obtain ⟨hparameters, -⟩ : signature.parameters.Schematic ∧ AllSchematic signature.resultType := by
    simpa [NodeView.toSlots] using hs
  refine (schematic_parameterList hparameters _).bind (fun p hp => schematic_arrowFunction hc ?_)
  obtain ⟨parameters, facts⟩ := p
  obtain ⟨hparameters, hfacts⟩ := AllSchematic.pair_iff.1 hp
  exact allSchematic_arrowParts.2 ⟨AllSchematic.node_iff.1 hparameters, hbody, hfacts⟩

/-! ## References to the base class and to `this` -/

theorem schematic_superReference : (superReference t).Gives Node.Schematic :=
  .andThen (fun _ => .andThen (fun _ => Build.schematic_nameExpression))

theorem schematic_superPrototype : (superPrototype t).Gives Node.Schematic :=
  schematic_superReference.bind (fun _ hm => .andThen (fun _ => Build.schematic_memberAccess hm))

theorem schematic_callMember (hn : n.Schematic) : (callMember n).Gives Node.Schematic :=
  .andThen (fun _ => Build.schematic_memberAccess hn)

theorem schematic_superCallee : (superCallee? n).Gives AllSchematic := by
  unfold superCallee?
  split
  · refine schematic_superReference.bind (fun reference hr => (schematic_callMember hr).bind (fun target ht => ?_))
    exact (ht.withTrailing _).bindPure (fun m hm => by simpa using hm)
  · split
    · refine schematic_superPrototype.bind (fun prototype hp => .andThen (fun _ => ?_))
      refine (Build.schematic_memberAccess hp).bind (fun method hm => (schematic_callMember hm).bind (fun target ht => ?_))
      exact (ht.withTrailing _).bindPure (fun m hm => by simpa using hm)
    · exact .pure AllSchematic.none
  · exact .pure AllSchematic.none

theorem schematic_callWithThis (hc : c.transformer.KeepsSchema) (hn : n.Schematic) (hm : m.Schematic) :
    (c.callWithThis n m).Gives AllSchematic := by
  unfold callWithThis
  refine (hc.root hm).bind (fun lowered hlowered => (Work.Gives.view hlowered).bind (fun list hlist => ?_))
  have hmembers : AllSchematic list.arguments.members := by simpa [NodeView.toSlots] using hlist
  have hrest : ∀ (this : Node) (comma : List Token), this.Schematic → (do
      let passed : SeparatedNodes := ⟨this :: list.arguments.members, comma ++ list.arguments.separators⟩
      let arguments ← NodeView.toNode { list with arguments := passed }
      return .one (← NodeView.toNode (Invocation.mk n arguments)) : Lowering Replacement).Gives AllSchematic := by
    intro this comma hthis
    refine .make (schematic_toNode (by simp [NodeView.toSlots, hthis, hmembers])) (fun arguments harguments => ?_)
    exact .one (.lift (schematic_toNode (by simp [NodeView.toSlots, hn, harguments])))
  refine .andThen (fun keyword => Work.Gives.thisReference.bind (fun this hthis => ?_))
  dsimp only
  split
  · exact hrest this [] hthis
  · exact .andThen (fun comma => hrest this [comma] hthis)

theorem schematic_invocation (hc : c.transformer.KeepsSchema) (hn : n.Schematic) :
    (c.invocation n).Gives AllSchematic := by
  unfold invocation
  refine (Work.Gives.view hn).bind (fun v hv => .make schematic_superCallee (fun found hfound => ?_))
  obtain ⟨-, harguments⟩ : v.callee.Schematic ∧ v.arguments.Schematic := by simpa [NodeView.toSlots] using hv
  cases found with
  | none => exact .one (hc.walk hn)
  | some target => exact schematic_callWithThis hc (by simpa using hfound) harguments

theorem schematic_memberAccess (hc : c.transformer.KeepsSchema) (hn : n.Schematic) :
    (c.memberAccess n).Gives AllSchematic := by
  unfold memberAccess
  refine .andThen (fun v => ?_)
  split
  · exact .make schematic_superPrototype (fun prototype hp =>
      .one (.lift (schematic_toNode (by simp [NodeView.toSlots, hp]))))
  · exact .one (hc.walk hn)

theorem schematic_thisExpression (hn : n.Schematic) : (thisExpression n).Gives AllSchematic := by
  unfold thisExpression
  refine .andThen (fun v => Work.Gives.thisReference.bindPure (fun reference hr => ?_))
  split
  · exact AllSchematic.one_iff.2 hn
  · exact AllSchematic.one_iff.2 hr

end Downlevel.LoweringContext
