import Downlevel.Lowering.Parameters
import Downlevel.Proofs.Schema.Brought
import Downlevel.Proofs.Schema.Edits
import Downlevel.Proofs.Tree.Answers
import Downlevel.Tree.Reindent
/-!
# Proofs.Schema.Parts — walks and the steps that rules share

A walk puts answers in the place of what stood in the slots of a node, and checks that they fit.  So what it makes is
schematic if the answers about the children are (`walk_schematic`), and a rule that answers with schematic trees about
schematic trees is carried through a whole tree.

Given that lowering answers so (`Transformer.KeepsSchema`), each rule does so too: it reads schematic parts off a node,
and builds schematic trees of them.  Here are the steps that many rules take, and the rules that erase types and reduce
parameters to their names.
-/
namespace Downlevel

namespace Transformer

variable {ε σ : Type} {r : Transformer ε σ} {n m : Node} {s s' : Supplied σ}

/-- An answer about a node was given by the rule. -/
theorem Answered.asked {parent : NodeKind} {ps : List Child} {as : List Answer} {rep : Replacement}
    (h : r.Answered parent ps s as s') (hrep : .node rep ∈ as) :
    ∃ c room s₁ s₂, .node c room ∈ ps ∧ r.node c s₁ = .ok rep s₂ := by
  induction h with
  | nil => cases hrep
  | @cons p ps a as s s₁ s' hask _ _ ih =>
    rcases List.mem_cons.1 hrep with rfl | hrep
    · cases p with
      | token t =>
        unfold ask at hask
        obtain ⟨u, s₂, -, hpure⟩ := Work.bind_eq_ok hask
        exact nomatch (Work.pure_eq_ok hpure).1
      | node c room =>
        unfold ask at hask
        obtain ⟨rep', s₂, hrun, hpure⟩ := Work.bind_eq_ok hask
        cases (Work.pure_eq_ok hpure).1
        exact ⟨c, room, s, s₂, List.mem_cons_self, hrun⟩
    · obtain ⟨c, room, s₁, s₂, hc, hrun⟩ := ih hrep
      exact ⟨c, room, s₁, s₂, List.mem_cons_of_mem _ hc, hrun⟩

/-- **What a walk makes of a schematic tree is schematic if what is answered about its parts is.** -/
theorem walk_schematic (hn : n.Schematic) (hrun : r.walk n s = .ok m s') : ∃ answers s₁,
    r.Answered n.kind n.parts s answers s₁ ∧ ((∀ rep, .node rep ∈ answers → AllSchematic rep) → m.Schematic) := by
  rcases walk_cases (r := r) hn.self s with ⟨answers, s₁, slots, has, hrow, hmade⟩ | ⟨e, s₁, -, herr⟩
  · refine ⟨answers, s₁, has, fun hreps => ?_⟩
    rcases hmade with ⟨-, hok⟩ | ⟨-, hfits, hok⟩
    · rw [hok] at hrun
      cases hrun
      exact hn
    · rw [hok] at hrun
      cases hrun
      refine Node.schematic_mk.2 ⟨hfits, fun slot hslot c hc => ?_⟩
      obtain ⟨rep, hrep, hc⟩ := hrow.exists_of_mem_nodes hslot hc
      exact hreps rep hrep c hc
  · rw [herr] at hrun
    cases hrun

/-- About schematic trees the transformer answers with schematic trees. -/
def KeepsSchema (r : Transformer ε σ) : Prop := ∀ n : Node, n.Schematic → (r.node n).Gives AllSchematic

namespace KeepsSchema

theorem walk (hr : r.KeepsSchema) (hn : n.Schematic) : (r.walk n).Gives Node.Schematic := fun s m s' hrun => by
  obtain ⟨answers, s₁, has, hmade⟩ := walk_schematic hn hrun
  refine hmade (fun rep hrep => ?_)
  obtain ⟨c, room, s₂, s₃, hc, hask⟩ := has.asked hrep
  rcases Node.mem_parts hc with ⟨_, _, _, _, htoken⟩ | ⟨c', hc', _, hnode⟩
  · cases htoken
  · cases hnode
    exact hr c (hn.child hc') s₂ rep s₃ hask

theorem root (hr : r.KeepsSchema) (hn : n.Schematic) : (r.root n).Gives Node.Schematic := by
  unfold Transformer.root
  refine (hr n hn).bind (fun rep hrep => ?_)
  split
  · exact .pure (AllSchematic.one_iff.1 hrep)
  · exact .fail
  · exact .pure (by simpa using hrep)
  · exact .fail

theorem walkList (hr : r.KeepsSchema) {ns : List Node} (h : AllSchematic ns) : (r.walkList ns).Gives AllSchematic := by
  induction ns with
  | nil => exact .pure (by simp)
  | cons n ns ih =>
    obtain ⟨hn, hns⟩ := AllSchematic.cons_iff.1 h
    unfold Transformer.walkList
    refine (hr n (AllSchematic.node_iff.1 hn)).bind (fun rep hrep => (ih hns).bind (fun rest hrest => ?_))
    rw [AllSchematic.walked_iff] at hrest
    cases rep with
    | one n' => exact .pure (by simpa [hrest] using hrep)
    | removed => exact .pure (by simpa using hrest)
    | many ns' => exact .pure (by simpa [hrest] using hrep)

/-- A rule is carried through so many levels. -/
theorem ofRuleUpTo {ofError : SlotError → ε} {token : Token → Work ε σ Token} {rule : NodeRule ε σ}
    (hrule : ∀ walk : Work ε σ Node, walk.Gives Node.Schematic → ∀ n : Node, n.Schematic → (rule walk n).Gives AllSchematic) :
    ∀ levels, (Transformer.ofRuleUpTo ofError token rule levels).KeepsSchema
  | 0 => fun _ hn => .pure (AllSchematic.one_iff.2 hn)
  | levels + 1 => fun n hn => hrule _ ((ofRuleUpTo hrule levels).walk hn) n hn

end KeepsSchema

end Transformer

namespace Node.Schematic

variable {n : Node}

/-- **A schematic tree with other tokens is schematic.** -/
theorem transformTokens {σ : Type} (hn : n.Schematic) (token : Token → Work SlotError σ Token) :
    (n.transformTokens token).Gives Node.Schematic :=
  (Transformer.KeepsSchema.ofRuleUpTo (fun _ hwalk _ _ => hwalk.bindPure (fun _ hm => AllSchematic.one_iff.2 hm)) _).root hn

theorem runFrom {ε σ : Type} {w : Work ε σ Node} (h : w.Gives Node.Schematic) (own : σ) (next : ObjectId) {m : Node}
    (hm : (w.runFrom own next).1 = .ok m) : m.Schematic := by
  unfold Work.runFrom at hm
  cases hrun : w ⟨next, own⟩ with
  | ok m' s' =>
    rw [hrun] at hm
    cases hm
    exact h _ _ _ hrun
  | error e s' =>
    rw [hrun] at hm
    cases hm

theorem reindented (hn : n.Schematic) (s : Shift) (first : Bool) :
    (n.reindented s first).Gives (fun r => ∀ m, r = .ok m → m.Schematic) := by
  intro next m hm
  unfold Node.reindented at hm
  split at hm
  · cases hm
    exact hn
  · exact runFrom (hn.transformTokens _) _ _ hm

theorem withUniqueTokens (hn : n.Schematic) :
    n.withUniqueTokens.Gives (fun r => ∀ m, r = .ok m → m.Schematic) :=
  fun _ _ hm => runFrom (hn.transformTokens _) _ _ hm

end Node.Schematic

section Steps

variable {α : Type} {P : α → Prop} {n : Node} {t : Token}

namespace Work.Gives

/-- What is read off a schematic tree is schematic. -/
theorem view [NodeView α] [SchemaView α] (hn : n.Schematic) : (Lowering.view α n).Gives AllSchematic := by
  unfold Lowering.view
  split
  · rename_i v hv
    exact .pure (hn.view hv)
  · exact .fail

theorem viewOption [NodeView α] [SchemaView α] {o : Option Node} (h : AllSchematic o) :
    (Lowering.viewOption α o).Gives AllSchematic := by
  cases o with
  | none => exact .pure AllSchematic.none
  | some n =>
    show (some <$> Lowering.view α n).Gives AllSchematic
    rw [map_eq_pure_bind]
    exact (view (by simpa using h)).bindPure (fun v hv => AllSchematic.some_iff.2 hv)

theorem ofTransformed {part : Fresh (Except SlotError α)} (h : part.Gives (fun r => ∀ a, r = .ok a → P a)) :
    (Lowering.ofTransformed part).Gives P := by
  unfold Lowering.ofTransformed
  refine .make h (fun r hr => ?_)
  cases r with
  | ok a => exact .pure (hr a rfl)
  | error e => exact .fail

theorem inScope {part : Lowering α} (h : part.Gives P) : (Lowering.inScope part).Gives (fun p => P p.1) := by
  intro s p s' hrun
  unfold Lowering.inScope at hrun
  dsimp only at hrun
  split at hrun
  · rename_i a after hpart
    cases hrun
    exact h _ _ _ hpart
  · cases hrun

theorem inArrow {part : Lowering α} (h : part.Gives P) : (Lowering.inArrow part).Gives P :=
  .andThen (fun _ => h.followed _)

theorem atLine {part : Lowering α} (line column : Nat) (h : part.Gives P) : (Lowering.atLine line column part).Gives P :=
  .andThen (fun _ => h.followed _)

theorem thisReference : (Lowering.thisReference t).Gives Node.Schematic := by
  unfold Lowering.thisReference
  refine .andThen (fun inArrow => ?_)
  split
  · exact .andThen (fun _ => .andThen (fun _ => .andThen (fun _ => .lift Build.schematic_nameExpression)))
  · exact .lift (schematic_toNode (by simp [NodeView.toSlots]))

end Work.Gives

end Steps

namespace LoweringContext

variable {c : LoweringContext} {n m : Node} {ns : List Node} {t : Token}

/-! ## Trivia and lines -/

theorem schematic_reindent (hn : n.Schematic) (first : Bool) (delta : Int) :
    (c.reindent n first delta).Gives Node.Schematic := .ofTransformed (hn.reindented _ first)

theorem schematic_statementAt (hn : n.Schematic) (column : Nat) : (c.statementAt column n).Gives Node.Schematic :=
  hn.withTrivia _ _

theorem schematic_placeStatements (h : AllSchematic ns) (column : Nat) :
    (c.placeStatements column ns).Gives AllSchematic :=
  .nodes (fun _ hn => (AllSchematic.node_iff.1 (h.mem hn)).withTrivia _ _)

theorem schematic_captureStatement (column : Nat) : (c.captureStatement column).Gives Node.Schematic :=
  .andThen (fun _ => Build.schematic_thisExpression.bind (fun this hthis =>
    (Build.schematic_variableStatement (o := some this) (by simpa using hthis)).bind (fun _ hs =>
      schematic_statementAt hs column)))

theorem schematic_relocateFirst (column : Nat) (h : AllSchematic ns) :
    (c.relocateFirst column ns).Gives AllSchematic := by
  cases ns with
  | nil => exact .pure h
  | cons n ns =>
    obtain ⟨hn, hns⟩ := AllSchematic.cons_iff.1 h
    exact ((AllSchematic.node_iff.1 hn).withLeading _).bindPure (fun m hm => by simp [hm, hns])

theorem schematic_endLastLine : ∀ {ns : List Node}, AllSchematic ns → (c.endLastLine ns).Gives AllSchematic
  | [], h => .pure h
  | [n], h => by
    have hn : n.Schematic := by simpa using h
    exact (hn.withTrailing _).bindPure (fun m hm => by simp [hm])
  | n :: n' :: ns, h => by
    obtain ⟨hn, hns⟩ := AllSchematic.cons_iff.1 h
    exact (schematic_endLastLine hns).bindPure (fun ms hms => AllSchematic.cons_iff.2 ⟨hn, hms⟩)

theorem schematic_assembleBlock (hn : n.Schematic) (h : AllSchematic ns) (bodyColumn closeColumn : Nat) :
    (c.assembleBlock n ns bodyColumn closeColumn).Gives Node.Schematic := by
  unfold assembleBlock
  split
  · exact .pure hn
  · refine (Work.Gives.view hn).bind (fun v hv => ?_)
    have hstatements : AllSchematic v.statements := by simpa [NodeView.toSlots] using hv
    refine .make (schematic_placeStatements h bodyColumn) (fun placed hplaced => ?_)
    refine .make (schematic_relocateFirst bodyColumn hstatements) (fun rest hrest => ?_)
    refine .make (schematic_endLastLine (AllSchematic.append_iff.2 ⟨hplaced, hrest⟩)) (fun statements hs => ?_)
    exact .andThen (fun _ => .andThen (fun _ => .lift (Build.schematic_block hs)))

theorem schematic_lowerAtLine (hc : c.transformer.KeepsSchema) (hn : n.Schematic) (column : Nat) :
    (c.lowerAtLine n column).Gives Node.Schematic := by
  unfold lowerAtLine
  split
  · exact .atLine _ _ (hc.root hn)
  · exact hc.root hn

/-! ## Types and modifiers -/

theorem schematic_variableStatement (hc : c.transformer.KeepsSchema) (hn : n.Schematic) :
    (c.variableStatement n).Gives AllSchematic := by
  unfold variableStatement
  refine .andThen (fun statement => ?_)
  split
  · exact .pure AllSchematic.removed
  · refine (hc.walk hn).bind (fun walked hwalked => ?_)
    split
    · exact .pure (AllSchematic.one_iff.2 hwalked)
    · refine (Work.Gives.view hwalked).bind (fun v hv => ?_)
      have hdeclaration : v.declaration.Schematic := by simpa [NodeView.toSlots] using hv
      refine .make (hdeclaration.withLeading _) (fun declaration hd => ?_)
      exact .one (.lift (schematic_toNode (by simp [NodeView.toSlots, hd])))

theorem schematic_variableDeclarator (hc : c.transformer.KeepsSchema) (hn : n.Schematic) :
    (c.variableDeclarator n).Gives AllSchematic := by
  unfold variableDeclarator
  refine (Work.Gives.view hn).bind (fun v hv => ?_)
  obtain ⟨-, hvalue⟩ : AllSchematic v.type ∧ AllSchematic v.value := by simpa [NodeView.toSlots] using hv
  split
  · exact .one (hc.walk hn)
  · refine .bind (.optionNode (fun m hm => hc.root ?_)) (fun value hvalue' => .andThen (fun _ => ?_))
    · rw [hm] at hvalue
      simpa using hvalue
    · exact .one (.lift (schematic_toNode (by simp [NodeView.toSlots, hvalue'])))

theorem schematic_castExpression (hc : c.transformer.KeepsSchema) (hn : n.Schematic) :
    (c.castExpression n).Gives AllSchematic := by
  unfold castExpression
  refine (Work.Gives.view hn).bind (fun v hv => ?_)
  obtain ⟨-, hexpression⟩ : v.type.Schematic ∧ v.expression.Schematic := by simpa [NodeView.toSlots] using hv
  exact (hc.root hexpression).bind (fun expression he => .one (.lift (he.withLeading _)))

end LoweringContext

/-! ## Parameters -/

instance : HasTrees DefaultValue := ⟨fun d => [d.value]⟩

instance : HasTrees ParameterFacts := ⟨fun f => HasTrees.trees f.defaults⟩

instance : HasTrees LoweredParameters := ⟨fun p => HasTrees.trees p.parameters ++ HasTrees.trees p.facts⟩

namespace AllSchematic

@[simp] theorem defaultValue_iff {d : DefaultValue} : AllSchematic d ↔ d.value.Schematic := by
  simp [AllSchematic, HasTrees.trees]

@[simp] theorem facts_iff {f : ParameterFacts} : AllSchematic f ↔ AllSchematic f.defaults := Iff.rfl

@[simp] theorem loweredParameters_iff {p : LoweredParameters} :
    AllSchematic p ↔ AllSchematic p.parameters ∧ AllSchematic p.facts := by
  simp only [AllSchematic, HasTrees.trees, List.mem_append, or_imp, forall_and]

end AllSchematic

namespace LoweringContext

variable {c : LoweringContext} {n m : Node} {ns : List Node} {t : Token}

theorem schematic_eraseParameter (hn : n.Schematic) : (eraseParameter n).Gives Node.Schematic := by
  unfold eraseParameter
  refine .andThen (fun p => ?_)
  dsimp only
  split
  · exact .pure hn
  · exact .andThen (fun _ => .lift Build.schematic_parameter)

theorem schematic_defaultValue {p : Parameter} (h : AllSchematic p) : (defaultValue? p).Gives AllSchematic := by
  obtain ⟨-, hvalue⟩ : AllSchematic p.type ∧ AllSchematic p.value := by simpa [NodeView.toSlots] using h
  unfold defaultValue?
  refine (Work.Gives.viewOption hvalue).bind (fun found hfound => ?_)
  cases found with
  | none => exact .pure AllSchematic.nil
  | some clause => exact .andThen (fun _ => .pure (by simpa [NodeView.toSlots] using hfound))

theorem schematic_parametersFrom : ∀ {ns : List Node} {index : Nat}, AllSchematic ns →
    (parametersFrom index ns).Gives AllSchematic
  | [], _, _ => .pure (by simp [ParameterFacts.none])
  | n :: ns, index, h => by
    obtain ⟨hn, hns⟩ := AllSchematic.cons_iff.1 h
    rw [AllSchematic.node_iff] at hn
    unfold parametersFrom
    refine (Work.Gives.view hn).bind (fun p hp => ?_)
    split
    · exact .andThen (fun _ => .pure (by simp))
    · refine (schematic_defaultValue hp).bind (fun defaults hdefaults => .andThen (fun properties => ?_))
      refine (schematic_eraseParameter hn).bind (fun erased herased => ?_)
      refine (schematic_parametersFrom hns).bindPure (fun rest hrest => ?_)
      obtain ⟨hparameters, hfacts⟩ := AllSchematic.loweredParameters_iff.1 hrest
      rw [AllSchematic.facts_iff] at hfacts
      simp [herased, hparameters, hdefaults, hfacts]

theorem schematic_parameterList (hn : n.Schematic) (resultType : Option Node) :
    (parameterList n resultType).Gives AllSchematic := by
  unfold parameterList
  refine (Work.Gives.view hn).bind (fun v hv => ?_)
  have hparameters : AllSchematic v.parameters.members := by simpa [NodeView.toSlots] using hv
  refine (schematic_parametersFrom hparameters).bind (fun lowered hlowered => ?_)
  obtain ⟨hnames, hfacts⟩ := AllSchematic.loweredParameters_iff.1 hlowered
  split
  · exact .pure (AllSchematic.pair_iff.2 ⟨AllSchematic.node_iff.2 hn, hfacts⟩)
  · have hlist : ∀ closeParen separators, (NodeView.toNode (ParameterList.mk v.openParen
        ⟨lowered.parameters, separators⟩ closeParen)).Gives Node.Schematic :=
      fun _ _ => schematic_toNode (by simp [NodeView.toSlots, hnames])
    have hrest : ∀ closeParen separators, (do
        let list ← NodeView.toNode (ParameterList.mk v.openParen ⟨lowered.parameters, separators⟩ closeParen)
        return (list, lowered.facts) : Lowering (Node × ParameterFacts)).Gives AllSchematic :=
      fun _ _ => .make (hlist _ _) (fun list hl => .pure (AllSchematic.pair_iff.2 ⟨AllSchematic.node_iff.2 hl, hfacts⟩))
    dsimp only
    split
    · exact .andThen (fun _ => hrest _ _)
    · exact hrest _ _

theorem schematic_setDefault (hn : n.Schematic) : (setDefault t n).Gives Node.Schematic := by
  have hcondition : (isUndefined t).Gives Node.Schematic :=
    Build.schematic_nameExpression.bind (fun _ hname => (Build.schematic_prefixUnary _ hname).bind (fun _ hoperand =>
      (Build.schematic_stringLiteral _).bind (fun _ htext => Build.schematic_binary _ hoperand htext)))
  refine hcondition.bind (fun condition hcond => Build.schematic_nameExpression.bind (fun target htarget => ?_))
  refine (Build.schematic_assignment htarget hn).bind (fun value hvalue => ?_)
  refine (Build.schematic_expressionStatement hvalue).bind (fun statement hs => ?_)
  refine (hs.withTrailing _).bind (fun spaced hspaced => .andThen (fun _ => .andThen (fun _ => ?_)))
  have hspaced : AllSchematic [spaced] := by simpa using hspaced
  exact (Build.schematic_block hspaced).bind (fun block hblock => Build.schematic_ifStatement hcond hblock)

theorem schematic_defaultValueStatement (hc : c.transformer.KeepsSchema) (bodyColumn : Nat) {d : DefaultValue}
    (h : d.value.Schematic) : (c.defaultValueStatement bodyColumn d).Gives Node.Schematic := by
  unfold defaultValueStatement
  refine (hc.root h).bind (fun lowered hlowered => .make hlowered.bare (fun value hvalue => ?_))
  refine (schematic_reindent hvalue _ _).bind (fun moved hmoved => ?_)
  exact .make (schematic_setDefault hmoved) (fun statement hs => .lift (schematic_statementAt hs _))

theorem schematic_argumentCounter : argumentCounter.Gives Node.Schematic := Build.schematic_name _

theorem schematic_copyArgument (rest : RestParameter) : (copyArgument rest).Gives Node.Schematic := by
  have hcopy : ∀ target : Node, target.Schematic → Fresh.Gives (do
      let left ← Build.elementAccess (← Build.nameExpression rest.name) target
      let right ← Build.elementAccess (← Build.name "arguments".toList) (← argumentCounter)
      Build.expressionStatement (← Build.assignment left right)) Node.Schematic := by
    intro target htarget
    refine Build.schematic_nameExpression.bind (fun name hname => ?_)
    refine (Build.schematic_elementAccess hname htarget).bind (fun left hleft => ?_)
    refine (Build.schematic_name _).bind (fun all hall => schematic_argumentCounter.bind (fun counter hcounter => ?_))
    refine (Build.schematic_elementAccess hall hcounter).bind (fun right hright => ?_)
    exact (Build.schematic_assignment hleft hright).bind (fun value hv => Build.schematic_expressionStatement hv)
  unfold copyArgument
  dsimp only
  split
  · exact schematic_argumentCounter.bind hcopy
  · refine schematic_argumentCounter.bind (fun counter hcounter => ?_)
    refine (Build.schematic_numericLiteral _).bind (fun index hindex => ?_)
    exact (Build.schematic_binary _ hcounter hindex).bind hcopy

theorem schematic_argumentLoop (index : Nat) (hn : n.Schematic) : (argumentLoop index n).Gives Node.Schematic := by
  unfold argumentLoop
  refine (Build.schematic_numericLiteral _).bind (fun first hfirst => .andThen (fun name => ?_))
  refine (Build.schematic_variableDeclaration (o := some first) (by simpa using hfirst)).bind (fun declaration hd => ?_)
  refine (Build.schematic_name _).bind (fun all hall => (Build.schematic_memberPath _ hall).bind (fun count hcount => ?_))
  refine schematic_argumentCounter.bind (fun counter hcounter => ?_)
  refine (Build.schematic_binary _ hcounter hcount).bind (fun condition hcondition => ?_)
  refine schematic_argumentCounter.bind (fun counter' hcounter' => ?_)
  refine (Build.schematic_postfixUnary _ hcounter').bind (fun step hstep => ?_)
  refine .andThen (fun _ => .andThen (fun _ => .andThen (fun _ => .andThen (fun _ => .andThen (fun _ => ?_)))))
  exact schematic_fresh (by simp [hd, hcondition, hstep, hn]) rfl

theorem schematic_restStatements (bodyColumn : Nat) (rest : RestParameter) :
    (c.restStatements bodyColumn rest).Gives AllSchematic := by
  unfold restStatements
  refine (Build.schematic_arrayLiteral AllSchematic.nil).bind (fun empty hempty => ?_)
  refine (Build.schematic_variableStatement (o := some empty) (by simpa using hempty)).bind (fun declaration hd => ?_)
  refine (schematic_copyArgument rest).bind (fun copy hcopy => (schematic_statementAt hcopy _).bind (fun placed hp => ?_))
  refine .andThen (fun _ => .andThen (fun _ => ?_))
  refine (Build.schematic_block (.cons hp .nil)).bind (fun body hbody => ?_)
  refine (schematic_statementAt hd _).bind (fun first hfirst => (schematic_argumentLoop _ hbody).bind (fun loop hloop => ?_))
  exact (schematic_statementAt hloop _).bindPure (fun second hsecond => by simp [hfirst, hsecond])

theorem schematic_parameterPrologue (hc : c.transformer.KeepsSchema) {facts : ParameterFacts} (h : AllSchematic facts)
    (bodyColumn : Nat) : (c.parameterPrologue facts bodyColumn).Gives AllSchematic := by
  unfold parameterPrologue
  have hdefaults : (facts.defaults.mapM (c.defaultValueStatement bodyColumn)).Gives AllSchematic :=
    .nodes (fun d hd => schematic_defaultValueStatement hc _
      (AllSchematic.defaultValue_iff.1 ((AllSchematic.facts_iff.1 h).mem hd)))
  refine hdefaults.bind (fun defaults hd => ?_)
  split
  · exact .make (schematic_restStatements _ _) (fun rest hrest => .pure (AllSchematic.append_iff.2 ⟨hd, hrest⟩))
  · exact .pure hd

end LoweringContext

end Downlevel
