import Downlevel.Lowering.Classes
import Downlevel.Proofs.Schema.Functions
/-!
# Proofs.Schema.Classes — classes

The statements that a class leads to are schematic if the class is: those for its constructor, for its fields and
methods, and for its properties with accessors.
-/
namespace Downlevel.LoweringContext

variable {c : LoweringContext} {n m : Node} {ns : List Node} {t : Token}

/-! ## Members of objects, and the wrapper around a body -/

theorem schematic_memberTarget (hn : n.Schematic) (name : Token) : (memberTarget n name).Gives Node.Schematic := by
  unfold memberTarget
  split
  · exact .andThen (fun _ => Build.schematic_literal.bind (fun _ hm => Build.schematic_elementAccess hn hm))
  · exact .andThen (fun _ => Build.schematic_memberAccess hn)

theorem schematic_assignmentStatement (hn : n.Schematic) (hm : m.Schematic) :
    (assignmentStatement n m).Gives Node.Schematic :=
  (Build.schematic_assignment hn hm).bind (fun _ hv => Build.schematic_expressionStatement hv)

theorem schematic_assignSameName (hn : n.Schematic) (name : Token) : (assignSameName n name).Gives Node.Schematic :=
  (Build.schematic_memberAccess hn).bind (fun _ htarget => Build.schematic_nameExpression.bind (fun _ hv =>
    schematic_assignmentStatement htarget hv))

theorem schematic_orCreate (hn : n.Schematic) (hm : m.Schematic) : (orCreate n m).Gives Node.Schematic :=
  Build.schematic_emptyObject.bind (fun _ hempty => (Build.schematic_assignment hm hempty).bind (fun _ hv =>
    (Build.schematic_parenthesized hv).bind (fun _ hcreated => Build.schematic_binary _ hn hcreated)))

theorem schematic_wrapperCall {parameters arguments : List Node} (hp : AllSchematic parameters) (hn : n.Schematic)
    (ha : AllSchematic arguments) : (wrapperCall parameters n arguments).Gives Node.Schematic :=
  (Build.schematic_parameterList hp).bind (fun _ hlist => (Build.schematic_functionExpression hlist hn).bind
    (fun _ hfunction => (Build.schematic_parenthesized hfunction).bind (fun _ hcallee =>
      Build.schematic_invocation hcallee ha)))

theorem schematic_bodyBlock (h : AllSchematic ns) (openBrace closeBrace : Token) (column : Nat) :
    (c.bodyBlock openBrace closeBrace ns column).Gives Node.Schematic :=
  .andThen (fun _ => .andThen (fun _ => Build.schematic_block h))

/-! ## Fields -/

theorem schematic_fieldAssignment (hc : c.transformer.KeepsSchema) {receiver : Fresh Node}
    (hreceiver : receiver.Gives Node.Schematic) {field : MemberVariable} (h : AllSchematic field) (column : Nat) :
    (c.fieldAssignment receiver n field column).Gives AllSchematic := by
  have hdeclarator : field.declarator.Schematic := by simpa [NodeView.toSlots] using h
  unfold fieldAssignment
  refine (Work.Gives.view hdeclarator).bind (fun declarator hd => ?_)
  obtain ⟨-, hvalue⟩ : AllSchematic declarator.type ∧ AllSchematic declarator.value := by
    simpa [NodeView.toSlots] using hd
  refine (Work.Gives.viewOption hvalue).bind (fun found hfound => ?_)
  cases found with
  | none => exact .pure AllSchematic.nil
  | some clause =>
    have hclause : clause.value.Schematic := by simpa [NodeView.toSlots] using hfound
    refine (hc.root hclause).bind (fun lowered hlowered => .make hlowered.bare (fun value hvalue => ?_))
    refine (schematic_reindent hvalue _ _).bind (fun moved hmoved => .make hreceiver (fun object hobject => ?_))
    refine .make (schematic_memberTarget hobject _) (fun target htarget => ?_)
    refine .make (schematic_assignmentStatement htarget hmoved) (fun statement hs => ?_)
    exact .make (hs.withTrivia _ _) (fun placed hp => .pure (by simp [hp]))

theorem schematic_instanceFields (hc : c.transformer.KeepsSchema) (column : Nat) {ns : List Node} (h : AllSchematic ns) :
    (c.instanceFields column ns).Gives AllSchematic := by
  induction ns with
  | nil => exact .pure h
  | cons n ns ih =>
    obtain ⟨hn, hns⟩ := AllSchematic.cons_iff.1 h
    unfold instanceFields
    extract_lets finish
    have hrest : ∀ here : List Node, AllSchematic here → (finish here).Gives AllSchematic :=
      fun here hhere => (ih hns).bindPure (fun rest hrest => AllSchematic.append_iff.2 ⟨hhere, hrest⟩)
    split
    · rename_i field hfield
      split
      · exact hrest [] AllSchematic.nil
      · have hview := (AllSchematic.node_iff.1 hn).view hfield
        exact (schematic_fieldAssignment hc Build.schematic_thisExpression hview column).bind hrest
    · exact hrest [] AllSchematic.nil

theorem schematic_staticField (hc : c.transformer.KeepsSchema) (hn : n.Schematic) (name : Token) (column : Nat) :
    (c.staticField name n column).Gives AllSchematic := by
  unfold staticField
  refine (Work.Gives.view hn).bind (fun field hfield => ?_)
  split
  · exact .pure AllSchematic.nil
  · exact schematic_fieldAssignment hc Build.schematic_nameExpression hfield column

/-! ## The constructor -/

theorem schematic_propertyStatement (column : Nat) (name : Token) : (c.propertyStatement column name).Gives Node.Schematic :=
  Build.schematic_thisExpression.bind (fun _ hthis => (schematic_assignSameName hthis name).bind (fun _ hs =>
    schematic_statementAt hs column))

theorem schematic_constructorStatements (hc : c.transformer.KeepsSchema) (derived : HasBase) {ns : List Node}
    (h : AllSchematic ns) : (c.constructorStatements derived ns).Gives AllSchematic := by
  induction ns with
  | nil => exact .pure (AllSchematic.pair_iff.2 ⟨h, h⟩)
  | cons n ns ih =>
    obtain ⟨hn, hns⟩ := AllSchematic.cons_iff.1 h
    unfold constructorStatements
    refine (hc n (AllSchematic.node_iff.1 hn)).bind (fun rep hrep => ?_)
    refine (ih hns).bind (fun p hp => ?_)
    obtain ⟨calls, others⟩ := p
    obtain ⟨hcalls, hothers⟩ := AllSchematic.pair_iff.1 hp
    have hnodes : AllSchematic rep.nodes := AllSchematic.replacement_iff.2 hrep
    dsimp only
    split
    · exact .pure (by simp [hrep, hcalls, hothers])
    · exact .pure (by simp [hrep, hcalls, hothers])

theorem schematic_constructorFunction (hc : c.transformer.KeepsSchema) {members : List Node} (hmembers : AllSchematic members)
    {block parameters : Node} (hblock : block.Schematic) (hparameters : parameters.Schematic) (name : Token)
    (derived : HasBase) (column : Nat) :
    (c.constructorFunction members name n block parameters derived column).Gives Node.Schematic := by
  unfold constructorFunction
  refine .bind (P := fun p => AllSchematic p.1) (.inScope ?_) (fun p hp => ?_)
  · refine (schematic_parameterList hparameters none).bind (fun parts hparts => ?_)
    obtain ⟨parameters, facts⟩ := parts
    obtain ⟨hparameters, hfacts⟩ := AllSchematic.pair_iff.1 hparts
    refine (Work.Gives.view hblock).bind (fun v hv => ?_)
    have hstatements : AllSchematic v.statements := by simpa [NodeView.toSlots] using hv
    refine (schematic_constructorStatements hc derived hstatements).bind (fun sorted hsorted => ?_)
    obtain ⟨calls, rest⟩ := sorted
    obtain ⟨hcalls, hrest⟩ := AllSchematic.pair_iff.1 hsorted
    refine (schematic_parameterPrologue hc hfacts _).bind (fun prologue hprologue => ?_)
    have hproperty := schematic_propertyStatement (c := c) (column + c.indentSize)
    refine .bind (.nodes (fun name _ => .lift (hproperty name))) (fun properties hproperties => ?_)
    refine (schematic_instanceFields hc _ hmembers).bindPure (fun fields hfields => ?_)
    simp only [AllSchematic.pair_iff, AllSchematic.append_iff]
    exact ⟨hparameters, ⟨⟨⟨hcalls, hprologue⟩, hproperties⟩, hfields⟩, hrest⟩
  · obtain ⟨⟨parameters, prologue, rest⟩, captured⟩ := p
    simp only [AllSchematic.pair_iff, AllSchematic.node_iff] at hp
    obtain ⟨hparameters, hprologue, hrest⟩ := hp
    refine .make (schematic_withCapture captured _ hprologue) (fun prologue hprologue => .andThen (fun v => ?_))
    refine .make (schematic_toNode (by simp [NodeView.toSlots, hrest])) (fun lowered hlowered => ?_)
    refine (schematic_assembleBlock hlowered hprologue _ _).bind (fun body hbody => ?_)
    refine .andThen (fun _ => .andThen (fun keyword => ?_))
    refine .make (Build.schematic_callSignature hparameters) (fun signature hs => ?_)
    exact .lift (schematic_toNode (by simp [NodeView.toSlots, hs, hbody]))

theorem schematic_forwardToBase : forwardToBase.Gives Node.Schematic := by
  unfold forwardToBase
  refine (Build.schematic_name _).bind (fun base hbase => (Build.schematic_memberPath _ hbase).bind (fun apply happly => ?_))
  refine Build.schematic_thisExpression.bind (fun this hthis => (Build.schematic_name _).bind (fun all hall => ?_))
  exact (Build.schematic_invocation happly (.cons hthis (.cons hall .nil))).bind (fun _ hcall =>
    Build.schematic_expressionStatement hcall)

theorem schematic_synthesizedConstructor (hc : c.transformer.KeepsSchema) (h : AllSchematic ns) (name : Token)
    (derived : HasBase) (column : Nat) : (c.synthesizedConstructor ns name derived column).Gives Node.Schematic := by
  unfold synthesizedConstructor
  refine (Work.Gives.inScope (schematic_instanceFields hc _ h)).bind (fun p hfields => ?_)
  obtain ⟨fields, captured⟩ := p
  have hrest : ∀ forward : List Node, AllSchematic forward → Work.Gives (do
      let statements ← c.withCapture captured (column + c.indentSize) (forward ++ fields)
      let block ← Build.block (← Build.openBrace c.newLine) statements (← Build.closeBrace (c.indentation column))
      c.statementAt column (← Build.functionDeclaration name (← Build.parameterList []) block) : Lowering Node)
      Node.Schematic := by
    intro forward hforward
    refine .make (schematic_withCapture captured _ (AllSchematic.append_iff.2 ⟨hforward, hfields⟩)) (fun ss hss => ?_)
    refine .andThen (fun _ => .andThen (fun _ => .make (Build.schematic_block hss) (fun block hblock => ?_)))
    refine .make (Build.schematic_parameterList AllSchematic.nil) (fun parameters hp => ?_)
    exact .make (Build.schematic_functionDeclaration hp hblock) (fun function hf => .lift (schematic_statementAt hf column))
  dsimp only
  split
  · refine .make schematic_forwardToBase (fun call hcall => .make (schematic_statementAt hcall _) (fun placed hp => ?_))
    exact hrest [placed] (by simpa using hp)
  · exact hrest [] AllSchematic.nil

theorem schematic_firstConstructor : ∀ {ns : List Node} {v : ConstructorDeclaration} {block : Node}, AllSchematic ns →
    firstConstructor? ns = some (n, v, block) → AllSchematic v ∧ block.Schematic
  | [], _, _, _, hfirst => nomatch hfirst
  | m :: ns, v, block, h, hfirst => by
    obtain ⟨hm, hns⟩ := AllSchematic.cons_iff.1 h
    unfold firstConstructor? at hfirst
    split at hfirst
    · rename_i view hview
      split at hfirst
      · rename_i found hblock
        cases hfirst
        have hv := (AllSchematic.node_iff.1 hm).view hview
        obtain ⟨-, hfound⟩ : v.parameters.Schematic ∧ AllSchematic v.block := by simpa [NodeView.toSlots] using hv
        exact ⟨hv, by simpa [hblock] using hfound⟩
      · exact schematic_firstConstructor hns hfirst
    · exact schematic_firstConstructor hns hfirst

theorem schematic_classConstructor (hc : c.transformer.KeepsSchema) (h : AllSchematic ns) (name : Token)
    (derived : HasBase) (column : Nat) : (c.classConstructor ns name derived column).Gives Node.Schematic := by
  unfold classConstructor
  split
  · rename_i hfirst
    obtain ⟨hv, hblock⟩ := schematic_firstConstructor h hfirst
    obtain ⟨hparameters, -⟩ := (by simpa [NodeView.toSlots] using hv : _ ∧ _)
    exact schematic_constructorFunction hc h hblock hparameters name derived column
  · exact schematic_synthesizedConstructor hc h name derived column

/-! ## Methods and accessors -/

theorem schematic_classReceiver (name : Token) (isStatic : Bool) : (classReceiver name isStatic).Gives Node.Schematic := by
  unfold classReceiver
  refine Build.schematic_nameExpression.bind (fun constructor hconstructor => ?_)
  split
  · exact .pure hconstructor
  · exact .andThen (fun _ => Build.schematic_memberAccess hconstructor)

theorem schematic_method (hc : c.transformer.KeepsSchema) (hn : n.Schematic) (name : Token) (column : Nat) :
    (c.method name n column).Gives AllSchematic := by
  unfold method
  refine (Work.Gives.view hn).bind (fun v hv => ?_)
  obtain ⟨hsignature, hblock⟩ : v.signature.Schematic ∧ AllSchematic v.block := by simpa [NodeView.toSlots] using hv
  split
  · exact .pure AllSchematic.nil
  · rename_i body heq
    rw [heq] at hblock
    refine (Work.Gives.view hsignature).bind (fun signature hs => ?_)
    obtain ⟨hparameters, -⟩ : signature.parameters.Schematic ∧ AllSchematic signature.resultType := by
      simpa [NodeView.toSlots] using hs
    refine (schematic_functionLike hc hparameters (by simpa using hblock) _ _).bind (fun p hp => ?_)
    obtain ⟨parameters, block⟩ := p
    obtain ⟨hparameters, hblock⟩ : parameters.Schematic ∧ block.Schematic := by simpa using hp
    refine .make (hblock.withTrailing _) (fun bare hbare => ?_)
    refine .make (Build.schematic_functionExpression hparameters hbare) (fun value hvalue => ?_)
    refine .make (schematic_classReceiver name _) (fun receiver hreceiver => ?_)
    refine .make (schematic_memberTarget hreceiver _) (fun target htarget => ?_)
    refine .make (schematic_assignmentStatement htarget hvalue) (fun statement hs => ?_)
    exact .make (hs.withTrivia _ _) (fun placed hp => .pure (by simp [hp]))

theorem schematic_accessorFunction (hc : c.transformer.KeepsSchema) (hn : n.Schematic) (column : Nat) :
    (c.accessorFunction n column).Gives Node.Schematic := by
  unfold accessorFunction
  extract_lets own finish
  have hrest : ∀ (parameters : Node) (resultType : Option Node) (block : Node), parameters.Schematic → block.Schematic →
      (finish (parameters, resultType, block)).Gives Node.Schematic := by
    intro parameters resultType block hparameters hblock
    refine (schematic_functionLike hc hparameters hblock _ _).bind (fun p hp => ?_)
    obtain ⟨parameters, block⟩ := p
    obtain ⟨hparameters, hblock⟩ : parameters.Schematic ∧ block.Schematic := by simpa using hp
    exact .make (Build.schematic_functionExpression hparameters hblock) (fun function hf => schematic_reindent hf _ _)
  split
  · rename_i getter hgetter
    obtain ⟨hparameters, -, hblock⟩ : getter.parameters.Schematic ∧ AllSchematic getter.resultType ∧
      getter.block.Schematic := by simpa [NodeView.toSlots] using hn.view hgetter
    exact hrest _ _ _ hparameters hblock
  · refine (Work.Gives.view hn).bind (fun setter hsetter => ?_)
    obtain ⟨hparameters, hblock⟩ : setter.parameters.Schematic ∧ setter.block.Schematic := by
      simpa [NodeView.toSlots] using hsetter
    exact hrest _ _ _ hparameters hblock

theorem schematic_descriptorProperty (hn : n.Schematic) (column : Nat) (name : String) :
    (c.descriptorProperty column name n).Gives Node.Schematic :=
  .andThen (fun _ => (Build.schematic_propertyAssignment hn).bind (fun _ hm => hm.withLeading _))

theorem schematic_accessorProperties (hc : c.transformer.KeepsSchema) (column : Nat) :
    ∀ {accessors : List (String × Node)}, (∀ a ∈ accessors, a.2.Schematic) →
      (c.accessorProperties column accessors).Gives AllSchematic
  | [], _ => .pure AllSchematic.nil
  | (keyword, accessor) :: rest, h => by
    unfold accessorProperties
    refine (schematic_accessorFunction hc (h _ List.mem_cons_self) column).bind (fun function hf => ?_)
    refine .make (hf.withTrailing _) (fun bare hbare => ?_)
    refine .make (schematic_descriptorProperty hbare column keyword) (fun property hproperty => ?_)
    refine (schematic_accessorProperties hc column (fun a ha => h a (List.mem_cons_of_mem _ ha))).bindPure
      (fun properties hproperties => ?_)
    simp [hproperty, hproperties]

theorem schematic_flagProperty (column : Nat) (name : String) : (c.flagProperty column name).Gives AllSchematic :=
  (Build.schematic_keywordLiteral _).bind (fun _ hvalue => (schematic_descriptorProperty hvalue column name).bindPure
    (fun _ hm => by simpa using hm))

theorem schematic_withLastTrailing (trailing : TriviaList) : ∀ {ns : List Node}, AllSchematic ns →
    (withLastTrailing trailing ns).Gives AllSchematic
  | [], h => .pure h
  | [n], h => by
    have hn : n.Schematic := by simpa using h
    exact (hn.withTrailing _).bindPure (fun m hm => by simp [hm])
  | n :: n' :: ns, h => by
    obtain ⟨hn, hns⟩ := AllSchematic.cons_iff.1 h
    exact (schematic_withLastTrailing trailing hns).bindPure (fun ms hms => AllSchematic.cons_iff.2 ⟨hn, hms⟩)

/-- The nodes of properties with the comments behind them. -/
theorem allSchematic_fst {properties : List (Node × TriviaList)} (h : AllSchematic properties) :
    AllSchematic (properties.map Prod.fst) := by
  refine AllSchematic.list_iff.2 (fun n hn => ?_)
  obtain ⟨p, hp, rfl⟩ := List.mem_map.1 hn
  exact (AllSchematic.pair_iff.1 (h.mem hp)).1

theorem schematic_descriptor (hc : c.transformer.KeepsSchema) {accessors : List (String × Node)}
    (h : ∀ a ∈ accessors, a.2.Schematic) (column : Nat) : (c.descriptor accessors column).Gives Node.Schematic := by
  unfold descriptor
  refine (schematic_accessorProperties hc _ h).bind (fun functions hfunctions => ?_)
  refine .make (schematic_flagProperty _ _) (fun enumerable henumerable => ?_)
  refine .make (schematic_flagProperty _ _) (fun configurable hconfigurable => .andThen (fun separators => ?_))
  have hall : AllSchematic (functions ++ [enumerable, configurable]) := by simp [hfunctions, henumerable, hconfigurable]
  refine .make (schematic_withLastTrailing _ (allSchematic_fst hall)) (fun members hmembers => ?_)
  exact .andThen (fun _ => .andThen (fun _ => .lift (Build.schematic_objectLiteral hmembers)))

theorem schematic_accessorsOf (h : AllSchematic ns) (key : AccessorKey) : ∀ a ∈ accessorsOf ns key, a.2.Schematic := by
  have hfind : ∀ (p : Node → Bool) (m : Node),
      (ns.filter (fun n => n.accessorKey? == some key)).find? p = some m → m.Schematic := fun p m hm =>
    AllSchematic.node_iff.1 (h.mem (List.mem_of_mem_filter (List.mem_of_find?_eq_some hm)))
  intro a ha
  unfold accessorsOf at ha
  dsimp only at ha
  rcases List.mem_append.1 ha with ha | ha
  · obtain ⟨m, hm, rfl⟩ := Option.map_eq_some_iff.1 (Option.mem_toList.1 ha)
    exact hfind _ m hm
  · obtain ⟨m, hm, rfl⟩ := Option.map_eq_some_iff.1 (Option.mem_toList.1 ha)
    exact hfind _ m hm

theorem schematic_defineProperty (hc : c.transformer.KeepsSchema) (h : AllSchematic ns) (name : Token) (first : Node)
    (key : AccessorKey) (column : Nat) : (c.defineProperty name ns first key column).Gives Node.Schematic := by
  unfold defineProperty
  refine (schematic_descriptor hc (schematic_accessorsOf h key) column).bind (fun descriptor hdescriptor => ?_)
  refine .make (Build.schematic_name _) (fun object hobject => ?_)
  refine .make (Build.schematic_memberPath _ hobject) (fun define hdefine => ?_)
  refine .make (schematic_classReceiver name _) (fun receiver hreceiver => ?_)
  refine .make (Build.schematic_stringLiteral _) (fun text htext => ?_)
  refine .make (Build.schematic_invocation hdefine (.cons hreceiver (.cons htext (.cons hdescriptor .nil))))
    (fun call hcall => ?_)
  exact .make (Build.schematic_expressionStatement hcall) (fun statement hs => .lift (hs.withTrivia _ _))

/-! ## The class -/

theorem schematic_classMember (hc : c.transformer.KeepsSchema) (h : AllSchematic ns) (hn : n.Schematic) (name : Token)
    (seen : List AccessorKey) (column : Nat) : (c.classMember name ns seen n column).Gives AllSchematic := by
  unfold classMember
  split
  · exact schematic_method hc hn name column
  · exact schematic_staticField hc hn name column
  · split
    · split
      · exact .pure AllSchematic.nil
      · exact (schematic_defineProperty hc h name n _ column).bindPure (fun statement hs => by simpa using hs)
    · exact .pure AllSchematic.nil

theorem schematic_classMembers (hc : c.transformer.KeepsSchema) {members : List Node} (hmembers : AllSchematic members)
    (name : Token) (column : Nat) : ∀ {ns : List Node} {seen : List AccessorKey}, AllSchematic ns →
      (c.classMembers name members column seen ns).Gives AllSchematic
  | [], _, h => .pure h
  | n :: ns, seen, h => by
    obtain ⟨hn, hns⟩ := AllSchematic.cons_iff.1 h
    unfold classMembers
    refine (schematic_classMember hc hmembers (AllSchematic.node_iff.1 hn) name seen column).bind (fun here hhere => ?_)
    exact (schematic_classMembers hc hmembers name column hns).bindPure (fun rest hrest =>
      AllSchematic.append_iff.2 ⟨hhere, hrest⟩)

theorem schematic_extendsCall (name : Token) : (extendsCall name).Gives Node.Schematic := by
  unfold extendsCall
  refine (Build.schematic_name _).bind (fun helper hhelper => Build.schematic_nameExpression.bind (fun self hself => ?_))
  refine (Build.schematic_name _).bind (fun base hbase => ?_)
  exact (Build.schematic_invocation hhelper (.cons hself (.cons hbase .nil))).bind (fun _ hcall =>
    Build.schematic_expressionStatement hcall)

theorem schematic_classBody (hc : c.transformer.KeepsSchema) {v : ClassDeclaration} (h : AllSchematic v.members)
    (name : Token) (derived : HasBase) (column : Nat) : (c.classBody v name derived column).Gives AllSchematic := by
  have hrest : ∀ inheritance : List Node, AllSchematic inheritance → Work.Gives (do
      let constructor ← c.classConstructor v.members name derived column
      let members ← c.classMembers name v.members column [] v.members
      let returned ← c.statementAt column (← Build.returnStatement (some (← Build.nameExpression name)))
      return (inheritance, constructor :: members ++ [returned]) : Lowering (List Node × List Node)) AllSchematic := by
    intro inheritance hinheritance
    refine (schematic_classConstructor hc h name derived column).bind (fun constructor hconstructor => ?_)
    refine (schematic_classMembers hc h name column h).bind (fun members hmembers => ?_)
    refine .make Build.schematic_nameExpression (fun self hself => ?_)
    refine .make (Build.schematic_returnStatement (o := some self) (by simpa using hself)) (fun returned hr => ?_)
    refine .make (schematic_statementAt hr _) (fun placed hp => .pure ?_)
    simp [hinheritance, hconstructor, hmembers, hp]
  unfold classBody
  dsimp only
  cases derived with
  | true =>
    rw [if_pos rfl, if_pos rfl]
    refine .andThen (fun _ => .make (schematic_extendsCall name) (fun call hcall => ?_))
    exact .make (schematic_statementAt hcall _) (fun placed hp => hrest [placed] (by simpa using hp))
  | false =>
    rw [if_neg Bool.false_ne_true, if_neg Bool.false_ne_true]
    exact hrest [] AllSchematic.nil

theorem schematic_baseExpression (n : Node) : (baseExpression n).Gives Node.Schematic := by
  have haccess : ∀ (parts : List Token) (m : Node), m.Schematic →
      Fresh.Gives (parts.foldlM (fun n part => do Build.memberAccess n (← part.bare)) m) Node.Schematic := by
    intro parts
    induction parts with
    | nil => exact fun m hm => .pure hm
    | cons part parts ih =>
      intro m hm
      rw [List.foldlM_cons]
      exact .bind (.andThen (fun _ => Build.schematic_memberAccess hm)) (fun access haccess => ih access haccess)
  unfold baseExpression
  refine .andThen (fun clause => ?_)
  split
  · exact .fail
  · split
    · exact .fail
    · refine .andThen (fun bare => .make Build.schematic_nameExpression (fun first hfirst => ?_))
      exact .lift (haccess _ first hfirst)

theorem schematic_classDeclaration (hc : c.transformer.KeepsSchema) (hn : n.Schematic) :
    (c.classDeclaration n).Gives AllSchematic := by
  unfold classDeclaration
  refine (Work.Gives.view hn).bind (fun v hv => ?_)
  obtain ⟨-, -, hmembers⟩ : AllSchematic v.base ∧ AllSchematic v.implemented ∧ AllSchematic v.members := by
    simpa [NodeView.toSlots] using hv
  split
  · exact .pure AllSchematic.removed
  · refine .andThen (fun name => .bind (.optionNode (fun m _ => schematic_baseExpression m)) (fun base hbase => ?_))
    have hbase : AllSchematic base.toList := by
      cases base with
      | none => exact AllSchematic.nil
      | some m => simpa using hbase
    refine (Work.Gives.inScope (schematic_classBody hc hmembers name _ _)).bind (fun p hp => ?_)
    obtain ⟨⟨inheritance, statements⟩, captured⟩ := p
    obtain ⟨hinheritance, hstatements⟩ := AllSchematic.pair_iff.1 hp
    refine .make (schematic_withCapture captured _ hstatements) (fun statements hs => ?_)
    refine .make (schematic_placeStatements (AllSchematic.append_iff.2 ⟨hinheritance, hs⟩) _) (fun placed hplaced => ?_)
    refine .make (schematic_bodyBlock hplaced _ _ _) (fun block hblock => ?_)
    have hrest : ∀ parameters : List Node, AllSchematic parameters → Work.Gives (do
        let call ← wrapperCall parameters block base.toList
        let statement ← Build.variableStatement name (some call)
        let leading := v.keyword.leadingWithoutExport v.exported
        return .one (← statement.withTrivia leading (c.lineEnd v.closeBrace.trailing)) : Lowering Replacement)
        AllSchematic := by
      intro parameters hparameters
      refine .make (schematic_wrapperCall hparameters hblock hbase) (fun call hcall => ?_)
      refine .make (Build.schematic_variableStatement (o := some call) (by simpa using hcall)) (fun statement hs => ?_)
      exact .one (.lift (hs.withTrivia _ _))
    dsimp only
    split
    · refine .andThen (fun _ => .make Build.schematic_parameter (fun parameter hp => ?_))
      exact Work.Gives.bind (.pure (by simpa using hp)) hrest
    · exact Work.Gives.bind (.pure AllSchematic.nil) hrest

end Downlevel.LoweringContext
