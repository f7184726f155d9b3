import Downlevel.Lowering.Enums
import Downlevel.Lowering.Namespaces
import Downlevel.Proofs.Schema.Classes
/-!
# Proofs.Schema.Namespaces — enums and namespaces

The statements that an enum or a namespace leads to are schematic if it is.
-/
namespace Downlevel

instance : HasTrees PreviousValue := ⟨fun _ => []⟩

@[simp] theorem AllSchematic.previousValue {v : PreviousValue} : AllSchematic v := fun _ hm => nomatch hm

namespace LoweringContext

variable {c : LoweringContext} {n m : Node} {ns : List Node} {t : Token}

/-! ## Enums -/

theorem schematic_numberExpression (x : Binary64) : (numberExpression x).Gives Node.Schematic := by
  unfold numberExpression
  split
  · exact (Build.schematic_numericLiteral _).bind (fun _ hm => Build.schematic_prefixUnary _ hm)
  · exact Build.schematic_numericLiteral _

theorem schematic_implicitValue (enumName memberName : Token) (previous : PreviousValue) :
    (implicitValue enumName memberName previous).Gives AllSchematic := by
  cases previous with
  | ordinal k => exact (schematic_numberExpression _).bindPure (fun value hv => by simpa using hv)
  | known x => exact (schematic_numberExpression _).bindPure (fun value hv => by simpa using hv)
  | member before =>
    refine Build.schematic_nameExpression.bind (fun name hname => ?_)
    refine (schematic_memberTarget hname before).bind (fun target htarget => ?_)
    refine (Build.schematic_numericLiteral _).bind (fun one hone => ?_)
    exact (Build.schematic_binary _ htarget hone).bind (fun value hv => .andThen (fun _ => .pure (by simpa using hv)))

theorem schematic_enumValue (hc : c.transformer.KeepsSchema) (enumName : Token) {e : EnumElement} (h : AllSchematic e)
    (previous : PreviousValue) : (c.enumValue enumName e previous).Gives AllSchematic := by
  have hvalue : AllSchematic e.value := by simpa [NodeView.toSlots] using h
  unfold enumValue
  refine (Work.Gives.viewOption hvalue).bind (fun found hfound => ?_)
  cases found with
  | none => exact .lift (schematic_implicitValue _ _ _)
  | some clause =>
    have hclause : clause.value.Schematic := by simpa [NodeView.toSlots] using hfound
    refine (hc.root hclause).bind (fun lowered hlowered => .make hlowered.bare (fun value hv => ?_))
    split
    · exact .pure (by simpa using hv)
    · exact .andThen (fun _ => .pure (by simpa using hv))

theorem schematic_reverseMap (enumName : Token) : (reverseMap enumName).Gives Node.Schematic :=
  Build.schematic_nameExpression.bind (fun _ hm => Build.schematic_memberPath _ hm)

theorem schematic_enumRecord (enumName memberName : Token) (hn : n.Schematic) :
    (enumRecord enumName memberName n).Gives Node.Schematic := by
  unfold enumRecord
  refine Build.schematic_nameExpression.bind (fun name hname => ?_)
  refine (schematic_memberTarget hname memberName).bind (fun target htarget => ?_)
  refine (schematic_reverseMap enumName).bind (fun back hback => ?_)
  refine (Build.schematic_assignment htarget hn).bind (fun value hv => ?_)
  refine (Build.schematic_elementAccess hback hv).bind (fun entry hentry => ?_)
  exact (Build.schematic_stringLiteral _).bind (fun text htext => schematic_assignmentStatement hentry htext)

theorem schematic_enumRecords (hc : c.transformer.KeepsSchema) (enumName : Token) (bodyColumn : Nat) :
    ∀ {ns : List Node} {separators : List Token} {previous : PreviousValue}, AllSchematic ns →
      (c.enumRecords enumName bodyColumn ns separators previous).Gives AllSchematic
  | [], _, _, h => .pure h
  | n :: ns, separators, previous, h => by
    obtain ⟨hn, hns⟩ := AllSchematic.cons_iff.1 h
    unfold enumRecords
    split
    · exact schematic_enumRecords hc enumName bodyColumn hns
    · rename_i e he
      have hview := (AllSchematic.node_iff.1 hn).view he
      refine (schematic_enumValue hc enumName hview previous).bind (fun p hp => ?_)
      obtain ⟨value, next⟩ := p
      obtain ⟨hvalue, -⟩ := AllSchematic.pair_iff.1 hp
      refine .make (schematic_enumRecord _ _ (AllSchematic.node_iff.1 hvalue)) (fun record hrecord => ?_)
      refine .make (hrecord.withTrivia _ _) (fun placed hplaced => ?_)
      exact (schematic_enumRecords hc enumName bodyColumn hns).bindPure (fun rest hrest => by simp [hplaced, hrest])

theorem schematic_enumDeclaration (hc : c.transformer.KeepsSchema) (hn : n.Schematic) :
    (c.enumDeclaration n).Gives AllSchematic := by
  unfold enumDeclaration
  refine (Work.Gives.view hn).bind (fun v hv => ?_)
  have hmembers : AllSchematic v.members.members := by simpa [NodeView.toSlots] using hv
  split
  · exact .pure AllSchematic.removed
  · refine .andThen (fun name => ?_)
    have hstart : (reverseMapStart name).Gives Node.Schematic :=
      (schematic_reverseMap name).bind (fun _ hmap => (Build.schematic_arrayLiteral AllSchematic.nil).bind
        (fun _ hempty => schematic_assignmentStatement hmap hempty))
    have hreopened : (reopened name).Gives Node.Schematic :=
      Build.schematic_nameExpression.bind (fun _ htarget => Build.schematic_nameExpression.bind (fun _ hassignee =>
        schematic_orCreate htarget hassignee))
    refine .make hstart (fun start hs => .make (schematic_statementAt hs _) (fun start hs => ?_))
    refine (schematic_enumRecords hc name _ hmembers).bind (fun records hrecords => ?_)
    refine .make (schematic_bodyBlock (.cons hs hrecords) _ _ _) (fun block hblock => ?_)
    refine .make Build.schematic_parameter (fun parameter hp => .make hreopened (fun argument ha => ?_))
    refine .make (schematic_wrapperCall (.cons hp .nil) hblock (.cons ha .nil)) (fun call hcall => ?_)
    refine .make (Build.schematic_variableStatement AllSchematic.none) (fun binding hb => ?_)
    refine .make (hb.withTrivia _ _) (fun binding hb => ?_)
    refine .make (Build.schematic_expressionStatement hcall) (fun filled hf => ?_)
    exact .make (hf.withTrivia _ _) (fun filled hf => .pure (by simp [hb, hf]))

/-! ## Namespaces -/

theorem schematic_reindentAll (shift : Int) {ns : List Node} (h : AllSchematic ns) :
    (c.reindentAll shift ns).Gives AllSchematic := by
  induction ns with
  | nil => exact .pure h
  | cons n ns ih =>
    obtain ⟨hn, hns⟩ := AllSchematic.cons_iff.1 h
    unfold reindentAll
    refine (schematic_reindent (AllSchematic.node_iff.1 hn) true shift).bind (fun m hm => ?_)
    exact (ih hns).bindPure (fun rest hrest => by simp [hm, hrest])

theorem schematic_moduleElements (hc : c.transformer.KeepsSchema) (shift : Int) {ns : List Node} (h : AllSchematic ns) :
    (c.moduleElements shift ns).Gives AllSchematic := by
  induction ns with
  | nil => exact .pure (by simp)
  | cons n ns ih =>
    obtain ⟨hn, hns⟩ := AllSchematic.cons_iff.1 h
    unfold moduleElements
    refine (hc n (AllSchematic.node_iff.1 hn)).bind (fun rep hrep => ?_)
    have hnodes : AllSchematic rep.nodes := AllSchematic.replacement_iff.2 hrep
    extract_lets lowered finish
    have hrest : ∀ names : List Token, (finish names).Gives AllSchematic := by
      intro names
      refine (schematic_reindentAll shift hnodes).bind (fun moved hmoved => ?_)
      refine (ih hns).bindPure (fun p hp => ?_)
      obtain ⟨statements, exported⟩ := p
      obtain ⟨hstatements, -⟩ := AllSchematic.pair_iff.1 hp
      simp [hmoved, hstatements]
    split
    · exact hrest []
    · exact .andThen (fun names => hrest names)

theorem schematic_attachName (inner name : Token) : (attachName inner name).Gives Node.Schematic :=
  Build.schematic_nameExpression.bind (fun _ hm => schematic_assignSameName hm name)

theorem schematic_memberOf (parent name : Token) : (memberOf parent name).Gives Node.Schematic :=
  Build.schematic_nameExpression.bind (fun _ hm => Build.schematic_memberAccess hm)

theorem schematic_wrapperArgument (name : Token) (parent : Option Token) :
    (wrapperArgument name parent).Gives Node.Schematic := by
  cases parent with
  | none =>
    exact Build.schematic_nameExpression.bind (fun _ htarget => Build.schematic_nameExpression.bind (fun _ hassignee =>
      schematic_orCreate htarget hassignee))
  | some parent =>
    refine Build.schematic_nameExpression.bind (fun self hself => (schematic_memberOf parent name).bind (fun m hm => ?_))
    refine (schematic_memberOf parent name).bind (fun m' hm' => (schematic_orCreate hm hm').bind (fun object hobject => ?_))
    exact Build.schematic_assignment hself hobject

theorem schematic_namespaceWrapper (name : Token) (parent : Option Token) (hn : n.Schematic) (column : Nat) :
    (c.namespaceWrapper name parent n column).Gives AllSchematic := by
  unfold namespaceWrapper
  refine (Build.schematic_variableStatement AllSchematic.none).bind (fun binding hb => ?_)
  refine (schematic_statementAt hb column).bind (fun declaration hd => ?_)
  refine Build.schematic_parameter.bind (fun parameter hp => (schematic_wrapperArgument name parent).bind (fun a ha => ?_))
  refine (schematic_wrapperCall (.cons hp .nil) hn (.cons ha .nil)).bind (fun call hcall => ?_)
  refine (Build.schematic_expressionStatement hcall).bind (fun statement hs => ?_)
  refine (schematic_statementAt hs column).bind (fun call hcall => ?_)
  split
  · exact .pure (by simp [hd, hcall])
  · refine (schematic_attachName _ name).bind (fun attach ha => ?_)
    exact (schematic_statementAt ha column).bindPure (fun attached hattached => by simp [hd, hcall, hattached])

theorem schematic_levelBlock (declaration : ModuleDeclaration) (innermost : Bool) (shift : Int) (column : Nat)
    (h : AllSchematic ns) : (c.levelBlock declaration innermost shift column ns).Gives Node.Schematic :=
  .andThen (fun _ => .andThen (fun _ => Build.schematic_block h))

theorem schematic_wrapLevels (declaration : ModuleDeclaration) (shift : Int) (h : AllSchematic ns) :
    ∀ {parts : List Token} {parent : Option Token} {column : Nat},
      (c.wrapLevels declaration shift ns parent column parts).Gives AllSchematic
  | [], _, _ => .pure h
  | part :: parts, parent, column => by
    unfold wrapLevels
    refine (schematic_wrapLevels declaration shift h).bind (fun statements hs => ?_)
    refine (schematic_levelBlock declaration _ shift column hs).bind (fun block hblock => ?_)
    exact schematic_namespaceWrapper part parent hblock column

theorem schematic_endWith (trailing : TriviaList) : ∀ {ns : List Node}, AllSchematic ns →
    (atEdges.endWith trailing ns).Gives AllSchematic
  | [], h => .pure h
  | [n], h => by
    have hn : n.Schematic := by simpa using h
    exact (hn.withTrailing _).bindPure (fun m hm => by simp [hm])
  | n :: n' :: ns, h => by
    obtain ⟨hn, hns⟩ := AllSchematic.cons_iff.1 h
    exact (schematic_endWith trailing hns).bindPure (fun ms hms => AllSchematic.cons_iff.2 ⟨hn, hms⟩)

theorem schematic_atEdges (leading trailing : TriviaList) (h : AllSchematic ns) :
    (atEdges leading trailing ns).Gives AllSchematic := by
  cases ns with
  | nil => exact .pure h
  | cons n ns =>
    obtain ⟨hn, hns⟩ := AllSchematic.cons_iff.1 h
    exact ((AllSchematic.node_iff.1 hn).withLeading _).bind (fun m hm => schematic_endWith trailing (by simp [hm, hns]))

theorem schematic_moduleDeclaration (hc : c.transformer.KeepsSchema) (hn : n.Schematic) :
    (c.moduleDeclaration n).Gives AllSchematic := by
  unfold moduleDeclaration
  refine (Work.Gives.view hn).bind (fun v hv => ?_)
  obtain ⟨-, helements⟩ : v.name.Schematic ∧ AllSchematic v.elements := by simpa [NodeView.toSlots] using hv
  split
  · exact .pure AllSchematic.removed
  · refine .andThen (fun parts => ?_)
    refine (Work.Gives.inScope (schematic_moduleElements hc _ helements)).bind (fun p hp => ?_)
    obtain ⟨⟨statements, exported⟩, captured⟩ := p
    obtain ⟨hstatements, -⟩ := AllSchematic.pair_iff.1 hp
    have hrest : ∀ attached : List Node, AllSchematic attached → Work.Gives (do
        let bodyColumn := c.columnOf n + c.indentSize * parts.length
        let statements ← c.withCapture captured bodyColumn statements
        let statements ← c.placeStatements bodyColumn (statements ++ attached)
        let wrapped ← c.wrapLevels v ((c.indentSize * (parts.length - 1) : Nat) : Int) statements none (c.columnOf n) parts
        let leading := v.keyword.leadingWithoutExport v.exported
        return .many (← atEdges leading (c.lineEnd v.closeBrace.trailing) wrapped) : Lowering Replacement)
        AllSchematic := by
      intro attached hattached
      refine .make (schematic_withCapture captured _ hstatements) (fun statements hs => ?_)
      refine .make (schematic_placeStatements (AllSchematic.append_iff.2 ⟨hs, hattached⟩) _) (fun placed hplaced => ?_)
      refine .make (schematic_wrapLevels v _ hplaced) (fun wrapped hwrapped => ?_)
      exact .make (schematic_atEdges _ _ hwrapped) (fun edged hedged => .pure (AllSchematic.many_iff.2 hedged))
    dsimp only
    split
    · exact .pure AllSchematic.removed
    · split
      · exact .bind (.nodes (fun name _ => .lift (schematic_attachName _ name))) hrest
      · exact hrest [] AllSchematic.nil

end LoweringContext

end Downlevel
