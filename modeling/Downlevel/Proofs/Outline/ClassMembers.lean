import Downlevel.Proofs.Outline.NamespaceRows
import Mathlib.Data.List.Find
/-!
# Proofs.Outline.ClassMembers — what the members of a class become

Each member of a class becomes a row of statements, by itself and by the members in front of it
(`Translation.MemberBecomes`): a method is assigned to the class or to its prototype, a static field with a value to the
class, and the accessors of a property become one definition of it in the place of the first of them.  Lowering goes
through the members once and keeps the keys of the accessors that it has met (`Draft.notes_classMembers_inTurn`).
-/
namespace Downlevel

/-! ## Forms -/

namespace Code

variable {C : Token} {n : Node} {j : ObjectId} {isStatic : Bool}

/-- The object that holds a member of the class `C`: the class itself for a static one, and its prototype otherwise. -/
def receiver (C : Token) (isStatic : Bool) : Node :=
  if isStatic then Code.name C else member (Code.name C) (spelled "prototype")

/-- The descriptor of a property with the given functions for its getter and its setter. -/
def descriptor (getters setters : List Node) : Node :=
  object (getters.map (property "get") ++ setters.map (property "set") ++
    [property "enumerable" trueKeyword, property "configurable" trueKeyword])

/-- The statement `Object.defineProperty(receiver, "name", descriptor);`. -/
def defineProperty (C : Token) (key : AccessorKey) (descriptor : Node) : Node :=
  statement (call (member (Code.name (spelled "Object")) (spelled "defineProperty"))
    [receiver C key.isStatic, string key.name, descriptor])

theorem outline_classReceiver : (LoweringContext.classReceiver C isStatic j).1.outline = receiver C isStatic := by
  cases isStatic with
  | true => rfl
  | false =>
    simp only [LoweringContext.classReceiver, Bool.false_eq_true, if_false, Fresh.bind_apply, outline_memberAccess,
      outline_nameExpression]
    rfl

theorem outline_descriptorProperty {word : String} :
    (Draft.descriptorProperty word n j).1.outline = property word n.outline := rfl

theorem outline_flagProperty {word : String} : (Draft.flagProperty word j).1.outline = property word trueKeyword := rfl

theorem outline_objectLiteral {ns : List Node} {ts : List Token} {openBrace closeBrace : Token}
    (hopen : openBrace.outline = mark .openBrace) (hclose : closeBrace.outline = mark .closeBrace)
    (hts : ts.map Token.outline = List.replicate (ns.length - 1) (mark .comma)) :
    (Build.objectLiteral openBrace (.separated ns ts) closeBrace j).1.outline = object (ns.map Node.outline) := by
  simp only [Build.objectLiteral, Node.fresh, Node.outline_mk, List.map_cons, List.map_nil, Slot.outline_token, hopen, hclose,
    Slot.outline_separated, hts, object, commaSeparated, List.length_map]

end Code

/-! ## What becomes of a member -/

/-- The property that a getter belongs to. -/
def MemberGetter.key (v : MemberGetter) : AccessorKey := ⟨v.name.valueText, v.isStatic.isSome⟩

/-- The property that a setter belongs to. -/
def MemberSetter.key (v : MemberSetter) : AccessorKey := ⟨v.name.valueText, v.isStatic.isSome⟩

def Node.firstGetter? (members : List Node) (key : AccessorKey) : Option MemberGetter :=
  (members.filterMap (fun m => m.view? MemberGetter)).find? (fun v => v.key == key)

def Node.firstSetter? (members : List Node) (key : AccessorKey) : Option MemberSetter :=
  (members.filterMap (fun m => m.view? MemberSetter)).find? (fun v => v.key == key)

/-- **What the rules make of parameters and a body**: a function expression, whatever the type of the result is and wherever
the function stands. -/
def Translation.MakesFunction (T : Translation) (parameters block f : Node) : Prop :=
  ∃ levels p b marks, f = Code.function p b ∧ ∀ resultType column,
    ((T.rules levels).functionLike parameters resultType block column).Makes T.next
      (fun q => (q.1.outline, q.2.outline)) (p, b) marks

/-- **What a member of the class `C` becomes**, by itself and by the members in front: statements, and whether they capture
the `this` of the class. -/
inductive Translation.MemberBecomes (T : Translation) (C : Token) (members : List Node) :
    List Node → Node → List Node × Bool → Prop
  /-- A method is assigned to the class if it is static, and to its prototype otherwise. -/
  | method {before : List Node} {m block f : Node} {v : MemberFunction} {signature : CallSignature}
    (view : m.view? MemberFunction = some v) (body : v.block = some block)
    (typed : v.signature.view? CallSignature = some signature) (function : T.MakesFunction signature.parameters block f) :
    MemberBecomes T C members before m
      ([Code.assignment (Code.memberNamed (Code.receiver C v.isStatic.isSome) v.name) f], false)
  | signature {before : List Node} {m : Node} {v : MemberFunction} (view : m.view? MemberFunction = some v)
    (bodiless : v.block = none) : MemberBecomes T C members before m ([], false)
  /-- A static field with a value is assigned to the class; an arrow function in the value may capture `this`. -/
  | staticField {before : List Node} {m value lowered : Node} {v : MemberVariable} {declarator : VariableDeclarator}
    {marks : Marks} (view : m.view? MemberVariable = some v) (isStatic : v.isStatic.isSome = true)
    (declares : v.declarator.view? VariableDeclarator = some declarator) (given : Node.clauseValue declarator.value = [value])
    (lowers : T.LowersTo value [lowered] marks) : MemberBecomes T C members before m
      ([Code.assignment (Code.memberNamed (Code.name C) declarator.name) lowered], marks.captured)
  | bareField {before : List Node} {m : Node} {v : MemberVariable} {declarator : VariableDeclarator}
    (view : m.view? MemberVariable = some v) (declares : v.declarator.view? VariableDeclarator = some declarator)
    (bare : Node.clauseValue declarator.value = []) : MemberBecomes T C members before m ([], false)
  | instanceField {before : List Node} {m : Node} {v : MemberVariable} (view : m.view? MemberVariable = some v)
    (own : v.isStatic = none) : MemberBecomes T C members before m ([], false)
  /-- The first accessor of a property makes room for the first getter and the first setter of it. -/
  | accessor {before getters setters : List Node} {m : Node} {key : AccessorKey} (accesses : m.accessorKey? = some key)
    (first : ∀ o ∈ before, o.accessorKey? ≠ some key)
    (get : List.Forall₂ (fun v f => T.MakesFunction v.parameters v.block f) (Node.firstGetter? members key).toList getters)
    (set : List.Forall₂ (fun v f => T.MakesFunction v.parameters v.block f) (Node.firstSetter? members key).toList setters) :
    MemberBecomes T C members before m ([Code.defineProperty C key (Code.descriptor getters setters)], false)
  | laterAccessor {before : List Node} {m o : Node} {key : AccessorKey} (accesses : m.accessorKey? = some key)
    (mem : o ∈ before) (same : o.accessorKey? = some key) : MemberBecomes T C members before m ([], false)
  | constructor {before : List Node} {m : Node} (kind : m.kind = .constructorDeclaration) :
    MemberBecomes T C members before m ([], false)

section

variable {W : Registry} {T : Translation} {C : Token} {n m parameters block : Node} {members before ns : List Node} {i : Bool}
  {levels : Nat} {key : AccessorKey} {seen : List AccessorKey}

/-! ## Accessors of a property -/

theorem Node.accessorKey?_getter {v : MemberGetter} (hv : m.view? MemberGetter = some v) : m.accessorKey? = some v.key := by
  rw [Node.accessorKey?, hv]
  rfl

theorem Node.accessorKey?_setter {v : MemberSetter} (hv : m.view? MemberSetter = some v) : m.accessorKey? = some v.key := by
  rw [Node.accessorKey?, Node.view?_eq_none (α := MemberGetter) (by rw [Node.kind_of_view? hv]; decide), hv]
  rfl

/-- The first accessor of a kind among those of a property is the first member that reads as one of the property. -/
theorem Node.Held.find?_accessor {α : Type} [NodeView α] [OutlineView α] [FittingView α] {keyOf : α → AccessorKey}
    (hkey : ∀ {m : Node} {v : α}, m.view? α = some v → m.accessorKey? = some (keyOf v)) (h : ∀ m ∈ members, m.Held W) :
    ((members.filter (fun m => m.accessorKey? == some key)).find? (fun m => m.kind == NodeView.kind α)).bind
        (fun m => m.view? α) =
      (members.filterMap (fun m => m.view? α)).find? (fun v => keyOf v == key) := by
  rw [List.find?_filterMap, List.find?_filter]
  refine congrArg (fun o : Option Node => o.bind (fun m => m.view? α)) (List.find?_congr (fun m hm => ?_))
  have hreads := (h m hm).reads (α := α)
  generalize hv : m.view? α = v at hreads
  generalize m.outline.view? α = v' at hreads
  cases hreads with
  | none hk => simp [hk]
  | @some v hk =>
    rw [hkey hv, Option.any_some, hk]
    by_cases hsame : keyOf v = key <;> simp [hsame]

theorem Node.Held.found_accessor {α : Type} [NodeView α] [OutlineView α] [FittingView α] {keyOf : α → AccessorKey}
    (hkey : ∀ {m : Node} {v : α}, m.view? α = some v → m.accessorKey? = some (keyOf v)) (h : ∀ m ∈ members, m.Held W) :
    List.Forall₂ (fun m v => m ∈ members ∧ m.view? α = some v)
      ((members.filter (fun m => m.accessorKey? == some key)).find? (fun m => m.kind == NodeView.kind α)).toList
      ((members.filterMap (fun m => m.view? α)).find? (fun v => keyOf v == key)).toList := by
  rw [← Node.Held.find?_accessor hkey h]
  cases hfound : (members.filter (fun m => m.accessorKey? == some key)).find? (fun m => m.kind == NodeView.kind α) with
  | none => exact .nil
  | some m =>
    have hm : m ∈ members := (List.mem_filter.1 (List.mem_of_find?_eq_some hfound)).1
    have hkind : m.kind = NodeView.kind α := by simpa using List.find?_some hfound
    obtain ⟨v, hs⟩ := FittingView.slots_eq (α := α) (h m hm).stands hkind
    have hv : m.view? α = some v := Node.view?_eq hkind hs
    rw [Option.bind_some, hv]
    exact .cons ⟨hm, hv⟩ .nil

/-- **The accessors of a property are the first getter and the first setter of it.** -/
theorem Node.Held.accessorsOf_eq (h : ∀ m ∈ members, m.Held W) (key : AccessorKey) : ∃ gets sets,
    LoweringContext.accessorsOf members key =
      gets.map (fun m => ("get", m)) ++ sets.map (fun m => ("set", m)) ∧
    List.Forall₂ (fun m v => m ∈ members ∧ m.view? MemberGetter = some v) gets (Node.firstGetter? members key).toList ∧
    List.Forall₂ (fun m v => m ∈ members ∧ m.view? MemberSetter = some v) sets (Node.firstSetter? members key).toList := by
  refine ⟨_, _, ?_, Node.Held.found_accessor Node.accessorKey?_getter h, Node.Held.found_accessor Node.accessorKey?_setter h⟩
  unfold LoweringContext.accessorsOf
  dsimp only
  rw [Option.toList_map, Option.toList_map]
  rfl

/-! ## Functions -/

/-- What a draft makes of parameters and a body of the tree, the rules make of them. -/
theorem Translation.makesFunction_of_draft {p b : Node} {marks : Marks} (hparameters : parameters ∈ T.tree.all)
    (hblock : block ∈ T.tree.all)
    (hd : Draft.functionLike (Draft.visitUpTo levels) parameters.outline block.outline false = some ((p, b), marks)) :
    T.MakesFunction parameters block (Code.function p.outline b.outline) := by
  refine ⟨levels, p.outline, b.outline, marks, rfl, fun resultType column => ?_⟩
  have hfollows : ∀ W : Registry, T.tree.Held W → Follows W ((T.rules levels).functionLike parameters resultType block column)
      (Draft.functionLike (Draft.visitUpTo levels) parameters.outline block.outline)
      (fun _ p q => p.1.outline = q.1.outline ∧ p.2.outline = q.2.outline) := fun W hheld =>
    ((drafted_visitUpTo _ _ levels).functionLike resultType column (hheld.below hparameters) (hheld.below hblock)).mono
      (fun _ _ _ _ h => ⟨h.1.1.outline, h.2.outline⟩)
  exact T.makes_of_draft hfollows hd (fun _ _ h => Prod.ext h.1 h.2)

namespace Draft

variable {visit : Node → Draft Replacement} {b : Node}

theorem notes_assembleBlock_none : (assembleBlock b ns).Notes i (fun _ marks => marks = .none ∧ True) :=
  .ite (fun _ => .pure ⟨rfl, trivial⟩) (fun _ => .viewAny (fun _ _ => .make ⟨rfl, trivial⟩))

/-- Functions have a `this` of their own. -/
theorem notes_functionLike_captured :
    (functionLike visit parameters block).Notes i (fun _ marks => marks.captured = false) := by
  refine (Notes.inScope (P := fun _ _ => True) (fun _ _ _ => trivial)).andThen (fun p marks hp => ?_)
  obtain ⟨marks', rfl, -⟩ := hp
  exact .made (notes_assembleBlock_none.given (fun _ _ => .pure ⟨rfl, rfl⟩))

/-- A function of the tree is made, and captures no `this` around it. -/
theorem notes_functionLike_makes (hparameters : parameters ∈ T.tree.all) (hblock : block ∈ T.tree.all) :
    (functionLike (visitUpTo levels) parameters.outline block.outline).Notes false (fun p marks =>
      marks.captured = false ∧ T.MakesFunction parameters block (Code.function p.1.outline p.2.outline)) :=
  fun _ _ hd => ⟨notes_functionLike_captured _ _ hd, T.makesFunction_of_draft hparameters hblock hd⟩

/-- **What becomes of a method.** -/
theorem notes_method_becomes (hheld : T.tree.Held W) (hm : m ∈ T.tree.all) :
    (method (visitUpTo levels) C.outline m.outline).Notes false (fun ms marks =>
      T.MemberBecomes C members before m (ms.map Node.outline, marks.captured)) := by
  refine .viewHeld (hheld.below hm) (fun v hv => ?_)
  rw [show (OutlineView.outline v).block = v.block.map Node.outline from rfl]
  cases hbody : v.block with
  | none => exact .pure (.signature hv hbody)
  | some block =>
    have hblock : block ∈ T.tree.all :=
      hheld.part_mem hm hv (s := .ofNode? v.block) (by simp [NodeView.toSlots]) (by simp [hbody])
    have hsignature : v.signature ∈ T.tree.all :=
      hheld.part_mem hm hv (s := .node v.signature) (by simp [NodeView.toSlots]) (List.mem_singleton_self _)
    refine .viewHeld (hheld.below hsignature) (fun signature hs => ?_)
    have hparameters : signature.parameters ∈ T.tree.all :=
      hheld.part_mem hsignature hs (s := .node signature.parameters) (by simp [NodeView.toSlots]) (List.mem_singleton_self _)
    refine (notes_functionLike_makes hparameters hblock).andThen (fun p marks hp => .made (.made (.made (.pure ⟨rfl, ?_⟩))))
    obtain ⟨hcaptured, hfunction⟩ := hp
    have hstatic : (OutlineView.outline v).isStatic.isSome = v.isStatic.isSome := Option.isSome_map
    rw [hcaptured, List.map_singleton, Code.outline_assignmentStatement, Fresh.bind_apply, Code.outline_memberTarget,
      Code.outline_classReceiver, hstatic, Code.outline_functionExpression]
    exact .method hv hbody hs hfunction

/-- **What becomes of a field.** -/
theorem notes_staticField_becomes (hheld : T.tree.Held W) (hm : m ∈ T.tree.all) :
    (staticField (visitUpTo levels) C.outline m.outline).Notes false (fun ms marks =>
      T.MemberBecomes C members before m (ms.map Node.outline, marks.captured)) := by
  refine .viewHeld (hheld.below hm) (fun v hv => ?_)
  have hstatic : (OutlineView.outline v).isStatic.isNone = v.isStatic.isNone := Option.isNone_map
  refine .ite (fun hown => .pure (.instanceField hv (Option.isNone_iff_eq_none.1 (hstatic.symm.trans hown)))) (fun hnot => ?_)
  rw [hstatic, Bool.not_eq_true, Option.isNone_eq_false_iff] at hnot
  have hdeclarator : v.declarator ∈ T.tree.all :=
    hheld.part_mem hm hv (s := .node v.declarator) (by simp [NodeView.toSlots]) (List.mem_singleton_self _)
  refine .viewHeld (hheld.below hdeclarator) (fun d hd => ?_)
  have hvalue : ∀ c ∈ d.value, c ∈ T.tree.all := fun c hc =>
    hheld.part_mem hdeclarator hd (s := .ofNode? d.value) (by simp [NodeView.toSlots]) (by simpa using hc)
  refine .viewClause hheld hvalue (fun hnone => .pure (.bareField hv hd hnone)) (fun clause value hgiven hmem hclause => ?_)
  dsimp only
  rw [hclause]
  refine (notes_lower_lowersTo hmem).andThen (fun lowered marks hlowers => .made (.made (.pure ⟨rfl, ?_⟩)))
  rw [List.map_singleton, Code.outline_assignmentStatement, Fresh.bind_apply, Code.outline_memberTarget]
  show T.MemberBecomes C members before m
    ([Code.assignment (Code.memberNamed (Code.name C) d.name) lowered.outline], marks.captured)
  exact .staticField hv hnot hd hgiven hlowers

theorem notes_accessorFunction_getter (hheld : T.tree.Held W) (hm : m ∈ T.tree.all) {v : MemberGetter}
    (hv : m.view? MemberGetter = some v) : (accessorFunction (visitUpTo levels) m.outline).Notes false (fun f marks =>
      marks.captured = false ∧ T.MakesFunction v.parameters v.block f.outline) := by
  have hparameters : v.parameters ∈ T.tree.all :=
    hheld.part_mem hm hv (s := .node v.parameters) (by simp [NodeView.toSlots]) (List.mem_singleton_self _)
  have hblock : v.block ∈ T.tree.all :=
    hheld.part_mem hm hv (s := .node v.block) (by simp [NodeView.toSlots]) (List.mem_singleton_self _)
  unfold accessorFunction
  rw [((hheld.below hm).slots_view hv).2]
  dsimp only
  rw [pure_bind]
  exact (notes_functionLike_makes hparameters hblock).andThen (fun p marks hp => .make ⟨rfl, hp⟩)

theorem notes_accessorFunction_setter (hheld : T.tree.Held W) (hm : m ∈ T.tree.all) {v : MemberSetter}
    (hv : m.view? MemberSetter = some v) : (accessorFunction (visitUpTo levels) m.outline).Notes false (fun f marks =>
      marks.captured = false ∧ T.MakesFunction v.parameters v.block f.outline) := by
  have hparameters : v.parameters ∈ T.tree.all :=
    hheld.part_mem hm hv (s := .node v.parameters) (by simp [NodeView.toSlots]) (List.mem_singleton_self _)
  have hblock : v.block ∈ T.tree.all :=
    hheld.part_mem hm hv (s := .node v.block) (by simp [NodeView.toSlots]) (List.mem_singleton_self _)
  unfold accessorFunction
  rw [Node.view?_eq_none (α := MemberGetter) (by rw [Node.kind_outline, Node.kind_of_view? hv]; decide)]
  refine .view ((hheld.below hm).slots_view hv).2 ?_
  rw [pure_bind]
  exact (notes_functionLike_makes hparameters hblock).andThen (fun p marks hp => .make ⟨rfl, hp⟩)

/-- Accessors of one kind in front of others. -/
theorem notes_accessorProperties_append {α : Type} {makes : α → Node → Prop} {word : String} {rest : List (String × Node)}
    {P : List Node → Prop} (hrest : (accessorProperties visit rest).Notes i (fun ns marks => marks.captured = false ∧ P ns))
    {ms : List Node} {vs : List α} (h : List.Forall₂ (fun m v => (accessorFunction visit m.outline).Notes i (fun f marks =>
      marks.captured = false ∧ makes v f.outline)) ms vs) :
    (accessorProperties visit (ms.map (fun m => (word, m.outline)) ++ rest)).Notes i (fun ns marks =>
      marks.captured = false ∧ ∃ front others fs, ns = front ++ others ∧ P others ∧ List.Forall₂ makes vs fs ∧
        front.map Node.outline = fs.map (Code.property word)) := by
  induction h with
  | nil => exact hrest.mono (fun ns marks hns => ⟨hns.1, [], ns, [], rfl, hns.2, .nil, rfl⟩)
  | @cons m v ms vs hm _ ih =>
    refine hm.bind (fun f marks hf => .made (ih.andThen (fun ns marks' hns => .pure ⟨rfl, ?_⟩)))
    obtain ⟨hcaptured, front, others, fs, rfl, hothers, hfs, hfront⟩ := hns
    refine ⟨by rw [Marks.and, hf.1, hcaptured]; rfl, _ :: front, others, f.outline :: fs, rfl, hothers, .cons hf.2 hfs, ?_⟩
    rw [List.map_cons, hfront, Code.outline_descriptorProperty]
    rfl

/-- **The descriptor of a property** holds the functions that the first getter and the first setter of it become. -/
theorem notes_descriptor_accessors (hheld : T.tree.Held W) (hmembers : ∀ m ∈ members, m ∈ T.tree.all) :
    (descriptor (visitUpTo levels) (LoweringContext.accessorsOf (members.map Node.outline) key)).Notes false (fun n marks =>
      marks.captured = false ∧ ∃ getters setters,
        List.Forall₂ (fun v f => T.MakesFunction v.parameters v.block f) (Node.firstGetter? members key).toList getters ∧
        List.Forall₂ (fun v f => T.MakesFunction v.parameters v.block f) (Node.firstSetter? members key).toList setters ∧
        n.outline = Code.descriptor getters setters) := by
  have hheldMembers : ∀ m ∈ members, m.Held W := fun m hm => hheld.below (hmembers m hm)
  obtain ⟨gets, sets, heq, hgets, hsets⟩ := Node.Held.accessorsOf_eq hheldMembers key
  -- The accessors among the outlines are the outlines of the accessors.
  have houtlines : LoweringContext.accessorsOf (members.map Node.outline) key =
      gets.map (fun m => ("get", m.outline)) ++ (sets.map (fun m => ("set", m.outline)) ++ []) := by
    have hsame := (LoweringContext.accessorsOf_held hheldMembers key).imp
      (fun p q h => (Prod.ext h.1 h.2.2.symm : (p.1, p.2.outline) = q))
    rw [← List.forall₂_map_left_iff, List.forall₂_eq_eq_eq] at hsame
    rw [← hsame, heq, List.map_append, List.map_map, List.map_map, List.append_nil]
    rfl
  rw [houtlines]
  have hget : List.Forall₂ (fun m v => (accessorFunction (visitUpTo levels) m.outline).Notes false _) gets _ :=
    hgets.imp (fun m v h => notes_accessorFunction_getter hheld (hmembers m h.1) h.2)
  have hset : List.Forall₂ (fun m v => (accessorFunction (visitUpTo levels) m.outline).Notes false _) sets _ :=
    hsets.imp (fun m v h => notes_accessorFunction_setter hheld (hmembers m h.1) h.2)
  have hnone : (accessorProperties (visitUpTo levels) []).Notes false (fun ns marks => marks.captured = false ∧ ns = []) :=
    .pure ⟨rfl, rfl⟩
  refine (notes_accessorProperties_append (notes_accessorProperties_append hnone hset) hget).andThen
    (fun ns marks hns => .made (.made (.made (.made (.made (.make ⟨rfl, ?_⟩))))))
  obtain ⟨hcaptured, front, _, getters, rfl, ⟨behind, _, setters, rfl, rfl, hsetters, hbehind⟩, hgetters, hfront⟩ := hns
  refine ⟨hcaptured, getters, setters, hgetters, hsetters, ?_⟩
  refine (Code.outline_objectLiteral (j := 0) rfl rfl
    (Code.outlines_separatorsBetween (fun _ => Code.outline_markThenSpace) _ _)).trans ?_
  simp only [List.append_nil, List.map_append, hfront, hbehind, List.map_cons, List.map_nil, Code.outline_flagProperty]
  rfl

/-- **What becomes of the first accessor of a property.** -/
theorem notes_defineProperty_accessors (hheld : T.tree.Held W) (hmembers : ∀ m ∈ members, m ∈ T.tree.all) :
    (defineProperty (visitUpTo levels) C.outline (members.map Node.outline) key).Notes false (fun n marks =>
      marks.captured = false ∧ ∃ getters setters,
        List.Forall₂ (fun v f => T.MakesFunction v.parameters v.block f) (Node.firstGetter? members key).toList getters ∧
        List.Forall₂ (fun v f => T.MakesFunction v.parameters v.block f) (Node.firstSetter? members key).toList setters ∧
        n.outline = Code.defineProperty C key (Code.descriptor getters setters)) := by
  refine (notes_descriptor_accessors hheld hmembers).andThen (fun n marks hn =>
    .made (.made (.made (.made (.made (.make ⟨rfl, ?_⟩))))))
  obtain ⟨hcaptured, getters, setters, hgetters, hsetters, hn⟩ := hn
  refine ⟨hcaptured, getters, setters, hgetters, hsetters, ?_⟩
  have hdefine : ∀ j, (Build.memberPath (Build.name "Object".toList 0).1 ["defineProperty".toList] j).1.outline =
      Code.member (Code.name (Code.spelled "Object")) (Code.spelled "defineProperty") := fun j => by
    simp only [Build.memberPath, Fresh.bind_apply, Fresh.pure_apply, Code.outline_memberAccess]
    rfl
  simp only [Code.outline_expressionStatement, Code.outline_invocation, List.map_cons, List.map_nil, hdefine,
    Code.outline_classReceiver, Code.outline_stringLiteral, hn]
  rfl

/-- **What becomes of a member of a class**, where the keys are those of the members in front. -/
theorem notes_classMember_becomes (hheld : T.tree.Held W) (hmembers : ∀ m ∈ members, m ∈ T.tree.all) (hm : m ∈ T.tree.all)
    (hk : NodeClass.classMember.includes m.kind = true)
    (hseen : ∀ key, key ∈ seen ↔ ∃ o ∈ before, o.accessorKey? = some key) :
    (classMember (visitUpTo levels) C.outline (members.map Node.outline) seen m.outline).Notes false (fun ms marks =>
      T.MemberBecomes C members before m (ms.map Node.outline, marks.captured)) := by
  unfold classMember
  rw [Node.kind_outline, (hheld.below hm).accessorKey?]
  -- Getters and setters go the same way: the keys that are met say whether one of the property came before.
  have haccess : ∀ key, m.accessorKey? = some key → (if seen.contains key then pure [] else do
      return [← defineProperty (visitUpTo levels) C.outline (members.map Node.outline) key] : Draft (List Node)).Notes false
        (fun ms marks => T.MemberBecomes C members before m (ms.map Node.outline, marks.captured)) := by
    intro key hkey
    refine .ite (fun hmet => .pure ?_) (fun hnew => ?_)
    · obtain ⟨o, ho, hsame⟩ := (hseen key).1 (List.contains_iff_mem.1 hmet)
      exact .laterAccessor hkey ho hsame
    · refine (notes_defineProperty_accessors hheld hmembers).andThen (fun n marks hn => .pure ⟨rfl, ?_⟩)
      obtain ⟨hcaptured, getters, setters, hgetters, hsetters, hn⟩ := hn
      rw [hcaptured, List.map_singleton, hn]
      exact .accessor hkey (fun o ho hsame => hnew (List.contains_iff_mem.2 ((hseen key).2 ⟨o, ho, hsame⟩))) hgetters hsetters
  cases hkind : m.kind with
  | memberFunctionDeclaration => exact notes_method_becomes hheld hm
  | memberVariableDeclaration => exact notes_staticField_becomes hheld hm
  | getMemberAccessorDeclaration =>
    obtain ⟨v, hv, -⟩ := (hheld.below hm).stands.memberGetter hkind
    rw [Node.accessorKey?_getter hv]
    exact haccess _ (Node.accessorKey?_getter hv)
  | setMemberAccessorDeclaration =>
    obtain ⟨v, hv, -⟩ := (hheld.below hm).stands.memberSetter hkind
    rw [Node.accessorKey?_setter hv]
    exact haccess _ (Node.accessorKey?_setter hv)
  | constructorDeclaration =>
    have hnone : m.accessorKey? = none := by
      rw [Node.accessorKey?, Node.view?_eq_none (by rw [hkind]; decide), Node.view?_eq_none (by rw [hkind]; decide)]
    dsimp only
    rw [hnone]
    exact .pure (.constructor hkind)
  | _ => exact absurd hk (by rw [hkind]; decide)

theorem met_nil (key : AccessorKey) : key ∈ ([] : List AccessorKey) ↔ ∃ o ∈ ([] : List Node), o.accessorKey? = some key := by
  simp

/-- The keys that are kept are those of the members in front, one more included. -/
theorem met_append (hseen : ∀ key, key ∈ seen ↔ ∃ o ∈ before, o.accessorKey? = some key) (key : AccessorKey) :
    (key ∈ match m.accessorKey? with
      | some met => met :: seen
      | none => seen) ↔ ∃ o ∈ before ++ [m], o.accessorKey? = some key := by
  simp only [List.mem_append, List.mem_singleton, or_and_right, exists_or, exists_eq_left, ← hseen]
  cases m.accessorKey? with
  | none => simp
  | some met => rw [List.mem_cons, Option.some.injEq, or_comm, eq_comm]

/-- **What becomes of the members of a class**, one by one. -/
theorem notes_classMembers_inTurn (hheld : T.tree.Held W) (hmembers : ∀ m ∈ members, m ∈ T.tree.all) :
    ∀ {rest before : List Node} {seen : List AccessorKey},
    (∀ m ∈ rest, m ∈ T.tree.all ∧ NodeClass.classMember.includes m.kind = true) →
    (∀ key, key ∈ seen ↔ ∃ o ∈ before, o.accessorKey? = some key) →
    (classMembers (visitUpTo levels) C.outline (members.map Node.outline) seen (rest.map Node.outline)).Notes false
      (fun ms marks => ∃ pieces, InTurn (T.MemberBecomes C members) before rest pieces ∧
        ms.map Node.outline = pieces.flatMap Prod.fst ∧ marks.captured = pieces.any Prod.snd)
  | [], _, _, _, _ => .pure ⟨[], .nil, rfl, rfl⟩
  | m :: rest, before, seen, hrest, hseen => by
    obtain ⟨⟨hm, hk⟩, hrest⟩ := List.forall_mem_cons.1 hrest
    rw [List.map_cons, classMembers, (hheld.below hm).accessorKey?]
    refine (notes_classMember_becomes hheld hmembers hm hk hseen).bind (fun ms marks hms => ?_)
    refine (notes_classMembers_inTurn hheld hmembers hrest (met_append hseen)).andThen
      (fun others marks' hothers => .pure ⟨rfl, ?_⟩)
    obtain ⟨pieces, hpieces, hrow, hcaptured⟩ := hothers
    refine ⟨(ms.map Node.outline, marks.captured) :: pieces, .cons hms hpieces, ?_, ?_⟩
    · rw [List.map_append, hrow, List.flatMap_cons]
    · rw [List.any_cons, ← hcaptured]
      rfl

end Draft

end

end Downlevel
