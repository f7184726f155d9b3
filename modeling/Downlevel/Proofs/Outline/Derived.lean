import Downlevel.Proofs.Outline.Marked
import Downlevel.Proofs.Outline.Nested
/-!
# Proofs.Outline.Derived — classes with a base call the helper

The body of a class with a base starts with the call that sets up inheritance, and says so; enums, members and
namespaces say what their parts say.  So every form tells where the helper is mentioned (`Draft.told_rule`), and, level
by level, every tree does (`Draft.tells_visitUpTo`).
-/
namespace Downlevel

variable {i captured : Bool} {j k : Nat} {n b parameters : Node} {ns members : List Node} {t name : Token}

/-- The parts of a name are none of them the name of the helper. -/
theorem Node.Lacks.nameParts (hn : n.Lacks k) : ∀ t ∈ n.nameParts, t.isExtends = false := fun t ht =>
  ((Node.Sound.stands hn).nameParts t ht).isExtends

/-- No element exports the name of the helper. -/
theorem Node.Lacks.exportedNames (hn : n.Lacks k) : ∀ t ∈ (n.exportedNames j).1, t.isExtends = false := fun t ht =>
  ((makes_exportedNames (Node.Sound.stands hn) j le_rfl).2 t ht).isExtends

/-- The accessors of a property are properties of a descriptor. -/
theorem LoweringContext.word_of_mem_accessorsOf {key : AccessorKey} {p : String × Node} (h : p ∈ accessorsOf members key) :
    p.1 = "get" ∨ p.1 = "set" := by
  refine (List.mem_append.1 h).imp (fun hp => ?_) (fun hp => ?_) <;>
  · obtain ⟨m, -, rfl⟩ := Option.map_eq_some_iff.1 (Option.mem_toList.1 hp)
    rfl

namespace Draft

open LoweringContext

variable {visit : Node → Draft Replacement} (h : Tells visit)
include h

/-! ## Enums -/

theorem told_enumValue {e : EnumElement} {previous : PreviousValue} (hname : name.isExtends = false)
    (he : e.name.isExtends = false) (hvalue : ∀ n ∈ e.value, n.Lacks k)
    (hprevious : ∀ t, previous = .member t → t.isExtends = false) : (enumValue visit name e previous).Notes i (fun p m =>
      Mention.Told m.derived p.1.mentions ∧ ∀ t, p.2 = .member t → t.isExtends = false) := by
  refine (notes_viewClause e.value).given (fun c hc => ?_)
  have hvalues := hc ▸ Node.Sound.clauseValue hvalue
  cases c with
  | none =>
    refine .make ⟨?_, ?_⟩
    · rw [mentions_implicitValue hname hprevious]
      exact .nil
    · cases previous with
      | ordinal _ => exact fun _ heq => by cases heq
      | known _ => exact fun _ heq => by cases heq
      | member before =>
        intro t heq
        cases heq
        exact he
  | some c =>
    refine (told_lower h (hvalues _ (List.mem_singleton.2 rfl))).andThen (fun value m hm => ?_)
    split
    · exact .pure ⟨rfl, hm, fun _ heq => by cases heq⟩
    · refine .pure ⟨rfl, hm, fun t heq => ?_⟩
      cases heq
      exact he

theorem told_enumRecords (hname : name.isExtends = false) : ∀ {ns : List Node} {previous : PreviousValue},
    (∀ n ∈ ns, n.Lacks k) → (∀ t, previous = .member t → t.isExtends = false) →
    (enumRecords visit name ns previous).Notes i (fun ms m => Mention.Told m.derived (ms.flatMap Node.mentions))
  | [], _, _, _ => .pure .nil
  | n :: ns, previous, hns, hprevious => by
    obtain ⟨hn, hns⟩ := List.forall_mem_cons.1 hns
    rw [enumRecords]
    cases hv : n.view? EnumElement with
    | none => exact told_enumRecords hname hns hprevious
    | some e =>
      have hparts := hn.parts hv
      simp only [NodeView.toSlots, List.forall_mem_cons, Slot.each_token, Slot.each_ofNode?] at hparts
      refine (told_enumValue h hname hparts.1 hparts.2.1 hprevious).bind (fun p m hp => .made ?_)
      refine (told_enumRecords hname hns hp.2).andThen (fun ms m' hms => .pure ⟨rfl, ?_⟩)
      rw [List.flatMap_cons, mentions_enumRecord hname hparts.1]
      exact hp.1.append hms

theorem told_enumDeclaration (hn : n.Lacks k) :
    (enumDeclaration visit n).Notes i (fun r m => Mention.Told m.derived (r.nodes.flatMap Node.mentions)) := by
  refine .viewLacking hn (fun v hv _ hparts => .ite (fun _ => .pure .nil) (fun _ => .made ?_))
  simp only [NodeView.toSlots, List.forall_mem_cons, Slot.each_token, Slot.each_separated] at hparts
  obtain ⟨-, -, -, hname, -, ⟨hmembers, -⟩, -⟩ := hparts
  refine (told_enumRecords h hname hmembers (fun _ heq => by cases heq)).andThen (fun records m hrecords => ?_)
  refine .made (.made (.made (.made (.pure ⟨rfl, ?_⟩))))
  have hblock : (braced ((reverseMapStart v.name 0).1 :: records) 0).1.mentions = records.flatMap Node.mentions := by
    rw [mentions_braced, List.flatMap_cons, mentions_reverseMapStart hname, List.nil_append]
  have hcall : ∀ l, (wrapperCall [(Build.parameter v.name 0).1] (braced ((reverseMapStart v.name 0).1 :: records) 0).1
      [(reopened v.name (Build.parameter v.name 0).2).1] l).1.mentions = records.flatMap Node.mentions := fun l => by
    rw [mentions_wrapperCall (by simp [Build.mentions_parameter hname]), hblock]
    simp [mentions_reopened hname]
  rw [Replacement.nodes, List.flatMap_cons, List.flatMap_singleton, Build.mentions_variableStatement hname,
    Build.mentions_expressionStatement]
  exact (congrArg (Mention.Told m.derived) (hcall _)).mpr hrecords

/-! ## Fields and constructors -/

theorem told_fieldAssignment {receiver : Fresh Node} {field : MemberVariable} (hr : ∀ j, (receiver j).1.mentions = [])
    (hf : field.declarator.Lacks k) : (fieldAssignment visit receiver field).Notes i (fun ms m =>
      Mention.Told m.derived (ms.flatMap Node.mentions)) := by
  refine .viewLacking hf (fun v hv _ hparts => ?_)
  simp only [NodeView.toSlots, List.forall_mem_cons, Slot.each_token, Slot.each_ofNode?] at hparts
  refine (notes_viewClause v.value).given (fun c hc => ?_)
  have hvalues := hc ▸ Node.Sound.clauseValue hparts.2.2.1
  cases c with
  | none => exact .pure .nil
  | some c =>
    refine (told_lower h (hvalues _ (List.mem_singleton.2 rfl))).andThen (fun value m hm => .made (.made (.pure ⟨rfl, ?_⟩)))
    have htarget : ∀ l l', (memberTarget (receiver l).1 v.name l').1.mentions = [] := fun l l' => by
      rw [mentions_memberTarget hparts.1, hr]
    rw [List.flatMap_singleton, mentions_assignmentStatement]
    exact (congrArg (Mention.Told m.derived) (congrArg (· ++ value.mentions) (htarget _ _))).mpr hm

theorem told_instanceFields : ∀ {members : List Node}, (∀ n ∈ members, n.Lacks k) →
    (instanceFields visit members).Notes i (fun ms m => Mention.Told m.derived (ms.flatMap Node.mentions))
  | [], _ => .pure .nil
  | n :: members, hmembers => by
    obtain ⟨hn, hmembers⟩ := List.forall_mem_cons.1 hmembers
    have hrest : ∀ (here : List Node) (m : Marks), Mention.Told m.derived (here.flatMap Node.mentions) →
        (do return here ++ (← instanceFields visit members) : Draft (List Node)).Notes i (fun ms m' =>
          Mention.Told (m.and m').derived (ms.flatMap Node.mentions)) :=
      fun here m hhere => (told_instanceFields hmembers).andThen (fun ms m' hms => .pure ⟨rfl, by
        rw [List.flatMap_append]
        exact hhere.append hms⟩)
    have hnone : (do return [] ++ (← instanceFields visit members) : Draft (List Node)).Notes i (fun ms m =>
        Mention.Told m.derived (ms.flatMap Node.mentions)) :=
      (hrest [] .none .nil).mono (fun ms m hms => by rwa [Marks.none_and] at hms)
    rw [instanceFields]
    cases hv : n.view? MemberVariable with
    | none => exact .given (R := (· = [])) (.pure ⟨rfl, rfl⟩) (fun here heq => heq ▸ hnone)
    | some field =>
      have hfield : field.declarator.Lacks k := Slot.each_node.1 (hn.parts hv _ (by simp [NodeView.toSlots]))
      dsimp only
      split
      · exact .given (R := (· = [])) (.pure ⟨rfl, rfl⟩) (fun here heq => heq ▸ hnone)
      · exact (told_fieldAssignment h (fun _ => Build.mentions_thisExpression) hfield).bind hrest

theorem told_staticField (hname : name.isExtends = false) (hn : n.Lacks k) :
    (staticField visit name n).Notes i (fun ms m => Mention.Told m.derived (ms.flatMap Node.mentions)) := by
  refine .viewLacking hn (fun v hv _ hparts => .ite (fun _ => .pure .nil) (fun _ => ?_))
  simp only [NodeView.toSlots, List.forall_mem_cons, Slot.each_node] at hparts
  exact told_fieldAssignment h (fun _ => Build.mentions_nameExpression hname) hparts.2.2.1

/-- The statements of a constructor: those that call the base constructor, and the others. -/
theorem told_constructorStatements (derived : HasBase) : ∀ {ns : List Node}, (∀ n ∈ ns, n.Lacks k) →
    (constructorStatements visit derived ns).Notes i (fun p m =>
      Mention.Told m.derived (p.2.flatMap Node.mentions ++ p.1.flatMap Node.mentions))
  | [], _ => .pure .nil
  | n :: ns, hns => by
    obtain ⟨hn, hns⟩ := List.forall_mem_cons.1 hns
    refine (h.told i hn).bind (fun r m hr => (told_constructorStatements derived hns).andThen (fun p m' hp => ?_))
    have hboth := hr.append hp
    refine .ite (fun _ => .pure ⟨rfl, ?_⟩) (fun _ => .pure ⟨rfl, ?_⟩)
    · rw [List.flatMap_append]
      exact hboth.perm (List.perm_append_comm_assoc ..)
    · rw [List.flatMap_append, List.append_assoc]
      exact hboth

theorem told_constructorFunction (derived : HasBase) (hname : name.isExtends = false)
    (hmembers : ∀ n ∈ members, n.Lacks k) (hb : b.Lacks k) (hn : n.Lacks k) :
    (constructorFunction visit members name b n derived).Notes i (fun f m => Mention.Told m.derived f.mentions) := by
  refine (Notes.inScope (P := fun (p : Node × List Node × List Node) m => p.1.mentions = [] ∧
    Mention.Told m.derived (p.2.2.flatMap Node.mentions ++ p.2.1.flatMap Node.mentions)) ?_).andThen (fun p m hp => ?_)
  · refine (told_parameterList hn).given (fun p hp => .viewLacking hb (fun v _ _ hparts => ?_))
    simp only [NodeView.toSlots, List.forall_mem_cons, Slot.each_list] at hparts
    refine (told_constructorStatements h derived hparts.2.1).bind (fun q m hq => ?_)
    refine (told_parameterPrologue h hp.2).bind (fun prologue m₃ hprologue => ?_)
    refine (Notes.mapM_silent (fun t ht => mentions_propertyStatement (hp.2.properties t ht))).given
      (fun properties hproperties => ?_)
    refine (told_instanceFields h hmembers).andThen (fun fields m₄ hfields => .pure ⟨rfl, hp.1, ?_⟩)
    have hall := hq.append (hprologue.append hfields)
    simp only [List.flatMap_append, hproperties, List.append_assoc, List.nil_append] at hall ⊢
    exact hall
  · obtain ⟨⟨list, prologue, rest⟩, captured⟩ := p
    obtain ⟨m', rfl, -, hlist, hbody⟩ := hp
    refine .made (.viewLacking hb (fun v _ _ hparts => .made ?_))
    simp only [NodeView.toSlots, List.forall_mem_cons, Slot.each_token] at hparts
    have hlowered : (NodeView.toNode { v with statements := rest } 0).1.mentions = rest.flatMap Node.mentions := by
      rw [Node.mentions_toNode _ (by decide) (by simp [NodeView.toSlots, hparts.1, hparts.2.2.1])]
      simp [NodeView.toSlots]
    have hstrict : .loose ∉ (NodeView.toNode { v with statements := rest } 0).1.mentions := fun hmem =>
      hbody.strict (List.mem_append_left _ (hlowered ▸ hmem))
    refine (mentions_assembleBlock hstrict).given (fun block hblock => .make ⟨rfl, ?_⟩)
    rw [mentions_functionDeclaration hname hlist, hblock, mentions_withCapture, hlowered]
    exact hbody.perm List.perm_append_comm

theorem told_synthesizedConstructor (derived : HasBase) (hname : name.isExtends = false)
    (hmembers : ∀ n ∈ members, n.Lacks k) :
    (synthesizedConstructor visit members name derived).Notes i (fun f m => Mention.Told m.derived f.mentions) := by
  refine (told_instanceFields h hmembers).inScope.andThen (fun p m hp => ?_)
  obtain ⟨fields, captured⟩ := p
  obtain ⟨m', rfl, -, hfields⟩ := hp
  have hfinish : ∀ forward : List Node, forward.flatMap Node.mentions = [] → (do
      let statements ← make (withCapture captured (forward ++ fields))
      let block ← make (braced statements)
      make (do functionDeclaration name (← Build.parameterList []) block) : Draft Node).Notes i (fun f m => m = .none ∧
        Mention.Told m'.derived f.mentions) := by
    intro forward hforward
    refine .made (.made (.make ⟨rfl, ?_⟩))
    show Mention.Told m'.derived (functionDeclaration name (Build.parameterList [] 0).1 _ _).1.mentions
    rw [mentions_functionDeclaration hname (by simp), mentions_braced, mentions_withCapture, List.flatMap_append, hforward]
    exact hfields
  refine .ite (fun _ => .made (.given (R := fun ms => ms.flatMap Node.mentions = []) (.pure ⟨rfl, ?_⟩) hfinish))
    (fun _ => .given (R := fun ms => ms.flatMap Node.mentions = []) (.pure ⟨rfl, rfl⟩) hfinish)
  rw [List.flatMap_singleton, mentions_forwardToBase]

theorem told_classConstructor (derived : HasBase) (hname : name.isExtends = false)
    (hmembers : ∀ n ∈ members, n.Lacks k) :
    (classConstructor visit members name derived).Notes i (fun f m => Mention.Told m.derived f.mentions) := by
  unfold classConstructor
  cases hfirst : firstConstructor? members with
  | none => exact told_synthesizedConstructor h derived hname hmembers
  | some p =>
    obtain ⟨hparameters, hblock⟩ := Node.Sound.firstConstructor hmembers p hfirst
    exact told_constructorFunction h derived hname hmembers hblock hparameters

/-! ## Methods and accessors -/

theorem told_method (hname : name.isExtends = false) (hn : n.Lacks k) :
    (method visit name n).Notes i (fun ms m => Mention.Told m.derived (ms.flatMap Node.mentions)) := by
  refine .viewLacking hn (fun v hv _ hparts => ?_)
  simp only [NodeView.toSlots, List.forall_mem_cons, Slot.each_token, Slot.each_node, Slot.each_ofNode?] at hparts
  obtain ⟨-, -, hkey, hsignature, hblock, -⟩ := hparts
  split
  · exact .pure .nil
  · rename_i block hsome
    refine told_signature h hsignature (hblock block hsome)
      (fun s p m hlist hbody => .made (.made (.made (.pure ⟨rfl, ?_⟩))))
    have htarget : ∀ l l', (memberTarget (classReceiver name v.isStatic.isSome l).1 v.name l').1.mentions = [] :=
      fun l l' => by rw [mentions_memberTarget hkey, mentions_classReceiver hname]
    rw [List.flatMap_singleton, mentions_assignmentStatement, mentions_functionExpression hlist]
    exact (congrArg (Mention.Told m.derived) (congrArg (· ++ p.2.mentions) (htarget _ _))).mpr hbody

theorem told_accessorFunction (hn : n.Lacks k) :
    (accessorFunction visit n).Notes i (fun f m => Mention.Told m.derived f.mentions) := by
  have hfunction : ∀ parameters block : Node, parameters.Lacks k → block.Lacks k →
      (functionLike visit parameters block >>= fun p => make (functionExpression p.1 p.2)).Notes i
        (fun f m => Mention.Told m.derived f.mentions) :=
    fun parameters block hp hb => (told_functionLike h hp hb).andThen (fun p m hp => .make ⟨rfl, by
      rw [mentions_functionExpression hp.1]
      exact hp.2⟩)
  unfold accessorFunction
  cases hget : n.view? MemberGetter with
  | some v =>
    have hparts := hn.parts hget
    simp only [NodeView.toSlots, List.forall_mem_cons, Slot.each_node] at hparts
    obtain ⟨-, -, -, -, hparameters, -, hblock, -⟩ := hparts
    exact .given (R := (· = (v.parameters, v.block))) (.pure ⟨rfl, rfl⟩)
      (fun p hp => hp ▸ hfunction _ _ hparameters hblock)
  | none =>
    refine .viewLacking hn (fun v hv _ hparts => ?_)
    simp only [NodeView.toSlots, List.forall_mem_cons, Slot.each_node] at hparts
    obtain ⟨-, -, -, -, hparameters, hblock, -⟩ := hparts
    exact .given (R := (· = (v.parameters, v.block))) (.pure ⟨rfl, rfl⟩)
      (fun p hp => hp ▸ hfunction _ _ hparameters hblock)

theorem told_accessorProperties : ∀ {accessors : List (String × Node)},
    (∀ a ∈ accessors, a.1.toList ≠ "__extends".toList ∧ a.2.Lacks k) →
    (accessorProperties visit accessors).Notes i (fun ms m => Mention.Told m.derived (ms.flatMap Node.mentions))
  | [], _ => .pure .nil
  | a :: accessors, hns => by
    obtain ⟨⟨hword, ha⟩, haccessors⟩ := List.forall_mem_cons.1 hns
    refine (told_accessorFunction h ha).bind (fun f m hf => .made ?_)
    refine (told_accessorProperties haccessors).andThen (fun ms m' hms => .pure ⟨rfl, ?_⟩)
    rw [List.flatMap_cons, mentions_descriptorProperty hword]
    exact hf.append hms

/-- **The statement that defines a property with accessors** mentions what they do. -/
theorem told_defineProperty (key : AccessorKey) (hname : name.isExtends = false) (hmembers : ∀ n ∈ members, n.Lacks k) :
    (defineProperty visit name members key).Notes i (fun n m => Mention.Told m.derived n.mentions) := by
  have haccessors : ∀ a ∈ accessorsOf members key, a.1.toList ≠ "__extends".toList ∧ a.2.Lacks k := fun a ha =>
    ⟨by rcases word_of_mem_accessorsOf ha with hword | hword <;> rw [hword] <;> decide,
      hmembers _ (mem_of_mem_accessorsOf ha)⟩
  have hdescriptor : (descriptor visit (accessorsOf members key)).Notes i (fun d m => Mention.Told m.derived d.mentions) := by
    refine (told_accessorProperties h haccessors).andThen
      (fun ms m hms => .made (.made (.made (.made (.made (.make ⟨rfl, ?_⟩))))))
    rw [Build.mentions_objectLiteral rfl rfl (Slot.each_separated.2 ⟨fun _ _ => trivial, Build.isExtends_commas⟩)]
    simpa (disch := decide) [-String.reduceToList, mentions_flagProperty] using hms
  refine hdescriptor.andThen (fun d m hd => .made (.made (.made (.made (.made (.make ⟨rfl, ?_⟩))))))
  rw [Build.mentions_expressionStatement, Build.mentions_invocation rfl]
  simpa (disch := decide) [-String.reduceToList, Build.mentions_memberPath, Build.mentions_name,
    mentions_classReceiver hname] using hd

/-! ## Classes -/

theorem told_classMember (seen : List AccessorKey) (hname : name.isExtends = false)
    (hmembers : ∀ n ∈ members, n.Lacks k) (hn : n.Lacks k) : (classMember visit name members seen n).Notes i
      (fun ms m => Mention.Told m.derived (ms.flatMap Node.mentions)) := by
  unfold classMember
  split
  · exact told_method h hname hn
  · exact told_staticField h hname hn
  · split
    · refine .ite (fun _ => .pure .nil) (fun _ => ?_)
      exact (told_defineProperty h _ hname hmembers).andThen (fun p m hp => .pure ⟨rfl, by simpa using hp⟩)
    · exact .pure .nil

theorem told_classMembers (hname : name.isExtends = false) (hmembers : ∀ n ∈ members, n.Lacks k) :
    ∀ (seen : List AccessorKey) {ns : List Node}, (∀ n ∈ ns, n.Lacks k) →
      (classMembers visit name members seen ns).Notes i (fun ms m => Mention.Told m.derived (ms.flatMap Node.mentions))
  | _, [], _ => .pure .nil
  | seen, n :: ns, hns => by
    obtain ⟨hn, hns⟩ := List.forall_mem_cons.1 hns
    refine (told_classMember h seen hname hmembers hn).bind (fun ms m hms => ?_)
    refine (told_classMembers hname hmembers _ hns).andThen (fun rest m' hrest => .pure ⟨rfl, ?_⟩)
    rw [List.flatMap_append]
    exact hms.append hrest

/-- **The body of a class** calls the helper if the class has a base, and says so. -/
theorem told_classBody {v : ClassDeclaration} (derived : HasBase) (hname : v.name.isExtends = false)
    (hmembers : ∀ n ∈ v.members, n.Lacks k) : (classBody visit v derived).Notes i (fun p m =>
      Mention.Told m.derived (p.1.flatMap Node.mentions ++ p.2.flatMap Node.mentions)) := by
  have hgoes : ∀ (inheritance : List Node) (d : Bool), Mention.Told d (inheritance.flatMap Node.mentions) → (do
        let constructor ← classConstructor visit v.members v.name derived
        let members ← classMembers visit v.name v.members [] v.members
        let returned ← make (do Build.returnStatement (some (← Build.nameExpression v.name)))
        return (inheritance, constructor :: members ++ [returned]) : Draft (List Node × List Node)).Notes i (fun p m =>
          Mention.Told (d || m.derived) (p.1.flatMap Node.mentions ++ p.2.flatMap Node.mentions)) := by
    intro inheritance d hinheritance
    refine (told_classConstructor h derived hname hmembers).bind (fun constructor m hconstructor => ?_)
    refine (told_classMembers h hname hmembers [] hmembers).andThen (fun members m' hrest => .made (.pure ⟨rfl, ?_⟩))
    have hreturned : ∀ l l', (Build.returnStatement (some (Build.nameExpression v.name l).1) l').1.mentions = [] :=
      fun l l' => by simp [Build.mentions_nameExpression hname]
    refine hinheritance.append ?_
    rw [List.flatMap_append, List.flatMap_singleton, List.flatMap_cons]
    exact (congrArg (Mention.Told _) ((congrArg (_ ++ ·) (hreturned _ _)).trans (List.append_nil _))).mpr
      (hconstructor.append hrest)
  unfold classBody
  cases derived with
  | true =>
    refine .bind (P := fun _ m => m = ⟨false, true⟩) (fun _ _ heq => by cases heq; rfl) (fun _ m hm => ?_)
    subst hm
    refine .made ?_
    rw [pure_bind]
    refine hgoes _ true ?_
    rw [List.flatMap_singleton, mentions_extendsCall hname]
    exact ⟨by decide, fun _ => rfl, fun _ => List.mem_cons_self⟩
  | false =>
    simp only [Bool.false_eq_true, if_false, pure_bind]
    exact (hgoes [] false .nil).mono (fun p m hp => by rwa [Bool.false_or] at hp)

omit h in
theorem told_baseExpression (hn : n.Lacks k) : (baseExpression n).Notes i (fun b m => m = .none ∧ b.mentions = []) := by
  refine .viewLacking hn (fun v hv _ hparts => ?_)
  simp only [NodeView.toSlots, List.forall_mem_cons, Slot.each_separated] at hparts
  obtain ⟨-, ⟨hnames, -⟩, -⟩ := hparts
  split
  · exact .fail
  · rename_i base rest hmembers
    have hparts := (hnames base (by rw [hmembers]; exact List.mem_cons_self ..)).nameParts
    split
    · exact .fail
    · rename_i first rest hfirst
      rw [hfirst, List.forall_mem_cons] at hparts
      refine .made (.make ⟨rfl, ?_⟩)
      rw [mentions_baseAccess hparts.2, Build.mentions_nameExpression hparts.1]

/-- **A class says whether it calls the helper.** -/
theorem told_classDeclaration (hn : n.Lacks k) :
    (classDeclaration visit n).Notes i (fun r m => Mention.Told m.derived (r.nodes.flatMap Node.mentions)) := by
  refine .viewLacking hn (fun v hv _ hparts => .ite (fun _ => .pure .nil) (fun _ => ?_))
  simp only [NodeView.toSlots, List.forall_mem_cons, Slot.each_token, Slot.each_ofNode?, Slot.each_list] at hparts
  obtain ⟨-, -, -, hname, hbase, -, -, hmembers, -⟩ := hparts
  have hbases : (v.base.mapM baseExpression).Notes i (fun b m => m = .none ∧ b.toList.flatMap Node.mentions = []) := by
    cases hb : v.base with
    | none => exact .pure ⟨rfl, rfl⟩
    | some c =>
      show (some <$> baseExpression c).Notes i _
      rw [map_eq_pure_bind]
      exact (told_baseExpression (hbase c hb)).given (fun b hb => .pure ⟨rfl, by simpa using hb⟩)
  refine hbases.given (fun base hnone => (told_classBody h base.isSome hname hmembers).inScope.andThen (fun p m hp => ?_))
  obtain ⟨⟨inheritance, statements⟩, captured⟩ := p
  obtain ⟨m', rfl, -, hbody⟩ := hp
  refine .made (.made ?_)
  have hgoes : ∀ parameters : List Node, parameters.flatMap Node.mentions = [] → (do
      let call ← make (wrapperCall parameters (braced (inheritance ++ (withCapture captured statements 0).1) 0).1 base.toList)
      return .one (← make (Build.variableStatement v.name (some call))) : Draft Replacement).Notes i (fun r m =>
        m = .none ∧ Mention.Told m'.derived (r.nodes.flatMap Node.mentions)) := by
    intro parameters hparameters
    refine .made (.made (.pure ⟨rfl, ?_⟩))
    rw [Replacement.mentions_one, Build.mentions_variableStatement hname, Option.toList_some, List.flatMap_singleton,
      mentions_wrapperCall hparameters, hnone, mentions_braced, List.flatMap_append, mentions_withCapture, List.append_nil]
    exact hbody
  refine .ite (fun _ => .made ?_) (fun _ => ?_)
  · rw [pure_bind]
    refine hgoes _ ?_
    rw [List.flatMap_singleton]
    exact Build.mentions_parameter rfl
  · rw [pure_bind]
    exact hgoes [] rfl

/-! ## Namespaces -/

theorem told_moduleElements : ∀ {ns : List Node}, (∀ n ∈ ns, n.Lacks k) → (moduleElements visit ns).Notes i
    (fun p m => Mention.Told m.derived (p.1.flatMap Node.mentions) ∧ ∀ t ∈ p.2, t.isExtends = false)
  | [], _ => .pure ⟨.nil, fun _ ht => by cases ht⟩
  | n :: ns, hns => by
    obtain ⟨hn, hns⟩ := List.forall_mem_cons.1 hns
    refine (h.told i hn).bind (fun r m hr => ?_)
    have hrest : ∀ names : List Token, (∀ t ∈ names, t.isExtends = false) →
        (moduleElements visit ns >>= fun p => pure (r.nodes ++ p.1, names ++ p.2)).Notes i (fun p m' =>
          Mention.Told (m.and m').derived (p.1.flatMap Node.mentions) ∧ ∀ t ∈ p.2, t.isExtends = false) := by
      intro names hnames
      refine (told_moduleElements hns).andThen (fun p m' hp => .pure ⟨rfl, ?_, List.forall_mem_append.2 ⟨hnames, hp.2⟩⟩)
      rw [List.flatMap_append]
      exact hr.append hp.1
    refine .ite (fun _ => .given (R := (· = [])) (.pure ⟨rfl, rfl⟩) (fun names heq => ?_)) (fun _ => .made ?_)
    · exact heq ▸ hrest [] (fun _ ht => by cases ht)
    · exact hrest _ hn.exportedNames

/-- **A namespace** mentions what its elements do. -/
theorem told_moduleDeclaration (hn : n.Lacks k) :
    (moduleDeclaration visit n).Notes i (fun r m => Mention.Told m.derived (r.nodes.flatMap Node.mentions)) := by
  refine .viewLacking hn (fun v hv _ hparts => .ite (fun _ => .pure .nil) (fun _ => ?_))
  simp only [NodeView.toSlots, List.forall_mem_cons, Slot.each_node, Slot.each_list] at hparts
  obtain ⟨-, -, -, hname, -, helements, -⟩ := hparts
  refine .given (R := fun parts => parts = v.name.nameParts) (.ite (fun _ => .fail) (fun _ => .pure ⟨rfl, rfl⟩))
    (fun parts hp => ?_)
  subst hp
  refine (told_moduleElements h helements).inScope.andThen (fun p m hp => ?_)
  obtain ⟨⟨statements, exported⟩, captured⟩ := p
  obtain ⟨m', rfl, -, hstatements, hexported⟩ := hp
  refine .ite (fun hempty => .pure ⟨rfl, ?_⟩) (fun _ => ?_)
  · rw [List.isEmpty_iff.1 hempty] at hstatements
    exact hstatements
  have hfinish : ∀ attached : List Node, attached.flatMap Node.mentions = [] → (do
      let statements ← make (withCapture captured statements)
      return .many (← make (wrapLevels (statements ++ attached) none v.name.nameParts)) : Draft Replacement).Notes i
        (fun r m => m = .none ∧ Mention.Told m'.derived (r.nodes.flatMap Node.mentions)) := by
    intro attached hattached
    refine .made (.made (.pure ⟨rfl, ?_⟩))
    rw [Replacement.nodes, mentions_wrapLevels hname.nameParts (fun _ hp => by cases hp), List.flatMap_append,
      mentions_withCapture, hattached, List.append_nil]
    exact hstatements
  cases hinner : v.name.nameParts.getLast? with
  | none => exact .given (R := (· = [])) (.pure ⟨rfl, rfl⟩) (fun attached heq => heq ▸ hfinish [] rfl)
  | some inner =>
    have hlast : inner.isExtends = false := hname.nameParts _ (List.mem_of_getLast? hinner)
    have hattached := fun t ht => mentions_attachName (j := 0) hlast (hexported t ht)
    exact (Notes.mapM_silent hattached).given hfinish

/-! ## Programs -/

theorem told_sourceUnit (hn : n.Lacks k) :
    (sourceUnit visit n).Notes i (fun r m => Mention.Told m.derived (r.nodes.flatMap Node.mentions)) := by
  refine .viewLacking hn (fun v hv hs hparts => ?_)
  simp only [NodeView.toSlots, List.forall_mem_cons, Slot.each_token, Slot.each_list] at hparts
  refine (told_walkList h hparts.1).inScope.andThen (fun p m hp => ?_)
  obtain ⟨elements, captured⟩ := p
  obtain ⟨m', rfl, -, helements⟩ := hp
  refine .made (.made (.pure ⟨rfl, ?_⟩))
  rw [Replacement.mentions_one, Node.mentions_toNode _ (by decide) (by simp [NodeView.toSlots, hparts.2.1])]
  simpa [NodeView.toSlots] using helements

/-- **Every form tells where the helper is mentioned.** -/
theorem told_rule (hn : n.Lacks k) :
    (rule visit n).Notes i (fun r m => Mention.Told m.derived (r.nodes.flatMap Node.mentions)) := by
  unfold rule
  split
  · exact told_sourceUnit h hn
  · exact .pure .nil
  · exact told_classDeclaration h hn
  · exact told_moduleDeclaration h hn
  · exact told_enumDeclaration h hn
  · exact told_functionStatement h hn
  · exact told_variableStatement h hn ‹_›
  · exact told_variableDeclarator h hn
  · exact .pure .nil
  · refine .viewLacking hn (fun v hv _ hparts => ?_)
    simp only [NodeView.toSlots, List.forall_mem_cons, Slot.each_node] at hparts
    refine (told_parameterList hparts.1).given (fun p hp => .made (.pure ?_))
    rw [Replacement.mentions_one, Build.mentions_callSignature, hp.1]
    exact .nil
  · refine (told_parameterList hn).given (fun p hp => .pure ?_)
    rw [Replacement.mentions_one, hp.1]
    exact .nil
  · refine .given (R := fun m => m.mentions = []) (.viewLacking hn (fun v _ _ hparts => ?_)) (fun m hm => .pure ?_)
    · simp only [NodeView.toSlots, List.forall_mem_cons, Slot.each_token] at hparts
      exact .make ⟨rfl, Build.mentions_parameter hparts.2.2.1⟩
    · rw [Replacement.mentions_one, hm]
      exact .nil
  · exact told_expressionStatement h hn
  · exact told_thisExpression hn
  · exact told_castExpression h hn
  · exact told_invocation h hn
  · exact told_memberAccess h hn
  · exact told_functionValue h hn
  · exact told_objectAccessor h hn
  · exact told_objectAccessor h hn
  · exact told_simpleArrow h hn
  · exact told_parenthesizedArrow h hn
  · exact told_walked h hn

omit h in
/-- **Every tree tells where the helper is mentioned**, level by level. -/
theorem tells_visitUpTo : ∀ levels, Tells (visitUpTo levels)
  | 0 => ⟨fun _ _ => .fail, fun _ _ => .fail⟩
  | levels + 1 => by
    refine ⟨fun _ hn => told_rule (tells_visitUpTo levels) hn, fun i hk => ?_⟩
    unfold visitUpTo rule
    rw [hk]
    exact .pure rfl

end Draft

end Downlevel
