import Downlevel.Proofs.Lowering.Members
import Downlevel.Proofs.Outline.Captures
/-!
# Proofs.Outline.Scoped — enums and classes keep to what is written down of their `this`

The function around an enum is no scope.  The function around a class is one, in which the call that sets up inheritance
stands in front of a captured `this`; a constructor is one together with the fields of objects, and so is each method and
each accessor.
-/
namespace Downlevel

variable {a : Account} {b n : Node} {i captured : Bool} {j k : Nat} {ns members : List Node} {t name : Token}

/-- The first constructor with a body is one of the members. -/
theorem Node.Sound.firstConstructor {F : Node → Prop} {L : Demand} : ∀ {ns : List Node}, (∀ n ∈ ns, n.Sound F L k) →
    ∀ p ∈ LoweringContext.firstConstructor? ns, p.2.1.parameters.Sound F L k ∧ p.2.2.Sound F L k
  | [], _ => fun _ hp => by cases hp
  | n :: ns, hns => by
    obtain ⟨hn, hns⟩ := List.forall_mem_cons.1 hns
    rw [LoweringContext.firstConstructor?]
    cases hv : n.view? ConstructorDeclaration with
    | none => exact firstConstructor hns
    | some v =>
      have hparts := hn.parts hv
      simp only [NodeView.toSlots, List.forall_mem_cons, Slot.each_node, Slot.each_ofNode?] at hparts
      dsimp only
      split
      · rename_i block hb
        intro p hp
        rw [← Option.some.inj hp]
        exact ⟨hparts.2.1, hparts.2.2.1 block hb⟩
      · exact firstConstructor hns

namespace LoweringContext

@[simp] theorem references_memberTarget : (memberTarget n t j).1.references = n.references := by
  unfold memberTarget
  split <;> simp [Fresh.bind_apply]

@[simp] theorem references_assignmentStatement : (assignmentStatement n b j).1.references = n.references ++ b.references := by
  simp [assignmentStatement, Fresh.bind_apply]

theorem references_assignSameName (ht : t.isCapture = false) : (assignSameName n t j).1.references = n.references := by
  simp [assignSameName, Fresh.bind_apply, Build.references_nameExpression ht]

@[simp] theorem references_orCreate : (orCreate n b j).1.references = n.references ++ b.references := by
  simp [orCreate, Fresh.bind_apply]

/-! ## Enums -/

@[simp] theorem references_numberExpression {x : Binary64} : (numberExpression x j).1.references = [] := by
  unfold numberExpression
  split <;> simp [Fresh.bind_apply]

theorem references_implicitValue (ht : name.isCapture = false) {previous : PreviousValue} :
    (implicitValue name t previous j).1.1.references = [] := by
  cases previous with
  | ordinal next => exact references_numberExpression
  | known x => exact references_numberExpression
  | member before =>
    simp only [implicitValue, Fresh.bind_apply, Fresh.pure_apply]
    simp [Build.references_nameExpression ht]

theorem references_reverseMap (ht : t.isCapture = false) : (reverseMap t j).1.references = [] := by
  simp [reverseMap, Fresh.bind_apply, Build.references_nameExpression ht]

theorem references_enumRecord (ht : name.isCapture = false) : (enumRecord name t n j).1.references = n.references := by
  simp [enumRecord, Fresh.bind_apply, Build.references_nameExpression ht, references_reverseMap ht]

theorem references_reverseMapStart (ht : t.isCapture = false) : (reverseMapStart t j).1.references = [] := by
  simp [reverseMapStart, Fresh.bind_apply, references_reverseMap ht]

theorem references_reopened (ht : t.isCapture = false) : (reopened t j).1.references = [] := by
  simp [reopened, Fresh.bind_apply, Build.references_nameExpression ht]

/-! ## Classes -/

/-- The accessors of a property are among the members. -/
theorem mem_of_mem_accessorsOf {key : AccessorKey} {p : String × Node} (h : p ∈ accessorsOf members key) :
    p.2 ∈ members := by
  have hfound : ∀ (word : String) (kind : NodeKind), p ∈ (((members.filter (fun n => n.accessorKey? == some key)).find?
      (fun n => n.kind == kind)).map (fun n => (word, n))).toList → p.2 ∈ members := fun word kind hp => by
    obtain ⟨m, hm, rfl⟩ := Option.map_eq_some_iff.1 (Option.mem_toList.1 hp)
    exact List.mem_of_mem_filter (List.mem_of_find?_eq_some hm)
  rcases List.mem_append.1 h with hp | hp
  · exact hfound _ _ hp
  · exact hfound _ _ hp

theorem references_extendsCall (ht : t.isCapture = false) : (extendsCall t j).1.references = [] := by
  simp [extendsCall, Fresh.bind_apply, Build.references_name, Build.references_nameExpression ht]

end LoweringContext

namespace Draft

open LoweringContext

@[simp] theorem references_descriptorProperty {word : String} : (descriptorProperty word n j).1.references = n.references := by
  simp [descriptorProperty, Fresh.bind_apply]

@[simp] theorem references_flagProperty {word : String} : (flagProperty word j).1.references = [] := by
  simp [flagProperty, Fresh.bind_apply]

variable {visit : Node → Draft Replacement} {account : Bool → Node → Account} (h : Keeps visit account)
include h

theorem notes_enumValue {e : EnumElement} (previous : PreviousValue) (hname : name.isCapture = false)
    (hvalue : ∀ n ∈ e.value, n.Unnamed k) : (enumValue visit name e previous).Notes i (fun p m =>
      Account.mk m p.1.references = Account.each account i (Node.clauseValue e.value)) := by
  refine (notes_viewClause e.value).given (fun c hc => ?_)
  have hvalues := hc ▸ Node.Sound.clauseValue hvalue
  rw [← hc]
  cases c with
  | none => exact .make (Account.mk_eq rfl (references_implicitValue hname))
  | some c =>
    rw [Option.map_some, Option.toList_some, Account.each_singleton]
    refine (notes_lower h (hvalues _ (List.mem_singleton.2 rfl))).andThen (fun value m hm => ?_)
    split <;> exact .pure ⟨rfl, hm⟩

theorem notes_enumRecords (hname : name.isCapture = false) : ∀ {ns : List Node} (previous : PreviousValue),
    (∀ n ∈ ns, n.Unnamed k) → (enumRecords visit name ns previous).Notes i (fun ms m =>
      Account.mk m (ms.flatMap Node.references) = Account.each account i (Node.enumParts ns))
  | [], _, _ => .pure rfl
  | n :: ns, previous, hns => by
    obtain ⟨hn, hns⟩ := List.forall_mem_cons.1 hns
    rw [enumRecords, Node.enumParts, List.flatMap_cons, Account.each_append]
    cases hv : n.view? EnumElement with
    | none =>
      rw [Node.partsAs, hv, Option.map_none, Option.getD_none, Account.each_nil, Account.none_append]
      exact notes_enumRecords hname _ hns
    | some e =>
      have hvalue : ∀ m ∈ e.value, m.Unnamed k :=
        Slot.each_ofNode?.1 (hn.parts hv _ (by simp [NodeView.toSlots]))
      refine (notes_enumValue h previous hname hvalue).bind (fun p m hp => .made ?_)
      refine (notes_enumRecords hname _ hns).andThen (fun ms m' hms => .pure ⟨rfl, ?_⟩)
      rw [Node.partsAs_eq hv, ← hp, List.flatMap_cons, references_enumRecord hname]
      exact congrArg (Account.mk m p.1.references ++ ·) hms

/-- **The function around an enum declares no `_this`**; what its values refer to belongs to the scope around. -/
theorem notes_enumDeclaration (hn : n.Unnamed k) (hk : n.kind = .enumDeclaration) :
    (enumDeclaration visit n).Notes i (Replacement.Meets (Account.around (Account.each account i n.loweredParts))) := by
  refine .viewUnnamed hn (fun v hv _ hparts => ?_)
  have hlowered : n.loweredParts = if v.declared.isSome then [] else Node.enumParts v.members.members := by
    rw [Node.loweredParts, hk]
    exact Node.partsAs_eq hv _
  rw [hlowered]
  simp only [NodeView.toSlots, List.forall_mem_cons, Slot.each_token, Slot.each_separated] at hparts
  obtain ⟨-, -, -, hname, -, ⟨hmembers, -⟩, -⟩ := hparts
  refine .ite (fun hdeclared => .pure (by rw [if_pos hdeclared]; rfl)) (fun hdeclared => .made ?_)
  rw [if_neg hdeclared]
  refine (notes_enumRecords h hname _ hmembers).andThen (fun records m hrecords => ?_)
  refine .made (.made (.made (.made (.pure ⟨rfl, Account.mk_eq (congrArg Account.marks hrecords) ?_⟩))))
  have hblock : (braced ((reverseMapStart v.name 0).1 :: records) 0).1.references = (Account.each account i
      (Node.enumParts v.members.members)).references := by
    rw [references_braced, List.flatMap_cons, references_reverseMapStart hname]
    exact congrArg Account.references hrecords
  have hcall : ∀ l, (wrapperCall [(Build.parameter v.name 0).1] (braced ((reverseMapStart v.name 0).1 :: records) 0).1
      [(reopened v.name (Build.parameter v.name 0).2).1] l).1.references = _ := fun l =>
    references_wrapperCall_around (Account.proper_each h.proper) (by simp) (by simp [references_reopened hname]) hblock
  have hbinding : (Build.variableStatement v.name none 0).1.references = [] := by
    simp [Build.references_variableStatement hname]
  rw [Replacement.nodes, List.flatMap_cons, List.flatMap_singleton, hbinding, List.nil_append,
    Build.references_expressionStatement]
  exact hcall _

/-! ## Fields and constructors -/

theorem notes_fieldAssignment {receiver : Fresh Node} {rs : List Reference} {field : MemberVariable}
    (hr : ∀ j, (receiver j).1.references = rs) (hf : field.declarator.Unnamed k) :
    (fieldAssignment visit receiver field).Notes false (fun ms m =>
      Account.mk m (ms.flatMap Node.references) = Account.field account rs field) := by
  refine .viewUnnamed hf (fun v hv _ hparts => ?_)
  rw [Account.field, MemberVariable.parts, Node.partsAs_eq hv]
  simp only [NodeView.toSlots, List.forall_mem_cons, Slot.each_ofNode?] at hparts
  refine (notes_viewClause v.value).given (fun c hc => ?_)
  have hvalues := hc ▸ Node.Sound.clauseValue hparts.2.2.1
  rw [← hc]
  cases c with
  | none => exact .pure rfl
  | some c =>
    refine (notes_lower h (hvalues _ (List.mem_singleton.2 rfl))).andThen (fun value m hm => ?_)
    refine .made (.made (.pure ⟨rfl, ?_⟩))
    have htarget : ∀ l l', (memberTarget (receiver l).1 v.name l').1.references = rs := fun l l' => by
      rw [references_memberTarget, hr]
    rw [Option.map_some, Option.toList_some, List.map_singleton, ← hm, List.flatMap_singleton,
      references_assignmentStatement, show Account.all [_] = _ from Account.append_none _]
    exact Account.mk_eq (Marks.none_and m).symm (congrArg (· ++ value.references) (htarget _ _))

theorem notes_instanceFields : ∀ {members : List Node}, (∀ n ∈ members, n.Unnamed k) →
    (instanceFields visit members).Notes false (fun ms m =>
      Account.mk m (ms.flatMap Node.references) = Account.instanceFields account members)
  | [], _ => .pure rfl
  | n :: members, hmembers => by
    obtain ⟨hn, hmembers⟩ := List.forall_mem_cons.1 hmembers
    have hrest : ∀ (here : List Node) (m : Marks) (b : Account), Account.mk m (here.flatMap Node.references) = b →
        (do return here ++ (← instanceFields visit members) : Draft (List Node)).Notes false (fun ms m' =>
          Account.mk (m.and m') (ms.flatMap Node.references) = b ++ Account.instanceFields account members) :=
      fun here m b hhere => (notes_instanceFields hmembers).andThen (fun ms m' hms => .pure ⟨rfl, by
        rw [List.flatMap_append, ← hhere, ← hms]
        rfl⟩)
    rw [instanceFields]
    show Draft.Notes _ _ (fun (ms : List Node) m => Account.mk m (ms.flatMap Node.references) =
      Account.ofView MemberVariable n _ ++ Account.instanceFields account members)
    have hnone : (do return [] ++ (← instanceFields visit members) : Draft (List Node)).Notes false (fun ms m =>
        Account.mk m (ms.flatMap Node.references) = Account.none ++ Account.instanceFields account members) :=
      (hrest [] .none .none rfl).mono (fun ms m hms => by rwa [Marks.none_and] at hms)
    cases hv : n.view? MemberVariable with
    | none =>
      rw [Account.ofView, hv]
      exact .given (R := (· = [])) (.pure ⟨rfl, rfl⟩) (fun here heq => heq ▸ hnone)
    | some field =>
      rw [Account.ofView_eq hv]
      have hfield : field.declarator.Unnamed k :=
        Slot.each_node.1 (hn.parts hv _ (by simp [NodeView.toSlots]))
      dsimp only
      split
      · exact .given (R := (· = [])) (.pure ⟨rfl, rfl⟩) (fun here heq => heq ▸ hnone)
      · exact (notes_fieldAssignment h (fun _ => Build.references_this) hfield).bind (fun here m hhere => hrest here m _ hhere)

theorem notes_staticField (hname : name.isCapture = false) (hn : n.Unnamed k) :
    (staticField visit name n).Notes false (fun ms m => Account.mk m (ms.flatMap Node.references) =
      Account.ofView MemberVariable n fun v => if v.isStatic.isSome then Account.field account [] v else .none) := by
  refine .viewUnnamed hn (fun v hv _ hparts => ?_)
  rw [Account.ofView_eq hv]
  simp only [NodeView.toSlots, List.forall_mem_cons, Slot.each_node] at hparts
  refine .ite (fun hnone => .pure ?_) (fun hsome => ?_)
  · rw [if_neg (by simpa using hnone)]
    rfl
  · rw [if_pos (by simpa [Option.isSome_iff_ne_none] using hsome)]
    exact notes_fieldAssignment h (fun _ => Build.references_nameExpression hname) hparts.2.2.1

/-- The statements of a constructor: those that call the base constructor, and the others. -/
theorem notes_constructorStatements (derived : HasBase) : ∀ {ns : List Node}, (∀ n ∈ ns, n.Unnamed k) →
    (constructorStatements visit derived ns).Notes i (fun p m => ∃ m₁ m₂, m = m₁.and m₂ ∧
      Account.mk m₁ (p.1.flatMap Node.references) = Account.each account i (ns.filter (Node.callsBase derived)) ∧
      Account.mk m₂ (p.2.flatMap Node.references) = Account.each account i (ns.filter (fun n => !n.callsBase derived)))
  | [], _ => .pure ⟨.none, .none, rfl, rfl, rfl⟩
  | n :: ns, hns => by
    obtain ⟨hn, hns⟩ := List.forall_mem_cons.1 hns
    refine (h.made i hn).bind (fun r m hr => (notes_constructorStatements derived hns).andThen (fun p m' hp => ?_))
    obtain ⟨m₁, m₂, rfl, hcalls, hothers⟩ := hp
    refine .ite (fun hcall => .pure ⟨rfl, m.and m₁, m₂, (Marks.and_assoc ..).symm, ?_, ?_⟩)
      (fun hcall => .pure ⟨rfl, m₁, m.and m₂, by ac_rfl, ?_, ?_⟩)
    · rw [List.filter_cons_of_pos (show n.callsBase derived = true from hcall), Account.each_cons, List.flatMap_append,
        ← hcalls, ← show _ = account i n from hr]
      rfl
    · rw [List.filter_cons_of_neg (by simp [Node.callsBase, hcall])]
      exact hothers
    · rw [List.filter_cons_of_neg (show ¬ n.callsBase derived = true from hcall)]
      exact hcalls
    · rw [List.filter_cons_of_pos (by simpa [Node.callsBase, -Bool.not_and, -Bool.and_eq_true] using hcall),
        Account.each_cons, List.flatMap_append, ← hothers, ← show _ = account i n from hr]
      rfl

omit h in
/-- Each parameter that is a field too is set by way of `this`. -/
theorem notes_properties {ts : List Token} (hts : ∀ t ∈ ts, t.isCapture = false) :
    (ts.mapM (fun name => make (propertyStatement name))).Notes i (fun ms m =>
      Account.mk m (ms.flatMap Node.references) = Account.added (List.replicate ts.length .this)) := by
  have hstatements : (ts.mapM (fun name => make (propertyStatement name))).Notes i (fun ms m =>
      Account.mk m (ms.flatMap Node.references) = Account.all (ts.map (fun _ => Account.added [.this]))) :=
    Notes.mapM (fun t ht => .make (Account.mk_eq rfl (by
      simp [propertyStatement, Fresh.bind_apply, references_assignSameName (hts t ht), Build.references_this,
        Account.added])))
  refine hstatements.mono (fun ms m hms => hms.trans ?_)
  clear hts hstatements hms
  induction ts with
  | nil => rfl
  | cons t ts ih =>
    rw [List.map_cons, List.length_cons, List.replicate_succ]
    exact (congrArg (Account.added [.this] ++ ·) ih).trans rfl

/-- **A constructor is a scope together with the fields of objects.** -/
theorem notes_constructorFunction (derived : HasBase) (hmembers : ∀ n ∈ members, n.Unnamed k) (hb : b.Unnamed k)
    (hn : n.Unnamed k) : (constructorFunction visit members name b n derived).Notes i (fun f m =>
      Account.mk m f.references = Account.scope 0 (Account.constructed account members derived n b)) := by
  have hproper : (Account.constructed account members derived n b).Proper := Account.proper_constructed h.proper derived
  refine (Notes.inScope (P := fun (p : Node × List Node × List Node) m => p.1.references = [] ∧
    Account.mk m (p.2.1.flatMap Node.references ++ p.2.2.flatMap Node.references) =
      Account.constructed account members derived n b) ?_).andThen (fun p m hp => ?_)
  · refine (notes_parameterList hn).given (fun p hp => ?_)
    obtain ⟨hlist, hfacts⟩ := hp
    refine .viewUnnamed hb (fun v hv _ hparts => ?_)
    simp only [NodeView.toSlots, List.forall_mem_cons, Slot.each_list] at hparts
    have hstatements : b.blockStatements = v.statements := Node.partsAs_eq hv _
    refine (notes_constructorStatements h derived hparts.2.1).bind (fun q m hq => ?_)
    obtain ⟨m₁, m₂, rfl, hcalls, hothers⟩ := hq
    refine (notes_parameterPrologue h hfacts).bind (fun prologue m₃ hprologue => ?_)
    refine (notes_properties hfacts.fields).bind (fun properties m₄ hproperties => ?_)
    refine (notes_instanceFields h hmembers).andThen (fun fields m₅ hfields => .pure ⟨rfl, hlist, ?_⟩)
    rw [hfacts.values] at hprologue
    rw [hfacts.properties] at hproperties
    rw [← hstatements] at hcalls hothers
    -- The parts are written down in another order than they are lowered in, which the account does not show.
    unfold Account.constructed
    rw [← hcalls, ← hothers, ← hfields, ← hproperties, ← defaultValues_listedParameters, ← hprologue]
    refine Account.mk_eq ?_ (by simp)
    simp only [Account.marks_append]
    ac_rfl
  obtain ⟨⟨list, prologue, rest⟩, captured⟩ := p
  obtain ⟨m', hm, hcaptured, hlist, hbody⟩ := hp
  have hmarks : m' = (Account.constructed account members derived n b).marks := congrArg Account.marks hbody
  dsimp only at hcaptured hlist hbody ⊢
  refine .made (.viewAny (fun v _ => .made ?_))
  rw [hcaptured, hmarks]
  have hlowered : (NodeView.toNode { v with statements := rest } 0).1.references = rest.flatMap Node.references :=
    (references_toNode _ rfl).trans (by simp [NodeView.toSlots])
  refine (notes_assembleBlock hproper (by rw [hlowered]; exact (congrArg Account.references hbody).symm)).given
    (fun block hblock => .make ⟨rfl, Account.mk_eq (by rw [hm, hmarks]; rfl) ?_⟩)
  rw [references_functionDeclaration hlist, hblock.captures, hblock.references]
  rfl

omit h in
theorem references_forwardToBase : (forwardToBase j).1.references = [.this] := by
  simp [forwardToBase, Fresh.bind_apply, Build.references_name, Build.references_this]

theorem notes_synthesizedConstructor (derived : HasBase) (hmembers : ∀ n ∈ members, n.Unnamed k) :
    (synthesizedConstructor visit members name derived).Notes i (fun f m => Account.mk m f.references =
      Account.scope 0 (Account.added (if derived then [.this] else []) ++ Account.instanceFields account members)) := by
  have hproper : (Account.added (if derived then [.this] else []) ++ Account.instanceFields account members).Proper :=
    (Account.Proper.receiver derived).append (Account.proper_instanceFields h.proper)
  refine (notes_instanceFields h hmembers).inScope.andThen (fun p m hp => ?_)
  obtain ⟨fields, captured⟩ := p
  obtain ⟨m', rfl, hcaptured, hfields⟩ := hp
  dsimp only at hcaptured hfields ⊢
  have hfinish : ∀ forward : List Node, forward.flatMap Node.references = (if derived then [.this] else []) →
      (do
        let statements ← make (withCapture captured (forward ++ fields))
        let block ← make (braced statements)
        make (do functionDeclaration name (← Build.parameterList []) block) : Draft Node).Notes i (fun f m => m = .none ∧
          Account.mk ⟨false, m'.derived⟩ f.references = Account.scope 0
            (Account.added (if derived then [.this] else []) ++ Account.instanceFields account members)) := by
    intro forward hforward
    rw [← hforward, ← hfields] at hproper ⊢
    have hmarks : captured = (Account.added (forward.flatMap Node.references) ++
        ⟨m', fields.flatMap Node.references⟩).marks.captured := by rw [hcaptured]; rfl
    have hholds := holds_braced (j := 0) (l := 0) hproper
      (show (forward ++ fields).flatMap Node.references = _ from List.flatMap_append ..)
    refine .made (.made (.make ⟨rfl, Account.mk_eq rfl ?_⟩))
    rw [hmarks]
    show (functionDeclaration name (Build.parameterList [] 0).1 _ _).1.references = _
    rw [references_functionDeclaration (by simp), hholds.captures, hholds.references]
    rfl
  refine .ite
    (fun hd => .made (.given (R := fun ms => ms.flatMap Node.references = [.this]) (.pure ⟨rfl, ?_⟩) (fun ms hms => ?_)))
    (fun hd => .given (R := fun ms => ms.flatMap Node.references = []) (.pure ⟨rfl, rfl⟩) (fun ms hms => ?_))
  · rw [List.flatMap_singleton, references_forwardToBase]
  · exact hfinish ms (by rw [hms, if_pos hd])
  · exact hfinish ms (by rw [hms, if_neg hd])

theorem notes_classConstructor (derived : HasBase) (hmembers : ∀ n ∈ members, n.Unnamed k) :
    (classConstructor visit members name derived).Notes i (fun f m =>
      Account.mk m f.references = Account.constructor account members derived) := by
  unfold classConstructor Account.constructor
  cases hfirst : firstConstructor? members with
  | none => exact notes_synthesizedConstructor h derived hmembers
  | some p =>
    obtain ⟨hparameters, hblock⟩ := Node.Sound.firstConstructor hmembers p hfirst
    exact notes_constructorFunction h derived hmembers hblock hparameters

/-! ## Methods and accessors -/

omit h in
theorem references_classReceiver {isStatic : Bool} (ht : t.isCapture = false) :
    (classReceiver t isStatic j).1.references = [] := by
  unfold classReceiver
  cases isStatic <;> simp [Fresh.bind_apply, Fresh.pure_apply, Build.references_nameExpression ht]

omit h in
theorem references_functionExpression_scope {parameters : Node} (hp : parameters.references = []) (hb : b.Holds a) :
    (functionExpression parameters b j).1.references = (a.scope 0).references := by
  rw [references_functionExpression hp, hb.captures, hb.references]
  rfl

theorem notes_method (hname : name.isCapture = false) (hn : n.Unnamed k) : (method visit name n).Notes i (fun ms m =>
    Account.mk m (ms.flatMap Node.references) =
      Account.scope 0 (Account.each account false (n.partsAs MemberFunction MemberFunction.parts))) := by
  refine .viewUnnamed hn (fun v hv _ hparts => ?_)
  rw [Node.partsAs_eq hv, MemberFunction.parts]
  simp only [NodeView.toSlots, List.forall_mem_cons, Slot.each_node, Slot.each_ofNode?] at hparts
  obtain ⟨-, -, -, hsignature, hblock, -⟩ := hparts
  split
  · rename_i hnone
    rw [hnone]
    exact .pure rfl
  · rename_i block hsome
    rw [hsome, Option.map_some, Option.getD_some]
    refine notes_signature h hsignature (hblock block hsome)
      (fun s p hlist hbody => .made (.made (.made (.pure ⟨rfl, Account.mk_eq rfl ?_⟩))))
    have htarget : ∀ l l', (memberTarget (classReceiver name v.isStatic.isSome l).1 v.name l').1.references = [] :=
      fun l l' => by rw [references_memberTarget, references_classReceiver hname]
    rw [List.flatMap_singleton, references_assignmentStatement, references_functionExpression_scope hlist hbody]
    exact congrArg (· ++ _) (htarget _ _)

/-- **The function in place of an accessor is a scope.** -/
theorem notes_accessorFunction (hn : n.Unnamed k) : (accessorFunction visit n).Notes i (fun f m =>
    Account.mk m f.references = Account.scope 0 (Account.each account false n.accessorParts)) := by
  have hfunction : ∀ parameters block : Node, parameters.Unnamed k → block.Unnamed k →
      (functionLike visit parameters block >>= fun p => make (functionExpression p.1 p.2)).Notes i (fun f m =>
        Account.mk m f.references = Account.scope 0 (Account.each account false (Node.functionParts parameters block))) :=
    fun parameters block hp hb => (notes_functionLike h hp hb).andThen (fun p m hp =>
      .make ⟨rfl, Account.mk_eq hp.1 (references_functionExpression_scope hp.2.1 hp.2.2)⟩)
  unfold accessorFunction Node.accessorParts
  cases hget : n.view? MemberGetter with
  | some v =>
    have hparts := hn.parts hget
    simp only [NodeView.toSlots, List.forall_mem_cons, Slot.each_node] at hparts
    obtain ⟨-, -, -, -, hparameters, -, hblock, -⟩ := hparts
    exact .given (R := (· = (v.parameters, v.block))) (.pure ⟨rfl, rfl⟩)
      (fun p hp => hp ▸ hfunction _ _ hparameters hblock)
  | none =>
    refine .viewUnnamed hn (fun v hv _ hparts => ?_)
    simp only [NodeView.toSlots, List.forall_mem_cons, Slot.each_node] at hparts
    obtain ⟨-, -, -, -, hparameters, hblock, -⟩ := hparts
    rw [hv]
    exact .given (R := (· = (v.parameters, v.block))) (.pure ⟨rfl, rfl⟩)
      (fun p hp => hp ▸ hfunction _ _ hparameters hblock)

theorem notes_accessorProperties : ∀ {accessors : List (String × Node)}, (∀ a ∈ accessors, a.2.Unnamed k) →
    (accessorProperties visit accessors).Notes i (fun ms m => Account.mk m (ms.flatMap Node.references) =
      Account.all (accessors.map (fun a => Account.scope 0 (Account.each account false a.2.accessorParts))))
  | [], _ => .pure rfl
  | a :: accessors, hns => by
    obtain ⟨ha, haccessors⟩ := List.forall_mem_cons.1 hns
    refine (notes_accessorFunction h ha).bind (fun f m hf => .made ?_)
    refine (notes_accessorProperties haccessors).andThen (fun ms m' hms => .pure ⟨rfl, ?_⟩)
    rw [List.flatMap_cons, references_descriptorProperty]
    show Account.mk m f.references ++ Account.mk m' (ms.flatMap Node.references) = _
    rw [hf, hms]
    rfl

/-- **The statement that defines a property with accessors** has the scopes of its accessors. -/
theorem notes_defineProperty (key : AccessorKey) (hname : name.isCapture = false) (hmembers : ∀ n ∈ members, n.Unnamed k) :
    (defineProperty visit name members key).Notes i (fun n m => Account.mk m n.references =
      Account.all ((accessorsOf members key).map
        (fun a => Account.scope 0 (Account.each account false a.2.accessorParts)))) := by
  have haccessors : ∀ a ∈ accessorsOf members key, a.2.Unnamed k := fun a ha => hmembers _ (mem_of_mem_accessorsOf ha)
  have hdescriptor : (descriptor visit (accessorsOf members key)).Notes i (fun d m => Account.mk m d.references =
      Account.all ((accessorsOf members key).map
        (fun a => Account.scope 0 (Account.each account false a.2.accessorParts)))) := by
    refine (notes_accessorProperties h haccessors).andThen
      (fun ms m hms => .made (.made (.made (.made (.made (.make ⟨rfl, ?_⟩))))))
    simpa using hms
  refine hdescriptor.andThen (fun d m hd => .made (.made (.made (.made (.made (.make ⟨rfl, ?_⟩))))))
  simpa [references_classReceiver hname, Build.references_name] using hd

/-! ## Classes -/

theorem notes_classMember (seen : List AccessorKey) (hname : name.isCapture = false)
    (hmembers : ∀ n ∈ members, n.Unnamed k) (hn : n.Unnamed k) : (classMember visit name members seen n).Notes false
      (fun ms m => Account.mk m (ms.flatMap Node.references) = Account.member account members seen n) := by
  unfold classMember Account.member
  by_cases hmethod : n.kind = .memberFunctionDeclaration
  · rw [hmethod]
    exact notes_method h hname hn
  by_cases hfield : n.kind = .memberVariableDeclaration
  · rw [hfield]
    exact notes_staticField h hname hn
  generalize n.kind = kind at hmethod hfield
  cases n.accessorKey? with
  | none => cases kind <;> first | exact absurd rfl hmethod | exact absurd rfl hfield | exact .pure rfl
  | some key =>
    have hproperty : (if seen.contains key then pure [] else do return [← defineProperty visit name members key] :
        Draft (List Node)).Notes false (fun ms m => Account.mk m (ms.flatMap Node.references) =
          Account.all ((((some key).filter (fun key => !seen.contains key)).toList.flatMap (accessorsOf members)).map
            (fun a => Account.scope 0 (Account.each account false a.2.accessorParts)))) := by
      refine .ite (fun hseen => .pure ?_) (fun hseen => ?_)
      · rw [Option.filter_some_neg (by simpa using hseen)]
        rfl
      · rw [Option.filter_some_pos (by simpa using hseen)]
        refine (notes_defineProperty h key hname hmembers).andThen (fun p m hp => .pure ⟨rfl, ?_⟩)
        simpa using hp
    cases kind <;> first | exact absurd rfl hmethod | exact absurd rfl hfield | exact hproperty

theorem notes_classMembers (hname : name.isCapture = false) (hmembers : ∀ n ∈ members, n.Unnamed k) :
    ∀ (seen : List AccessorKey) {ns : List Node}, (∀ n ∈ ns, n.Unnamed k) →
      (classMembers visit name members seen ns).Notes false
        (fun ms m => Account.mk m (ms.flatMap Node.references) = Account.classMembers account members seen ns)
  | _, [], _ => .pure rfl
  | seen, n :: ns, hns => by
    obtain ⟨hn, hns⟩ := List.forall_mem_cons.1 hns
    rw [classMembers, Account.classMembers]
    refine (notes_classMember h seen hname hmembers hn).bind (fun ms m hms => ?_)
    extract_lets seen'
    have hseen : seen' = n.accessorKey?.toList ++ seen := by
      unfold seen'
      cases n.accessorKey? <;> rfl
    rw [hseen]
    refine (notes_classMembers hname hmembers _ hns).andThen (fun rest m' hrest => .pure ⟨rfl, ?_⟩)
    rw [List.flatMap_append, ← hms, ← hrest]
    rfl

/-- **The body of a class**: the call that sets up inheritance, which refers to nothing, then the constructor and the
other members. -/
theorem notes_classBody {v : ClassDeclaration} (derived : HasBase) (hname : v.name.isCapture = false)
    (hmembers : ∀ n ∈ v.members, n.Unnamed k) : (classBody visit v derived).Notes false (fun p m =>
      p.1.length = (if derived then 1 else 0) ∧ p.1.flatMap Node.references = [] ∧
        Account.mk m (p.2.flatMap Node.references) = Account.derived derived ++
          Account.constructor account v.members derived ++ Account.classMembers account v.members [] v.members) := by
  have hgoes : ∀ inheritance : List Node, inheritance.length = (if derived then 1 else 0) →
      inheritance.flatMap Node.references = [] → (do
        let constructor ← classConstructor visit v.members v.name derived
        let members ← classMembers visit v.name v.members [] v.members
        let returned ← make (do Build.returnStatement (some (← Build.nameExpression v.name)))
        return (inheritance, constructor :: members ++ [returned]) : Draft (List Node × List Node)).Notes false
          (fun p m => p.1.length = (if derived then 1 else 0) ∧ p.1.flatMap Node.references = [] ∧
            Account.mk ((Account.derived derived).marks.and m) (p.2.flatMap Node.references) = Account.derived derived ++
              Account.constructor account v.members derived ++ Account.classMembers account v.members [] v.members) := by
    intro inheritance hlength hnone
    refine (notes_classConstructor h derived hmembers).bind (fun constructor m hconstructor => ?_)
    refine (notes_classMembers h hname hmembers [] hmembers).andThen (fun members m' hrest =>
      .made (.pure ⟨rfl, hlength, hnone, ?_⟩))
    rw [← hconstructor, ← hrest]
    refine Account.mk_eq (Marks.and_assoc ..).symm ?_
    simp [Fresh.bind_apply, Build.references_nameExpression hname, Account.derived]
  unfold classBody
  cases derived with
  | true =>
    refine .bind (P := fun _ m => m = (Account.derived true).marks) (fun _ _ heq => by cases heq; rfl) (fun _ m hm => ?_)
    subst hm
    refine .made ?_
    rw [pure_bind]
    exact hgoes _ rfl (by rw [List.flatMap_singleton, references_extendsCall hname])
  | false =>
    simp only [Bool.false_eq_true, if_false, pure_bind]
    exact (hgoes [] rfl rfl).mono (fun p m hp =>
      ⟨hp.1, hp.2.1, (congrArg (Account.mk · _) (Marks.none_and m).symm).trans hp.2.2⟩)

omit h in
theorem references_baseAccess {ts : List Token} : (ts.foldlM Build.memberAccess n j).1.references = n.references := by
  induction ts generalizing n j with
  | nil => rfl
  | cons t ts ih => rw [List.foldlM_cons, Fresh.bind_apply, ih, Build.references_memberAccess]

omit h in
/-- The base class refers to nothing. -/
theorem notes_baseExpression (hn : n.Unnamed k) : (baseExpression n).Notes i (fun b m => m = .none ∧ b.references = []) := by
  refine .viewUnnamed hn (fun v hv _ hparts => ?_)
  simp only [NodeView.toSlots, List.forall_mem_cons, Slot.each_separated] at hparts
  obtain ⟨-, ⟨hnames, -⟩, -⟩ := hparts
  split
  · exact .fail
  · rename_i base rest hmembers
    have hbase : base.Unnamed k := hnames base (by rw [hmembers]; exact List.mem_cons_self ..)
    have hparts : ∀ t ∈ base.nameParts, t.isCapture = false := fun t ht => (hbase.stands.nameParts t ht).isCapture
    split
    · exact .fail
    · rename_i first rest hfirst
      rw [hfirst] at hparts
      refine .made (.make ⟨rfl, ?_⟩)
      rw [references_baseAccess, Build.references_nameExpression (hparts first (List.mem_cons_self ..))]

omit h in
/-- **Statements behind others that refer to nothing hold the scope too**, with a captured `this` in front of them. -/
theorem holds_behind {front : List Node} (ha : a.Proper) (hr : ns.flatMap Node.references = a.references)
    (hfront : front.flatMap Node.references = []) :
    Node.capturesFrom 0 (front ++ (withCapture a.marks.captured ns j).1) = a.captures front.length ∧
      (front ++ (withCapture a.marks.captured ns j).1).flatMap Node.references = a.opened := by
  obtain ⟨hcaptures, hopened⟩ := holds_withCapture front.length j ha hr
  refine ⟨?_, by rw [List.flatMap_append, hfront, List.nil_append, hopened]⟩
  rw [Node.capturesFrom_append, Node.capturesFrom_eq_nil (by simp [hfront]), List.nil_append, Nat.zero_add, hcaptures]

omit h in
/-- A function that stands around statements that hold a scope is the scope. -/
theorem references_wrapperCall_scope {position l : Nat} {parameters arguments : List Node}
    (hcaptures : Node.capturesFrom 0 ns = a.captures position) (hopened : ns.flatMap Node.references = a.opened)
    (hp : parameters.flatMap Node.references = []) (hargs : arguments.flatMap Node.references = []) :
    (wrapperCall parameters (braced ns l).1 arguments j).1.references = (a.scope position).references := by
  rw [references_wrapperCall hp hargs, blockStatements_braced, references_braced, hcaptures, hopened]
  rfl

/-- **The function around a class is a scope**, in which the call that sets up inheritance stands in front of a captured
`this`. -/
theorem notes_classDeclaration (hn : n.Unnamed k) : (classDeclaration visit n).Notes i
    (Replacement.Meets (Account.ofView ClassDeclaration n
      (fun v => if v.declared.isSome then .none else Account.classOf account v))) := by
  refine .viewUnnamed hn (fun v hv _ hparts => ?_)
  rw [Account.ofView_eq hv]
  simp only [NodeView.toSlots, List.forall_mem_cons, Slot.each_token, Slot.each_ofNode?, Slot.each_list] at hparts
  obtain ⟨-, -, -, hname, hbase, -, -, hmembers, -⟩ := hparts
  refine .ite (fun hdeclared => .pure (by rw [if_pos hdeclared]; rfl)) (fun hdeclared => ?_)
  rw [if_neg hdeclared]
  have hbases : (v.base.mapM baseExpression).Notes i (fun b m => m = .none ∧ b.isSome = v.base.isSome ∧
      b.toList.flatMap Node.references = []) := by
    cases hb : v.base with
    | none => exact .pure ⟨rfl, rfl, rfl⟩
    | some c =>
      show (some <$> baseExpression c).Notes i _
      rw [map_eq_pure_bind]
      refine (notes_baseExpression (hbase c hb)).given (fun b hb => .pure ⟨rfl, rfl, ?_⟩)
      simpa using hb
  refine hbases.given (fun base hb => ?_)
  obtain ⟨hsome, hnone⟩ := hb
  rw [hsome]
  refine (notes_classBody h v.base.isSome hname hmembers).inScope.andThen (fun p m hp => ?_)
  obtain ⟨⟨inheritance, statements⟩, captured⟩ := p
  obtain ⟨m', rfl, hcaptured, hlength, hinheritance, hstatements⟩ := hp
  generalize ha : Account.derived v.base.isSome ++ Account.constructor account v.members v.base.isSome ++
    Account.classMembers account v.members [] v.members = a at hstatements
  have hproper : a.Proper := ha ▸ ((Account.Proper.derived _).append (Account.proper_constructor h.proper _)).append
    (Account.proper_classMembers h.proper [])
  have hclass : Account.classOf account v = a.scope inheritance.length := by
    rw [Account.classOf, ha, hlength]
    cases v.base <;> rfl
  have hmarks : m' = a.marks := congrArg Account.marks hstatements
  dsimp only at hcaptured hlength hinheritance hstatements ⊢
  rw [hclass, hcaptured, hmarks]
  refine .made (.made ?_)
  obtain ⟨hcaptures, hopened⟩ := holds_behind (j := 0) hproper (congrArg Account.references hstatements) hinheritance
  -- The call that sets up inheritance refers to no `this`, so a captured one may stand behind it.
  generalize inheritance ++ (withCapture a.marks.captured statements 0).1 = body at hcaptures hopened
  have hgoes : ∀ parameters : List Node, parameters.flatMap Node.references = [] → (do
      let call ← make (wrapperCall parameters (braced body 0).1 base.toList)
      return .one (← make (Build.variableStatement v.name (some call))) : Draft Replacement).Notes i (fun r m =>
        m = .none ∧ r.Meets (a.scope inheritance.length) ⟨false, a.marks.derived⟩) := by
    intro parameters hparameters
    refine .made (.made (.pure ⟨rfl, Replacement.meets_one (Account.mk_eq rfl ?_)⟩))
    rw [Build.references_variableStatement hname, Option.toList_some, List.flatMap_singleton]
    exact references_wrapperCall_scope hcaptures hopened hparameters hnone
  refine .ite (fun _ => .made ?_) (fun _ => ?_)
  · rw [pure_bind]
    exact hgoes _ (by simp [Fresh.bind_apply])
  · rw [pure_bind]
    exact hgoes [] rfl

end Draft

end Downlevel
