import Downlevel.Proofs.Outline.ClassMembers
/-!
# Proofs.Outline.ClassRows — what a class becomes

A class becomes a variable with the call of a wrapper for its value.  In the wrapper stand the call that sets up
inheritance if there is a base, the captured `this` if some member captured it, the constructor, what became of the
members in their order, and the `return` of the class (`class_wrapper`).
-/
namespace Downlevel

/-! ## Forms -/

namespace Code

variable {C : Token} {n : Node} {ts : List Token} {j : ObjectId}

/-- The statement `__extends(C, _super);`. -/
def extendsCall (C : Token) : Node :=
  statement (call (Code.name (spelled "__extends")) [Code.name C, Code.name (spelled "_super")])

/-- The statements in the wrapper of the class `C`. -/
def classBody (C : Token) (derived capturing : Bool) (constructor : Node) (members : List Node) : List Node :=
  (if derived then [extendsCall C] else []) ++ captured capturing (constructor :: members ++ [returned (Code.name C)])

/-- The statement `var C = (function (_super) { body })(bases);`, without the parameter if there is no base. -/
def classVariable (C : Token) (derived : Bool) (body bases : List Node) : Node :=
  var C (some (wrapper (if derived then [spelled "_super"] else []) body bases))

theorem outline_extendsCall : (LoweringContext.extendsCall C j).1.outline = extendsCall C := by
  simp only [LoweringContext.extendsCall, Fresh.bind_apply, outline_expressionStatement, outline_invocation, List.map_cons,
    List.map_nil, outline_nameExpression]
  rfl

theorem outline_baseAccess : ∀ {ts : List Token} {n : Node} {j : ObjectId},
    ((ts.map Token.outline).foldlM Build.memberAccess n j).1.outline = ts.foldl member n.outline
  | [], _, _ => rfl
  | t :: ts, n, j => by
    rw [List.map_cons, List.foldlM_cons, Fresh.bind_apply, outline_baseAccess, outline_memberAccess]
    rfl

end Code

/-- **The base of a class as an expression**: the path of the first name in the clause. -/
inductive Node.IsBase : Node → Node → Prop
  | mk {n name : Node} {clause : ExtendsClause} {names : List Node} {first : Token} {rest : List Token}
    (view : n.view? ExtendsClause = some clause) (extended : clause.names.members = name :: names)
    (parts : name.nameParts = first :: rest) : IsBase n (rest.foldl Code.member (Code.name first))

/-- **What the rules make the constructor of a class of**, wherever the class stands. -/
def Translation.MakesConstructor (T : Translation) (v : ClassDeclaration) (constructor : Node) : Prop :=
  ∃ levels marks, ∀ column,
    ((T.rules levels).classConstructor v.members v.name v.base.isSome column).Makes T.next Node.outline constructor marks

/-- **What a class is made of**: a constructor, which is a function with the name of the class, and a piece for each of its
members, in their order. -/
structure Translation.MakesClass (T : Translation) (v : ClassDeclaration) (constructor : Node)
    (pieces : List (List Node × Bool)) : Prop where
  made : T.MakesConstructor v constructor
  function : ∃ parameters block, constructor = Code.functionDeclaration v.name parameters block
  members : InTurn (T.MemberBecomes v.name v.members) [] v.members pieces

section

variable {W : Registry} {T : Translation} {C name : Token} {n : Node} {members ns : List Node} {i : Bool} {levels : Nat}
  {derived : HasBase} {v : ClassDeclaration} {visit : Node → Draft Replacement}

namespace Draft

/-- The base of a class is the path of its name. -/
theorem notes_baseExpression_isBase (hn : n.Held W) :
    (baseExpression n.outline).Notes i (fun b m => m = .none ∧ n.IsBase b.outline) := by
  refine .viewHeld hn (fun clause hclause => ?_)
  rw [show (OutlineView.outline clause).names.members = clause.names.members.map Node.outline from rfl]
  cases hnames : clause.names.members with
  | nil => exact .fail
  | cons base names =>
    simp only [List.map_cons, Node.nameParts_outline]
    cases hparts : base.nameParts with
    | nil => exact .fail
    | cons first rest =>
      refine .made (.make ⟨rfl, ?_⟩)
      rw [Code.outline_baseAccess]
      show n.IsBase (rest.foldl Code.member (Code.name first))
      exact .mk hclause hnames hparts

theorem notes_bases (h : ∀ c ∈ v.base, c.Held W) : ((v.base.map Node.outline).mapM baseExpression).Notes i (fun b m =>
    m = .none ∧ b.isSome = v.base.isSome ∧ List.Forall₂ Node.IsBase v.base.toList (b.toList.map Node.outline)) := by
  cases hb : v.base with
  | none => exact .pure ⟨rfl, rfl, .nil⟩
  | some c =>
    show (some <$> baseExpression c.outline).Notes i _
    rw [map_eq_pure_bind]
    exact (notes_baseExpression_isBase (h c hb)).given (fun b hb => .pure ⟨rfl, rfl, .cons hb .nil⟩)

/-- **A constructor is a declared function** with the name of the class, and captures no `this` around it. -/
theorem notes_classConstructor_function : (classConstructor visit members name derived).Notes i (fun n marks =>
    marks.captured = false ∧ ∃ parameters block, n.outline = Code.functionDeclaration name parameters block) := by
  unfold classConstructor
  split
  · refine (Notes.inScope (P := fun _ _ => True) (fun _ _ _ => trivial)).andThen (fun p marks hp => ?_)
    obtain ⟨marks', rfl, -⟩ := hp
    exact .made (.viewAny (fun _ _ => .made (notes_assembleBlock_none.given (fun _ _ =>
      .make ⟨rfl, rfl, _, _, Code.outline_functionDeclaration⟩))))
  · refine (Notes.inScope (P := fun _ _ => True) (fun _ _ _ => trivial)).andThen (fun p marks hp => ?_)
    obtain ⟨marks', rfl, -⟩ := hp
    refine .ite (fun _ => .made ?_) (fun _ => ?_)
    · rw [pure_bind]
      exact .made (.made (.make ⟨rfl, rfl, _, _, Code.outline_functionDeclaration⟩))
    · rw [pure_bind]
      exact .made (.made (.make ⟨rfl, rfl, _, _, Code.outline_functionDeclaration⟩))

theorem notes_classConstructor_makes (hn : n ∈ T.tree.all) (hv : n.view? ClassDeclaration = some v) :
    (classConstructor (visitUpTo levels) (v.members.map Node.outline) v.name.outline v.base.isSome).Notes false
      (fun constructor marks => marks.captured = false ∧ T.MakesConstructor v constructor.outline ∧
        ∃ parameters block, constructor.outline = Code.functionDeclaration v.name parameters block) := by
  intro constructor marks hd
  have hfollows : ∀ column (W : Registry), T.tree.Held W → Follows W
      ((T.rules levels).classConstructor v.members v.name v.base.isSome column)
      (classConstructor (visitUpTo levels) (v.members.map Node.outline) v.name.outline v.base.isSome) Node.Shows := by
    intro column W hheld
    have hslots := (hheld.below hn).slots
    rw [((hheld.below hn).slots_view hv).1] at hslots
    simp only [NodeView.toSlots, List.forall_mem_cons, Slot.held_token, Slot.held_list] at hslots
    obtain ⟨-, -, -, hname, -, -, -, hmembers, -⟩ := hslots
    exact (drafted_visitUpTo _ _ levels).classConstructor _ hname.shows hmembers
  obtain ⟨hcaptured, hfunction⟩ := notes_classConstructor_function _ _ hd
  exact ⟨hcaptured, ⟨levels, marks, fun column => T.makes_of_draft (hfollows column) hd (fun _ _ h => h.outline)⟩, hfunction⟩

/-- The constructor, what becomes of the members and the `return` of the class. -/
theorem notes_classStatements (levels : Nat) (hheld : T.tree.Held W) (hn : n ∈ T.tree.all)
    (hv : n.view? ClassDeclaration = some v) (inheritance : List Node) : (do
      let constructor ← classConstructor (visitUpTo levels) (v.members.map Node.outline) v.name.outline v.base.isSome
      let members ← classMembers (visitUpTo levels) v.name.outline (v.members.map Node.outline) []
        (v.members.map Node.outline)
      let returned ← make (do Build.returnStatement (some (← Build.nameExpression v.name.outline)))
      return (inheritance, constructor :: members ++ [returned]) : Draft (List Node × List Node)).Notes false
        (fun p marks => p.1 = inheritance ∧ ∃ constructor pieces, T.MakesClass v constructor pieces ∧
          marks.captured = pieces.any Prod.snd ∧
          p.2.map Node.outline = constructor :: pieces.flatMap Prod.fst ++ [Code.returned (Code.name v.name)]) := by
  have hmembers : ∀ m ∈ v.members, m ∈ T.tree.all := fun m hm =>
    hheld.part_mem hn hv (s := .list v.members) (by simp [NodeView.toSlots]) hm
  have hkinds : ∀ m ∈ v.members, m ∈ T.tree.all ∧ NodeClass.classMember.includes m.kind = true := fun m hm => by
    obtain ⟨v', hv', -, -, -, -, -, -, -, -, hstands, -⟩ :=
      (hheld.below hn).stands.classDeclaration (Node.kind_of_view? hv)
    cases hv.symm.trans hv'
    exact ⟨hmembers m hm, (hstands m hm).kind⟩
  refine (notes_classConstructor_makes hn hv).bind (fun constructor marks hconstructor => ?_)
  obtain ⟨hcaptured, hmade, hfunction⟩ := hconstructor
  refine (notes_classMembers_inTurn hheld hmembers hkinds met_nil).andThen (fun ms marks' hms => .made (.pure ⟨rfl, rfl, ?_⟩))
  obtain ⟨pieces, hpieces, hrow, hany⟩ := hms
  refine ⟨constructor.outline, pieces, ⟨hmade, hfunction, hpieces⟩, ?_, ?_⟩
  · rw [Marks.and, hcaptured, hany, Bool.false_or]
  · simp only [List.cons_append, List.map_cons, List.map_append, List.map_nil, hrow, Fresh.bind_apply,
      Code.outline_returnStatement, Code.outline_nameExpression, Code.name_outline]

/-- **The statements in the wrapper of a class.** -/
theorem notes_classBody_members (hheld : T.tree.Held W) (hn : n ∈ T.tree.all) (hv : n.view? ClassDeclaration = some v) :
    (classBody (visitUpTo levels) (OutlineView.outline v) v.base.isSome).Notes false (fun p marks =>
      p.1.map Node.outline = (if v.base.isSome then [Code.extendsCall v.name] else []) ∧
      ∃ constructor pieces, T.MakesClass v constructor pieces ∧ marks.captured = pieces.any Prod.snd ∧
        p.2.map Node.outline = constructor :: pieces.flatMap Prod.fst ++ [Code.returned (Code.name v.name)]) := by
  have hstatements := notes_classStatements levels hheld hn hv
  unfold classBody
  cases hderived : v.base.isSome with
  | true =>
    rw [hderived] at hstatements
    -- With a base the class is noted, which leaves `this` alone.
    refine .bind (P := fun _ m => m.captured = false) (fun _ _ heq => by cases heq; rfl) (fun _ m hm => .made ?_)
    rw [pure_bind]
    refine (hstatements _).mono (fun p marks hp => ?_)
    obtain ⟨hfront, constructor, pieces, hclass, hany, hrest⟩ := hp
    refine ⟨?_, constructor, pieces, hclass, by rw [Marks.and, hm, hany, Bool.false_or], hrest⟩
    rw [hfront, List.map_singleton]
    exact congrArg (fun n => [n]) Code.outline_extendsCall
  | false =>
    rw [hderived] at hstatements
    simp only [Bool.false_eq_true, if_false, pure_bind]
    refine (hstatements []).mono (fun p marks hp => ?_)
    obtain ⟨hfront, hrest⟩ := hp
    exact ⟨by rw [hfront]; rfl, hrest⟩

/-- **What becomes of a class.** -/
theorem notes_classDeclaration_wrapper (hheld : T.tree.Held W) (hn : n ∈ T.tree.all) (hv : n.view? ClassDeclaration = some v)
    (hdeclared : v.declared = none) : (classDeclaration (visitUpTo levels) n.outline).Notes false (fun r _ =>
      ∃ constructor pieces bases, List.Forall₂ Node.IsBase v.base.toList bases ∧ T.MakesClass v constructor pieces ∧
        r.nodes.map Node.outline = [Code.classVariable v.name v.base.isSome
          (Code.classBody v.name v.base.isSome (pieces.any Prod.snd) constructor (pieces.flatMap Prod.fst)) bases]) := by
  have hhere := hheld.below hn
  have hbase : ∀ c ∈ v.base, c.Held W := fun c hc => hheld.below
    (hheld.part_mem hn hv (s := .ofNode? v.base) (by simp [NodeView.toSlots]) (by simpa using hc))
  have hkept : (OutlineView.outline v).declared.isSome = false := by
    rw [show (OutlineView.outline v).declared = v.declared.map Token.outline from rfl, hdeclared]
    rfl
  refine .view (hhere.slots_view hv).2 (.ite (fun h => absurd h (by rw [hkept]; decide)) (fun _ => ?_))
  refine (notes_bases hbase).given (fun base hb => ?_)
  obtain ⟨hsome, hbases⟩ := hb
  rw [hsome]
  refine (notes_classBody_members hheld hn hv).inScope.andThen (fun p marks hp => ?_)
  obtain ⟨⟨inheritance, statements⟩, captured⟩ := p
  obtain ⟨marks', -, hcaptured, hfront, constructor, pieces, hclass, hany, hrest⟩ := hp
  dsimp only at hcaptured hfront hrest ⊢
  have hblock : ∀ j, (braced (inheritance ++ (withCapture captured statements 0).1) j).1.outline = Code.block
      (Code.classBody v.name v.base.isSome (pieces.any Prod.snd) constructor (pieces.flatMap Prod.fst)) := fun j => by
    rw [Code.outline_braced, List.map_append, hfront, Code.outlines_withCapture, hrest, hcaptured, hany]
    rfl
  -- The parameter of the wrapper is there if the base is.
  have hwrapped : ∀ (ns : List Node) (ts : List Token) (j k : ObjectId), ns.map Node.outline = ts.map Code.parameter →
      ts = (if v.base.isSome then [Code.spelled "_super"] else []) →
      (Build.variableStatement v.name.outline (some (wrapperCall ns (braced (inheritance ++
        (withCapture captured statements 0).1) 0).1 base.toList j).1) k).1.outline = Code.classVariable v.name v.base.isSome
          (Code.classBody v.name v.base.isSome (pieces.any Prod.snd) constructor (pieces.flatMap Prod.fst))
          (base.toList.map Node.outline) := by
    intro ns ts j k hns hts
    rw [Code.outline_variableStatement, Option.map_some, Code.outline_wrapperCall hns, hblock, hts]
    rfl
  refine .made (.made (.ite (fun hderived => .made ?_) (fun hplain => ?_)))
  · rw [pure_bind]
    refine .made (.made (.pure ⟨rfl, constructor, pieces, _, hbases, hclass, ?_⟩))
    exact congrArg (fun n => [n]) (hwrapped _ [Code.spelled "_super"] _ _ rfl (if_pos hderived).symm)
  · rw [pure_bind]
    refine .made (.made (.pure ⟨rfl, constructor, pieces, _, hbases, hclass, ?_⟩))
    exact congrArg (fun n => [n]) (hwrapped [] [] _ _ rfl (if_neg hplain).symm)

end Draft

/-- **What a class becomes.**  Of a program that is lowered, a class becomes one statement, a variable with the call of a
wrapper for its value, if it is not declared to be elsewhere and stands in no namespace that is.  In the wrapper stand, in
this order and with nothing else, the call that sets up inheritance if the class has a base, the captured `this` if some
member captured it, the constructor function, what becomes of each member in the order of the members, and the `return` of
the class. -/
theorem class_wrapper (T : Translation) (u n : Node) (v : ClassDeclaration) (hlower : T.outcome = .ok u)
    (hn : n ∈ T.tree.all) (hshown : ¬ T.tree.Hides n) (hv : n.view? ClassDeclaration = some v)
    (hdeclared : v.declared = none) :
    ∃ ms marks constructor pieces bases, T.LowersTo n ms marks ∧ u.HoldsRow ms ∧
      List.Forall₂ Node.IsBase v.base.toList bases ∧ T.MakesClass v constructor pieces ∧
      ms = [Code.classVariable v.name v.base.isSome
        (Code.classBody v.name v.base.isSome (pieces.any Prod.snd) constructor (pieces.flatMap Prod.fst)) bases] := by
  have hk : n.kind = .classDeclaration := Node.kind_of_view? hv
  obtain ⟨W, levels, r, marks, hheld, hd, hlowers, hrow⟩ := T.rule_of_shown hlower hn hshown (by rw [hk]; rfl)
  rw [Draft.rule, Node.kind_outline, hk] at hd
  obtain ⟨constructor, pieces, bases, hbases, hclass, hr⟩ :=
    Draft.notes_classDeclaration_wrapper hheld hn hv hdeclared _ _ hd
  exact ⟨_, marks, constructor, pieces, bases, hlowers, hrow, hbases, hclass, hr⟩

/-- A class with a base, a getter and a setter of one property that are written in two ways and stand apart, a static getter
of the same name, a field with an arrow function, and a method behind its signature. -/
theorem class_wrapper_accessors : ∃ (T : Translation) (u n : Node) (v : ClassDeclaration) (ms : List Node) (marks : Marks)
    (constructor : Node) (pieces : List (List Node × Bool)) (bases : List Node),
    T.text = ("class A extends B.C \x7b get p() \x7b \x7d static s = () => this; m(); m() \x7b \x7d " ++
      "set 'p'(v) \x7b \x7d static get p() \x7b \x7d \x7d").toList ∧ T.outcome = .ok u ∧
    n.view? ClassDeclaration = some v ∧ v.base.isSome = true ∧ v.members.length = 6 ∧
    (Node.firstGetter? v.members ⟨['p'], false⟩).isSome = true ∧
    (Node.firstSetter? v.members ⟨['p'], false⟩).isSome = true ∧ T.LowersTo n ms marks ∧ u.HoldsRow ms ∧
    List.Forall₂ Node.IsBase v.base.toList bases ∧ T.MakesClass v constructor pieces ∧
    ms = [Code.classVariable v.name v.base.isSome
      (Code.classBody v.name v.base.isSome (pieces.any Prod.snd) constructor (pieces.flatMap Prod.fst)) bases] := by
  generalize htext : ("class A extends B.C \x7b get p() \x7b \x7d static s = () => this; m(); m() \x7b \x7d " ++
    "set 'p'(v) \x7b \x7d static get p() \x7b \x7d \x7d").toList = text
  have hok : lowersFirst ClassDeclaration (fun _ v => v.declared.isNone && v.base.isSome && v.members.length == 6 &&
      (Node.firstGetter? v.members ⟨['p'], false⟩).isSome && (Node.firstSetter? v.members ⟨['p'], false⟩).isSome) text
      .standard = true := by
    rw [← htext]
    simp only [String.reduceAppend, String.reduceToList]
    decide +kernel
  obtain ⟨T, u, n, v, hread, hlower, hn, hshown, hv, hcheck⟩ := Translation.exists_of_lowersFirst hok
  simp only [Bool.and_eq_true, Option.isNone_iff_eq_none, beq_iff_eq] at hcheck
  obtain ⟨⟨⟨⟨hdeclared, hbase⟩, hlength⟩, hget⟩, hset⟩ := hcheck
  obtain ⟨ms, marks, constructor, pieces, bases, hlowers, hrow, hrest⟩ :=
    class_wrapper T u n v hlower hn (hshown n) hv hdeclared
  exact ⟨T, u, n, v, ms, marks, constructor, pieces, bases, hread, hlower, hv, hbase, hlength, hget, hset, hlowers, hrow,
    hrest⟩

end

end Downlevel
