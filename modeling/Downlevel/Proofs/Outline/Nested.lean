import Downlevel.Proofs.Lowering.Namespaces
import Downlevel.Proofs.Outline.Scoped
/-!
# Proofs.Outline.Nested — namespaces and programs keep to what is written down of their `this`

A namespace is a scope in as many functions as its name has parts; what it exports is attached behind its statements.
So every form keeps to what is written down of it (`Draft.notes_rule`), and, level by level, every tree does
(`Draft.keeps_visitUpTo`).
-/
namespace Downlevel

variable {a : Account} {n : Node} {i : Bool} {j k : Nat} {ns : List Node} {t name inner : Token} {ts : List Token}

/-! ## Names -/

/-- The parts of a name are none of them `_this`. -/
theorem Node.Unnamed.nameParts (hn : n.Unnamed k) : ∀ t ∈ n.nameParts, t.isCapture = false := fun t ht =>
  (hn.stands.nameParts t ht).isCapture

/-- No element exports the name `_this`. -/
theorem Node.Unnamed.exportedNames (hn : n.Unnamed k) : ∀ t ∈ (n.exportedNames j).1, t.isCapture = false := fun t ht =>
  ((makes_exportedNames hn.stands j le_rfl).2 t ht).isCapture

/-! ## Wrappers -/

namespace LoweringContext

theorem references_attachName (hinner : inner.isCapture = false) (ht : t.isCapture = false) :
    (attachName inner t j).1.references = [] := by
  simp [attachName, Fresh.bind_apply, references_assignSameName ht, Build.references_nameExpression hinner]

theorem references_memberOf (ht : t.isCapture = false) : (memberOf t name j).1.references = [] := by
  simp [memberOf, Fresh.bind_apply, Build.references_nameExpression ht]

theorem references_wrapperArgument {parent : Option Token} (ht : t.isCapture = false)
    (hparent : ∀ p ∈ parent, p.isCapture = false) : (wrapperArgument t parent j).1.references = [] := by
  cases parent with
  | none => simp [wrapperArgument, Fresh.bind_apply, Build.references_nameExpression ht]
  | some p =>
    simp [wrapperArgument, Fresh.bind_apply, Build.references_nameExpression ht, references_memberOf (hparent p rfl)]

end LoweringContext

namespace Draft

open LoweringContext

/-- **The statements of a wrapper** refer to what its function refers to. -/
theorem references_namespaceWrapper {parent : Option Token} {block : Node} {rs : List Reference} (ht : t.isCapture = false)
    (hparent : ∀ p ∈ parent, p.isCapture = false)
    (hcall : ∀ parameters arguments : List Node, parameters.flatMap Node.references = [] →
      arguments.flatMap Node.references = [] → ∀ j, (wrapperCall parameters block arguments j).1.references = rs) :
    (namespaceWrapper t parent block j).1.flatMap Node.references = rs := by
  have harguments : ∀ j, [(wrapperArgument t parent j).1].flatMap Node.references = [] := fun j => by
    rw [List.flatMap_singleton, references_wrapperArgument ht hparent]
  have hcall := fun l l' => hcall [(Build.parameter t l).1] [(wrapperArgument t parent l').1] (by simp) (harguments l')
  cases parent with
  | none =>
    simp only [namespaceWrapper, Fresh.bind_apply, Fresh.pure_apply]
    simp [Build.references_variableStatement ht, hcall]
  | some p =>
    simp only [namespaceWrapper, Fresh.bind_apply, Fresh.pure_apply]
    simp [Build.references_variableStatement ht, hcall, references_attachName (hparent p rfl) ht]

/-- **A row of wrappers is the scope of the innermost one**, in a function for each of the others. -/
theorem references_wrapLevels (ha : a.Proper) (hcaptures : Node.capturesFrom 0 ns = a.captures 0)
    (hopened : ns.flatMap Node.references = a.opened) : ∀ {ts : List Token} {parent : Option Token} {j : ObjectId},
    (∀ t ∈ ts, t.isCapture = false) → (∀ p ∈ parent, p.isCapture = false) → ts ≠ [] →
    (wrapLevels ns parent ts j).1.flatMap Node.references = (Account.wrapped (ts.length - 1) (a.scope 0)).references
  | [], _, _, _, _, hts => absurd rfl hts
  | [t], parent, j, ht, hparent, _ => by
    rw [wrapLevels, Fresh.bind_apply, Fresh.bind_apply]
    refine references_namespaceWrapper (ht t (List.mem_singleton.2 rfl)) hparent (fun _ _ hp hargs _ => ?_)
    exact references_wrapperCall_scope hcaptures hopened hp hargs
  | t :: t' :: ts, parent, j, hts, hparent, _ => by
    obtain ⟨ht, hts⟩ := List.forall_mem_cons.1 hts
    have hinner := fun l => references_wrapLevels ha hcaptures hopened (j := l) hts
      (fun p hp => Option.some.inj hp ▸ ht) (List.cons_ne_nil t' ts)
    rw [wrapLevels, Fresh.bind_apply, Fresh.bind_apply]
    refine references_namespaceWrapper ht hparent (fun _ _ hp hargs _ => ?_)
    exact references_wrapperCall_around (ha.scope.wrapped _) hp hargs (references_braced.trans (hinner _))

variable {visit : Node → Draft Replacement} {account : Bool → Node → Account} (h : Keeps visit account)
include h

/-! ## Namespaces -/

theorem notes_moduleElements : ∀ {ns : List Node}, (∀ n ∈ ns, n.Unnamed k) → (moduleElements visit ns).Notes i
    (fun p m => Account.mk m (p.1.flatMap Node.references) = Account.each account i ns ∧
      ∀ t ∈ p.2, t.isCapture = false)
  | [], _ => .pure ⟨rfl, fun _ ht => by cases ht⟩
  | n :: ns, hns => by
    obtain ⟨hn, hns⟩ := List.forall_mem_cons.1 hns
    refine (h.made i hn).bind (fun r m hr => ?_)
    have hrest : ∀ names : List Token, (∀ t ∈ names, t.isCapture = false) →
        (moduleElements visit ns >>= fun p => pure (r.nodes ++ p.1, names ++ p.2)).Notes i (fun p m' =>
          Account.mk (m.and m') (p.1.flatMap Node.references) = Account.each account i (n :: ns) ∧
            ∀ t ∈ p.2, t.isCapture = false) := by
      intro names hnames
      refine (notes_moduleElements hns).andThen (fun p m' hp => .pure ⟨rfl, ?_, List.forall_mem_append.2 ⟨hnames, hp.2⟩⟩)
      rw [List.flatMap_append, Account.each_cons, ← hp.1, ← show _ = account i n from hr]
      rfl
    refine .ite (fun _ => .given (R := (· = [])) (.pure ⟨rfl, rfl⟩) (fun names heq => ?_)) (fun _ => .made ?_)
    · exact heq ▸ hrest [] (fun _ ht => by cases ht)
    · exact hrest _ hn.exportedNames

/-- **A namespace is a scope** in as many functions as its name has parts. -/
theorem notes_moduleDeclaration (hn : n.Unnamed k) (hk : n.kind = .moduleDeclaration) :
    (moduleDeclaration visit n).Notes i (Replacement.Meets (Account.ofView ModuleDeclaration n (fun v =>
      Account.wrapped (v.name.nameParts.length - 1)
        (Account.scope 0 (Account.each account false n.loweredParts))))) := by
  refine .viewUnnamed hn (fun v hv _ hparts => ?_)
  rw [Account.ofView_eq hv]
  have hlowered : n.loweredParts =
      if v.declared.isSome || v.name.kind == .literalExpression then [] else v.elements := by
    rw [Node.loweredParts, hk]
    exact Node.partsAs_eq hv _
  rw [hlowered]
  simp only [NodeView.toSlots, List.forall_mem_cons, Slot.each_node, Slot.each_list] at hparts
  obtain ⟨-, -, -, hname, -, helements, -⟩ := hparts
  refine .ite (fun hdropped => .pure ?_) (fun hkept => ?_)
  · rw [if_pos hdropped]
    exact (Account.Proper.none.wrapped_of_empty rfl).symm
  rw [if_neg hkept]
  refine .given (R := fun parts => parts = v.name.nameParts ∧ parts ≠ [])
    (.ite (fun _ => .fail) (fun hnone => .pure ⟨rfl, rfl, fun hnil => hnone (.inl (List.isEmpty_iff.2 hnil))⟩))
    (fun parts hp => ?_)
  obtain ⟨rfl, hparts⟩ := hp
  refine (notes_moduleElements h helements).inScope.andThen (fun p m hp => ?_)
  obtain ⟨⟨statements, exported⟩, captured⟩ := p
  obtain ⟨m', rfl, hcaptured, hstatements, hexported⟩ := hp
  have hproper : (Account.each account false v.elements).Proper := Account.proper_each h.proper
  -- From here on only what was written down matters, not the elements that it was written down of.
  generalize Account.each account false v.elements = a at hstatements hproper
  have hmarks : m' = a.marks := congrArg Account.marks hstatements
  have hreferences : statements.flatMap Node.references = a.references := congrArg Account.references hstatements
  dsimp only at hcaptured hexported ⊢
  rw [hcaptured, hmarks]
  refine .ite (fun hempty => .pure ⟨rfl, ?_⟩) (fun _ => ?_)
  · rw [List.isEmpty_iff.1 hempty] at hreferences
    exact (hproper.wrapped_of_empty hreferences.symm).symm
  -- Attaching a name refers to nothing, so the scope is that of the statements, whatever is attached.
  have hfinish : ∀ attached : List Node, attached.flatMap Node.references = [] → (do
      let statements ← make (withCapture a.marks.captured statements)
      return .many (← make (wrapLevels (statements ++ attached) none v.name.nameParts)) : Draft Replacement).Notes i
        (fun r m => m = .none ∧ r.Meets (Account.wrapped (v.name.nameParts.length - 1) (a.scope 0))
          ⟨false, a.marks.derived⟩) := by
    intro attached hattached
    refine .made (.made (.pure ⟨rfl, Account.mk_eq (by rw [Account.marks_wrapped]; rfl) ?_⟩))
    obtain ⟨hcaptures, hopened⟩ := holds_withCapture 0 0 hproper hreferences
    generalize (withCapture a.marks.captured statements 0).1 = body at hcaptures hopened
    refine references_wrapLevels hproper ?_ ?_ hname.nameParts (fun _ hp => by cases hp) hparts
    · rw [Node.capturesFrom_append, hcaptures, Node.capturesFrom_eq_nil (by simp [hattached]), List.append_nil]
    · rw [List.flatMap_append, hattached, List.append_nil, hopened]
  cases hinner : v.name.nameParts.getLast? with
  | none => exact .given (R := (· = [])) (.pure ⟨rfl, rfl⟩) (fun attached heq => heq ▸ hfinish [] rfl)
  | some inner =>
    have hcapture : inner.isCapture = false := hname.nameParts _ (List.mem_of_getLast? hinner)
    have hattached : (exported.mapM (fun name => make (attachName inner name))).Notes i (fun ms m =>
        Account.mk m (ms.flatMap Node.references) = Account.all (exported.map (fun _ => Account.none))) :=
      Notes.mapM (fun t ht => .make (Account.mk_eq rfl (references_attachName hcapture (hexported t ht))))
    rw [Account.all_none] at hattached
    exact .given (R := fun ms => ms.flatMap Node.references = [])
      (hattached.mono (fun ms m hms => ⟨congrArg Account.marks hms, congrArg Account.references hms⟩)) hfinish

/-! ## Programs -/

/-- **A program is a scope.** -/
theorem notes_sourceUnit (hn : n.Unnamed k) (hk : n.kind = .sourceUnit) : (sourceUnit visit n).Notes i
    (Replacement.Meets (Account.scope 0 (Account.each account false n.loweredParts))) := by
  refine .viewUnnamed hn (fun v hv hs hparts => ?_)
  have hlowered : n.loweredParts = v.elements := by
    rw [Node.loweredParts, hk]
    simp [Node.children, hs, NodeView.toSlots]
  simp only [NodeView.toSlots, List.forall_mem_cons, Slot.each_list] at hparts
  rw [hlowered]
  refine (notes_walkList h hparts.1).inScope.andThen (fun p m hp => ?_)
  obtain ⟨elements, captured⟩ := p
  obtain ⟨m', rfl, hcaptured, helements⟩ := hp
  have hproper : (Account.each account false v.elements).Proper := Account.proper_each h.proper
  generalize Account.each account false v.elements = a at helements hproper
  have hmarks : m' = a.marks := congrArg Account.marks helements
  dsimp only at hcaptured ⊢
  rw [hcaptured, hmarks]
  refine .made (.made (.pure ⟨rfl, Replacement.meets_one (Account.mk_eq rfl ?_)⟩))
  obtain ⟨hcaptures, hopened⟩ := holds_withCapture 0 0 hproper (congrArg Account.references helements)
  show (Node.mk _ .sourceUnit [.list (withCapture a.marks.captured elements 0).1, .token _]).references = _
  rw [Node.references_body rfl]
  simp [hcaptures, hopened, Account.scope]

/-- **Every form keeps to what is written down of it.** -/
theorem notes_rule (hn : n.Unnamed k) : (rule visit n).Notes i (Replacement.Meets (Account.rule account i n)) := by
  have hnothing : n.loweredParts = [] → ∀ {d : Draft Replacement},
      d.Notes i (fun r m => m = .none ∧ r.nodes.flatMap Node.references = []) →
        d.Notes i (Replacement.Meets (Account.each account i n.loweredParts)) := fun hnone d hd => by
    rw [hnone]
    exact hd.mono (fun r m hr => Account.mk_eq hr.1 hr.2)
  unfold rule Account.rule
  cases hk : n.kind with
  | sourceUnit => exact notes_sourceUnit h hn hk
  | classDeclaration => exact notes_classDeclaration h hn
  | moduleDeclaration => exact notes_moduleDeclaration h hn hk
  | enumDeclaration => exact notes_enumDeclaration h hn hk
  | functionDeclaration => exact notes_functionStatement h hn hk
  | variableStatement => exact notes_variableStatement h hn hk
  | variableDeclarator => exact notes_variableDeclarator h hn hk
  | expressionStatement => exact notes_expressionStatement h hn hk
  | thisExpression => exact notes_thisExpression
  | castExpression => exact notes_castExpression h hn hk
  | invocationExpression => exact notes_invocation h hn hk
  | memberAccessExpression => exact notes_memberAccess h hn hk
  | functionExpression => exact notes_functionValue h hn hk
  | getAccessorPropertyAssignment => exact notes_objectAccessor h hn (.inl hk)
  | setAccessorPropertyAssignment => exact notes_objectAccessor h hn (.inr hk)
  | simpleArrowFunctionExpression => exact notes_simpleArrow h hn hk
  | parenthesizedArrowFunctionExpression => exact notes_parenthesizedArrow h hn hk
  | interfaceDeclaration => exact hnothing (by rw [Node.loweredParts, hk]) (.pure ⟨rfl, rfl⟩)
  | typeClause => exact hnothing (by rw [Node.loweredParts, hk]) (.pure ⟨rfl, rfl⟩)
  | callSignature =>
    refine hnothing (by rw [Node.loweredParts, hk]) (.viewUnnamed hn (fun v hv _ hparts => ?_))
    simp only [NodeView.toSlots, List.forall_mem_cons, Slot.each_node] at hparts
    exact (notes_parameterList hparts.1).given (fun p hp => .made (.pure ⟨rfl, by simp [Replacement.nodes, hp.1]⟩))
  | parameterList =>
    refine hnothing (by rw [Node.loweredParts, hk]) ((notes_parameterList hn).given (fun p hp => .pure ⟨rfl, ?_⟩))
    simp [Replacement.nodes, hp.1]
  | parameter =>
    refine hnothing (by rw [Node.loweredParts, hk]) (notes_eraseParameter.given (fun p hp => .pure ⟨rfl, ?_⟩))
    simp [Replacement.nodes, hp.1]
  | _ => exact notes_walked h hn (by rw [hk]; rfl) (by rw [hk]; decide) (by rw [Node.loweredParts, hk])

omit h in
/-- **Every tree keeps to what is written down of it**, level by level. -/
theorem keeps_visitUpTo : ∀ levels, Keeps (visitUpTo levels) (Account.upTo levels)
  | 0 => ⟨fun _ _ => .fail, fun _ _ => .none, fun _ _ => rfl, fun _ _ => .fail⟩
  | levels + 1 => by
    refine ⟨fun _ hn => notes_rule (keeps_visitUpTo levels) hn, Account.proper_upTo _, fun i hn => ?_, fun i hn => ?_⟩
    · unfold Account.upTo Account.rule
      rcases hn with hk | hk <;> rw [Node.loweredParts, hk] <;> rfl
    · unfold visitUpTo rule
      rcases hn with hk | hk
      · rw [hk]
        exact .pure rfl
      · rw [hk]
        exact notes_eraseParameter.given (fun p hp => .pure (by simp [Replacement.nodes, hp.2]))

end Draft

end Downlevel
