import Downlevel.Proofs.Outline.Elements
/-!
# Proofs.Outline.NamespaceRows — what a namespace becomes

A namespace of which something becomes is left as one variable and one call of a wrapper for each part of its name, the
wrapper of a part inside that of the part in front (`Code.namespaceRow`).  In the innermost wrapper stand the pieces that
its elements became, and behind them one statement for each name that an element exports of which something became
(`Node.keptExports`); that these are all statements is `Draft.notes_moduleDeclaration_pieces`.  From the program down,
through the namespaces that are kept, each element becomes a row that stands in what comes out
(`Translation.rule_of_shown`).
-/
namespace Downlevel

namespace Code

variable {ns : List Node} {name inner : Token} {j : ObjectId}

/-- The statement `object.t = t;`. -/
def attach (object t : Token) : Node := assignment (member (Code.name object) t) (Code.name t)

/-- The object that the wrapper of a part of a name is called with: `t || (t = {})`, or `t = p.t || (p.t = {})` behind the
part `p`. -/
def opened (t : Token) : Option Token → Node
  | none => orCreate (Code.name t) (Code.name t)
  | some p => assign (Code.name t) (orCreate (member (Code.name p) t) (member (Code.name p) t))

/-- **The statements of a namespace**: for each part of its name a variable and a wrapper around those of the next part,
attached to the part in front; the statements of the body stand in the innermost wrapper. -/
def namespaceRow (body : List Node) : Option Token → List Token → List Node
  | _, [] => body
  | parent, t :: ts =>
    var t none :: statement (wrapper [t] (namespaceRow body (some t) ts) [opened t parent]) ::
      (parent.map (fun p => attach p t)).toList

theorem outline_attachName : (LoweringContext.attachName inner name j).1.outline = attach inner name := by
  simp only [LoweringContext.attachName, LoweringContext.assignSameName, Fresh.bind_apply, outline_assignmentStatement,
    outline_memberAccess, outline_nameExpression]
  rfl

theorem outline_wrapperArgument {parent : Option Token} :
    (LoweringContext.wrapperArgument name parent j).1.outline = opened name parent := by
  cases parent with
  | none => rfl
  | some p =>
    simp only [LoweringContext.wrapperArgument, LoweringContext.memberOf, Fresh.bind_apply, outline_assignment,
      outline_orCreate, outline_memberAccess, outline_nameExpression]
    rfl

theorem outlines_wrapLevels : ∀ (parent : Option Token) (ts : List Token) (j : ObjectId),
    (Draft.wrapLevels ns parent ts j).1.map Node.outline = namespaceRow (ns.map Node.outline) parent ts
  | _, [], _ => rfl
  | parent, t :: ts, j => by
    rw [Draft.wrapLevels, Fresh.bind_apply, Fresh.bind_apply]
    generalize hbraced : Draft.braced _ _ = b
    have hblock : b.1.outline = Code.block (namespaceRow (ns.map Node.outline) (some t) ts) := by
      rw [← hbraced, outline_braced, outlines_wrapLevels (some t) ts]
    cases parent with
    | none =>
      simp only [Draft.namespaceWrapper, Fresh.bind_apply, Fresh.pure_apply, List.map_cons, List.map_nil,
        outline_variableStatement, outline_expressionStatement, outline_wrapper hblock, outline_wrapperArgument]
      rfl
    | some p =>
      simp only [Draft.namespaceWrapper, Fresh.bind_apply, Fresh.pure_apply, List.map_cons, List.map_nil,
        outline_variableStatement, outline_expressionStatement, outline_wrapper hblock,
        outline_wrapperArgument, outline_attachName]
      rfl

/-- The statements of a namespace depend on what the parts of its name look like only. -/
theorem namespaceRow_outlines (body : List Node) : ∀ (parent : Option Token) (ts : List Token),
    namespaceRow body (parent.map Token.outline) (ts.map Token.outline) = namespaceRow body parent ts
  | _, [] => rfl
  | parent, t :: ts => by
    rw [List.map_cons, namespaceRow, namespaceRow, ← namespaceRow_outlines body (some t) ts]
    cases parent <;> rfl

end Code

/-! ## Exported names -/

/-- The names in a form that reads as a view, if it is exported. -/
def Node.exportsAs (α : Type) [NodeView α] (exported : α → Option Token) (names : α → List Token) (n : Node) : List Token :=
  match n.view? α with
  | some v => if (exported v).isSome then names v else []
  | none => []

def VariableStatement.names (v : VariableStatement) : List Token :=
  match v.declaration.view? VariableDeclaration with
  | some d => (d.declarators.members.filterMap (fun n => n.view? VariableDeclarator)).map VariableDeclarator.name
  | none => []

/-- **The names that an element of a namespace exports**: those of its variables, its own, or the first part of its own. -/
def Node.exports (n : Node) : List Token :=
  n.exportsAs VariableStatement VariableStatement.exported VariableStatement.names ++
  n.exportsAs FunctionDeclaration FunctionDeclaration.exported (fun v => [v.name]) ++
  n.exportsAs ClassDeclaration ClassDeclaration.exported (fun v => [v.name]) ++
  n.exportsAs EnumDeclaration EnumDeclaration.exported (fun v => [v.name]) ++
  n.exportsAs ModuleDeclaration ModuleDeclaration.exported (fun v => v.name.nameParts.take 1)

/-- The names that elements export, those left out of which nothing has become. -/
def Node.keptExports (elements : List Node) (pieces : List (List Node)) : List Token :=
  (elements.zip pieces).flatMap (fun q => if q.2.isEmpty then [] else q.1.exports)

section

variable {W : Registry} {n m u : Node} {ns body : List Node} {i : Bool} {j : ObjectId} {T : Translation}

theorem Node.exportsAs_of_kind {α : Type} [NodeView α] {exported : α → Option Token} {names : α → List Token}
    (h : n.kind ≠ NodeView.kind α) : n.exportsAs α exported names = [] := by
  unfold Node.exportsAs
  rw [Node.view?_eq_none h]

theorem outlines_exportedName {exported : Option Token} {t : Token} :
    (exportedName exported t j).1.map Token.outline = (if exported.isSome then [t] else []).map Token.outline := by
  unfold exportedName
  split <;> rfl

theorem outlines_bareNames : ∀ (ds : List VariableDeclarator) (j : ObjectId),
    (ds.mapM (fun d => d.name.bare) j).1.map Token.outline = (ds.map VariableDeclarator.name).map Token.outline
  | [], _ => rfl
  | d :: ds, j => by
    rw [List.mapM_cons, Fresh.bind_apply, Fresh.bind_apply, Fresh.pure_apply, List.map_cons, outlines_bareNames ds]
    rfl

/-- **What is read off an element are the names that it exports.** -/
theorem outlines_exportedNames : (n.exportedNames j).1.map Token.outline = n.exports.map Token.outline := by
  unfold Node.exportedNames Node.exports
  -- Of the five readings at most the one for the kind of the element is left.
  cases hk : n.kind <;> simp only [Node.exportsAs_of_kind, hk, NodeView.kind, ne_eq, reduceCtorEq, not_false_eq_true,
    List.append_nil, List.nil_append]
  case functionDeclaration | classDeclaration | enumDeclaration =>
    unfold Node.exportsAs
    split <;> rename_i hv <;> rw [hv]
    · exact outlines_exportedName
    · rfl
  case variableStatement =>
    unfold Node.exportsAs
    cases n.view? VariableStatement with
    | none => rfl
    | some v =>
      dsimp only
      cases v.exported with
      | none => rfl
      | some t =>
        unfold VariableStatement.names
        cases v.declaration.view? VariableDeclaration with
        | none => rfl
        | some d => exact outlines_bareNames _ j
  case moduleDeclaration =>
    unfold Node.exportsAs
    cases n.view? ModuleDeclaration with
    | none => rfl
    | some v =>
      dsimp only
      cases v.name.nameParts with
      | nil => cases v.exported <;> rfl
      | cons t ts => exact outlines_exportedName
  all_goals rfl

theorem Node.Held.outlines_exportedNames (h : n.Held W) :
    (n.outline.exportedNames j).1.map Token.outline = n.exports.map Token.outline := by
  obtain ⟨W', -, -, hshow⟩ := draws_exportedNames h j
  rw [← hshow.outlines, Downlevel.outlines_exportedNames]

/-! ## The pieces of a namespace -/

theorem Code.attach_outlines {inner : Token} {ts ts' : List Token} (h : ts.map Token.outline = ts'.map Token.outline) :
    ts.map (Code.attach inner) = ts'.map (Code.attach inner) := by
  have hmap : ∀ ts : List Token, ts.map (Code.attach inner) = (ts.map Token.outline).map (Code.attach inner) :=
    fun ts => by rw [List.map_map]; rfl
  rw [hmap, h, ← hmap]

theorem ModuleDeclaration.isDropped_outline (v : ModuleDeclaration) :
    ModuleDeclaration.isDropped (OutlineView.outline v) = v.isDropped := by
  show ((v.declared.map Token.outline).isSome || v.name.outline.kind == .literalExpression) = v.isDropped
  rw [Option.isSome_map, Node.kind_outline]
  rfl

/-- Which exports are left depends on whether something has become of an element only. -/
theorem Node.keptExports_map {α : Type} (f : α → List Node) (pieces : List α) :
    Node.keptExports ns (pieces.map (fun piece => (f piece).map Node.outline)) = Node.keptExports ns (pieces.map f) := by
  simp only [Node.keptExports, List.zip_map_right, List.flatMap_map, Prod.map, id_eq, List.isEmpty_map]

namespace Draft

variable {visit : Node → Draft Replacement}

theorem notes_moduleElements_pieces : ∀ {ns : List Node}, (∀ n ∈ ns, n.Held W) →
    (moduleElements visit (ns.map Node.outline)).Notes i (fun p marks => ∃ pieces,
      List.Forall₂ (fun n piece => visit n.outline i = some piece) ns pieces ∧
      p.1 = pieces.flatMap (fun piece => piece.1.nodes) ∧ marks = Marks.all (pieces.map Prod.snd) ∧
      p.2.map Token.outline = (Node.keptExports ns (pieces.map (fun piece => piece.1.nodes))).map Token.outline)
  | [], _ => .pure ⟨[], .nil, rfl, rfl, rfl⟩
  | n :: ns, hns => by
    obtain ⟨hn, hns⟩ := List.forall_mem_cons.1 hns
    refine (notes_self (visit n.outline)).bind (fun r marks hr => ?_)
    -- What is read off the element depends on whether something became of it; the rest goes on alike.
    have hrest : ∀ names : List Token,
        names.map Token.outline = (if r.nodes.isEmpty then [] else n.exports).map Token.outline →
        (moduleElements visit (ns.map Node.outline) >>= fun p => pure (r.nodes ++ p.1, names ++ p.2)).Notes i
          (fun p marks' => ∃ pieces, List.Forall₂ (fun n piece => visit n.outline i = some piece) (n :: ns) pieces ∧
            p.1 = pieces.flatMap (fun piece => piece.1.nodes) ∧ marks.and marks' = Marks.all (pieces.map Prod.snd) ∧
            p.2.map Token.outline =
              (Node.keptExports (n :: ns) (pieces.map (fun piece => piece.1.nodes))).map Token.outline) := by
      intro names hnames
      refine (notes_moduleElements_pieces hns).andThen (fun p marks' hp => .pure ⟨rfl, ?_⟩)
      obtain ⟨pieces, hpieces, hstatements, rfl, hexported⟩ := hp
      refine ⟨(r, marks) :: pieces, .cons hr hpieces, by rw [hstatements]; rfl, rfl, ?_⟩
      rw [List.map_append, hnames, hexported, ← List.map_append]
      rfl
    refine .ite (fun hnone => .given (R := (· = [])) (.pure ⟨rfl, rfl⟩) (fun names heq => ?_)) (fun hsome => .made ?_)
    · exact hrest names (by rw [heq, if_pos hnone])
    · exact hrest _ (by rw [hn.outlines_exportedNames, if_neg hsome])

/-- Nothing takes the place of a namespace that is dropped. -/
theorem notes_moduleDeclaration_dropped {v : ModuleDeclaration} (hn : n.Held W) (hv : n.view? ModuleDeclaration = some v)
    (hdropped : v.isDropped = true) : (moduleDeclaration visit n.outline).Notes i (fun r _ => r = .removed) :=
  .view (hn.slots_view hv).2 (.ite (fun _ => .pure rfl) (fun hkept => absurd (v.isDropped_outline.trans hdropped) hkept))

/-- **What becomes of a namespace**: nothing if nothing becomes of its elements, and else the wrappers for the parts of its
name around the pieces of its elements, the captured `this` in front of them and what is exported behind. -/
theorem notes_moduleDeclaration_pieces {v : ModuleDeclaration} (hn : n.Held W) (hv : n.view? ModuleDeclaration = some v)
    (hkept : v.isDropped = false) : (moduleDeclaration visit n.outline).Notes i (fun r _ => ∃ pieces inner,
      List.Forall₂ (fun n piece => visit n.outline false = some piece) v.elements pieces ∧
      v.name.nameParts.getLast? = some inner ∧
      r.nodes.map Node.outline = if (outlines pieces).isEmpty then [] else
        Code.namespaceRow (Code.captured (anyCaptured pieces) (outlines pieces) ++
          (Node.keptExports v.elements (pieces.map (fun piece => piece.1.nodes))).map (Code.attach inner))
          none v.name.nameParts) := by
  obtain ⟨hslots, hview⟩ := hn.slots_view hv
  have helements : ∀ m ∈ v.elements, m.Held W := fun m hm =>
    hn.below (hn.mem_all hv (s := .list v.elements) (by simp [NodeView.toSlots]) hm)
  have hdropped : (OutlineView.outline v).isDropped = false := v.isDropped_outline.trans hkept
  have hparts : (OutlineView.outline v).name.nameParts = v.name.nameParts.map Token.outline := v.name.nameParts_outline
  refine .view hview (.ite (fun h => absurd (hdropped.symm.trans h) (by decide)) (fun _ => ?_))
  refine .given (R := fun parts => parts = v.name.nameParts.map Token.outline ∧ parts ≠ [])
    (.ite (fun _ => .fail) (fun hsome => .pure ⟨rfl, hparts, fun hnil => hsome (.inl (List.isEmpty_iff.2 hnil))⟩))
    (fun parts hp => ?_)
  obtain ⟨rfl, hsome⟩ := hp
  refine (notes_moduleElements_pieces helements).inScope.bind (fun p marks hp => ?_)
  obtain ⟨⟨statements, exported⟩, captured⟩ := p
  obtain ⟨marks', -, hcaptured, pieces, hpieces, hstatements, rfl, hexported⟩ := hp
  dsimp only at hcaptured hstatements hexported ⊢
  obtain ⟨inner, hinner⟩ : ∃ inner, v.name.nameParts.getLast? = some inner :=
    ⟨_, List.getLast?_eq_some_getLast (fun hnil => hsome (by rw [hnil]; rfl))⟩
  have hempty : (outlines pieces).isEmpty = statements.isEmpty := by rw [outlines_eq, hstatements, List.isEmpty_map]
  refine .ite (fun hnone => .pure ⟨pieces, inner, hpieces, hinner, ?_⟩) (fun hsome => ?_)
  · rw [if_pos (hempty.trans hnone)]
    rfl
  rw [List.getLast?_map, hinner]
  dsimp only [Option.map_some]
  refine .given (R := fun attached => attached.map Node.outline =
    (Node.keptExports v.elements (pieces.map (fun piece => piece.1.nodes))).map (Code.attach inner)) ?_
    (fun attached hattached => ?_)
  · -- What is attached takes numbers only, which its outline forgets.
    have hpure : exported.mapM (fun name => make (LoweringContext.attachName inner.outline name)) =
        pure (exported.map (fun name => (LoweringContext.attachName inner.outline name 0).1)) := List.mapM_pure ..
    rw [hpure]
    refine .pure ⟨rfl, ?_⟩
    rw [List.map_map, ← Code.attach_outlines hexported]
    exact List.map_congr_left (fun t _ => Code.outline_attachName)
  · refine .made (.made (.pure ⟨pieces, inner, hpieces, rfl, ?_⟩))
    rw [if_neg (by rwa [hempty])]
    show (wrapLevels _ none _ 0).1.map Node.outline = _
    rw [Code.outlines_wrapLevels, List.map_append, Code.outlines_withCapture, hattached, hcaptured, captured_all_eq,
      hstatements, ← outlines_eq]
    exact Code.namespaceRow_outlines _ none _

end Draft

/-! ## Where the pieces stand -/

theorem Code.block_mem_wrapper {ts : List Token} {arguments : List Node} :
    Code.block body ∈ (Code.statement (Code.wrapper ts body arguments)).all := by
  have hfunction : Code.block body ∈ (Code.function (Code.parameters ts) (Code.block body)).all :=
    Node.child_mem_all (by simp [Code.function, Node.children, Node.slots, Slot.nodes])
  have hparenthesized : Code.block body ∈ (Code.parenthesized (Code.function (Code.parameters ts) (Code.block body))).all :=
    Node.mem_all_of_child (by simp [Code.parenthesized, Node.children, Node.slots, Slot.nodes]) hfunction
  have hwrapper : Code.block body ∈ (Code.wrapper ts body arguments).all :=
    Node.mem_all_of_child (by simp [Code.wrapper, Code.call, Node.children, Node.slots, Slot.nodes]) hparenthesized
  exact Node.mem_all_of_child (by simp [Code.statement, Node.children, Node.slots, Slot.nodes]) hwrapper

/-- Where the statements of a namespace stand, those of its body stand. -/
theorem Node.HoldsRow.ofNamespace : ∀ {ts : List Token} {parent : Option Token},
    u.HoldsRow (Code.namespaceRow body parent ts) → u.HoldsRow body
  | [], _, h => h
  | t :: ts, _, h => by
    have hinner : u.HoldsRow (Code.namespaceRow body (some t) ts) :=
      h.below (List.mem_cons_of_mem _ (List.mem_cons_self ..)) Code.block_mem_wrapper (by simp [Code.block, Node.slots])
    exact hinner.ofNamespace

theorem Draft.infix_outlines {pieces : List (Replacement × Marks)} {piece : Replacement × Marks} (h : piece ∈ pieces) :
    piece.1.nodes.map Node.outline <:+: outlines pieces := by
  obtain ⟨before, after, rfl⟩ := List.append_of_mem h
  exact ⟨outlines before, outlines after, by simp [outlines]⟩

theorem Code.suffix_captured {needed : Bool} : ns <:+ Code.captured needed ns := by
  cases needed with
  | true => exact List.suffix_cons ..
  | false => exact List.suffix_rfl

/-- **What the draft makes of an element of a program that is lowered stands in what comes out.** -/
theorem Translation.drafted_of_hasElement (hlower : T.outcome = .ok u) (hspecific : T.tree.isSpecific = true)
    (hn : T.tree.HasElement n) : ∃ levels r marks, Draft.visitUpTo levels n.outline false = some (r, marks) ∧
      u.HoldsRow (r.nodes.map Node.outline) := by
  induction hn with
  | ofProgram hv hn =>
    obtain ⟨v', levels, pieces, hv', hpieces, hrow⟩ := T.holdsRow_elements hlower hspecific
    cases hv.symm.trans hv'
    obtain ⟨⟨r, marks⟩, hpiece, hd⟩ := exists_of_mem_left hpieces hn
    exact ⟨levels, r, marks, hd, hrow.within ((Draft.infix_outlines hpiece).trans Code.suffix_captured.isInfix)⟩
  | ofNamespace houter hv hkept hn ih =>
    obtain ⟨levels, r, marks, hd, hrow⟩ := ih
    obtain ⟨W, -, hheld⟩ := held_of_parse T.parsed T.older
    -- The elements of a namespace are drafted with a level less, and stand in its innermost wrapper.
    cases levels with
    | zero => cases hd
    | succ levels =>
      rw [Draft.visitUpTo, Draft.rule, Node.kind_outline, Node.kind_of_view? hv] at hd
      obtain ⟨pieces, inner, hpieces, -, hr⟩ :=
        Draft.notes_moduleDeclaration_pieces (houter.held hheld) hv hkept _ _ hd
      obtain ⟨⟨r', marks'⟩, hpiece, hd'⟩ := exists_of_mem_left hpieces hn
      refine ⟨levels, r', marks', hd', ?_⟩
      rw [hr] at hrow
      split at hrow
      · rename_i hempty
        exact hrow.within (List.isEmpty_iff.1 hempty ▸ Draft.infix_outlines hpiece)
      · exact hrow.ofNamespace.within ((Draft.infix_outlines hpiece).trans
          (Code.suffix_captured.isInfix.trans (List.prefix_append ..).isInfix))

theorem Node.isDialectForm_of_isElementOnly (hk : n.kind.isElementOnly = true) : n.isDialectForm = true := by
  unfold Node.isDialectForm
  generalize n.kind = kind at hk
  cases kind <;> first | rfl | exact absurd hk (by decide)

/-- **A declaration of a program that is lowered becomes a row that stands in what comes out**, if it does not stand in a
namespace that is dropped. -/
theorem Translation.rule_of_shown (hlower : T.outcome = .ok u) (hn : n ∈ T.tree.all) (hshown : ¬ T.tree.Hides n)
    (hk : n.kind.isElementOnly = true) : ∃ (W : Registry) (levels : Nat) (r : Replacement) (marks : Marks), T.tree.Held W ∧
      Draft.rule (Draft.visitUpTo levels) n.outline false = some (r, marks) ∧
      T.LowersTo n (r.nodes.map Node.outline) marks ∧ u.HoldsRow (r.nodes.map Node.outline) := by
  obtain ⟨W, -, hheld⟩ := held_of_parse T.parsed T.older
  have hspecific : T.tree.isSpecific = true :=
    List.any_eq_true.2 ⟨n, hn, Node.isDialectForm_of_isElementOnly hk⟩
  obtain ⟨levels, r, marks, hd, hrow⟩ := T.drafted_of_hasElement hlower hspecific (T.hasElement_of_shown hn hk hshown)
  cases levels with
  | zero => cases hd
  | succ levels => exact ⟨W, levels, r, marks, hheld, hd, T.lowersTo_of_draft hn hd, hrow⟩

end

end Downlevel
