import Downlevel.Proofs.Lowering.Functions
import Downlevel.Proofs.Lowering.Members
import Downlevel.Lowering.Namespaces
/-!
# Proofs.Lowering.Namespaces — a namespace becomes statements

A namespace that is not ambient becomes its wrappers, one for each part of its name, if its elements are intact.  What
an element becomes is a statement, since no declaration of the dialect is plain code.
-/
namespace Downlevel

/-! ## Elements -/

/-- A plain element of a namespace is a statement. -/
theorem Node.Stands.statement {L : Demand} {k : Nat} {n : Node} (h : n.Plain L .element k) :
    n.Plain L .statement k := by
  have hform : n.isDialectForm = false := h.form
  refine ⟨?_, h.sound⟩
  have hkind : NodeClass.includes .element n.kind = true := h.kind
  simp only [NodeClass.includes, Bool.or_eq_true, beq_iff_eq] at hkind
  rcases hkind with (((hstatement | hk) | hk) | hk) | hk
  · exact hstatement
  all_goals
    rw [Node.isDialectForm, hk] at hform
    cases hform

section Names

variable {F : Node → Prop} {L : Demand} {c : NodeClass} {i k : Nat} {n : Node} {t : Token}

theorem makes_exportedName {exported : Option Token} (ht : t.Meets L i) :
    Makes k (exportedName exported t) (fun j ts => ∀ u ∈ ts, u.Meets L j) := by
  unfold exportedName
  split
  · exact (makes_bareToken ht).bindPure (fun j hj u hu v hv => List.mem_singleton.1 hv ▸ hu)
  · exact .pure (fun j hj u hu => by cases hu)

/-- **The names that an element exports are tokens of the tree.** -/
theorem makes_exportedNames (h : n.Stands F L c i) :
    Makes k n.exportedNames (fun j ts => ∀ t ∈ ts, t.Meets L j) := by
  have hnone : Makes k (pure [] : Fresh (List Token)) (fun j ts => ∀ t ∈ ts, t.Meets L j) :=
    .pure (fun j hj t ht => by cases ht)
  unfold Node.exportedNames
  split
  · rename_i hk
    obtain ⟨v, hv, -, -, -, hdeclaration, -⟩ := h.variableStatement hk
    obtain ⟨w, hw, -, -, hdeclarators, -⟩ := hdeclaration.variableDeclaration hdeclaration.kind_eq
    rw [hv]
    dsimp only
    split
    · exact hnone
    · rw [hw]
      refine .mapM Token.Meets.lasts (fun d hd j hj => makes_bareToken (i := i) ?_)
      -- A variable is declared by each member of the list that reads as a declarator.
      obtain ⟨m, hm, hview⟩ := List.mem_filterMap.1 hd
      obtain ⟨d', hd', -, hname, -⟩ := (hdeclarators.members m hm).variableDeclarator (Node.kind_of_view? hview)
      obtain rfl : d = d' := Option.some.inj (hview.symm.trans hd')
      exact hname
  · rename_i hk
    obtain ⟨v, hv, -, -, -, -, hname, -⟩ := h.functionDeclaration hk
    rw [hv]
    exact makes_exportedName hname
  · rename_i hk
    obtain ⟨v, hv, -, -, -, -, hname, -⟩ := h.classDeclaration hk
    rw [hv]
    exact makes_exportedName hname
  · rename_i hk
    obtain ⟨v, hv, -, -, -, -, hname, -⟩ := h.enumDeclaration hk
    rw [hv]
    exact makes_exportedName hname
  · rename_i hk
    obtain ⟨v, hv, -, -, -, -, hname, -⟩ := h.moduleDeclaration hk
    rw [hv]
    dsimp only
    split
    · rename_i hparts
      exact makes_exportedName (hname.nameParts _ (by rw [hparts]; exact List.mem_cons_self ..))
    · exact hnone
  · exact hnone

end Names

namespace LoweringContext

open Build

variable {c : LoweringContext} {L : Demand} {i k levels : Nat} {n block : Node} {t name inner : Token}
  {cl : NodeClass} {parent : Option Token}

theorem ends_reindentAll (hL : L.Suits c.layout) (shift : Int) : ∀ {ns : List Node} {k : Nat},
    (∀ m ∈ ns, m.Plain L cl k) →
    Ends IsRefusal k (c.reindentAll shift ns) True (fun j ms => ∀ m ∈ ms, m.Plain L cl j)
  | [], k, _ => .pure (fun j hj m hm => by cases hm)
  | n :: ns, k, h => by
    refine (ends_reindent hL (h n (List.mem_cons_self ..)) true shift (by omega)).sureThen (fun i₁ h₁ n' hn' => ?_)
    refine (ends_reindentAll hL shift (fun m hm => (h m (List.mem_cons_of_mem _ hm)).up (by omega))).map
      (fun j hj rest hrest => ?_)
    exact List.forall_mem_cons.2 ⟨hn'.1.up (by omega), hrest⟩

/-- **Elements become statements if they are intact.** -/
theorem ends_moduleElements (h : c.Sound L levels) (shift : Int) : ∀ {elements : List Node} {k : Nat},
    (∀ m ∈ elements, m.Given L .element k) →
    Ends IsRefusal k (c.moduleElements shift elements) (∀ m ∈ elements, m.Intact levels)
      (fun j r => (∀ m ∈ r.1, m.Plain L .statement j) ∧ ∀ t ∈ r.2, t.Meets L j)
  | [], k, _ => (Ends.pure (fun j hj => ⟨fun m hm => (by cases hm), fun t ht => by cases ht⟩)).iff (by simp)
  | n :: ns, k, hgiven => by
    have hn : n.Given L .element k := hgiven n (List.mem_cons_self ..)
    have hsteady : SlotSort.Steady .lowering (.list .element) :=
      Treatment.lowering_steady (k := .sourceUnit) _ (List.mem_cons_self ..)
    refine ((h.treats.node n _ k hn).bind (fun i₁ h₁ rep hrep => ?_)).iff List.forall_mem_cons.symm
    have hnodes : ∀ m ∈ rep.nodes, m.Plain L .statement i₁ := fun m hm =>
      (Transformer.Treats.nodes hn hsteady hrep m hm).statement
    have hrest : ∀ j, i₁ ≤ j → ∀ names : List Token, (∀ t ∈ names, t.Meets L j) →
        Ends IsRefusal j (do
          let lowered ← c.reindentAll shift rep.nodes
          let r ← c.moduleElements shift ns
          return (lowered ++ r.1, names ++ r.2) : Lowering (List Node × List Token)) (∀ m ∈ ns, m.Intact levels)
          (fun l r => (∀ m ∈ r.1, m.Plain L .statement l) ∧ ∀ t ∈ r.2, t.Meets L l) := by
      intro j hj names hnames
      refine (ends_reindentAll h.suits shift (fun m hm => (hnodes m hm).up (by omega))).sureThen
        (fun i₂ h₂ lowered hlowered => ?_)
      refine (ends_moduleElements h shift (fun m hm => (hgiven m (List.mem_cons_of_mem _ hm)).up (by omega))).map
        (fun i₃ h₃ r hr => ⟨fun m hm => ?_, fun t ht => ?_⟩)
      · rcases List.mem_append.1 hm with hm | hm
        · exact (hlowered m hm).up (by omega)
        · exact hr.1 m hm
      · rcases List.mem_append.1 ht with ht | ht
        · exact (hnames t ht).up (by omega)
        · exact hr.2 t ht
    dsimp only
    split
    · exact .sureThen (.pure (fun l hl t ht => by cases ht)) (fun l hl => hrest l hl)
    · exact .make (makes_exportedNames hn) (fun l hl => hrest l hl)

/-! ## Wrappers -/

theorem makes_attachName (hL : L.Suits c.layout) (hinner : inner.Meets L k) (hname : name.Meets L k) :
    Makes k (attachName inner name) (fun j m => m.Plain L .statement j) :=
  (makes_nameExpression hinner (by omega)).bind (fun i₁ h₁ object hobject => makes_assignSameName hL hobject
    (hname.up (by omega)))

theorem makes_memberOf (hL : L.Suits c.layout) (ht : t.Meets L k) (hname : name.Meets L k) :
    Makes k (memberOf t name) (fun j m => m.Plain L .expression j) :=
  (makes_nameExpression ht (by omega)).bind (fun i₁ h₁ object hobject => makes_memberAccess hL hobject hname
    (by omega) (by omega))

theorem makes_wrapperArgument (hL : L.Suits c.layout) (hname : name.Meets L k)
    (hparent : ∀ t, parent = some t → t.Meets L k) :
    Makes k (wrapperArgument name parent) (fun j m => m.Plain L .expression j) := by
  have hself : Makes k (nameExpression name) (fun j m => m.Plain L .expression j) := makes_nameExpression hname
    (by omega)
  cases parent with
  | none =>
    refine hself.bind (fun i₁ h₁ object hobject => ?_)
    exact (makes_nameExpression hname (by omega)).bind (fun i₂ h₂ target htarget =>
      makes_orCreate hL (hobject.up (by omega)) htarget)
  | some t =>
    have ht : t.Meets L k := hparent t rfl
    refine hself.bind (fun i₁ h₁ object hobject => ?_)
    refine (makes_memberOf hL (ht.up (by omega)) (hname.up (by omega))).bind (fun i₂ h₂ member hmember => ?_)
    refine (makes_memberOf hL (ht.up (by omega)) (hname.up (by omega))).bind (fun i₃ h₃ target htarget => ?_)
    exact (makes_orCreate hL (hmember.up (by omega)) htarget).bind (fun i₄ h₄ created hcreated =>
      makes_assignment hL hobject hcreated (by omega) (by omega))

/-- **A wrapper is two statements**, or three within another one. -/
theorem makes_namespaceWrapper (hL : L.Suits c.layout) (hname : name.Meets L k)
    (hparent : ∀ t, parent = some t → t.Meets L k) (hblock : block.Plain L (.only .block) k) (column : Nat) :
    Makes k (c.namespaceWrapper name parent block column)
      (fun j ms => ms ≠ [] ∧ ∀ m ∈ ms, m.Plain L .statement j) := by
  unfold namespaceWrapper
  refine (makes_variableStatement hL hname (plain_noValue k) (by omega) (by omega)).bind
    (fun i₁ h₁ declaration hdeclaration => ?_)
  refine (makes_statementAt hL column hdeclaration (by omega)).bind (fun i₂ h₂ declaration hdeclaration => ?_)
  refine (makes_parameter hname (by omega)).bind (fun i₃ h₃ parameter hparameter => ?_)
  refine (makes_wrapperArgument hL (hname.up (by omega)) (fun t ht => (hparent t ht).up (by omega))).bind
    (fun i₄ h₄ object hobject => ?_)
  refine (makes_wrapperCall hL (fun m hm => List.mem_singleton.1 hm ▸ hparameter.up (by omega)) (hblock.up (by omega))
    (fun m hm => List.mem_singleton.1 hm ▸ hobject)).bind (fun i₅ h₅ call hcall => ?_)
  refine (makes_expressionStatement hL hcall (by omega)).bind (fun i₆ h₆ call hcall => ?_)
  refine (makes_statementAt hL column hcall (by omega)).bind (fun i₇ h₇ call hcall => ?_)
  cases parent with
  | none =>
    refine .pure (fun j hj => ⟨List.cons_ne_nil _ _, List.forall_mem_cons.2 ⟨hdeclaration.up (by omega), fun m hm =>
      ?_⟩⟩)
    exact List.mem_singleton.1 hm ▸ hcall.up (by omega)
  | some t =>
    refine (makes_attachName hL ((hparent t rfl).up (by omega)) (hname.up (by omega))).bind
      (fun i₈ h₈ attached hattached => ?_)
    refine (makes_statementAt hL column hattached (by omega)).bindPure (fun j hj attached hattached => ?_)
    refine ⟨List.cons_ne_nil _ _, List.forall_mem_cons.2 ⟨hdeclaration.up (by omega), List.forall_mem_cons.2
      ⟨hcall.up (by omega), fun m hm => ?_⟩⟩⟩
    exact List.mem_singleton.1 hm ▸ hattached

theorem makes_levelBlock (hL : L.Suits c.layout) {v : ModuleDeclaration} (innermost : Bool) (shift : Int) (column : Nat)
    {statements : List Node} (hopen : v.openBrace.Meets L i) (hclose : v.closeBrace.Meets L i)
    (h : ∀ m ∈ statements, m.Plain L .statement k) :
    Makes k (c.levelBlock v innermost shift column statements) (fun j m => m.Plain L (.only .block) j) := by
  have htrailing : (if innermost then c.lineEnd v.openBrace.trailing else c.newLine).Meets L := by
    split
    · exact hL.endingLine hopen.trailing
    · exact hL.lineBreak
  have hleading :
      (if innermost then c.closingBraceLeading v.closeBrace column shift else c.indentation column).Meets L := by
    split
    · exact closingBraceLeading_meets hL hclose.leading column shift
    · exact hL.indentation column
  refine (makes_openBrace hL htrailing).bind (fun i₁ h₁ opened hopened => ?_)
  exact (makes_closeBrace hL hleading).bind (fun i₂ h₂ closed hclosed => makes_block hopened h hclosed (by omega)
    (by omega) (by omega))

/-- **There is a wrapper for each part of the name.** -/
theorem makes_wrapLevels (hL : L.Suits c.layout) {v : ModuleDeclaration} (shift : Int) {innermost : List Node}
    (hopen : v.openBrace.Meets L i) (hclose : v.closeBrace.Meets L i)
    (hinnermost : ∀ m ∈ innermost, m.Plain L .statement k) :
    ∀ (parts : List Token) (parent : Option Token) (column : Nat), (∀ t ∈ parts, t.Meets L k) →
    (∀ t, parent = some t → t.Meets L k) →
    Makes k (c.wrapLevels v shift innermost parent column parts) (fun j ms => ∀ m ∈ ms, m.Plain L .statement j)
  | [], _, _, _, _ => .pure (fun j hj m hm => (hinnermost m hm).up (by omega))
  | part :: parts, parent, column, hparts, hparent => by
    have hpart : part.Meets L k := hparts part (List.mem_cons_self ..)
    refine (makes_wrapLevels hL shift hopen hclose hinnermost parts (some part) _
      (fun t ht => hparts t (List.mem_cons_of_mem _ ht)) (fun t ht => by cases ht; exact hpart)).bind
      (fun i₁ h₁ statements hstatements => ?_)
    refine (makes_levelBlock hL _ _ _ hopen hclose hstatements).bind (fun i₂ h₂ block hblock => ?_)
    exact (makes_namespaceWrapper hL (hpart.up (by omega)) (fun t ht => (hparent t ht).up (by omega)) hblock column).mono
      (fun _ _ _ hms => hms.2)

theorem makes_endWith {trailing : TriviaList} (htrailing : trailing.Meets L) : ∀ {ns : List Node},
    (∀ m ∈ ns, m.Plain L cl k) → Makes k (atEdges.endWith trailing ns) (fun j ms => ∀ m ∈ ms, m.Plain L cl j)
  | [], _ => .pure (fun j hj m hm => by cases hm)
  | [n], h => by
    refine (makes_withTrailing (h n (List.mem_singleton.2 rfl)) htrailing (by omega)).bindPure
      (fun j hj m hm m' hm' => ?_)
    exact List.mem_singleton.1 hm' ▸ hm
  | n :: n' :: ns, h => by
    refine (makes_endWith htrailing (fun m hm => h m (List.mem_cons_of_mem _ hm))).bindPure (fun j hj ms hms => ?_)
    exact List.forall_mem_cons.2 ⟨(h n (List.mem_cons_self ..)).up (by omega), hms⟩

theorem makes_atEdges {leading trailing : TriviaList} (hleading : leading.Meets L) (htrailing : trailing.Meets L) :
    ∀ {ns : List Node}, (∀ m ∈ ns, m.Plain L cl k) →
    Makes k (atEdges leading trailing ns) (fun j ms => ∀ m ∈ ms, m.Plain L cl j)
  | [], _ => .pure (fun j hj m hm => by cases hm)
  | n :: ns, h => by
    refine (makes_withLeading (h n (List.mem_cons_self ..)) hleading (by omega)).bind (fun i₁ h₁ n' hn' => ?_)
    exact makes_endWith htrailing (List.forall_mem_cons.2 ⟨hn', fun m hm => (h m (List.mem_cons_of_mem _ hm)).up
      (by omega)⟩)

/-! ## The declaration -/

/-- The name of a namespace has parts, which must not be too many. -/
theorem ends_namespaceParts {v : ModuleDeclaration} (hname : v.name.Stands GivenForm L .name k) :
    Ends IsRefusal k (namespaceParts n v.name) (v.name.nameParts.length ≤ LoweringFault.maxNameParts)
      (fun j ts => ∀ t ∈ ts, t.Meets L j) := by
  have hsome : ¬ v.name.nameParts.isEmpty = true := fun h => hname.nameParts_ne_nil (List.isEmpty_iff.1 h)
  unfold namespaceParts
  dsimp only
  rw [if_neg hsome]
  split
  · rename_i hmany
    exact (Ends.fail (.name n)).iff (iff_of_false not_false (Nat.not_le.2 hmany))
  · rename_i hfew
    exact (Ends.mapMake Token.Meets.lasts (fun t ht j hj =>
      makes_bareToken ((hname.nameParts t ht).up (by omega)))).iff (iff_of_true trivial (Nat.not_lt.1 hfew))

/-- **A namespace that is not ambient becomes statements if its name fits and its elements are intact.** -/
theorem lowers_moduleDeclaration (h : c.Sound L levels) (hn : n.Given L cl k)
    (hk : n.kind = .moduleDeclaration) : LowersTo L k (levels + 1) n (c.moduleDeclaration n) := by
  obtain ⟨v, hv, hs, hexported, -, hkeyword, hname, hopen, helements, hclose⟩ := hn.moduleDeclaration hk
  have hrequired : n.kind.keepsRequired = true := by rw [hk]; rfl
  have hspread : n.kind.isSpread = true := by rw [hk]; rfl
  have hleaves : n.leavesNothing = false := by simp [Node.leavesNothing, hk]
  have hparts : n.loweredParts =
      if v.declared.isSome || v.name.kind == .literalExpression then [] else v.elements := by
    unfold Node.loweredParts
    rw [hk]
    exact Node.partsAs_eq hv _
  have hfits : n.NameFits ↔ (v.declared.isSome || v.name.kind == .literalExpression) = true ∨
      v.name.nameParts.length ≤ LoweringFault.maxNameParts := by
    unfold Node.NameFits
    rw [hv]
    exact ⟨fun h => h v rfl, fun h w hw => Option.some.inj hw ▸ h⟩
  have hintact : (n.NameFits ∧ ∀ p ∈ n.loweredParts, p.Intact levels) ↔ n.Intact (levels + 1) :=
    (Node.intact_succ hn.fits hrequired).symm
  rw [hfits, hparts] at hintact
  have hremoved : ∀ j, Replacement.Suits .lowering L k n j .removed := fun j =>
    .ofSpread hspread hleaves (fun m hm => (by cases hm)) (fun m hm => by cases hm)
  unfold moduleDeclaration
  rw [Lowering.view_eq hv, pure_bind]
  by_cases hambient : (v.declared.isSome || v.name.kind == .literalExpression) = true
  · rw [if_pos hambient] at hintact ⊢
    exact (Ends.pure (fun j hj => hremoved j)).iff
      ((iff_true_intro ⟨.inl hambient, fun p hp => by cases hp⟩).symm.trans hintact)
  · rw [if_neg hambient, or_iff_right hambient] at hintact
    rw [if_neg hambient]
    -- What is neither ambient nor named by a string has a name of parts.
    have hpath : v.name.Stands GivenForm L .name k := by
      refine ⟨?_, hname.sound⟩
      have hkind : NodeClass.includes .moduleName v.name.kind = true := hname.kind
      simp only [Bool.or_eq_true, not_or, Bool.not_eq_true] at hambient
      simpa [NodeClass.includes, hambient.2] using hkind
    refine Ends.iff ?_ hintact
    refine (ends_namespaceParts hpath).bind (fun i₁ h₁ parts hparts => ?_)
    dsimp only
    refine (ends_moduleElements h _ (fun m hm => (helements m hm).up (by omega))).inScope.thenSure (fun i₂ h₂ r hr => ?_)
    obtain ⟨⟨statements, exported⟩, captured⟩ := r
    obtain ⟨hstatements, hexportedNames⟩ := hr
    dsimp only
    split
    · exact .pure (fun j hj => hremoved j)
    -- The names that are exported are attached if the namespace has a name to attach them to; the rest goes on alike.
    · have hrest : ∀ j, i₂ ≤ j → ∀ attached : List Node, (∀ m ∈ attached, m.Plain L .statement j) →
          Ends IsRefusal j (do
            let statements ← c.withCapture captured (c.columnOf n + c.indentSize * parts.length) statements
            let statements ←
              c.placeStatements (c.columnOf n + c.indentSize * parts.length) (statements ++ attached)
            let wrapped ← c.wrapLevels v ((c.indentSize * (parts.length - 1) : Nat) : Int) statements none (c.columnOf n)
              parts
            let leading := v.keyword.leadingWithoutExport v.exported
            return .many (← atEdges leading (c.lineEnd v.closeBrace.trailing) wrapped) : Lowering Replacement) True
            (fun l r => r.Suits .lowering L k n l) := by
        intro j hj attached hattached
        refine .make (makes_withCapture h.suits captured _ hstatements (by omega))
          (fun i₃ h₃ statements hstatements => ?_)
        have hall : ∀ m ∈ statements ++ attached, m.Plain L .statement i₃ := fun m hm => by
          rcases List.mem_append.1 hm with hm | hm
          · exact hstatements m hm
          · exact (hattached m hm).up (by omega)
        refine .make (makes_placeStatements h.suits _ hall (by omega)) (fun i₄ h₄ statements hstatements => ?_)
        refine .make (makes_wrapLevels h.suits _ hopen hclose hstatements parts none _
          (fun t ht => (hparts t ht).up (by omega)) (fun t ht => by cases ht)) (fun i₅ h₅ wrapped hwrapped => ?_)
        refine .make (makes_atEdges (Token.leadingWithoutExport_meets hkeyword hexported)
          (h.suits.endingLine hclose.trailing) hwrapped) (fun i₆ h₆ edged hedged => .pure (fun l hl => ?_))
        exact .ofSpread hspread hleaves (fun m hm => (hedged m hm).up (by omega)) (fun m hm => by cases hm)
      cases hlast : parts.getLast? with
      | none => exact .sureThen (.pure (fun l hl m hm => by cases hm)) hrest
      | some last =>
        have hinner : last.Meets L i₂ := (hparts last (List.mem_of_getLast? hlast)).up (by omega)
        exact (Ends.mapMake Node.Stands.lasts (fun t ht j hj =>
          makes_attachName h.suits (hinner.up (by omega)) ((hexportedNames t ht).up (by omega)))).sureThen hrest

end LoweringContext

end Downlevel
