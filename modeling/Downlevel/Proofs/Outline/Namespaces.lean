import Downlevel.Lowering.Namespaces
import Downlevel.Proofs.Outline.Enums
/-!
# Proofs.Outline.Namespaces — namespaces, and their draft

The names that an element exports are read off the tree that was given, and so are the parts of the name of a namespace.
A wrapper looks like its draft, and so does a whole row of wrappers.
-/
namespace Downlevel

variable {W : Registry} {n n' m m' : Node} {ns ns' : List Node} {t t' name name' inner inner' : Token} {ts ts' : List Token}

/-! ## Names -/

theorem Node.Known.namePartsUpTo : ∀ (depth : Nat) {n : Node}, n.Known W → ∀ t ∈ n.namePartsUpTo depth, t.Known W
  | 0, _, _, _, ht => by cases ht
  | depth + 1, n, h, t, ht => by
    unfold Node.namePartsUpTo at ht
    split at ht
    · rename_i left dot right hkind hslots
      have hleft : left.Known W := Slot.known_node.1 (h.slots _ (by rw [hslots]; exact List.mem_cons_self ..))
      have hright : right.Known W := Slot.known_token.1 (h.slots _ (by rw [hslots]; simp))
      rcases List.mem_append.1 ht with ht | ht
      · exact hleft.namePartsUpTo depth t ht
      · exact List.mem_singleton.1 ht ▸ hright
    · rename_i identifier hkind hslots
      exact List.mem_singleton.1 ht ▸ Slot.known_token.1 (h.slots _ (by rw [hslots]; exact List.mem_cons_self ..))
    · cases ht

/-- **The parts of a name look like those of its outline.** -/
theorem Node.Known.nameParts (h : n.Known W) : Token.AllShow W n.nameParts n.outline.nameParts := by
  rw [Node.nameParts_outline]
  exact .ofKnown (h.namePartsUpTo _)

theorem draws_exportedName {exported : Option Token} (h : t.Shows W t') :
    Draws W (exportedName exported t) (exportedName (exported.map Token.outline) t') Token.AllShow := by
  unfold exportedName
  rw [Option.isSome_map]
  split
  · exact (draws_bareToken h).map (fun _ _ _ _ hu => .cons hu .nil)
  · exact .pure .nil

theorem declarators_outline (h : ∀ n ∈ ns, n.Held W) :
    List.Forall₂ (fun d d' : VariableDeclarator => d.name.Shows W d'.name)
      (ns.filterMap (fun n => n.view? VariableDeclarator))
      ((ns.map Node.outline).filterMap (fun n => n.view? VariableDeclarator)) := by
  induction ns with
  | nil => exact .nil
  | cons n ns ih =>
    obtain ⟨hn, hns⟩ := List.forall_mem_cons.1 h
    have hreads := hn.reads (α := VariableDeclarator)
    rw [List.map_cons, List.filterMap_cons, List.filterMap_cons]
    -- What does not read as a declarator is left out of both lists.
    generalize n.view? VariableDeclarator = o at hreads
    generalize n.outline.view? VariableDeclarator = o' at hreads
    cases hreads with
    | none => exact ih hns
    | some hk hs hparts =>
      simp only [NodeView.toSlots, List.forall_mem_cons, Slot.held_token] at hparts
      exact .cons hparts.1.shows (ih hns)

/-- **The names that an element exports look like those that its outline exports.** -/
theorem draws_exportedNames (h : n.Held W) : Draws W n.exportedNames n.outline.exportedNames Token.AllShow := by
  unfold Node.exportedNames
  rw [Node.kind_outline]
  split
  · have hreads := h.reads (α := VariableStatement)
    generalize n.view? VariableStatement = o at hreads
    generalize n.outline.view? VariableStatement = o' at hreads
    cases hreads with
    | none => exact .pure .nil
    | @some v hk hs hparts =>
      simp only [NodeView.toSlots, List.forall_mem_cons, Slot.held_token, Slot.held_ofToken?, Slot.held_node] at hparts
      obtain ⟨-, -, hdeclaration, -, -⟩ := hparts
      dsimp only
      rw [show (OutlineView.outline v).exported.isNone = v.exported.isNone from Option.isNone_map,
        show (OutlineView.outline v).declaration = v.declaration.outline from rfl]
      split
      · exact .pure .nil
      · have hreads := hdeclaration.reads (α := VariableDeclaration)
        generalize v.declaration.view? VariableDeclaration = o at hreads
        generalize v.declaration.outline.view? VariableDeclaration = o' at hreads
        cases hreads with
        | none => exact .pure .nil
        | some hk hs hparts =>
          simp only [NodeView.toSlots, List.forall_mem_cons, Slot.held_separated] at hparts
          obtain ⟨-, ⟨hmembers, -⟩, -⟩ := hparts
          exact .mapM (fun _ _ _ _ _ ht => ht.up (by order)) (declarators_outline hmembers)
            (fun _ _ hd _ _ => draws_bareToken (hd.up (by order)))
  · have hreads := h.reads (α := FunctionDeclaration)
    generalize n.view? FunctionDeclaration = o at hreads
    generalize n.outline.view? FunctionDeclaration = o' at hreads
    cases hreads with
    | none => exact .pure .nil
    | some hk hs hparts =>
      simp only [NodeView.toSlots, List.forall_mem_cons, Slot.held_token] at hparts
      exact draws_exportedName hparts.2.2.2.1.shows
  · have hreads := h.reads (α := ClassDeclaration)
    generalize n.view? ClassDeclaration = o at hreads
    generalize n.outline.view? ClassDeclaration = o' at hreads
    cases hreads with
    | none => exact .pure .nil
    | some hk hs hparts =>
      simp only [NodeView.toSlots, List.forall_mem_cons, Slot.held_token] at hparts
      exact draws_exportedName hparts.2.2.2.1.shows
  · have hreads := h.reads (α := EnumDeclaration)
    generalize n.view? EnumDeclaration = o at hreads
    generalize n.outline.view? EnumDeclaration = o' at hreads
    cases hreads with
    | none => exact .pure .nil
    | some hk hs hparts =>
      simp only [NodeView.toSlots, List.forall_mem_cons, Slot.held_token] at hparts
      exact draws_exportedName hparts.2.2.2.1.shows
  · have hreads := h.reads (α := ModuleDeclaration)
    generalize n.view? ModuleDeclaration = o at hreads
    generalize n.outline.view? ModuleDeclaration = o' at hreads
    cases hreads with
    | none => exact .pure .nil
    | @some v hk hs hparts =>
      simp only [NodeView.toSlots, List.forall_mem_cons, Slot.held_node] at hparts
      have hname := hparts.2.2.2.1.known.nameParts
      dsimp only
      rw [show (OutlineView.outline v).name = v.name.outline from rfl]
      generalize v.name.nameParts = parts at hname
      generalize v.name.outline.nameParts = parts' at hname
      -- Of a dotted name the first part is exported.
      cases hname with
      | nil => exact .pure .nil
      | cons hfirst hrest => exact draws_exportedName hfirst
  · exact .pure .nil

namespace LoweringContext

variable {c : LoweringContext}

/-! ## Wrappers -/

theorem draws_attachName (hinner : inner.Shows W inner') (hname : name.Shows W name') :
    Draws W (attachName inner name) (attachName inner' name') Node.Shows :=
  (Build.draws_nameExpression hinner).bind (fun _ _ _ _ hobject => draws_assignSameName hobject (hname.up (by order)))

theorem draws_memberOf (ht : t.Shows W t') (hname : name.Shows W name') :
    Draws W (memberOf t name) (memberOf t' name') Node.Shows :=
  (Build.draws_nameExpression ht).bind (fun _ _ _ _ hobject => Build.draws_memberAccess hobject (hname.up (by order)))

variable {parent parent' : Option Token}

theorem draws_wrapperArgument (hname : name.Shows W name') (hparent : Option.Rel (Token.Shows W) parent parent') :
    Draws W (wrapperArgument name parent) (wrapperArgument name' parent') Node.Shows := by
  cases hparent with
  | none => exact draws_reopened hname
  | some ht =>
    refine (Build.draws_nameExpression hname).bind (fun W₁ h₁ object object' hobject => ?_)
    refine (draws_memberOf (ht.up (by order)) (hname.up (by order))).bind (fun W₂ h₂ member member' hmember => ?_)
    refine (draws_memberOf (ht.up (by order)) (hname.up (by order))).bind (fun W₃ h₃ target target' htarget => ?_)
    exact (draws_orCreate (hmember.up (by order)) htarget).bind (fun W₄ h₄ created created' hcreated =>
      Build.draws_assignment (hobject.up (by order)) hcreated)

/-- **The statements of a wrapper look like their draft.** -/
theorem draws_namespaceWrapper (hname : name.Shows W name') (hparent : Option.Rel (Token.Shows W) parent parent')
    (hblock : n.Shows W n') (column : Nat) :
    Draws W (c.namespaceWrapper name parent n column) (Draft.namespaceWrapper name' parent' n') Node.AllShow := by
  unfold namespaceWrapper Draft.namespaceWrapper
  refine (Build.draws_variableStatement hname .none).bind (fun W₁ h₁ declaration declaration' hdeclaration => ?_)
  refine .left (records_statementAt hdeclaration) (fun W₂ h₂ declaration hdeclaration => ?_)
  refine (Build.draws_parameter (hname.up (by order))).bind (fun W₃ h₃ parameter parameter' hparameter => ?_)
  have hparent₃ : Option.Rel (Token.Shows W₃) parent parent' := by
    cases hparent with
    | none => exact .none
    | some ht => exact .some (ht.up (by order))
  refine (draws_wrapperArgument (hname.up (by order)) hparent₃).bind (fun W₄ h₄ object object' hobject => ?_)
  refine (draws_wrapperCall (.cons (hparameter.up (by order)) .nil) (hblock.up (by order)) (.cons hobject .nil)).bind
    (fun W₅ h₅ call call' hcall => ?_)
  refine (Build.draws_expressionStatement hcall).bind (fun W₆ h₆ statement statement' hstatement => ?_)
  refine .left (records_statementAt hstatement) (fun W₇ h₇ statement hstatement => ?_)
  cases hparent with
  | none => exact .pure (.cons (hdeclaration.up (by order)) <| .cons hstatement .nil)
  | some ht =>
    refine (draws_attachName (ht.up (by order)) (hname.up (by order))).bind
      (fun W₈ h₈ attached attached' hattached => ?_)
    exact .left (records_statementAt hattached) (fun W₉ h₉ attached hattached =>
      .pure (.cons (hdeclaration.up (by order)) <| .cons (hstatement.up (by order)) <| .cons hattached .nil))

/-- **A row of wrappers looks like its draft.** -/
theorem draws_wrapLevels (v : ModuleDeclaration) (shift : Int) (hinnermost : Node.AllShow W ns ns') :
    ∀ {ts ts' : List Token} {parent parent' : Option Token} (column : Nat), Token.AllShow W ts ts' →
    Option.Rel (Token.Shows W) parent parent' →
    Draws W (c.wrapLevels v shift ns parent column ts) (Draft.wrapLevels ns' parent' ts') Node.AllShow
  | [], _, _, _, _, hts, _ => by
    cases hts
    exact .pure hinnermost
  | t :: ts, _, parent, parent', column, hts, hparent => by
    cases hts with
    | cons ht hrest =>
      refine (draws_wrapLevels v shift hinnermost _ hrest (.some ht)).bind (fun W₁ h₁ statements statements' hs => ?_)
      refine (draws_bracedBlock _ _ hs).bind (fun W₂ h₂ block block' hblock => ?_)
      refine draws_namespaceWrapper (ht.up (by order)) ?_ hblock column
      cases hparent with
      | none => exact .none
      | some hp => exact .some (hp.up (by order))

theorem records_endWith {trailing : TriviaList} : ∀ {ns ns' : List Node} {W : Registry}, Node.AllShow W ns ns' →
    Records W (atEdges.endWith trailing ns) (fun W' ms => Node.AllShow W' ms ns')
  | [], _, _, h => by
    cases h
    exact .pure .nil
  | [n], _, _, h => by
    cases h with
    | cons hn hrest =>
      cases hrest
      exact (records_withTrailing hn).map (fun _ _ _ hm => .cons hm .nil)
  | n :: m :: ns, _, _, h => by
    cases h with
    | cons hn hrest => exact (records_endWith hrest).map (fun _ _ _ hms => .cons (hn.up (by order)) hms)

theorem records_atEdges {leading trailing : TriviaList} (h : Node.AllShow W ns ns') :
    Records W (atEdges leading trailing ns) (fun W' ms => Node.AllShow W' ms ns') := by
  cases h with
  | nil => exact .pure .nil
  | cons hn hrest =>
    exact (records_withLeading hn).bind (fun _ _ _ hm => records_endWith (.cons hm (Node.AllShow.up hrest (by order))))

theorem follows_reindentAll (shift : Int) : ∀ {ns ns' : List Node} {W : Registry}, Node.AllShow W ns ns' →
    Follows W (c.reindentAll shift ns) (pure ns') Node.AllShow
  | [], _, _, h => by
    cases h
    exact .pure .nil
  | n :: ns, _, W, h => by
    cases h with
    | cons hn hrest =>
      refine .aside (follows_reindent true shift hn) (fun W₁ h₁ m hm => ?_)
      exact .aside (follows_reindentAll shift (Node.AllShow.up hrest (by order))) (fun W₂ h₂ ms hms =>
        .pure (.cons (hm.up (by order)) hms))

/-! ## The declaration -/

theorem follows_bareTokens : ∀ {ts ts' : List Token} {W : Registry}, Token.AllShow W ts ts' →
    Follows W (ts.mapM (fun t => Work.lift t.bare)) (pure ts') Token.AllShow
  | [], _, _, h => by
    cases h
    rw [List.mapM_nil]
    exact .pure .nil
  | t :: ts, _, W, h => by
    cases h with
    | cons ht hrest =>
      rw [List.mapM_cons]
      refine .lay records_bareToken (fun W₁ h₁ u hu => ?_)
      exact .aside (follows_bareTokens (Token.AllShow.up hrest (by order))) (fun W₂ h₂ us hus =>
        .pure (.cons ((hu.up (by order)).trans ht.outline) hus))

/-- Both ways of lowering refuse a namespace without a name and one with too many parts. -/
theorem follows_namespaceParts (h : m.Known W) :
    Follows W (namespaceParts n m) (Draft.namespaceParts m.outline) Token.AllShow := by
  have hparts := h.nameParts
  unfold namespaceParts Draft.namespaceParts
  generalize m.nameParts = parts at hparts
  generalize m.outline.nameParts = parts' at hparts
  have hempty : parts'.isEmpty = parts.isEmpty := by cases hparts <;> rfl
  have hfail : ∀ (e : LoweringError) (f : Unit → Lowering (List Token)),
      Follows W ((Work.fail e : Lowering Unit) >>= f) (Draft.fail : Draft (List Token)) Token.AllShow :=
    fun _ _ _ _ _ _ => .error
  dsimp only
  rw [hempty, ← hparts.length_eq]
  by_cases hnone : parts.isEmpty = true
  · rw [if_pos hnone, if_pos (show parts.isEmpty = true ∨ LoweringFault.maxNameParts < parts.length from .inl hnone)]
    exact hfail _ _
  rw [if_neg hnone]
  by_cases hmany : LoweringFault.maxNameParts < parts.length
  · rw [if_pos hmany, if_pos (show parts.isEmpty = true ∨ LoweringFault.maxNameParts < parts.length from .inr hmany)]
    exact hfail _ _
  rw [if_neg hmany, if_neg (by rintro (h | h); exacts [hnone h, hmany h])]
  exact follows_bareTokens hparts

namespace Drafted

variable {visit : Node → Draft Replacement} (h : c.Drafted visit)

include h

/-- **The elements of a namespace look like their draft, and export the same names.** -/
theorem moduleElements (shift : Int) : ∀ {ns : List Node} {W : Registry}, (∀ n ∈ ns, n.Held W) →
    Follows W (c.moduleElements shift ns) (Draft.moduleElements visit (ns.map Node.outline))
      (fun W' p q => Node.AllShow W' p.1 q.1 ∧ Token.AllShow W' p.2 q.2)
  | [], _, _ => .pure ⟨.nil, .nil⟩
  | n :: ns, W, hns => by
    obtain ⟨hn, hrest⟩ := List.forall_mem_cons.1 hns
    unfold LoweringContext.moduleElements
    rw [List.map_cons, Draft.moduleElements]
    refine (h.follows W n hn).bind (fun W₁ h₁ r r' hr => ?_)
    have hnodes : Node.AllShow W₁ r.nodes r'.nodes := hr.nodes
    have hgoes : ∀ W₂, W₁ ≤ W₂ → ∀ names names' : List Token, Token.AllShow W₂ names names' → Follows W₂ (do
        let lowered ← c.reindentAll shift r.nodes
        let p ← c.moduleElements shift ns
        return (lowered ++ p.1, names ++ p.2) : Lowering (List Node × List Token)) (do
        let q ← Draft.moduleElements visit (ns.map Node.outline)
        return (r'.nodes ++ q.1, names' ++ q.2)) (fun W' p q =>
          Node.AllShow W' p.1 q.1 ∧ Token.AllShow W' p.2 q.2) := by
      intro W₂ h₂ names names' hnames
      refine .aside (follows_reindentAll shift (Node.AllShow.up hnodes (by order))) (fun W₃ h₃ lowered hlowered => ?_)
      refine (moduleElements shift (fun m hm => (hrest m hm).up (by order))).map (fun W₄ h₄ p q hp => ?_)
      exact ⟨List.rel_append (Node.AllShow.up hlowered (by order)) hp.1,
        List.rel_append (Token.AllShow.up hnames (by order)) hp.2⟩
    dsimp only
    rw [hnodes.isEmpty_eq]
    split
    · rw [pure_bind, pure_bind]
      exact hgoes W₁ le_rfl [] [] .nil
    · exact .make (draws_exportedNames (hn.up (by order))) (fun W₂ h₂ names names' hnames =>
        hgoes W₂ h₂ names names' hnames)

/-- **A namespace looks like its draft.** -/
theorem moduleDeclaration (hn : n.Held W) :
    Follows W (c.moduleDeclaration n) (Draft.moduleDeclaration visit n.outline) Replacement.Shows := by
  unfold LoweringContext.moduleDeclaration Draft.moduleDeclaration
  refine .viewHeld hn (fun v hk hs hparts => ?_)
  simp only [NodeView.toSlots, List.forall_mem_cons, Slot.held_token, Slot.held_ofToken?, Slot.held_node,
    Slot.held_list] at hparts
  obtain ⟨hexported, hdeclared, hkeyword, hname, hopen, helements, hclose, -⟩ := hparts
  rw [show (OutlineView.outline v).declared.isSome = v.declared.isSome from Option.isSome_map,
    show (OutlineView.outline v).name = v.name.outline from rfl, Node.kind_outline,
    show (OutlineView.outline v).elements = v.elements.map Node.outline from rfl]
  split
  · exact .pure .removed
  refine (follows_namespaceParts hname.known).bind (fun W₁ h₁ parts parts' hparts => ?_)
  refine (Follows.inScope (h.moduleElements _ (fun m hm => (helements m hm).up (by order)))).bind
    (fun W₂ h₂ p q hp => ?_)
  obtain ⟨⟨hstatements, hexported⟩, hcaptured⟩ := hp
  dsimp only at hstatements hexported ⊢
  rw [hstatements.isEmpty_eq, hcaptured]
  split
  · exact .pure .removed
  -- The names that are exported are attached to the innermost part of the name, if there is one; the rest follows
  -- alike.
  have hgoes : ∀ W₃, W₂ ≤ W₃ → ∀ attached attached' : List Node, Node.AllShow W₃ attached attached' → Follows W₃ (do
      let statements ← c.withCapture q.2 (c.columnOf n + c.indentSize * parts.length) p.1.1
      let statements ← c.placeStatements (c.columnOf n + c.indentSize * parts.length) (statements ++ attached)
      let wrapped ← c.wrapLevels v ((c.indentSize * (parts.length - 1) : Nat) : Int) statements none (c.columnOf n)
        parts
      let leading := v.keyword.leadingWithoutExport v.exported
      return .many (← atEdges leading (c.lineEnd v.closeBrace.trailing) wrapped) : Lowering Replacement) (do
      let statements ← Draft.make (Draft.withCapture q.2 q.1.1)
      return .many (← Draft.make (Draft.wrapLevels (statements ++ attached') none parts'))) Replacement.Shows := by
    intro W₃ h₃ attached attached' hattached
    refine .make (draws_withCapture _ (Node.AllShow.up hstatements (by order)))
      (fun W₄ h₄ statements statements' hs => ?_)
    refine .lay (records_placeStatements (List.rel_append hs (Node.AllShow.up hattached (by order))))
      (fun W₅ h₅ placed hplaced => ?_)
    refine .make (draws_wrapLevels v _ hplaced _ (Token.AllShow.up hparts (by order)) .none)
      (fun W₆ h₆ wrapped wrapped' hw => ?_)
    exact .lay (records_atEdges hw) (fun W₇ h₇ edged hedged => .pure (.many hedged))
  cases hlast : parts.getLast? with
  | none =>
    have hnone : parts'.getLast? = none := by
      rw [List.getLast?_eq_none_iff] at hlast ⊢
      subst hlast
      cases hparts
      rfl
    rw [hnone]
    exact hgoes W₂ le_rfl [] [] .nil
  | some inner =>
    have hrel : Option.Rel (Token.Shows W₂) parts.getLast? parts'.getLast? := by
      -- The last part is the first one of the row turned round.
      have hreverse := List.rel_reverse (Token.AllShow.up hparts (by order) : Token.AllShow W₂ parts parts')
      rw [List.getLast?_eq_head?_reverse, List.getLast?_eq_head?_reverse]
      generalize parts.reverse = l at hreverse
      generalize parts'.reverse = l' at hreverse
      cases hreverse with
      | nil => exact .none
      | cons ht _ => exact .some ht
    rw [hlast] at hrel
    generalize parts'.getLast? = last' at hrel
    cases hrel with
    | some hinner =>
      have hattached : Follows W₂ (p.1.2.mapM (fun name => Work.lift (attachName inner name)) : Lowering (List Node)) _
          Node.AllShow :=
        Follows.mapM (fun _ _ _ _ _ hm => hm.up (by order)) hexported
          (fun t t' ht W' hle => .lift (draws_attachName (hinner.up hle) (ht.up hle)))
      exact hattached.bind (fun W₃ h₃ attached attached' ha => hgoes W₃ h₃ _ _ ha)

end Drafted

end LoweringContext

end Downlevel
