import Downlevel.Proofs.Outline.NamespaceRows
import Downlevel.Proofs.Outline.Untyped
/-!
# Proofs.Outline.ValueFree — which namespaces vanish, and what the others export

An element is value-free if it says something about types only: an interface, what is declared to be elsewhere, a
function without a body, a namespace whose name is a string, and a namespace of nothing but such elements.  Lowering
decides bottom-up what it drops, by what has become of the elements of a namespace; what it drops are the value-free
elements (`Draft.gives_element`).  A namespace that it keeps becomes a variable and the call of its wrapper
(`namespace_vanishes_iff`), and the innermost wrapper ends with what the namespace exports (`namespace_exports`).
-/
namespace Downlevel

/-- The declaration has the word `declare`. -/
def Node.isAmbient (n : Node) : Bool :=
  match n.kind with
  | .variableStatement | .functionDeclaration | .classDeclaration | .enumDeclaration | .moduleDeclaration => n.has 1
  | _ => false

/-- **An element that holds no value.** -/
inductive Node.ValueFree : Node → Prop
  | interface {n : Node} (kind : n.kind = .interfaceDeclaration) : ValueFree n
  | ambient {n : Node} (declared : n.isAmbient = true) : ValueFree n
  | bodiless {n : Node} {v : FunctionDeclaration} (view : n.view? FunctionDeclaration = some v) (block : v.block = none) :
    ValueFree n
  | stringNamed {n : Node} {v : ModuleDeclaration} (view : n.view? ModuleDeclaration = some v)
    (name : v.name.kind = .literalExpression) : ValueFree n
  | namespaceOf {n : Node} {v : ModuleDeclaration} (view : n.view? ModuleDeclaration = some v)
    (elements : ∀ m ∈ v.elements, ValueFree m) : ValueFree n

section

variable {W : Registry} {n m u : Node} {ns : List Node} {i : Bool} {levels : Nat} {T : Translation}

/-! ## What is value-free -/

theorem Node.kind_eq_of_views {α β : Type} [NodeView α] [NodeView β] {v : α} {w : β} (hv : n.view? α = some v)
    (hw : n.view? β = some w) : NodeView.kind α = NodeView.kind β :=
  (Node.kind_of_view? hv).symm.trans (Node.kind_of_view? hw)

theorem Node.isAmbient_eq {kind : NodeKind} {declared : Option Token} (hk : n.kind = kind)
    (hkind : kind = .variableStatement ∨ kind = .functionDeclaration ∨ kind = .classDeclaration ∨ kind = .enumDeclaration ∨
      kind = .moduleDeclaration) (hs : n.slots[1]? = some (.ofToken? declared)) : n.isAmbient = declared.isSome := by
  unfold Node.isAmbient
  rw [hk]
  rcases hkind with rfl | rfl | rfl | rfl | rfl <;> exact Node.has_of_slots hs

namespace Node.ValueFree

/-- A value-free element that is neither an interface, a function nor a namespace is declared to be elsewhere. -/
theorem isAmbient (h : n.ValueFree) (hi : n.kind ≠ .interfaceDeclaration) (hf : n.kind ≠ .functionDeclaration)
    (hm : n.kind ≠ .moduleDeclaration) : n.isAmbient = true := by
  cases h with
  | interface hk => exact absurd hk hi
  | ambient h => exact h
  | bodiless hv => exact absurd (Node.kind_of_view? hv) hf
  | stringNamed hv => exact absurd (Node.kind_of_view? hv) hm
  | namespaceOf hv => exact absurd (Node.kind_of_view? hv) hm

/-- Of variables, of a class and of an enum nothing is left only where they are declared to be elsewhere. -/
theorem iff_isAmbient (hk : n.kind = .variableStatement ∨ n.kind = .classDeclaration ∨ n.kind = .enumDeclaration) :
    n.ValueFree ↔ n.isAmbient = true := by
  refine ⟨fun h => h.isAmbient ?_ ?_ ?_, .ambient⟩
  all_goals rcases hk with hk | hk | hk <;> rw [hk] <;> decide

theorem function_iff {v : FunctionDeclaration} (hv : n.view? FunctionDeclaration = some v) :
    n.ValueFree ↔ n.isAmbient = true ∨ v.block = none := by
  constructor
  · intro h
    cases h with
    | interface hk => rw [Node.kind_of_view? hv] at hk; cases hk
    | ambient h => exact .inl h
    | bodiless hv' hblock => cases hv.symm.trans hv'; exact .inr hblock
    | stringNamed hv' => cases Node.kind_eq_of_views hv hv'
    | namespaceOf hv' => cases Node.kind_eq_of_views hv hv'
  · rintro (h | h)
    · exact .ambient h
    · exact .bodiless hv h

theorem namespace_iff {v : ModuleDeclaration} (hv : n.view? ModuleDeclaration = some v) :
    n.ValueFree ↔ n.isAmbient = true ∨ v.name.kind = .literalExpression ∨ ∀ m ∈ v.elements, m.ValueFree := by
  constructor
  · intro h
    cases h with
    | interface hk => rw [Node.kind_of_view? hv] at hk; cases hk
    | ambient h => exact .inl h
    | bodiless hv' => cases Node.kind_eq_of_views hv hv'
    | stringNamed hv' hname => cases hv.symm.trans hv'; exact .inr (.inl hname)
    | namespaceOf hv' helements => cases hv.symm.trans hv'; exact .inr (.inr helements)
  · rintro (h | h | h)
    · exact .ambient h
    · exact .stringNamed hv h
    · exact .namespaceOf hv h

theorem not_of_statement (h : n.isAmbient = false) (hi : n.kind ≠ .interfaceDeclaration) (hf : n.kind ≠ .functionDeclaration)
    (hm : n.kind ≠ .moduleDeclaration) : ¬ n.ValueFree := fun hfree => by
  rw [hfree.isAmbient hi hf hm] at h
  cases h

theorem not_of_kept {v : ModuleDeclaration} (hv : n.view? ModuleDeclaration = some v) (hambient : n.isAmbient = false)
    (hkept : v.isDropped = false) (hm : m ∈ v.elements) (hk : m.kind = .expressionStatement) : ¬ n.ValueFree := fun h => by
  rcases (namespace_iff hv).1 h with h | h | h
  · rw [hambient] at h
    cases h
  · rw [ModuleDeclaration.isDropped, h] at hkept
    simp at hkept
  · refine not_of_statement (by rw [Node.isAmbient, hk]) ?_ ?_ ?_ (h m hm)
    all_goals rw [hk]; decide

end Node.ValueFree

/-! ## What is dropped -/

/-- Nothing takes the place of the element if it is value-free, and else something does. -/
def Replacement.Drops (n : Node) (r : Replacement) : Prop := r.nodes = [] ↔ n.ValueFree

theorem Replacement.drops_removed (h : n.ValueFree) : Replacement.removed.Drops n := ⟨fun _ => h, fun _ => rfl⟩

theorem Replacement.drops_of_nodes {r : Replacement} (hr : r.nodes ≠ []) (h : ¬ n.ValueFree) : r.Drops n :=
  ⟨fun hnone => absurd hnone hr, fun hfree => absurd hfree h⟩

namespace Draft

variable {visit : Node → Draft Replacement}

theorem Gives.viewHeld {α β : Type} [NodeView α] [OutlineView α] [FittingView α] {v : α} {f : α → Draft β} {Q : β → Prop}
    (hn : n.Held W) (hv : n.view? α = some v) (hf : (f (OutlineView.outline v)).Gives Q) :
    (Draft.view α n.outline >>= f).Gives Q :=
  (Gives.view (hn.slots_view hv).2).bind (fun _ heq => heq ▸ hf)

theorem gives_one {m : Node} : (pure (Replacement.one m) : Draft Replacement).Gives (fun r => r.nodes ≠ []) :=
  .pure (List.cons_ne_nil m [])

theorem gives_many {m : Node} : (pure (Replacement.many (m :: ns)) : Draft Replacement).Gives (fun r => r.nodes ≠ []) :=
  .pure (List.cons_ne_nil m ns)

/-- A form that is dropped where it has the word `declare`, and of which something becomes elsewhere. -/
theorem gives_unlessDeclared {α : Type} [NodeView α] [OutlineView α] [FittingView α] {v : α} (declared : α → Option Token)
    {rest : α → Draft Replacement} (hn : n.Held W) (hv : n.view? α = some v)
    (hsame : declared (OutlineView.outline v) = (declared v).map Token.outline)
    (hfree : n.ValueFree ↔ (declared v).isSome = true) (hrest : ∀ v, (rest v).Gives (fun r => r.nodes ≠ [])) :
    (view α n.outline >>= fun v => if (declared v).isSome = true then pure Replacement.removed else rest v).Gives
      (Replacement.Drops n) := by
  refine .viewHeld hn hv ?_
  rw [hsame, Option.isSome_map]
  cases h : (declared v).isSome with
  | true => exact .pure (Replacement.drops_removed (hfree.2 h))
  | false => exact (hrest _).mono (fun _ hr => Replacement.drops_of_nodes hr (by rw [hfree, h]; decide))

theorem gives_variableStatement (hn : n.Held W) (hk : n.kind = .variableStatement) :
    (variableStatement visit n.outline).Gives (Replacement.Drops n) := by
  obtain ⟨v, hv, hs, -⟩ := hn.stands.variableStatement hk
  refine gives_unlessDeclared VariableStatement.declared hn hv rfl ?_ (fun v => .andThen (fun walked => ?_))
  · rw [Node.ValueFree.iff_isAmbient (.inl hk), Node.isAmbient_eq hk (.inl rfl) (by rw [hs]; rfl)]
  · cases v.exported with
    | none => exact gives_one
    | some t => exact .andThen (fun _ => .andThen (fun _ => gives_one))

theorem gives_classDeclaration (hn : n.Held W) (hk : n.kind = .classDeclaration) :
    (classDeclaration visit n.outline).Gives (Replacement.Drops n) := by
  obtain ⟨v, hv, hs, -⟩ := hn.stands.classDeclaration hk
  refine gives_unlessDeclared ClassDeclaration.declared hn hv rfl ?_
    (fun v => .andThen (fun base => .andThen (fun _ => .andThen (fun _ => .andThen (fun _ => ?_)))))
  · rw [Node.ValueFree.iff_isAmbient (.inr (.inl hk)), Node.isAmbient_eq hk (by simp) (by rw [hs]; rfl)]
  · dsimp only
    split
    · exact .andThen (fun _ => .andThen (fun _ => .andThen (fun _ => .andThen (fun _ => gives_one))))
    · exact .andThen (fun _ => .andThen (fun _ => .andThen (fun _ => gives_one)))

theorem gives_enumDeclaration (hn : n.Held W) (hk : n.kind = .enumDeclaration) :
    (enumDeclaration visit n.outline).Gives (Replacement.Drops n) := by
  obtain ⟨v, hv, hs, -⟩ := hn.stands.enumDeclaration hk
  refine gives_unlessDeclared EnumDeclaration.declared hn hv rfl ?_ (fun v => .andThen (fun _ => .andThen (fun _ =>
    .andThen (fun _ => .andThen (fun _ => .andThen (fun _ => .andThen (fun _ => gives_many)))))))
  rw [Node.ValueFree.iff_isAmbient (.inr (.inr hk)), Node.isAmbient_eq hk (by simp) (by rw [hs]; rfl)]

theorem gives_functionStatement (hn : n.Held W) (hk : n.kind = .functionDeclaration) :
    (functionStatement visit n.outline).Gives (Replacement.Drops n) := by
  obtain ⟨v, hv, hs, -⟩ := hn.stands.functionDeclaration hk
  have hfree : n.ValueFree ↔ v.declared.isSome = true ∨ v.block = none := by
    rw [Node.ValueFree.function_iff hv, Node.isAmbient_eq hk (by simp) (by rw [hs]; rfl)]
  have hdeclared : (OutlineView.outline v).declared.isSome = v.declared.isSome := Option.isSome_map
  refine .viewHeld hn hv ?_
  cases hd : v.declared.isSome with
  | true =>
    rw [if_pos (hdeclared.trans hd)]
    exact .pure (Replacement.drops_removed (hfree.2 (.inl hd)))
  | false =>
    rw [if_neg (by rw [hdeclared, hd]; decide)]
    cases hblock : v.block with
    | none =>
      rw [show (OutlineView.outline v).block = none from by show v.block.map _ = none; rw [hblock]; rfl]
      exact .pure (Replacement.drops_removed (hfree.2 (.inr hblock)))
    | some block =>
      rw [show (OutlineView.outline v).block = some block.outline from by show v.block.map _ = _; rw [hblock]; rfl]
      refine Gives.mono (P := fun r : Replacement => r.nodes ≠ []) ?_
        (fun r hr => Replacement.drops_of_nodes hr (fun h => ?_))
      · exact .andThen (fun _ => .andThen (fun _ => .andThen (fun _ => .andThen (fun _ => gives_one))))
      · rcases hfree.1 h with h | h
        · rw [hd] at h
          cases h
        · rw [hblock] at h
          cases h

/-- Nothing takes the place of elements if all of them are value-free. -/
theorem outlines_eq_nil_iff {pieces : List (Replacement × Marks)}
    (hvisit : ∀ m ∈ ns, (visit m.outline).Gives (Replacement.Drops m))
    (h : List.Forall₂ (fun m piece => visit m.outline i = some piece) ns pieces) :
    outlines pieces = [] ↔ ∀ m ∈ ns, m.ValueFree := by
  induction h with
  | nil => exact ⟨fun _ _ hm => (by cases hm), fun _ => rfl⟩
  | @cons m piece ms pieces hpiece _ ih =>
    obtain ⟨hm, hms⟩ := List.forall_mem_cons.1 hvisit
    have hdrops : piece.1.nodes = [] ↔ m.ValueFree := hm i _ _ hpiece
    rw [List.forall_mem_cons, ← ih hms, ← hdrops]
    show piece.1.nodes.map Node.outline ++ outlines pieces = [] ↔ _
    rw [List.append_eq_nil_iff, List.map_eq_nil_iff]

/-- **A namespace is dropped if it is value-free**, where its elements are. -/
theorem gives_moduleDeclaration (hn : n.Held W) (hk : n.kind = .moduleDeclaration)
    (hvisit : ∀ m, m.Held W → NodeClass.element.includes m.kind = true → (visit m.outline).Gives (Replacement.Drops m)) :
    (moduleDeclaration visit n.outline).Gives (Replacement.Drops n) := by
  obtain ⟨v, hv, hs, -, -, -, -, -, helements, -⟩ := hn.stands.moduleDeclaration hk
  have hambient : n.isAmbient = v.declared.isSome := Node.isAmbient_eq hk (by simp) (by rw [hs]; rfl)
  have hfree := Node.ValueFree.namespace_iff hv
  rw [hambient] at hfree
  cases hdropped : v.isDropped with
  | true =>
    intro i r marks hd
    obtain rfl := notes_moduleDeclaration_dropped hn hv hdropped _ _ hd
    refine Replacement.drops_removed (hfree.2 ?_)
    rcases Bool.or_eq_true_iff.1 hdropped with h | h
    · exact .inl h
    · exact .inr (.inl (eq_of_beq h))
  | false =>
    intro i r marks hd
    obtain ⟨pieces, inner, hpieces, hinner, hr⟩ := notes_moduleDeclaration_pieces hn hv hdropped _ _ hd
    -- The wrappers are left out if there is nothing to put into them.
    have hnone : outlines pieces = [] ↔ ∀ m ∈ v.elements, m.ValueFree := outlines_eq_nil_iff
      (fun m hm => hvisit m (hn.below (hn.mem_all hv (s := .list v.elements) (by simp [NodeView.toSlots]) hm))
        (helements m hm).kind) hpieces
    have hparts : v.name.nameParts ≠ [] := fun hnil => by rw [hnil] at hinner; cases hinner
    obtain ⟨hdeclared, hname⟩ := Bool.or_eq_false_iff.1 hdropped
    have hall : n.ValueFree ↔ ∀ m ∈ v.elements, m.ValueFree := by
      rw [hfree, hdeclared]
      simp only [Bool.false_eq_true, false_or]
      exact or_iff_right (by simpa using hname)
    show r.nodes = [] ↔ n.ValueFree
    rw [hall, ← hnone, ← List.map_eq_nil_iff (f := Node.outline), hr]
    by_cases hempty : outlines pieces = []
    · rw [if_pos (by rw [hempty]; rfl), hempty]
    · rw [if_neg (by rwa [List.isEmpty_iff])]
      refine iff_of_false ?_ hempty
      cases hts : v.name.nameParts with
      | nil => exact absurd hts hparts
      | cons t ts => exact List.cons_ne_nil _ _

/-- **What is dropped of the elements of a program are the value-free ones**, at every depth. -/
theorem gives_element : ∀ (levels : Nat) {n : Node}, n.Held W → NodeClass.element.includes n.kind = true →
    (visitUpTo levels n.outline).Gives (Replacement.Drops n)
  | 0, _, _, _ => .fail
  | levels + 1, n, hn, helement => by
    -- Any other statement is not value-free, and something takes its place.
    have hkept : ∀ {d : Draft Replacement}, d.Gives (fun r => r.nodes ≠ []) → n.isAmbient = false →
        n.kind ≠ .interfaceDeclaration → n.kind ≠ .functionDeclaration → n.kind ≠ .moduleDeclaration →
        d.Gives (Replacement.Drops n) := fun hd ha hi hf hm =>
      hd.mono (fun _ hr => Replacement.drops_of_nodes hr (Node.ValueFree.not_of_statement ha hi hf hm))
    unfold visitUpTo rule
    rw [Node.kind_outline]
    cases hk : n.kind with
    | interfaceDeclaration => exact .pure (Replacement.drops_removed (.interface hk))
    | classDeclaration => exact gives_classDeclaration hn hk
    | moduleDeclaration => exact gives_moduleDeclaration hn hk (fun m hm => gives_element levels hm)
    | enumDeclaration => exact gives_enumDeclaration hn hk
    | functionDeclaration => exact gives_functionStatement hn hk
    | variableStatement => exact gives_variableStatement hn hk
    | expressionStatement =>
      refine hkept (.andThen (fun _ => .andThen (fun _ => ?_))) (by rw [Node.isAmbient, hk]) (by rw [hk]; decide)
        (by rw [hk]; decide) (by rw [hk]; decide)
      split
      · exact gives_one
      · exact .andThen (fun _ => .andThen (fun _ => gives_one))
    | _ =>
      first
        | exact absurd helement (by rw [hk]; decide)
        | exact hkept (.andThen (fun _ => gives_one)) (by rw [Node.isAmbient, hk]) (by rw [hk]; decide) (by rw [hk]; decide)
            (by rw [hk]; decide)

end Draft

/-! ## Namespaces -/

/-- **Whatever the rules make of an element, it is nothing if the element is value-free**, and only then. -/
theorem Translation.lowersTo_eq_nil_iff {ms : List Node} {marks : Marks} (hn : n ∈ T.tree.all)
    (hk : NodeClass.element.includes n.kind = true) (h : T.LowersTo n ms marks) : ms = [] ↔ n.ValueFree := by
  obtain ⟨W, -, hheld⟩ := held_of_parse T.parsed T.older
  obtain ⟨levels, r, hd, rfl⟩ := T.draft_of_lowersTo hn h
  rw [List.map_eq_nil_iff]
  exact Draft.gives_element levels (hheld.below hn) hk _ _ _ hd

/-- **Which namespaces vanish.**  Of a program that is lowered, nothing takes the place of a namespace if it is value-free,
and only then, if it does not stand in a namespace of which nothing is lowered.  Of another one become two statements: a
variable named as the first part of its name, and the call of the wrapper of that part. -/
theorem namespace_vanishes_iff (T : Translation) (u n : Node) (v : ModuleDeclaration) (hlower : T.outcome = .ok u)
    (hn : n ∈ T.tree.all) (hshown : ¬ T.tree.Hides n) (hv : n.view? ModuleDeclaration = some v) :
    ∃ ms marks, T.LowersTo n ms marks ∧ u.HoldsRow ms ∧ (ms = [] ↔ n.ValueFree) ∧ (¬ n.ValueFree →
      ∃ first body, v.name.nameParts.head? = some first ∧ ms = [Code.var first none,
        Code.statement (Code.wrapper [first] body [Code.orCreate (Code.name first) (Code.name first)])]) := by
  have hk : n.kind = .moduleDeclaration := Node.kind_of_view? hv
  obtain ⟨W, levels, r, marks, hheld, hd, hlowers, hrow⟩ := T.rule_of_shown hlower hn hshown (by rw [hk]; rfl)
  rw [Draft.rule, Node.kind_outline, hk] at hd
  have hnone : r.nodes.map Node.outline = [] ↔ n.ValueFree := T.lowersTo_eq_nil_iff hn (by rw [hk]; rfl) hlowers
  refine ⟨_, marks, hlowers, hrow, hnone, fun hvalue => ?_⟩
  cases hdropped : v.isDropped with
  | true =>
    rw [Draft.notes_moduleDeclaration_dropped (hheld.below hn) hv hdropped _ _ hd] at hnone
    exact absurd (hnone.1 rfl) hvalue
  | false =>
    obtain ⟨pieces, inner, -, hinner, hr⟩ := Draft.notes_moduleDeclaration_pieces (hheld.below hn) hv hdropped _ _ hd
    split at hr
    · exact absurd (hnone.1 hr) hvalue
    · cases hparts : v.name.nameParts with
      | nil =>
        rw [hparts] at hinner
        cases hinner
      | cons first rest =>
        rw [hr, hparts]
        exact ⟨first, _, rfl, rfl⟩

/-- A namespace with a statement in it becomes two statements, and a namespace of interfaces in it becomes nothing. -/
theorem namespace_vanishes_iff_interfaces : ∃ (T : Translation) (u n m : Node) (v w : ModuleDeclaration) (ms : List Node)
    (marks marks' : Marks) (first : Token) (body : List Node),
    T.text = "module A.B \x7b module C \x7b interface I \x7b \x7d \x7d f(); \x7d".toList ∧ T.outcome = .ok u ∧
    n.view? ModuleDeclaration = some v ∧ n ∈ T.tree.all ∧ m.view? ModuleDeclaration = some w ∧ m ∈ v.elements ∧
    T.LowersTo m [] marks ∧ T.LowersTo n ms marks' ∧ u.HoldsRow ms ∧ v.name.nameParts.head? = some first ∧
    ms = [Code.var first none,
      Code.statement (Code.wrapper [first] body [Code.orCreate (Code.name first) (Code.name first)])] := by
  generalize htext : "module A.B \x7b module C \x7b interface I \x7b \x7d \x7d f(); \x7d".toList = text
  have hok : lowersFirst ModuleDeclaration (fun n v => !n.isAmbient && !v.isDropped &&
      v.elements.any (fun m => m.kind == .expressionStatement) && v.elements.any (fun m => (m.view? ModuleDeclaration).any
        (fun w => w.elements.all (fun m => m.kind == .interfaceDeclaration)))) text .standard = true := by
    rw [← htext]
    simp only [String.reduceToList]
    decide +kernel
  obtain ⟨T, u, n, v, hread, hlower, hn, hshown, hv, hcheck⟩ := Translation.exists_of_lowersFirst hok
  simp only [Bool.and_eq_true, Bool.not_eq_true', List.any_eq_true, Option.any_eq_true, List.all_eq_true,
    beq_iff_eq] at hcheck
  obtain ⟨⟨⟨hambient, hkept⟩, statement, hmem, hstatement⟩, m, hm, w, hw, hinterfaces⟩ := hcheck
  have hvalue : ¬ n.ValueFree := Node.ValueFree.not_of_kept hv hambient hkept hmem hstatement
  obtain ⟨ms, marks', hlowers, hrow, -, htwo⟩ := namespace_vanishes_iff T u n v hlower hn (hshown n) hv
  obtain ⟨first, body, hfirst, hms⟩ := htwo hvalue
  obtain ⟨W, -, hheld⟩ := held_of_parse T.parsed T.older
  have hbelow : m ∈ T.tree.all := hheld.part_mem hn hv (s := .list v.elements) (by simp [NodeView.toSlots]) hm
  obtain ⟨ms', marks, hlowers', -, hnone, -⟩ := namespace_vanishes_iff T u m w hlower hbelow (hshown m) hw
  obtain rfl := hnone.2 (.namespaceOf hw (fun m hm => .interface (hinterfaces m hm)))
  exact ⟨T, u, n, m, v, w, ms, marks, marks', first, body, hread, hlower, hv, hn, hw, hm, hlowers', hlowers, hrow,
    hfirst, hms⟩

/-- **What a namespace exports.**  Of a program that is lowered, a namespace of which something becomes is left as the
wrappers for the parts of its name, if it does not stand in a namespace of which nothing is lowered.  In the innermost one
stand, in this order and with nothing else, the captured `this` if some element captured it, what became of the elements,
and for each name that an element exports of which something became the statement that attaches it to the last part of
the name. -/
theorem namespace_exports (T : Translation) (u n : Node) (v : ModuleDeclaration) (hlower : T.outcome = .ok u)
    (hn : n ∈ T.tree.all) (hshown : ¬ T.tree.Hides n) (hv : n.view? ModuleDeclaration = some v) :
    ∃ ms marks, T.LowersTo n ms marks ∧ u.HoldsRow ms ∧ (ms ≠ [] → ∃ pieces inner,
      List.Forall₂ (fun m piece => T.LowersTo m piece.1 piece.2) v.elements pieces ∧
      v.name.nameParts.getLast? = some inner ∧
      ms = Code.namespaceRow (Code.captured (pieces.any (fun piece => piece.2.captured)) (pieces.flatMap Prod.fst) ++
        (Node.keptExports v.elements (pieces.map Prod.fst)).map (Code.attach inner)) none v.name.nameParts) := by
  have hk : n.kind = .moduleDeclaration := Node.kind_of_view? hv
  obtain ⟨W, levels, r, marks, hheld, hd, hlowers, hrow⟩ := T.rule_of_shown hlower hn hshown (by rw [hk]; rfl)
  refine ⟨_, marks, hlowers, hrow, fun hsome => ?_⟩
  rw [Draft.rule, Node.kind_outline, hk] at hd
  cases hdropped : v.isDropped with
  | true =>
    rw [Draft.notes_moduleDeclaration_dropped (hheld.below hn) hv hdropped _ _ hd] at hsome
    exact absurd rfl hsome
  | false =>
    obtain ⟨pieces, inner, hpieces, hinner, hr⟩ :=
      Draft.notes_moduleDeclaration_pieces (hheld.below hn) hv hdropped _ _ hd
    have hbelow : ∀ m ∈ v.elements, m ∈ T.tree.all := fun m hm =>
      hheld.part_mem hn hv (s := .list v.elements) (by simp [NodeView.toSlots]) hm
    refine ⟨_, inner, T.lowersTo_of_pieces hbelow hpieces, hinner, ?_⟩
    split at hr
    · exact absurd hr hsome
    · rw [hr, List.any_map, List.flatMap_map, List.map_map, ← Node.keptExports_map]
      rfl

/-- Two parts of a name, variables of which some are declared to be elsewhere, a function, a namespace of nothing and an
arrow function with `this`. -/
theorem namespace_exports_mixed : ∃ (T : Translation) (u n : Node) (v : ModuleDeclaration) (ms : List Node) (marks : Marks)
    (pieces : List (List Node × Marks)) (inner : Token),
    T.text = ("module A.B \x7b export var x, y; export declare var q; export function f() \x7b \x7d " ++
      "export module C \x7b \x7d g(() => this); \x7d").toList ∧ T.outcome = .ok u ∧
    n.view? ModuleDeclaration = some v ∧
    (v.elements.flatMap Node.exports).map Token.text = [['x'], ['y'], ['q'], ['f'], ['C']] ∧
    T.LowersTo n ms marks ∧ u.HoldsRow ms ∧ ms ≠ [] ∧
    List.Forall₂ (fun m piece => T.LowersTo m piece.1 piece.2) v.elements pieces ∧ v.name.nameParts.getLast? = some inner ∧
    ms = Code.namespaceRow (Code.captured (pieces.any (fun piece => piece.2.captured)) (pieces.flatMap Prod.fst) ++
      (Node.keptExports v.elements (pieces.map Prod.fst)).map (Code.attach inner)) none v.name.nameParts := by
  generalize htext : ("module A.B \x7b export var x, y; export declare var q; export function f() \x7b \x7d " ++
    "export module C \x7b \x7d g(() => this); \x7d").toList = text
  have hok : lowersFirst ModuleDeclaration (fun n v => !n.isAmbient && !v.isDropped &&
      v.elements.any (fun m => m.kind == .expressionStatement) &&
      (v.elements.flatMap Node.exports).map Token.text == [['x'], ['y'], ['q'], ['f'], ['C']]) text .standard = true := by
    rw [← htext]
    simp only [String.reduceAppend, String.reduceToList]
    decide +kernel
  obtain ⟨T, u, n, v, hread, hlower, hn, hshown, hv, hcheck⟩ := Translation.exists_of_lowersFirst hok
  simp only [Bool.and_eq_true, Bool.not_eq_true', List.any_eq_true, beq_iff_eq] at hcheck
  obtain ⟨⟨⟨hambient, hkept⟩, statement, hmem, hstatement⟩, hexports⟩ := hcheck
  obtain ⟨ms, marks, hlowers, hrow, hms⟩ := namespace_exports T u n v hlower hn (hshown n) hv
  have hk : NodeClass.element.includes n.kind = true := by rw [Node.kind_of_view? hv]; rfl
  have hsome : ms ≠ [] := fun hnone =>
    Node.ValueFree.not_of_kept hv hambient hkept hmem hstatement ((Translation.lowersTo_eq_nil_iff hn hk hlowers).1 hnone)
  obtain ⟨pieces, inner, hpieces, hinner, heq⟩ := hms hsome
  exact ⟨T, u, n, v, ms, marks, pieces, inner, hread, hlower, hv, hexports, hlowers, hrow, hsome, hpieces, hinner, heq⟩

end

end Downlevel
