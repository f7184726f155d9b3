import Downlevel.Proofs.Outline.Code
import Downlevel.Proofs.Outline.Helper
import Downlevel.Proofs.Outline.Lexical
/-!
# Proofs.Outline.Elements — what becomes of the elements of a program

An element of a program stands at the top of it, or in a namespace that is not dropped as a whole; these are all classes,
enums, namespaces and interfaces of the program that do not stand in a dropped one (`Translation.hasElement_of_shown`).
Where a program is lowered (`Translation`), the rules make of each of its elements a row of statements, from whatever
numbers on and in whatever scope outside of an arrow function (`Translation.LowersTo`), and what comes out has the rows of
the elements at the top in it (`Translation.holdsRow_elements`).
-/
namespace Downlevel

/-! ## Elements -/

/-- Nothing of the namespace is lowered: it is declared to be elsewhere, or its name is a string. -/
def ModuleDeclaration.isDropped (v : ModuleDeclaration) : Bool := v.declared.isSome || v.name.kind == .literalExpression

/-- **An element of a program**, or of a namespace in it, however deep, that is not dropped. -/
inductive Node.HasElement (tree : Node) : Node → Prop
  | ofProgram {n : Node} {v : SourceUnit} (view : tree.view? SourceUnit = some v) (mem : n ∈ v.elements) :
    HasElement tree n
  | ofNamespace {m n : Node} {v : ModuleDeclaration} (outer : HasElement tree m)
    (view : m.view? ModuleDeclaration = some v) (kept : v.isDropped = false) (mem : n ∈ v.elements) : HasElement tree n

/-- **The node stands in a namespace of which nothing is lowered.** -/
def Node.Hides (tree n : Node) : Prop :=
  ∃ outer ∈ tree.all, ∃ v, outer.view? ModuleDeclaration = some v ∧ v.isDropped = true ∧ n ∈ outer.all ∧ n ≠ outer

/-- Some list of statements of the tree has the row in it. -/
def Node.HoldsRow (u : Node) (row : List Node) : Prop :=
  ∃ m ∈ u.outline.all, ∃ ns, .list ns ∈ m.slots ∧ row <:+: ns

/-- **Rows one by one**: each member of a row is related to the one of the other row, by itself and by those in front of it;
the first members stand behind some others. -/
inductive InTurn {α β : Type} (R : List α → α → β → Prop) : List α → List α → List β → Prop
  | nil {before : List α} : InTurn R before [] []
  | cons {before as : List α} {bs : List β} {a : α} {b : β} (first : R before a b) (rest : InTurn R (before ++ [a]) as bs) :
    InTurn R before (a :: as) (b :: bs)

/-- A text that was read, and how the tree is lowered: the objects of the tree are older than the next one. -/
structure Translation where
  text : List Char
  options : LoweringOptions
  tree : Node
  start : ObjectId
  stop : ObjectId
  next : ObjectId
  parsed : parseFrom text start = (.ok tree, stop)
  older : stop ≤ next

namespace Translation

def outcome (T : Translation) : Except LoweringError Node := (T.tree.lower T.options T.next).1

/-- The rules, so many levels deep. -/
def rules (T : Translation) (levels : Nat) : LoweringContext :=
  ⟨.ofTree T.tree T.options.layout, T.options.layout, visitUpTo (.ofTree T.tree T.options.layout) T.options.layout levels⟩

end Translation

/-- Started from a number on, in a scope but in no arrow function of it, the computation ends well, its value reads as
the given one, and the scope is captured as is noted. -/
def Lowering.Makes {α β : Type} (next : ObjectId) (w : Lowering α) (read : α → β) (b : β) (m : Marks) : Prop :=
  ∀ s scope rest, next ≤ s.next → s.own.scopes = scope :: rest → scope.arrowDepth = 0 →
    ∃ a s', w s = .ok a s' ∧ read a = b ∧ s'.own = s.own.marked m

/-- **What the rules make of a node**, but for layout. -/
def Translation.LowersTo (T : Translation) (n : Node) (ms : List Node) (m : Marks) : Prop :=
  ∃ levels, ((T.rules levels).visit n).Makes T.next (fun r => r.nodes.map Node.outline) ms m

section

variable {W : Registry} {n m c u : Node} {ns ms : List Node} {i : Bool} {levels : Nat} {T : Translation}

/-! ## Trees that are held -/

theorem exists_of_mem_left {α β : Type} {R : α → β → Prop} {as : List α} {bs : List β} (h : List.Forall₂ R as bs) {a : α}
    (ha : a ∈ as) : ∃ b ∈ bs, R a b := by
  induction h with
  | nil => cases ha
  | cons hab _ ih =>
    rcases List.mem_cons.1 ha with rfl | ha
    · exact ⟨_, List.mem_cons_self .., hab⟩
    · obtain ⟨b, hb, hR⟩ := ih ha
      exact ⟨b, List.mem_cons_of_mem _ hb, hR⟩

theorem Node.mem_all_iff : m ∈ n.all ↔ m = n ∨ ∃ c ∈ n.children, m ∈ c.all := by
  rw [Node.all_eq]
  simp

theorem Node.child_mem_all (hc : c ∈ n.children) : c ∈ n.all := Node.mem_all_of_child hc c.mem_all_self

theorem Node.Held.below (h : n.Held W) (hm : m ∈ n.all) : m.Held W := by
  induction n using Node.induction with
  | step n ih =>
    rcases Node.mem_all_iff.1 hm with rfl | ⟨c, hc, hm⟩
    · exact h
    · obtain ⟨s, hs, hcs⟩ := List.mem_flatMap.1 hc
      exact ih c hc ((h.slots s hs).nodes c hcs) hm

theorem Node.Held.slots_view {α : Type} [NodeView α] [OutlineView α] [FittingView α] {v : α} (h : n.Held W)
    (hv : n.view? α = some v) : n.slots = NodeView.toSlots v ∧ n.outline.view? α = some (OutlineView.outline v) := by
  have hreads := h.reads (α := α)
  rw [hv] at hreads
  generalize n.outline.view? α = o at hreads
  cases hreads with
  | some _ hs _ => exact ⟨hs, rfl⟩

theorem Node.Held.mem_all {α : Type} [NodeView α] [OutlineView α] [FittingView α] {v : α} (h : n.Held W)
    (hv : n.view? α = some v) {s : Slot} (hs : s ∈ NodeView.toSlots v) (hm : m ∈ s.nodes) : m ∈ n.all :=
  Node.child_mem_all (List.mem_flatMap.2 ⟨s, (h.slots_view hv).1 ▸ hs, hm⟩)

/-- What stands in a slot of a view of a node of a tree is in the tree. -/
theorem Node.Held.part_mem {tree : Node} {α : Type} [NodeView α] [OutlineView α] [FittingView α] {v : α} (h : tree.Held W)
    (hn : n ∈ tree.all) (hv : n.view? α = some v) {s : Slot} (hs : s ∈ NodeView.toSlots v) (hm : m ∈ s.nodes) : m ∈ tree.all :=
  Node.mem_all_trans hn ((h.below hn).mem_all hv hs hm)

theorem Draft.Notes.viewHeld {α β : Type} [NodeView α] [OutlineView α] [FittingView α] {f : α → Draft β}
    {Q : β → Marks → Prop} (h : n.Held W) (hf : ∀ v, n.view? α = some v → (f (OutlineView.outline v)).Notes i Q) :
    (Draft.view α n.outline >>= f).Notes i Q := by
  refine .viewAny (fun v' hv' => ?_)
  have hreads := h.reads (α := α)
  rw [hv'] at hreads
  generalize hv : n.view? α = o at hreads
  cases hreads with
  | some => exact hf _ hv

theorem Node.Held.clauseValue_outline {o : Option Node} (ho : ∀ c ∈ o, c.Held W) :
    Node.clauseValue (o.map Node.outline) = (Node.clauseValue o).map Node.outline := by
  cases o with
  | none => rfl
  | some c =>
    have hreads := (ho c rfl).reads (α := EqualsValueClause)
    unfold Node.clauseValue
    rw [Option.map_some, Option.bind_some, Option.bind_some]
    generalize c.view? EqualsValueClause = v at hreads
    generalize c.outline.view? EqualsValueClause = v' at hreads
    cases hreads <;> rfl

theorem Node.Held.clauseValue_mem_all {tree : Node} (hheld : tree.Held W) {o : Option Node} (ho : ∀ c ∈ o, c ∈ tree.all) :
    ∀ m ∈ Node.clauseValue o, m ∈ tree.all := by
  cases o with
  | none => exact fun _ hm => by cases hm
  | some c =>
    intro m hm
    obtain ⟨v, hv, rfl⟩ := Option.map_eq_some_iff.1 (Option.mem_toList.1 hm)
    have hc : c ∈ tree.all := ho c rfl
    exact hheld.part_mem hc (α := EqualsValueClause) hv (s := .node v.value) (by simp [NodeView.toSlots])
      (List.mem_singleton_self _)

theorem Draft.Notes.viewClause {tree : Node} {β : Type} {o : Option Node} {f : Option EqualsValueClause → Draft β}
    {Q : β → Marks → Prop} (h : tree.Held W) (ho : ∀ c ∈ o, c ∈ tree.all)
    (hnone : Node.clauseValue o = [] → (f none).Notes i Q)
    (hsome : ∀ clause n, Node.clauseValue o = [n] → n ∈ tree.all → clause.value = n.outline → (f (some clause)).Notes i Q) :
    (Draft.viewOption EqualsValueClause (o.map Node.outline) >>= f).Notes i Q := by
  have hmem := h.clauseValue_mem_all ho
  refine (notes_viewClause _).given (fun clause hclause => ?_)
  rw [Node.Held.clauseValue_outline (fun c hc => h.below (ho c hc))] at hclause
  cases clause with
  | none => exact hnone (List.map_eq_nil_iff.1 hclause.symm)
  | some clause =>
    obtain ⟨n, hgiven, hn⟩ := List.map_eq_singleton_iff.1 hclause.symm
    exact hsome clause n hgiven (hmem n (by rw [hgiven]; exact List.mem_singleton_self n)) hn.symm

/-! ## Rows -/

namespace Node.HoldsRow

theorem within (h : u.HoldsRow ns) (hrow : ms <:+: ns) : u.HoldsRow ms := by
  obtain ⟨m, hm, statements, hs, hns⟩ := h
  exact ⟨m, hm, statements, hs, hrow.trans hns⟩

/-- The statements of a list that stands somewhere below a statement of the row. -/
theorem below (h : u.HoldsRow ns) (hn : n ∈ ns) (hm : m ∈ n.all) (hs : .list ms ∈ m.slots) : u.HoldsRow ms := by
  obtain ⟨outer, houter, statements, hslot, hns⟩ := h
  have hchild : n ∈ outer.children := List.mem_flatMap.2 ⟨_, hslot, hns.subset hn⟩
  exact ⟨m, Node.mem_all_trans houter (Node.mem_all_of_child hchild hm), ms, hs, List.infix_rfl⟩

end Node.HoldsRow

namespace Node.HasElement

variable {tree : Node}

theorem mem_all (h : tree.HasElement n) (hheld : tree.Held W) : n ∈ tree.all := by
  induction h with
  | ofProgram hv hn => exact hheld.mem_all hv (s := .list _) (by simp [NodeView.toSlots]) hn
  | ofNamespace _ hv _ hn ih =>
    exact Node.mem_all_trans ih ((hheld.below ih).mem_all hv (s := .list _) (by simp [NodeView.toSlots]) hn)

theorem held (h : tree.HasElement n) (hheld : tree.Held W) : n.Held W := hheld.below (h.mem_all hheld)

end Node.HasElement

/-! ## Where declarations stand -/

section

variable {tree : Node}

/-- The form stands among the elements of a program or of a namespace, and nowhere else. -/
def NodeKind.isElementOnly (k : NodeKind) : Bool := NodeClass.element.includes k && !k.isStatement

/-- A place where such a form may stand. -/
def NodeClass.takesElements (c : NodeClass) : Bool :=
  match c with
  | .element => true
  | .only k => k.isElementOnly
  | _ => false

theorem NodeClass.takesElements_of_includes {c : NodeClass} {k : NodeKind} (h : c.includes k = true)
    (hk : k.isElementOnly = true) : c.takesElements = true := by
  cases c with
  | only k' => exact (eq_of_beq h : k = k') ▸ hk
  | element => rfl
  | _ => cases k <;> first | exact absurd hk (by decide) | exact absurd h (by decide)

theorem NodeKind.takesElements {kind : NodeKind} (hs : kind ≠ .sourceUnit) (hm : kind ≠ .moduleDeclaration) :
    ∀ s ∈ kind.sorts, s.among.takesElements = false := by
  cases kind <;> first | exact absurd rfl hs | exact absurd rfl hm | decide

theorem NodeClass.isElementOnly_of_moduleName {k : NodeKind} (h : NodeClass.moduleName.includes k = true) :
    k.isElementOnly = false := by
  cases k <;> first | rfl | exact absurd h (by decide)

theorem SlotSort.Admits.includes {sort : SlotSort} {s : Slot} (h : sort.Admits s) (hn : n ∈ s.nodes) :
    sort.among.includes n.kind = true := by
  cases sort <;> cases s <;> simp_all [SlotSort.Admits, Slot.nodes, SlotSort.among]

theorem NodeKind.includes_sourceUnit (kind : NodeKind) : ∀ s ∈ kind.sorts, s.among.includes .sourceUnit = false := by
  cases kind <;> decide

theorem Node.FitsKind.exists_sort (h : n.FitsKind) (hc : c ∈ n.children) :
    ∃ s ∈ n.kind.sorts, s.among.includes c.kind = true := by
  obtain ⟨slot, hslot, hcs⟩ := List.mem_flatMap.1 hc
  obtain ⟨s, hs, hadmits⟩ := exists_of_mem_left (List.Forall₂.flip h) hslot
  exact ⟨s, hs, SlotSort.Admits.includes hadmits hcs⟩

namespace Node.Held

theorem child (h : n.Held W) (hc : c ∈ n.children) : c.Held W := h.below (Node.child_mem_all hc)

theorem child_ne_sourceUnit (h : n.Held W) (hc : c ∈ n.children) : c.kind ≠ .sourceUnit := fun hk => by
  obtain ⟨s, hs, hin⟩ := h.stands.fits.exists_sort hc
  rw [hk, n.kind.includes_sourceUnit s hs] at hin
  cases hin

/-- A declaration is a child of a program or of a namespace. -/
theorem child_isElementOnly (h : n.Held W) (hs : n.kind ≠ .sourceUnit) (hm : n.kind ≠ .moduleDeclaration)
    (hc : c ∈ n.children) : c.kind.isElementOnly = false := Bool.eq_false_iff.2 fun hk => by
  obtain ⟨s, hmem, hin⟩ := h.stands.fits.exists_sort hc
  have htakes := NodeClass.takesElements_of_includes hin hk
  rw [NodeKind.takesElements hs hm s hmem] at htakes
  cases htakes

/-- Below a node that is neither a program nor such a declaration stand none. -/
theorem not_isElementOnly (h : n.Held W) (hs : n.kind ≠ .sourceUnit) (hn : n.kind.isElementOnly = false)
    (hm : m ∈ n.all) : m.kind.isElementOnly = false := by
  induction n using Node.induction with
  | step n ih =>
    rcases Node.mem_all_iff.1 hm with rfl | ⟨c, hc, hm⟩
    · exact hn
    · have hmodule : n.kind ≠ .moduleDeclaration := fun hk => by
        rw [hk] at hn
        cases hn
      exact ih c hc (h.child hc) (h.child_ne_sourceUnit hc) (h.child_isElementOnly hs hmodule hc) hm

end Node.Held

/-- An element of a program is of a form that may stand there. -/
theorem Node.HasElement.isElement (h : tree.HasElement n) (hheld : tree.Held W) :
    NodeClass.element.includes n.kind = true := by
  cases h with
  | ofProgram hv hn =>
    obtain ⟨v, hv', -, helements, -⟩ := hheld.stands.sourceUnit (Node.kind_of_view? hv)
    cases hv.symm.trans hv'
    exact (helements n hn).kind
  | ofNamespace houter hv _ hn =>
    obtain ⟨v, hv', -, -, -, -, -, -, helements, -⟩ := (houter.held hheld).stands.moduleDeclaration (Node.kind_of_view? hv)
    cases hv.symm.trans hv'
    exact (helements n hn).kind

/-- **A declaration below an element of a program is an element of the program**, or stands in a namespace that is
dropped. -/
theorem Node.HasElement.or_dropped (hheld : tree.Held W) (hn : tree.HasElement n) (hm : m ∈ n.all)
    (hk : m.kind.isElementOnly = true) : tree.HasElement m ∨
      ∃ outer v, tree.HasElement outer ∧ outer.view? ModuleDeclaration = some v ∧ v.isDropped = true ∧ m ∈ outer.all := by
  induction n using Node.induction with
  | step n ih =>
    have hall := hm
    rcases Node.mem_all_iff.1 hm with rfl | ⟨c, hc, hm⟩
    · exact .inl hn
    have hbelow : n.Held W := hn.held hheld
    have hnone : c.kind.isElementOnly = false → False := fun hfalse => by
      rw [(hbelow.child hc).not_isElementOnly (hbelow.child_ne_sourceUnit hc) hfalse hm] at hk
      cases hk
    by_cases hmodule : n.kind = .moduleDeclaration
    · -- Of a namespace only the elements can hold the declaration, and they are elements if it is kept.
      obtain ⟨v, hv, hs, -, -, -, hname, -⟩ := hbelow.stands.moduleDeclaration hmodule
      cases hdropped : v.isDropped with
      | true => exact .inr ⟨n, v, hn, hv, hdropped, hall⟩
      | false =>
        have hplace : c = v.name ∨ c ∈ v.elements := by
          simpa [Node.children, hs, NodeView.toSlots] using hc
        rcases hplace with rfl | helement
        · exact (hnone (NodeClass.isElementOnly_of_moduleName hname.kind)).elim
        · exact ih c hc (.ofNamespace hn hv hdropped helement) hm
    · have hs : n.kind ≠ .sourceUnit := fun hs => by
        have helement := hn.isElement hheld
        rw [hs] at helement
        cases helement
      exact (hnone (hbelow.child_isElementOnly hs hmodule hc)).elim

/-- **A declaration of a program is an element of it**, if it does not stand in a namespace that is dropped. -/
theorem Translation.hasElement_of_shown (hn : n ∈ T.tree.all) (hk : n.kind.isElementOnly = true)
    (hshown : ¬ T.tree.Hides n) : T.tree.HasElement n := by
  have htree : T.tree.kind = .sourceUnit := (parseFrom_isProgram T.parsed).2.kind
  obtain ⟨W, -, hheld⟩ := held_of_parse T.parsed T.older
  obtain ⟨v, hv, hs, -⟩ := hheld.stands.sourceUnit htree
  rcases Node.mem_all_iff.1 hn with rfl | ⟨c, hc, hn⟩
  · rw [htree] at hk
    cases hk
  · have helement : c ∈ v.elements := by simpa [Node.children, hs, NodeView.toSlots] using hc
    rcases Node.HasElement.or_dropped hheld (.ofProgram hv helement) hn hk with h | ⟨outer, w, houter, hw, hdropped, hmem⟩
    · exact h
    · by_cases hsame : n = outer
      · exact hsame ▸ houter
      · exact absurd ⟨outer, houter.mem_all hheld, w, hw, hdropped, hmem, hsame⟩ hshown

end

/-! ## Computations and drafts -/

/-- Where a computation follows a draft from every registry that holds the tree, it makes what the draft makes. -/
theorem Translation.makes_of_draft {α β γ : Type} {w : Lowering α} {d : Draft β} {R : Registry → α → β → Prop} {read : α → γ}
    {b : β} {value : γ} {marks : Marks} (h : ∀ W : Registry, T.tree.Held W → Follows W w d R)
    (hd : d false = some (b, marks)) (hread : ∀ W a, R W a b → read a = value) : w.Makes T.next read value marks := by
  intro s scope rest hnext hscopes hdepth
  obtain ⟨W, hW, hheld⟩ := held_of_parse T.parsed (Nat.le_trans T.older hnext)
  have hfollows := h W hheld s.own scope rest hscopes
  rw [show decide (0 < scope.arrowDepth) = false by simp [hdepth], hd, hW] at hfollows
  obtain ⟨next, own⟩ := s
  generalize hrun : w ⟨next, own⟩ = r at hfollows
  cases hfollows with
  | ok _ _ hR hown => exact ⟨_, _, rfl, hread _ _ hR, hown⟩

/-- **What a draft makes of a node of the tree, the rules make of it.** -/
theorem Translation.lowersTo_of_draft {r : Replacement} {marks : Marks} (hn : n ∈ T.tree.all)
    (hd : Draft.visitUpTo levels n.outline false = some (r, marks)) : T.LowersTo n (r.nodes.map Node.outline) marks :=
  ⟨levels, T.makes_of_draft (fun W hheld => (drafted_visitUpTo _ _ levels).follows W n (hheld.below hn)) hd
    (fun _ _ hr => hr.nodes.outlines)⟩

/-- **What the rules make of a node of the tree, a draft makes of it.** -/
theorem Translation.draft_of_lowersTo {marks : Marks} (hn : n ∈ T.tree.all) (h : T.LowersTo n ms marks) :
    ∃ levels r, Draft.visitUpTo levels n.outline false = some (r, marks) ∧ r.nodes.map Node.outline = ms := by
  obtain ⟨levels, h⟩ := h
  obtain ⟨W, hW, hheld⟩ := held_of_parse T.parsed T.older
  -- In a scope in which nothing was noted, what is noted shows.
  obtain ⟨a, s', hrun, rfl, hown⟩ := h ⟨T.next, [⟨0, false⟩], [], false⟩ _ _ le_rfl rfl rfl
  have hfollows : Follows W ((T.rules levels).visit n) (Draft.visitUpTo levels n.outline) _ :=
    (drafted_visitUpTo _ _ levels).follows W n (hheld.below hn)
  replace hfollows := hfollows ⟨[⟨0, false⟩], [], false⟩ _ _ rfl
  rw [hW, hrun] at hfollows
  generalize hd : Draft.visitUpTo levels n.outline _ = d at hfollows
  cases hfollows with
  | @ok _ _ r m _ _ _ hr hmarked =>
    have hmarks : m = marks := by
      obtain ⟨captured, derived⟩ := m
      obtain ⟨captured', derived'⟩ := marks
      simpa [LoweringState.marked, LoweringState.mapScope] using hmarked.symm.trans hown
    exact ⟨levels, r, hmarks ▸ hd, hr.nodes.outlines.symm⟩

/-! ## Rows of pieces -/

/-- What several parts note. -/
def Marks.all (ms : List Marks) : Marks := ms.foldr Marks.and .none

theorem Marks.captured_all (ms : List Marks) : (Marks.all ms).captured = ms.any Marks.captured := by
  induction ms with
  | nil => rfl
  | cons m ms ih =>
    show (m.captured || (Marks.all ms).captured) = _
    rw [ih, List.any_cons]

namespace Draft

variable {visit : Node → Draft Replacement}

theorem notes_self {α : Type} (d : Draft α) : d.Notes i (fun a marks => d i = some (a, marks)) := fun _ _ h => h

/-- A list becomes the pieces that take the places of its members. -/
theorem notes_walkList_pieces : (walkList visit ns).Notes i (fun ms marks => ∃ pieces,
    List.Forall₂ (fun n piece => visit n i = some piece) ns pieces ∧ ms = pieces.flatMap (fun piece => piece.1.nodes) ∧
      marks = Marks.all (pieces.map Prod.snd)) := by
  induction ns with
  | nil => exact .pure ⟨[], .nil, rfl, rfl⟩
  | cons n ns ih =>
    refine (notes_self (visit n)).bind (fun r marks hr => ?_)
    refine ih.andThen (fun ms marks' hms => .pure ⟨rfl, ?_⟩)
    obtain ⟨pieces, hpieces, rfl, rfl⟩ := hms
    exact ⟨(r, marks) :: pieces, .cons hr hpieces, rfl, rfl⟩

/-- What becomes of a value of the tree. -/
theorem notes_lower_lowersTo (hn : n ∈ T.tree.all) : (lower (visitUpTo levels) n.outline).Notes false (fun m marks =>
    T.LowersTo n [m.outline] marks) := by
  refine (notes_self _).andThen (fun r marks hr => ?_)
  have hlowers := T.lowersTo_of_draft hn hr
  split
  · exact .pure ⟨rfl, hlowers⟩
  · exact .pure ⟨rfl, hlowers⟩
  · exact .fail

/-- The statements of pieces, but for layout. -/
def outlines (pieces : List (Replacement × Marks)) : List Node := pieces.flatMap (fun piece => piece.1.nodes.map Node.outline)

theorem outlines_eq (pieces : List (Replacement × Marks)) :
    outlines pieces = (pieces.flatMap (fun piece => piece.1.nodes)).map Node.outline := List.map_flatMap.symm

/-- One of the pieces captured `this`. -/
def anyCaptured (pieces : List (Replacement × Marks)) : Bool := pieces.any (fun piece => piece.2.captured)

theorem captured_all_eq (pieces : List (Replacement × Marks)) :
    (Marks.all (pieces.map Prod.snd)).captured = anyCaptured pieces := by
  rw [Marks.captured_all, List.any_map]
  rfl

/-- **The statements of a program are those of its pieces**, behind the captured `this` if there is one. -/
theorem notes_sourceUnit_pieces {v : SourceUnit} (hv : n.view? SourceUnit = some v) : (sourceUnit visit n).Notes i
    (fun r _ => ∃ pieces m program, List.Forall₂ (fun n piece => visit n false = some piece) v.elements pieces ∧
      r = .one m ∧ m.view? SourceUnit = some program ∧
      program.elements.map Node.outline = Code.captured (anyCaptured pieces) (outlines pieces)) := by
  refine .view hv (notes_walkList_pieces.inScope.bind (fun p marks hp => .made (.made (.pure ?_))))
  obtain ⟨marks', -, hcaptured, pieces, hpieces, helements, rfl⟩ := hp
  refine ⟨pieces, _, _, hpieces, rfl, rfl, ?_⟩
  rw [Code.outlines_withCapture, hcaptured, captured_all_eq, helements, outlines_eq]

theorem notes_ofTree_pieces {v : SourceUnit} (hk : n.kind = .sourceUnit) (hv : n.view? SourceUnit = some v) :
    (ofTree n).Notes i (fun m _ => ∃ levels pieces program,
      List.Forall₂ (fun n piece => visitUpTo levels n false = some piece) v.elements pieces ∧
      m.view? SourceUnit = some program ∧
      program.elements.map Node.outline = Code.captured (anyCaptured pieces) (outlines pieces)) := by
  obtain ⟨levels, hlevels⟩ : ∃ levels, LoweringFault.maxTreeDepth = levels + 1 := ⟨_, rfl⟩
  unfold ofTree lower
  rw [hlevels, visitUpTo, rule, hk]
  refine (notes_sourceUnit_pieces hv).andThen (fun r marks hr => ?_)
  obtain ⟨pieces, m, program, hpieces, rfl, hm, helements⟩ := hr
  exact .pure ⟨rfl, levels, pieces, program, hpieces, hm, helements⟩

end Draft

/-! ## Programs -/

theorem Translation.lowerSpecific_of_outcome (hlower : T.outcome = .ok u) (hspecific : T.tree.isSpecific = true) :
    ∃ s, T.tree.lowerSpecific T.options ⟨T.next, .initial⟩ = .ok u s := by
  rcases Node.lower_eq_ok hlower with ⟨-, hrun⟩ | ⟨hplain, -⟩
  · exact hrun
  · cases hspecific.symm.trans hplain

/-- **What comes of a program of the dialect holds the pieces of its elements**, behind the helper if there is one. -/
theorem Translation.holdsRow_elements (hlower : T.outcome = .ok u) (hspecific : T.tree.isSpecific = true) :
    ∃ (v : SourceUnit) (levels : Nat) (pieces : List (Replacement × Marks)), T.tree.view? SourceUnit = some v ∧
      List.Forall₂ (fun n piece => Draft.visitUpTo levels n.outline false = some piece) v.elements pieces ∧
      u.HoldsRow (Code.captured (Draft.anyCaptured pieces) (Draft.outlines pieces)) := by
  have hprogram := (parseFrom_isProgram T.parsed).2
  obtain ⟨W, -, hheld⟩ := held_of_parse T.parsed T.older
  obtain ⟨v, hv, -⟩ := hheld.stands.sourceUnit hprogram.kind
  obtain ⟨s, hrun⟩ := T.lowerSpecific_of_outcome hlower hspecific
  obtain ⟨m, marks, program, result, front, own, hdraft, hprogram', hu, hsplit, -, hown, -⟩ :=
    parts_lowerSpecific T.parsed T.older hrun
  obtain ⟨levels, pieces, program', hpieces, hv', helements⟩ := Draft.notes_ofTree_pieces
    ((Node.kind_outline _).trans hprogram.kind) (hheld.slots_view hv).2 _ _ hdraft
  cases hprogram'.symm.trans hv'
  refine ⟨v, levels, pieces, hv, List.forall₂_map_left_iff.1 hpieces, u.outline, u.outline.mem_all_self,
    result.elements.map Node.outline, ?_, ?_⟩
  · rw [Node.slots_outline, Node.slots_of_view? hu]
    simp [NodeView.toSlots]
  · rw [hsplit, List.map_append, hown, ← helements]
    exact (List.suffix_append ..).isInfix

theorem Translation.lowersTo_of_pieces {pieces : List (Replacement × Marks)} (hns : ∀ n ∈ ns, n ∈ T.tree.all)
    (h : List.Forall₂ (fun n piece => Draft.visitUpTo levels n.outline false = some piece) ns pieces) :
    List.Forall₂ (fun n piece => T.LowersTo n piece.1 piece.2) ns
      (pieces.map (fun piece => (piece.1.nodes.map Node.outline, piece.2))) := by
  induction h with
  | nil => exact .nil
  | cons hpiece _ ih =>
    obtain ⟨hn, hns⟩ := List.forall_mem_cons.1 hns
    exact .cons (T.lowersTo_of_draft hn hpiece) (ih hns)

/-! ## Texts whose first element is looked at -/

/-- The text reads as a program that can be lowered, without namespaces that are dropped, the first element of which reads
as a view that passes a check. -/
def lowersFirst (α : Type) [NodeView α] (check : Node → α → Bool) (text : List Char) (o : LoweringOptions) : Bool :=
  match parseFrom text 0 with
  | (.ok tree, k) => (tree.lower o k).1.isOk &&
      tree.all.all (fun n => !(n.view? ModuleDeclaration).any ModuleDeclaration.isDropped) &&
      ((tree.view? SourceUnit).bind (fun program => program.elements.head?)).any (fun n => (n.view? α).any (check n))
  | _ => false

/-- A text that passes a check is one that is lowered. -/
theorem Translation.exists_of_lowersFirst {α : Type} [NodeView α] {check : Node → α → Bool} {text : List Char}
    {o : LoweringOptions} (h : lowersFirst α check text o = true) : ∃ (T : Translation) (u n : Node) (v : α), T.text = text ∧
      T.outcome = .ok u ∧ n ∈ T.tree.all ∧ (∀ m, ¬ T.tree.Hides m) ∧ n.view? α = some v ∧ check n v = true := by
  unfold lowersFirst at h
  split at h
  · rename_i tree k hparse
    simp only [Bool.and_eq_true, Option.any_eq_true, Option.bind_eq_some_iff, List.all_eq_true] at h
    obtain ⟨⟨hlower, hkept⟩, n, ⟨program, hprogram, hn⟩, v, hv, hcheck⟩ := h
    obtain ⟨W, -, hheld⟩ := held_of_parse hparse (Nat.le_refl k)
    have helement : tree.HasElement n := .ofProgram hprogram (List.mem_of_mem_head? hn)
    have hshown : ∀ m, ¬ tree.Hides m := by
      rintro m ⟨outer, houter, w, hw, hdropped, -⟩
      have hnone := hkept outer houter
      rw [hw, Option.any_some, hdropped] at hnone
      cases hnone
    cases hu : (tree.lower o k).1 with
    | error e =>
      rw [hu] at hlower
      cases hlower
    | ok u =>
      exact ⟨⟨text, o, tree, 0, k, k, hparse, Nat.le_refl k⟩, u, n, v, rfl, hu, helement.mem_all hheld, hshown, hv, hcheck⟩
  · cases h

end

end Downlevel
