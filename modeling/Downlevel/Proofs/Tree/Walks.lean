import Downlevel.Proofs.Tree.Edges
import Downlevel.Proofs.Tree.Ends
import Downlevel.Proofs.Tree.Schematic
import Downlevel.Tree.Reindent
/-!
# Proofs.Tree.Walks — what a walk by rules makes of a node

A `Treatment` says what the rules of a transformer do: which nodes they remove, and which kinds make room for any number
of statements.  If every node that stands is treated so exactly if it meets a condition, then a walk ends well exactly
if every child meets it and none is removed from a slot that must be filled, and the slots of what comes out are plain
and stand where they stood (`Transformer.Treats.walk`).

A pass that changes tokens only never fails, keeps every node what it was, and gives back a node of the kind that was
there (`Transformer.treats_descend`, `ends_transformTokens`).  So do moved lines (`makes_reindented`).
-/
namespace Downlevel

namespace NodeKind

/-- An expression that may become an expression of another kind. -/
def isRewritten : NodeKind → Bool
  | thisExpression | castExpression | invocationExpression | memberAccessExpression | functionExpression => true
  | simpleArrowFunctionExpression | parenthesizedArrowFunctionExpression => true
  | _ => false

/-- A node of this kind may become one of that kind, and no place where it may stand is too narrow. -/
def Becomes (k k' : NodeKind) : Prop := k' = k ∨ (k.isRewritten = true ∧ k'.isExpression = true)

theorem Becomes.refl (k : NodeKind) : k.Becomes k := .inl rfl

theorem Becomes.ofOnly {k k' : NodeKind} (h : (NodeClass.only k).includes k' = true) : k.Becomes k' :=
  .inl (eq_of_beq h)

theorem Becomes.ofExpression {k k' : NodeKind} (hk : k.isRewritten = true)
    (h : NodeClass.expression.includes k' = true) : k.Becomes k' := .inr ⟨hk, h⟩

end NodeKind

/-- What the rules of a transformer do with nodes. -/
structure Treatment where
  /-- The node makes room for nothing. -/
  removes : Node → Bool
  /-- Nodes of the kind make room for any number of statements. -/
  spreads : NodeKind → Bool
  /-- A node that may come back alone in place of a node, while the numbers from one on are new. -/
  back : Node → Nat → Node → Prop

/-- The nodes in slots that must be filled by one node, for a row of slots of the given shapes. -/
def Slot.required : List SlotShape → List Slot → List Node
  | shape :: shapes, slot :: slots => (if shape = .node then slot.nodes else []) ++ Slot.required shapes slots
  | _, _ => []

/-- The nodes in slots of a node that must be filled by one node. -/
def Node.required (n : Node) : List Node := Slot.required n.kind.shapes n.slots

/-- What becomes of a node is what the treatment says. -/
structure Replacement.Suits (T : Treatment) (L : Demand) (k : Nat) (m : Node) (j : Nat) (r : Replacement) : Prop where
  back : ∀ n, r = .one n → T.back m k n
  removed : T.removes m = true → r = .removed
  spread : T.removes m = false → T.spreads m.kind = true → ∀ n ∈ r.nodes, n.Plain L .statement j
  one : T.removes m = false → T.spreads m.kind = false →
    ∃ n, r = .one n ∧ n.Sound PlainForm L j ∧ m.kind.Becomes n.kind

/-- A walk made something that fits; if nothing changed, what was there fits as well. -/
structure Walked.Fits {α : Type} (P : α → Prop) (old : α) (w : Walked α) : Prop where
  value : P w.value
  old : w.changed = false → P old

/-- What may stand in a slot of a sort may become what the treatment makes of it. -/
structure SlotSort.Steady (T : Treatment) (sort : SlotSort) : Prop where
  becomes : ∀ k k', sort.among.includes k = true → k.Becomes k' → sort.among.includes k' = true
  spreads : ∀ c, sort = .list c → ∀ k, c.includes k = true → T.spreads k = true →
    ∀ k', NodeClass.statement.includes k' = true → c.includes k' = true
  single : (∀ c, sort ≠ .list c) → ∀ k, sort.among.includes k = true → T.spreads k = false
  member : ∀ c, sort = .separated c ∨ sort = .nonempty c → ∀ m : Node, c.includes m.kind = true → T.removes m = false

/-- The slot is filled after the walk if it was filled by something that is not removed. -/
def Slot.stays (T : Treatment) : Slot → Bool
  | absent => false
  | node n => !T.removes n
  | _ => true

@[simp] theorem Slot.stays_token (T : Treatment) (t : Token) : (Slot.token t).stays T = true := rfl

@[simp] theorem Slot.stays_node (T : Treatment) (n : Node) : (Slot.node n).stays T = !T.removes n := rfl

@[simp] theorem Slot.stays_ofToken? (T : Treatment) (o : Option Token) : (Slot.ofToken? o).stays T = o.isSome := by
  cases o <;> rfl

@[simp] theorem Slot.stays_ofNode? (T : Treatment) (o : Option Node) :
    (Slot.ofNode? o).stays T = o.any (fun n => !T.removes n) := by cases o <;> rfl

/-- Every token and every node that stands is treated as the treatment says, a node if it meets the condition. -/
structure Transformer.Treats {ε σ : Type} (r : Transformer ε σ) (T : Treatment) (C : Node → Prop) (E : ε → Prop)
    (F : Node → Prop) (L : Demand) : Prop where
  removal : ∀ parent slot, E (r.ofError (.requiredSlotRemoved parent slot))
  same : ∀ m c k n, m.Stands F L c k → T.back m k n → n.id = m.id → n = m
  token : ∀ k t, t.Meets L k → Ends E k (r.token t) True (fun j u => u.Meets L j)
  node : ∀ m c k, m.Stands F L c k → Ends E k (r.node m) (C m) (fun j n => n.Suits T L k m j)

namespace Transformer.Treats

variable {ε σ : Type} {r : Transformer ε σ} {T : Treatment} {C : Node → Prop} {E : ε → Prop}
  {F : Node → Prop} {L : Demand} {c : NodeClass} {sort : SlotSort} {i k : Nat}

/-- A node that comes back as the same object is plain, since what came back is that node. -/
theorem plain_of_isSame (h : r.Treats T C E F L) {m n : Node} {j : Nat} (hm : m.Stands F L c k)
    (hback : T.back m k n) (hsame : n.isSame m = true) (hn : n.Plain L c j) : m.Plain L c j :=
  h.same m c k n hm hback (eq_of_beq hsame) ▸ hn

/-- The one node that a node becomes is of the class. -/
theorem one {m : Node} {j : Nat} {rep : Replacement} (hm : m.Stands F L sort.among k) (hsort : sort.Steady T)
    (h : rep.Suits T L k m j) (hremoves : T.removes m = false) (hspreads : T.spreads m.kind = false) :
    ∃ n, rep = .one n ∧ n.Plain L sort.among j ∧ T.back m k n := by
  obtain ⟨n, hn, hsound, hbecomes⟩ := h.one hremoves hspreads
  exact ⟨n, hn, ⟨hsort.becomes _ _ hm.kind hbecomes, hsound⟩, h.back n hn⟩

/-- All nodes that a member of a list makes room for are of the class of the list. -/
theorem nodes {m : Node} {j : Nat} {rep : Replacement} (hm : m.Stands F L c k)
    (hsort : SlotSort.Steady T (.list c)) (h : rep.Suits T L k m j) : ∀ n ∈ rep.nodes, n.Plain L c j := by
  intro n hn
  by_cases hremoves : T.removes m = true
  · rw [h.removed hremoves] at hn
    cases hn
  · have hstays : T.removes m = false := by simpa using hremoves
    by_cases hspreads : T.spreads m.kind = true
    · exact (h.spread hstays hspreads n hn).widen (hsort.spreads c rfl _ hm.kind hspreads)
    · obtain ⟨n', hrep, hplain, -⟩ := one hm hsort h hstays (by simpa using hspreads)
      rw [hrep] at hn
      exact List.mem_singleton.1 hn ▸ hplain

theorem walkToken (h : r.Treats T C E F L) {t : Token} (ht : t.Meets L i) (hi : i ≤ k) :
    Ends E k (r.walkToken t) True (fun j w => Walked.Fits (fun u => u.Meets L j) t w) :=
  (h.token k t (ht.up (by omega))).map (fun _ _ _ hu => ⟨hu, fun _ => ht.up (by omega)⟩)

/-- **A list may lose members and get others in their place**; it is walked if every member can be transformed. -/
theorem walkList (h : r.Treats T C E F L) (hsort : SlotSort.Steady T (.list c)) : ∀ {ns : List Node} {k : Nat},
    (∀ n ∈ ns, n.Stands F L c k) →
    Ends E k (r.walkList ns) (∀ n ∈ ns, C n)
      (fun j w => Walked.Fits (fun ms => ∀ m ∈ ms, m.Plain L c j) ns w)
  | [], k, _ => (Ends.pure (fun _ _ => ⟨fun _ hm => (by cases hm), fun _ _ hm => by cases hm⟩)).iff (by simp)
  | n :: ns, k, hns => by
    have hn : n.Stands F L c k := hns n (List.mem_cons_self ..)
    refine ((h.node n c k hn).bind (fun j hj rep hrep => ?_)).iff List.forall_mem_cons.symm
    have hnodes := nodes hn hsort hrep
    have hrest : ∀ m ∈ ns, m.Stands F L c j := fun m hm => (hns m (List.mem_cons_of_mem _ hm)).up (by omega)
    refine (walkList h hsort hrest).thenSure (fun i hi rest hfits => ?_)
    cases rep with
    | removed => exact .pure (fun l hl => ⟨fun m hm => (hfits.value m hm).up (by omega), fun hc => by cases hc⟩)
    | many ms =>
      refine .pure (fun l hl => ⟨fun m hm => ?_, fun hc => by cases hc⟩)
      rcases List.mem_append.1 hm with hm | hm
      · exact (hnodes m hm).up (by omega)
      · exact (hfits.value m hm).up (by omega)
    | one n' =>
      have hn' : n'.Plain L c j := hnodes n' (List.mem_singleton.2 rfl)
      refine .pure (fun l hl => ⟨?_, fun hc => ?_⟩)
      · exact List.forall_mem_cons.2 ⟨hn'.up (by omega), fun m hm => (hfits.value m hm).up (by omega)⟩
      · obtain ⟨hsame, hsames⟩ : n'.isSame n = true ∧ rest.changed = false := by simpa using hc
        refine List.forall_mem_cons.2 ⟨?_, fun m hm => (hfits.old hsames m hm).up (by omega)⟩
        exact (h.plain_of_isSame hn (hrep.back n' rfl) hsame hn').up (by omega)

theorem walkSeparators (h : r.Treats T C E F L) : ∀ {ts : List Token} {k : Nat}, (∀ t ∈ ts, t.Meets L k) →
    Ends E k (r.walkSeparators ts) True (fun j w =>
      Walked.Fits (fun us => (∀ u ∈ us, u.Meets L j) ∧ us.length = ts.length) ts w)
  | [], k, _ => .pure (fun _ _ => ⟨⟨fun _ hm => (by cases hm), rfl⟩, fun _ => ⟨fun _ hm => (by cases hm), rfl⟩⟩)
  | t :: ts, k, hts => by
    have ht : t.Meets L k := hts t (List.mem_cons_self ..)
    refine (h.walkToken ht (by omega)).sureThen (fun j hj t' ht' => ?_)
    have hrest : ∀ u ∈ ts, u.Meets L j := fun u hu => (hts u (List.mem_cons_of_mem _ hu)).up (by omega)
    refine (walkSeparators h hrest).sureThen (fun i hi rest hfits => .pure (fun l hl => ⟨⟨?_, ?_⟩, fun hc => ?_⟩))
    · exact List.forall_mem_cons.2 ⟨ht'.value.up (by omega), fun u hu => (hfits.value.1 u hu).up (by omega)⟩
    · rw [List.length_cons, List.length_cons, hfits.value.2]
    · exact ⟨fun u hu => (hts u hu).up (by omega), rfl⟩

/-- A member of a separated list stays one node. -/
theorem walkMember (h : r.Treats T C E F L) (hsort : sort.Steady T) (hlist : ∀ c, sort ≠ .list c)
    {n : Node} (hn : n.Stands F L sort.among k) (hstays : T.removes n = false) (parent : NodeKind) (slot : Nat) :
    Ends E k (r.walkMember parent slot n) (C n) (fun j w => Walked.Fits (fun m => m.Plain L sort.among j) n w) := by
  refine (h.node n _ k hn).thenSure (fun j hj rep hrep => ?_)
  have hspreads := hsort.single hlist _ hn.kind
  obtain ⟨n', rfl, hn', hback⟩ := one hn hsort hrep hstays hspreads
  refine .pure (fun l hl => ⟨hn'.up (by omega), fun hc => (h.plain_of_isSame hn hback ?_ hn').up (by omega)⟩)
  simpa using hc

/-- **A separated list keeps its members and separators**, each of which may become another. -/
theorem walkSeparated (h : r.Treats T C E F L) (hsort : sort.Steady T) (hlist : ∀ c, sort ≠ .list c)
    (parent : NodeKind) (slot : Nat) : ∀ {ns : List Node} {ts : List Token} {k : Nat},
    (∀ n ∈ ns, n.Stands F L sort.among k ∧ T.removes n = false) → (∀ t ∈ ts, t.Meets L k) →
    Ends E k (r.walkSeparated parent slot ns ts) (∀ n ∈ ns, C n) (fun j w =>
      Walked.Fits (fun items => ((∀ m ∈ items.1, m.Plain L sort.among j) ∧ ∀ t ∈ items.2, t.Meets L j) ∧
        items.1.length = ns.length ∧ items.2.length = ts.length) (ns, ts) w)
  | [], ts, k, _, hts => by
    refine ((h.walkSeparators hts).map (fun j hj rest hfits => ⟨?_, fun hc => ?_⟩)).iff (by simp)
    · exact ⟨⟨fun _ hm => (by cases hm), hfits.value.1⟩, rfl, hfits.value.2⟩
    · exact ⟨⟨fun _ hm => (by cases hm), (hfits.old hc).1⟩, rfl, rfl⟩
  | n :: ns, [], k, hns, _ => by
    -- Separators may be used up before the members are, so each of the two rows has a case of its own.
    obtain ⟨hn, hstays⟩ := hns n (List.mem_cons_self ..)
    refine ((h.walkMember hsort hlist hn hstays parent slot).bind (fun j hj n' hn' => ?_)).iff
      List.forall_mem_cons.symm
    have hrest : ∀ m ∈ ns, m.Stands F L sort.among j ∧ T.removes m = false := fun m hm =>
      ⟨(hns m (List.mem_cons_of_mem _ hm)).1.up (by omega), (hns m (List.mem_cons_of_mem _ hm)).2⟩
    refine (walkSeparated h hsort hlist parent slot hrest (fun _ ht => by cases ht)).thenSure (fun i hi rest hfits => ?_)
    obtain ⟨⟨hmembers, hseparators⟩, hlength, hlength'⟩ := hfits.value
    refine .pure (fun l hl => ⟨⟨⟨?_, fun t ht => (hseparators t ht).up (by omega)⟩, ?_, hlength'⟩, fun hc => ?_⟩)
    · exact List.forall_mem_cons.2 ⟨hn'.value.up (by omega), fun m hm => (hmembers m hm).up (by omega)⟩
    · simp only [List.length_cons, hlength]
    · obtain ⟨hsame, hsames⟩ : n'.changed = false ∧ rest.changed = false := by simpa using hc
      obtain ⟨⟨hold, -⟩, -⟩ := hfits.old hsames
      exact ⟨⟨List.forall_mem_cons.2 ⟨(hn'.old hsame).up (by omega), fun m hm => (hold m hm).up (by omega)⟩,
        fun _ ht => by cases ht⟩, rfl, rfl⟩
  | n :: ns, t :: ts, k, hns, hts => by
    obtain ⟨hn, hstays⟩ := hns n (List.mem_cons_self ..)
    refine ((h.walkMember hsort hlist hn hstays parent slot).bind (fun j hj n' hn' => ?_)).iff
      List.forall_mem_cons.symm
    have hrest : ∀ m ∈ ns, m.Stands F L sort.among k ∧ T.removes m = false := fun m hm =>
      hns m (List.mem_cons_of_mem _ hm)
    refine (h.walkToken (hts t (List.mem_cons_self ..)) (by omega)).sureThen (fun j' hj' t' ht' => ?_)
    have hns' : ∀ m ∈ ns, m.Stands F L sort.among j' ∧ T.removes m = false := fun m hm =>
      ⟨(hrest m hm).1.up (by omega), (hrest m hm).2⟩
    have hts' : ∀ u ∈ ts, u.Meets L j' := fun u hu => (hts u (List.mem_cons_of_mem _ hu)).up (by omega)
    refine (walkSeparated h hsort hlist parent slot hns' hts').thenSure (fun i hi rest hfits => ?_)
    obtain ⟨⟨hmembers, hseparators⟩, hlength, hlength'⟩ := hfits.value
    refine .pure (fun l hl => ⟨⟨⟨?_, ?_⟩, ?_, ?_⟩, fun hc => ?_⟩)
    · exact List.forall_mem_cons.2 ⟨hn'.value.up (by omega), fun m hm => (hmembers m hm).up (by omega)⟩
    · exact List.forall_mem_cons.2 ⟨ht'.value.up (by omega), fun u hu => (hseparators u hu).up (by omega)⟩
    · simp only [List.length_cons, hlength]
    · simp only [List.length_cons, hlength']
    · obtain ⟨⟨hsame, hsame'⟩, hsames⟩ : (n'.changed = false ∧ t'.changed = false) ∧ rest.changed = false := by
        simpa using hc
      obtain ⟨⟨hold, hold'⟩, -⟩ := hfits.old hsames
      exact ⟨⟨List.forall_mem_cons.2 ⟨(hn'.old hsame).up (by omega), fun m hm => (hold m hm).up (by omega)⟩,
        List.forall_mem_cons.2 ⟨(ht'.old hsame').up (by omega), fun u hu => (hold' u hu).up (by omega)⟩⟩, rfl, rfl⟩

/-- What a walk makes of a slot stands where the slot stood. -/
abbrev SlotFits (T : Treatment) (L : Demand) (j : Nat) (sort : SlotSort) (slot : Slot) (w : Walked Slot) : Prop :=
  Walked.Fits (fun s => s.Stands PlainForm L j sort ∧ s.isFilled = slot.stays T) slot w

/-- **A slot is walked if its nodes can be transformed**, unless one that must stay is removed. -/
theorem walkSlot (h : r.Treats T C E F L) (hsort : sort.Steady T) (parent : NodeKind) (index : Nat) {slot : Slot}
    (hslot : slot.Stands F L k sort) :
    Ends E k (r.walkSlot parent index sort.shape.isOptional slot)
      ((∀ m ∈ slot.nodes, C m) ∧ ∀ m ∈ (if sort.shape = .node then slot.nodes else []), T.removes m = false)
      (fun j w => SlotFits T L j sort slot w) := by
  have hmeets := hslot.members
  have ha := hslot.admits
  cases slot with
  | absent =>
    have habsent : ∀ j, Slot.Stands PlainForm L j sort .absent := fun j =>
      ⟨ha, fun _ hm => (by cases hm), fun _ ht => by cases ht⟩
    exact (Ends.pure (fun j _ => ⟨⟨habsent j, rfl⟩, fun _ => ⟨habsent j, rfl⟩⟩)).iff (by simp [Slot.nodes])
  | token t =>
    have ht : t.Meets L k := hslot.tokens t (List.mem_singleton.2 rfl)
    refine ((h.walkToken ht (by omega)).map (fun j hj t' ht' => ⟨⟨?_, rfl⟩, fun _ => ⟨?_, rfl⟩⟩)).iff
      (by simp [Slot.nodes])
    · exact hslot.ofToken ht'.value
    · exact hslot.ofToken (ht.up (by omega))
  | node n =>
    have hn : n.Stands F L sort.among k := hmeets n (List.mem_singleton.2 rfl)
    -- Only in a slot that must be filled does it matter that the node stays.
    have hcondition : (C n ∧ (sort.shape = .node → T.removes n = false)) ↔
        (∀ m ∈ (Slot.node n).nodes, C m) ∧
          ∀ m ∈ (if sort.shape = .node then (Slot.node n).nodes else []), T.removes m = false := by
      by_cases hshape : sort.shape = .node <;> simp [hshape, Slot.nodes]
    have hlist : ∀ c, sort ≠ .list c := fun c hc => by rw [hc] at ha; exact ha
    refine ((h.node n _ k hn).bind (fun j hj rep hrep => ?_)).iff hcondition
    cases hremoves : T.removes n with
    | false =>
      have hspreads := hsort.single hlist _ hn.kind
      obtain ⟨n', rfl, hn', hback⟩ := one hn hsort hrep hremoves hspreads
      refine (Ends.pure (fun l hl => ⟨⟨hslot.ofNode (hn'.up (by omega)), ?_⟩, fun hc => ⟨hslot.ofNode ?_, ?_⟩⟩)).iff
        (by simp)
      · simp [Slot.isFilled, Slot.stays, hremoves]
      · exact (h.plain_of_isSame hn hback (by simpa using hc) hn').up (by omega)
      · simp [Slot.isFilled, Slot.stays, hremoves]
    | true =>
      rw [hrep.removed hremoves]
      cases hoptional : sort.shape.isOptional with
      | true =>
        have hshape : sort.shape ≠ .node := fun hc => by rw [hc] at hoptional; cases hoptional
        have habsent : ∀ l, Slot.Stands PlainForm L l sort .absent := fun l => by
          refine ⟨?_, fun _ hm => (by cases hm), fun _ ht => by cases ht⟩
          cases sort <;> trivial
        refine (Ends.pure (fun l hl => ⟨⟨habsent l, ?_⟩, fun hc => by cases hc⟩)).iff (by simp [hshape])
        simp [Slot.isFilled, Slot.stays, hremoves]
      | false =>
        have hshape : sort.shape = .node := by
          cases sort <;> first | rfl | exact ha.elim | cases hoptional
        exact (Ends.fail (h.removal parent index)).iff (by simp [hshape])
  | list ns =>
    -- A list may lose members and gain others, so nothing is asked of the members that it has.
    have hc : ∃ c, sort = .list c := by cases sort <;> first | exact ⟨_, rfl⟩ | exact ha.elim
    obtain ⟨c, rfl⟩ := hc
    refine ((h.walkList hsort hmeets).map (fun j hj w hw => ?_)).iff (by simp [SlotSort.shape])
    exact ⟨⟨Slot.stands_list.2 hw.value, rfl⟩, fun hc => ⟨Slot.stands_list.2 (hw.old hc), rfl⟩⟩
  | separated ns ts =>
    have hlist : ∀ c, sort ≠ .list c := fun c hc => by rw [hc] at ha; exact ha
    have hmembers : ∀ n ∈ ns, n.Stands F L sort.among k ∧ T.removes n = false := fun n hn => by
      refine ⟨hmeets n hn, ?_⟩
      cases sort with
      | separated c => exact hsort.member c (.inl rfl) n (hmeets n hn).kind
      | nonempty c => exact hsort.member c (.inr rfl) n (hmeets n hn).kind
      | _ => exact ha.elim
    have hshape : sort.shape ≠ .node := by cases sort <;> first | exact ha.elim | (intro hc; cases hc)
    have hitems := h.walkSeparated hsort hlist parent index hmembers hslot.tokens
    refine (hitems.map (fun j hj w hw => ⟨⟨?_, rfl⟩, fun hc => ⟨?_, rfl⟩⟩)).iff (by simp [Slot.nodes, hshape])
    · obtain ⟨⟨hm, ht⟩, hlength, hlength'⟩ := hw.value
      exact hslot.items hlength hlength' hm ht
    · obtain ⟨⟨hm, ht⟩, -⟩ := hw.old hc
      exact hslot.items rfl rfl hm ht

/-- **The slots of a node are walked one after the other.** -/
theorem walkSlots (h : r.Treats T C E F L) (parent : NodeKind) : ∀ {sorts : List SlotSort} {slots : List Slot}
    {index k : Nat}, parent.shapes.drop index = sorts.map SlotSort.shape → (∀ sort ∈ sorts, SlotSort.Steady T sort) →
    Slot.Row F L k sorts slots →
    Ends E k (r.walkSlots parent index slots)
      ((∀ m ∈ slots.flatMap Slot.nodes, C m) ∧
        ∀ m ∈ Slot.required (sorts.map SlotSort.shape) slots, T.removes m = false)
      (fun j w => Walked.Fits (fun slots' => Slot.Row PlainForm L j sorts slots' ∧
        slots'.map Slot.isFilled = slots.map (Slot.stays T)) slots w)
  | _, _, index, k, _, _, .nil =>
    (Ends.pure (fun _ _ => ⟨⟨.nil, rfl⟩, fun _ => ⟨.nil, rfl⟩⟩)).iff (by simp [Slot.required])
  | sort :: sorts, slot :: slots, index, k, hshapes, hsteady, .cons hslot hslots => by
    -- The walk asks the schema of the parent for the shape by its index, the row carries the sorts along.
    have hshape : parent.shapes[index]?.any SlotShape.isOptional = sort.shape.isOptional := by
      have hhead : (parent.shapes.drop index)[0]? = some sort.shape := by rw [hshapes]; rfl
      rw [List.getElem?_drop, Nat.add_zero] at hhead
      rw [hhead]
      rfl
    have htail : parent.shapes.drop (index + 1) = sorts.map SlotSort.shape := by
      rw [← List.tail_drop, hshapes]
      rfl
    have hsteady' : ∀ sort ∈ sorts, SlotSort.Steady T sort := fun s hs => hsteady s (List.mem_cons_of_mem _ hs)
    have hcondition : (((∀ m ∈ slot.nodes, C m) ∧
        ∀ m ∈ (if sort.shape = .node then slot.nodes else []), T.removes m = false) ∧
          (∀ m ∈ slots.flatMap Slot.nodes, C m) ∧
            ∀ m ∈ Slot.required (sorts.map SlotSort.shape) slots, T.removes m = false) ↔
        (∀ m ∈ (slot :: slots).flatMap Slot.nodes, C m) ∧
          ∀ m ∈ Slot.required ((sort :: sorts).map SlotSort.shape) (slot :: slots), T.removes m = false := by
      simp only [List.flatMap_cons, List.map_cons, Slot.required, List.forall_mem_append]
      exact and_and_and_comm
    unfold Transformer.walkSlots
    rw [hshape]
    refine ((h.walkSlot (hsteady sort (List.mem_cons_self ..)) parent index hslot).bind (fun j hj w hw =>
      (walkSlots h parent htail hsteady' (Slot.Row.up hslots (by omega))).thenSure (fun i hi rest hrest =>
        .pure (fun l hl => ⟨⟨?_, ?_⟩, fun hc => ?_⟩)))).iff hcondition
    · exact .cons (hw.value.1.up (by omega)) (Slot.Row.up hrest.value.1 (by omega))
    · rw [List.map_cons, List.map_cons, hw.value.2, hrest.value.2]
    · obtain ⟨hsame, hsames⟩ : w.changed = false ∧ rest.changed = false := by simpa using hc
      obtain ⟨hold, hfilled⟩ := hw.old hsame
      obtain ⟨holds, hfilleds⟩ := hrest.old hsames
      exact ⟨.cons (hold.up (by omega)) (Slot.Row.up holds (by omega)), by rw [List.map_cons, List.map_cons, hfilled,
        hfilleds]⟩

end Transformer.Treats

/-! ## Whole nodes -/

/-- Slots that fit a kind are made a new node of it. -/
theorem makes_make {kind : NodeKind} {slots : List Slot} {k : Nat} (h : List.Forall₂ SlotSort.Admits kind.sorts slots) :
    Makes k (Node.make? kind slots) (fun j made => ∃ id, made = .ok (.mk id kind slots) ∧ k ≤ id ∧ id < j) := by
  intro j hj
  unfold Node.make?
  rw [NodeKind.checkSlots_of_fits (Slot.fitAll_of_admits h)]
  exact ⟨Nat.le_succ j, j, rfl, hj, Nat.lt_succ_self j⟩

/-- What a walk makes of a node: the node itself or a new one of its kind, whose slots are plain. -/
structure Node.WalkedTo (T : Treatment) (L : Demand) (k : Nat) (n : Node) (j : Nat) (n' : Node) : Prop where
  renews : n'.Renews k n
  id_lt : n'.id < j
  kind : n'.kind = n.kind
  row : Slot.Row PlainForm L j n.kind.sorts n'.slots
  filled : n'.slots.map Slot.isFilled = n.slots.map (Slot.stays T)

theorem Node.WalkedTo.up {T : Treatment} {L : Demand} {i j k : Nat} {n n' : Node} (h : n.WalkedTo T L k i n')
    (hi : i ≤ j) : n.WalkedTo T L k j n' :=
  ⟨h.renews, Nat.lt_of_lt_of_le h.id_lt hi, h.kind, h.row.up (by omega), h.filled⟩

/-- What is new since a later number is new since an earlier one. -/
theorem Node.WalkedTo.since {T : Treatment} {L : Demand} {i j k : Nat} {n n' : Node} (h : n.WalkedTo T L k j n')
    (hi : i ≤ k) : n.WalkedTo T L i j n' :=
  ⟨h.renews.imp_right (Nat.le_trans hi), h.id_lt, h.kind, h.row, h.filled⟩

theorem Node.WalkedTo.plain {T : Treatment} {L : Demand} {k j : Nat} {n n' : Node} (h : n.WalkedTo T L k j n')
    (hform : PlainForm n') : n'.Plain L (.only n.kind) j := by
  obtain ⟨id, kind, slots⟩ := n'
  have hkind : kind = n.kind := h.kind
  subst hkind
  exact h.row.node h.id_lt hform (beq_self_eq_true _)

namespace Transformer.Treats

variable {ε σ : Type} {r : Transformer ε σ} {T : Treatment} {C : Node → Prop} {E : ε → Prop}
  {F : Node → Prop} {L : Demand} {c : NodeClass} {k : Nat} {n : Node}

/-- **A node is walked if every child can be transformed and none is removed that must stay.** -/
theorem walk (h : r.Treats T C E F L) (hsteady : ∀ sort ∈ n.kind.sorts, SlotSort.Steady T sort)
    (hn : n.Stands F L c k) :
    Ends E k (r.walk n) ((∀ m ∈ n.children, C m) ∧ ∀ m ∈ n.required, T.removes m = false)
      (fun j n' => n.WalkedTo T L k j n') := by
  have hshapes : n.kind.shapes.drop 0 = n.kind.sorts.map SlotSort.shape := n.kind.map_shape_sorts.symm
  have hslots := h.walkSlots n.kind hshapes hsteady hn.row
  rw [n.kind.map_shape_sorts] at hslots
  refine hslots.thenSure (fun j hj w hw => ?_)
  cases hchanged : w.changed with
  | false =>
    obtain ⟨hrow, hfilled⟩ := hw.old hchanged
    have hid : n.id < j := Nat.lt_of_lt_of_le hn.id_lt hj
    exact .pure (fun l hl => ⟨.inl rfl, Nat.lt_of_lt_of_le hid hl, rfl, hrow.up (by omega), hfilled⟩)
  | true =>
    obtain ⟨hrow, hfilled⟩ := hw.value
    refine .make (makes_make (List.Forall₂.imp (fun _ _ hs => hs.admits) hrow)) (fun l hl made hmade => ?_)
    obtain ⟨id, rfl, hlow, hhigh⟩ := hmade
    exact .pure (fun l' hl' => ⟨.inr (Nat.le_trans hj hlow), Nat.lt_of_lt_of_le hhigh hl', rfl, hrow.up (by omega),
      hfilled⟩)

/-- A tree whose root stays one node. -/
theorem root (h : r.Treats T C E F L) (hn : n.Stands F L c k) (hremoves : T.removes n = false)
    (hspreads : T.spreads n.kind = false) :
    Ends E k (r.root n) (C n) (fun j n' => n'.Sound PlainForm L j ∧ n.kind.Becomes n'.kind ∧ T.back n k n') := by
  refine (h.node n c k hn).thenSure (fun j hj rep hrep => ?_)
  obtain ⟨n', rfl, hsound, hbecomes⟩ := hrep.one hremoves hspreads
  exact .pure (fun l hl => ⟨hsound.up (by omega), hbecomes, hrep.back n' rfl⟩)

end Transformer.Treats

namespace NodeClass

/-- No node of the class becomes a node of another class. -/
def isSettled : NodeClass → Bool
  | only kind => !kind.isRewritten
  | _ => true

theorem includes_of_becomes {c : NodeClass} {k k' : NodeKind} (hc : c.isSettled = true) (hk : c.includes k = true)
    (h : k.Becomes k') : c.includes k' = true := by
  rcases h with rfl | ⟨hrewritten, hexpression⟩
  · exact hk
  · cases c with
    | only kind =>
      rw [eq_of_beq hk] at hrewritten
      rw [isSettled, hrewritten] at hc
      cases hc
    | expression => exact hexpression
    | listed => simp [includes, hexpression]
    | body => simp [includes, hexpression]
    | _ => exact absurd hk (by revert hrewritten; cases k <;> decide)

theorem isSettled_of_mem_sorts {kind : NodeKind} : ∀ sort ∈ kind.sorts, sort.among.isSettled = true := by
  have hall : kind.sorts.all (fun sort => sort.among.isSettled) = true := by cases kind <;> rfl
  exact List.all_eq_true.1 hall

end NodeClass

/-! ## Passes that keep every node -/

/-- Every node stays a node of its kind: the one that was there, or a new one. -/
def Treatment.keepAll : Treatment where
  removes _ := false
  spreads _ := false
  back m k n := n.Renews k m ∧ n.kind = m.kind

theorem Treatment.keepAll_steady {kind : NodeKind} : ∀ sort ∈ kind.sorts, SlotSort.Steady keepAll sort :=
  fun sort hsort =>
    { becomes := fun _ _ => NodeClass.includes_of_becomes (NodeClass.isSettled_of_mem_sorts sort hsort)
      spreads := fun _ _ _ _ hspreads => by cases hspreads
      single := fun _ _ _ => rfl
      member := fun _ _ _ _ => rfl }

theorem Slot.stays_keepAll (s : Slot) : s.stays .keepAll = s.isFilled := by cases s <;> rfl

/-- The node that a walk made, told as what takes the place of the old one. -/
theorem Replacement.Suits.kept {L : Demand} {k j : Nat} {m n : Node} (hsound : n.Sound PlainForm L j)
    (hkind : n.kind = m.kind) (hrenews : n.Renews k m) : Replacement.Suits .keepAll L k m j (.one n) where
  back := fun n' h => by cases h; exact ⟨hrenews, hkind⟩
  removed := fun h => by cases h
  spread := fun _ h => by cases h
  one := fun _ _ => ⟨n, rfl, hsound, .inl hkind⟩

section Descend

variable {ε σ : Type} {E : ε → Prop} {L : Demand} {token : Token → Work ε σ Token} {ofError : SlotError → ε}

/-- **A pass over tokens never fails and keeps every node**, if what it makes of a token meets the demand. -/
theorem Transformer.treats_descend (hE : ∀ e, E (ofError e))
    (htoken : ∀ k t, t.Meets L k → Ends E k (token t) True (fun j u => u.Meets L j)) : ∀ levels,
    (Transformer.ofRuleUpTo ofError token NodeRule.descend levels).Treats .keepAll (fun _ => True) E PlainForm L
  | 0 =>
    { removal := fun _ _ => hE _
      same := fun m c k n hm hback hid =>
        hback.1.resolve_right (fun hk => absurd hm.id_lt (by rw [← hid]; exact Nat.not_lt.2 hk))
      token := htoken
      node := fun m c k hm => .pure (fun j hj => .kept (hm.sound.up hj) rfl (.inl rfl)) }
  | levels + 1 =>
    { removal := fun _ _ => hE _
      same := fun m c k n hm hback hid =>
        hback.1.resolve_right (fun hk => absurd hm.id_lt (by rw [← hid]; exact Nat.not_lt.2 hk))
      token := htoken
      node := fun m c k hm => by
        have hwalk := (treats_descend hE htoken levels).walk Treatment.keepAll_steady hm
        refine (hwalk.map (fun j hj m' hm' => ?_)).iff (by simp [Treatment.keepAll])
        have hfilled : m'.slots.map Slot.isFilled = m.slots.map Slot.isFilled := by
          rw [hm'.filled]
          exact List.map_congr_left (fun s _ => s.stays_keepAll)
        have hform : PlainForm m' := (Node.Alike.isDialectForm ⟨hm'.kind, hfilled⟩).trans hm.form
        exact .kept (hm'.plain hform).sound hm'.kind hm'.renews }

/-- A tree keeps its kind and its class. -/
theorem ends_transformTokens {token : Token → Work SlotError σ Token} {k : Nat} {c : NodeClass} {n : Node}
    (htoken : ∀ k t, t.Meets L k → Ends (fun _ => True) k (token t) True (fun j u => u.Meets L j))
    (h : n.Plain L c k) :
    Ends (fun _ => True) k (n.transformTokens token) True (fun j m => m.Plain L c j ∧ m.Renews k n) := by
  have htreats : (Transformer.ofRuleUpTo (fun e => e) token NodeRule.descend n.height).Treats .keepAll (fun _ => True)
      (fun _ => True) PlainForm L := Transformer.treats_descend (fun _ => trivial) htoken n.height
  refine (htreats.root h rfl rfl).mono (fun j hj m hm => ?_)
  obtain ⟨hsound, -, hrenews, hkind⟩ := hm
  exact ⟨⟨by rw [hkind]; exact h.kind, hsound⟩, hrenews⟩

end Descend

/-! ## Moved lines -/

section Reindent

variable {L : Demand} {o : LayoutOptions} {i k : Nat} {c : NodeClass} {n : Node} {s : Shift}

theorem ends_shiftToken (hL : L.Suits o) (hs : s.options = o) {t : Token} (ht : t.Meets L k) :
    Ends (fun _ => True) k (s.token t) True (fun j u => u.Meets L j) := by
  unfold Shift.token
  split
  · exact .pure (fun j hj => ht.up (by omega))
  · refine .own (fun atLine => .setOwn ?_)
    extract_lets finish
    have htrailing : ∀ j, k ≤ j → ∀ u : Token, u.Meets L j →
        Ends (fun _ => True) j (finish u) True (fun j u => u.Meets L j) := by
      intro j hj u hu
      unfold finish
      split
      · rename_i trivia hmoved
        exact .lift (makes_tokenWithTrailing hu (hL.shiftResult hs _ _ ht.trailing hmoved))
      · exact .pure (fun i hi => hu.up (by omega))
    cases hmoved : (s.apply atLine true t.leading).result? with
    | some trivia =>
      exact .make (makes_tokenWithLeading ht (hL.shiftResult hs _ _ ht.leading hmoved)) htrailing
    | none => exact .sureThen (.pure (fun j hj => ht.up (by omega))) htrailing

/-- **A tree with its lines moved stands where it stood.** -/
theorem makes_reindented (hL : L.Suits o) (hs : s.options = o) (h : n.Plain L c i) (first : Bool)
    (hi : i ≤ k) :
    Makes k (n.reindented s first) (fun j r => ∃ m, r = .ok m ∧ m.Plain L c j ∧ m.Renews k n) := by
  intro j hj
  unfold Node.reindented
  split
  · exact ⟨Nat.le_refl j, n, rfl, h.up (by omega), .inl rfl⟩
  · have hrun := ends_transformTokens (fun _ _ ht => ends_shiftToken hL hs ht) (h.up (k := k) (by omega))
    obtain ⟨m, s', hw, hle, hm⟩ := hrun.run (s := ⟨j, first⟩) hj
    simp only [Work.runFrom, hw]
    exact ⟨hle, m, rfl, hm⟩

end Reindent

end Downlevel
