import Downlevel.Proofs.Outline.Held
import Downlevel.Proofs.Outline.Proper
/-!
# Proofs.Outline.Notes — drafts that keep to what is written down of `this`

`d.Notes inArrow P` says that in an arrow function, or in none, whatever the draft makes has the property `P` together
with what it notes.  A draft keeps an account (`Draft.Keeps`) if of every tree in which no name is `_this` it makes, and
notes, what the account says; so does then the walk through the slots of a node (`Draft.notes_walkSlots`).
-/
namespace Downlevel

/-! ## Parts of a tree that fits -/

/-- The nodes in the slot and its own tokens have a property each. -/
structure Slot.Each (P : Node → Prop) (Q : Token → Prop) (s : Slot) : Prop where
  nodes : ∀ n ∈ s.nodes, P n
  tokens : ∀ t ∈ s.ownTokens, Q t

namespace Slot

variable {P P' : Node → Prop} {Q Q' : Token → Prop} {s : Slot} {n : Node} {t : Token} {ns : List Node} {ts : List Token}

theorem Each.imp (h : s.Each P Q) (hn : ∀ n, P n → P' n) (ht : ∀ t, Q t → Q' t) : s.Each P' Q' :=
  ⟨fun n hm => hn n (h.nodes n hm), fun t hm => ht t (h.tokens t hm)⟩

@[simp] theorem each_absent : Slot.absent.Each P Q := ⟨fun _ h => (by cases h), fun _ h => by cases h⟩

@[simp] theorem each_token : (Slot.token t).Each P Q ↔ Q t :=
  ⟨fun h => h.tokens t (List.mem_singleton.2 rfl),
    fun h => ⟨fun _ hm => (by cases hm), fun _ hu => List.mem_singleton.1 hu ▸ h⟩⟩

@[simp] theorem each_ofToken? {o : Option Token} : (Slot.ofToken? o).Each P Q ↔ ∀ t ∈ o, Q t := by
  cases o <;> simp [Slot.ofToken?]

@[simp] theorem each_node : (Slot.node n).Each P Q ↔ P n :=
  ⟨fun h => h.nodes n (List.mem_singleton.2 rfl),
    fun h => ⟨fun _ hm => List.mem_singleton.1 hm ▸ h, fun _ ht => by cases ht⟩⟩

@[simp] theorem each_ofNode? {o : Option Node} : (Slot.ofNode? o).Each P Q ↔ ∀ n ∈ o, P n := by
  cases o <;> simp [Slot.ofNode?]

@[simp] theorem each_list : (Slot.list ns).Each P Q ↔ ∀ n ∈ ns, P n :=
  ⟨fun h => h.nodes, fun h => ⟨h, fun _ ht => by cases ht⟩⟩

@[simp] theorem each_separated : (Slot.separated ns ts).Each P Q ↔ (∀ n ∈ ns, P n) ∧ ∀ t ∈ ts, Q t :=
  ⟨fun h => ⟨h.nodes, h.tokens⟩, fun h => ⟨h.1, h.2⟩⟩

end Slot

namespace Node.Sound

variable {F : Node → Prop} {L : Demand} {k : Nat} {n : Node} {α : Type} [NodeView α] [FittingView α] {v : α}

theorem stands (h : n.Sound F L k) : n.Stands F L (.only n.kind) k := ⟨beq_self_eq_true n.kind, h⟩

theorem slots (h : n.Sound F L k) : ∀ s ∈ n.slots, s.Each (Node.Sound F L k) (fun t => t.Meets L k) := fun s hs =>
  ⟨fun _ hm => Every.child h (List.mem_flatMap.2 ⟨s, hs, hm⟩), (Every.self h).tokens s hs⟩

theorem slots_eq (h : n.Sound F L k) (hv : n.view? α = some v) : n.slots = NodeView.toSlots v := by
  obtain ⟨v', hs⟩ := FittingView.slots_eq (α := α) h.stands (Node.kind_of_view? hv)
  rw [Node.view?_eq (Node.kind_of_view? hv) hs] at hv
  exact Option.some.inj hv ▸ hs

theorem isSome_view? (h : n.Sound F L k) : (n.view? α).isSome = (n.kind == NodeView.kind α) := by
  by_cases hk : n.kind = NodeView.kind α
  · obtain ⟨v, hs⟩ := FittingView.slots_eq (α := α) h.stands hk
    rw [Node.view?_eq hk hs, hk, beq_self_eq_true]
    rfl
  · rw [Node.view?_eq_none hk, beq_eq_false_iff_ne.2 hk]
    rfl

/-- **What a sound node reads as has sound parts.** -/
theorem parts (h : n.Sound F L k) (hv : n.view? α = some v) :
    ∀ s ∈ NodeView.toSlots v, s.Each (Node.Sound F L k) (fun t => t.Meets L k) := fun s hs =>
  h.slots s (h.slots_eq hv ▸ hs)

/-- The value behind an equals sign is sound if the clause is. -/
theorem clauseValue {o : Option Node} (h : ∀ c ∈ o, c.Sound F L k) : ∀ m ∈ Node.clauseValue o, m.Sound F L k := by
  intro m hm
  obtain ⟨v, hv, rfl⟩ := Option.map_eq_some_iff.1 (Option.mem_toList.1 hm)
  obtain ⟨c, hc, hview⟩ := Option.bind_eq_some_iff.1 hv
  exact Slot.each_node.1 ((h c hc).parts hview (.node v.value) (by simp [NodeView.toSlots]))

end Node.Sound

/-! ## Trees without the name -/

/-- No name is `_this`. -/
def Demand.unnamed : Demand := ⟨fun _ => True, fun kind text => ¬ (kind = .identifier ∧ text = "_this".toList)⟩

/-- The tree fits, and no name in it is `_this`. -/
def Node.Unnamed (k : Nat) (n : Node) : Prop := n.Sound (fun _ => True) Demand.unnamed k

/-- No name in the slot is `_this`. -/
abbrev Slot.Unnamed (k : Nat) (s : Slot) : Prop := s.Each (Node.Unnamed k) (fun t => t.isCapture = false)

theorem Token.Meets.isCapture {t : Token} {k : Nat} (h : t.Meets Demand.unnamed k) : t.isCapture = false := by
  have htext : ¬ (t.kind = .identifier ∧ t.text = "_this".toList) := h.text
  simpa [Token.isCapture] using htext

namespace Node.Unnamed

variable {k : Nat} {n : Node} {α : Type} [NodeView α] [FittingView α] {v : α}

theorem stands (h : n.Unnamed k) : n.Stands (fun _ => True) Demand.unnamed (.only n.kind) k := Node.Sound.stands h

theorem slots (h : n.Unnamed k) : ∀ s ∈ n.slots, s.Unnamed k := fun s hs =>
  (Node.Sound.slots h s hs).imp (fun _ hm => hm) (fun _ ht => ht.isCapture)

theorem isSome_view? (h : n.Unnamed k) : (n.view? α).isSome = (n.kind == NodeView.kind α) := Node.Sound.isSome_view? h

/-- What a node without the name reads as has parts without it. -/
theorem parts (h : n.Unnamed k) (hv : n.view? α = some v) : ∀ s ∈ NodeView.toSlots v, s.Unnamed k := fun s hs =>
  h.slots s (Node.Sound.slots_eq h hv ▸ hs)

end Node.Unnamed

/-! ## What a draft makes and notes -/

theorem Marks.and_comm (m m' : Marks) : m.and m' = m'.and m := by simp [Marks.and, Bool.or_comm]

instance : Std.Associative Marks.and := ⟨Marks.and_assoc⟩

instance : Std.Commutative Marks.and := ⟨Marks.and_comm⟩

/-- Whatever the draft makes has the property, with what it notes. -/
def Draft.Notes {α : Type} (d : Draft α) (inArrow : Bool) (P : α → Marks → Prop) : Prop :=
  ∀ a m, d inArrow = some (a, m) → P a m

namespace Draft.Notes

variable {α β : Type} {P : α → Marks → Prop} {Q : β → Marks → Prop} {d : Draft α} {i : Bool} {k : Nat}

theorem pure {a : α} (h : P a .none) : (Pure.pure a : Draft α).Notes i P := fun _ _ heq => by cases heq; exact h

theorem fail : (Draft.fail : Draft α).Notes i P := fun _ _ heq => by cases heq

/-- **What two steps note is what the first notes and what the second notes.** -/
theorem bind {f : α → Draft β} (hd : d.Notes i P) (hf : ∀ a m, P a m → (f a).Notes i (fun b m' => Q b (m.and m'))) :
    (d >>= f).Notes i Q := by
  intro b m heq
  rw [Draft.bind_apply] at heq
  obtain ⟨⟨a, m₁⟩, ha, heq⟩ := Option.bind_eq_some_iff.1 heq
  obtain ⟨⟨b', m₂⟩, hb, heq⟩ := Option.map_eq_some_iff.1 heq
  cases heq
  exact hf a m₁ (hd _ _ ha) _ _ hb

/-- A second step that notes nothing. -/
theorem andThen {f : α → Draft β} (hd : d.Notes i P) (hf : ∀ a m, P a m → (f a).Notes i (fun b m' => m' = .none ∧ Q b m)) :
    (d >>= f).Notes i Q :=
  hd.bind (fun a m ha b m' heq => by
    obtain ⟨rfl, hQ⟩ := hf a m ha b m' heq
    rwa [Marks.and_none])

/-- A first step that notes nothing. -/
theorem given {R : α → Prop} {f : α → Draft β} (hd : d.Notes i (fun a m => m = .none ∧ R a))
    (hf : ∀ a, R a → (f a).Notes i Q) : (d >>= f).Notes i Q :=
  hd.bind (fun a m ha b m' heq => by
    obtain ⟨rfl, hR⟩ := ha
    rw [Marks.none_and]
    exact hf a hR b m' heq)

/-- Objects are made first. -/
theorem made {w : Fresh α} {f : α → Draft β} (h : (f (w 0).1).Notes i Q) : (Draft.make w >>= f).Notes i Q :=
  given (R := (· = (w 0).1)) (fun _ _ heq => by cases heq; exact ⟨rfl, rfl⟩) (fun _ heq => heq ▸ h)

theorem make {w : Fresh α} (h : P (w 0).1 .none) : (Draft.make w).Notes i P := pure h

theorem mono {P' : α → Marks → Prop} (hd : d.Notes i P) (h : ∀ a m, P a m → P' a m) : d.Notes i P' :=
  fun a m heq => h a m (hd a m heq)

theorem ite {c : Prop} [Decidable c] {d' : Draft α} (h : c → d.Notes i P) (h' : ¬ c → d'.Notes i P) :
    (if c then d else d').Notes i P := by
  split
  · exact h ‹_›
  · exact h' ‹_›

/-- A part with a `this` of its own keeps to itself that it was captured. -/
theorem inScope (hd : d.Notes false P) :
    (Draft.inScope d).Notes i (fun p m => ∃ m', m = ⟨false, m'.derived⟩ ∧ p.2 = m'.captured ∧ P p.1 m') := by
  intro p m heq
  obtain ⟨⟨a, m'⟩, ha, heq⟩ := Option.map_eq_some_iff.1 heq
  cases heq
  exact ⟨m', rfl, rfl, hd _ _ ha⟩

theorem inArrow (hd : d.Notes true P) : (Draft.inArrow d).Notes i P := fun a m heq => hd a m heq

theorem view {α : Type} [NodeView α] {n : Node} {v : α} {f : α → Draft β} (hv : n.view? α = some v)
    (hf : (f v).Notes i Q) : (Draft.view α n >>= f).Notes i Q := by
  unfold Draft.view
  rw [hv]
  rwa [pure_bind]

/-- A node that reads as no view is a dead end. -/
theorem viewAny {α : Type} [NodeView α] {n : Node} {f : α → Draft β} (hf : ∀ v, n.view? α = some v → (f v).Notes i Q) :
    (Draft.view α n >>= f).Notes i Q := by
  cases hv : n.view? α with
  | some v => exact view hv (hf v hv)
  | none =>
    unfold Draft.view
    rw [hv]
    exact bind (P := fun _ _ => False) fail (fun _ _ hfalse => hfalse.elim)

/-- A tree without the name is read by its parts. -/
theorem viewUnnamed {α : Type} [NodeView α] [FittingView α] {n : Node} {f : α → Draft β} (h : n.Unnamed k)
    (hf : ∀ v, n.view? α = some v → n.slots = NodeView.toSlots v → (∀ s ∈ NodeView.toSlots v, s.Unnamed k) →
      (f v).Notes i Q) : (Draft.view α n >>= f).Notes i Q :=
  viewAny (fun v hv => hf v hv (Node.Sound.slots_eq h hv) (h.parts hv))

/-- **Steps in a row keep to what is written down of each.** -/
theorem mapM {f : α → Draft β} {g : α → Account} {read : β → List Reference} : ∀ {as : List α},
    (∀ a ∈ as, (f a).Notes i (fun b m => Account.mk m (read b) = g a)) →
    (as.mapM f).Notes i (fun bs m => Account.mk m (bs.flatMap read) = Account.all (as.map g))
  | [], _ => by
    rw [List.mapM_nil]
    exact .pure rfl
  | a :: as, h => by
    obtain ⟨ha, has⟩ := List.forall_mem_cons.1 h
    rw [List.mapM_cons]
    refine ha.bind (fun b m hb => (mapM has).andThen (fun bs ms hbs => .pure ⟨rfl, ?_⟩))
    show Account.mk m (read b) ++ Account.mk ms (bs.flatMap read) = g a ++ Account.all (as.map g)
    rw [hb, hbs]

end Draft.Notes

/-! ## Keeping to what is written down -/

/-- A type or a parameter. -/
def Node.IsAside (n : Node) : Prop := n.kind = .typeClause ∨ n.kind = .parameter

/-- What takes the place of a node refers to `this`, and notes, what is written down. -/
def Replacement.Meets (a : Account) (r : Replacement) (m : Marks) : Prop := Account.mk m (r.nodes.flatMap Node.references) = a

theorem Replacement.references_one {n : Node} : (Replacement.one n).nodes.flatMap Node.references = n.references :=
  List.flatMap_singleton ..

theorem Replacement.meets_one {n : Node} {a : Account} {m : Marks} (h : Account.mk m n.references = a) :
    (Replacement.one n).Meets a m := by
  rwa [Meets, references_one]

/-- **Of every tree without the name the draft makes, and notes, what is written down of it**; types and parameters are
left out, and no statements take their place. -/
structure Draft.Keeps (visit : Node → Draft Replacement) (account : Bool → Node → Account) : Prop where
  made : ∀ {n : Node} {k : Nat} (i : Bool), n.Unnamed k → (visit n).Notes i (Replacement.Meets (account i n))
  proper : ∀ (i : Bool) (n : Node), (account i n).Proper
  aside : ∀ {n : Node} (i : Bool), n.IsAside → account i n = .none
  bare : ∀ {n : Node} (i : Bool), n.IsAside → (visit n).Notes i (fun r _ => r.nodes.flatMap Node.blockStatements = [])

/-- What becomes of a slot is what is written down of its nodes. -/
structure Slot.WalksTo (account : Bool → Node → Account) (i : Bool) (s s' : Slot) : Prop where
  references : s'.references = (Account.each account i s.nodes).references
  token : ∀ t, s' = .token t → s = .token t
  absent : s = .absent → s' = .absent
  bare : ∀ n, s = .node n → n.IsAside → s'.statements = []

namespace Draft

variable {visit : Node → Draft Replacement} {account : Bool → Node → Account} {i : Bool} {k : Nat} {n : Node} {s : Slot}
  {ns : List Node} {slots : List Slot}

theorem notes_single (optional : Bool) (r : Replacement) :
    (single optional r).Notes i (fun o m => m = .none ∧ o.toList = r.nodes) := by
  cases r with
  | one m => exact .pure ⟨rfl, rfl⟩
  | removed =>
    cases optional with
    | true => exact .pure ⟨rfl, rfl⟩
    | false => exact .fail
  | many ms =>
    rcases ms with _ | ⟨m, _ | _⟩
    · exact .fail
    · exact .pure ⟨rfl, rfl⟩
    · exact .fail

section Walk

variable (h : Keeps visit account)
include h

theorem notes_walkList : ∀ {ns : List Node}, (∀ n ∈ ns, n.Unnamed k) → (walkList visit ns).Notes i
    (fun ms m => Account.mk m (ms.flatMap Node.references) = Account.each account i ns)
  | [], _ => .pure rfl
  | n :: ns, hns => by
    obtain ⟨hn, hns⟩ := List.forall_mem_cons.1 hns
    refine (h.made i hn).bind (fun r m hr => (notes_walkList hns).andThen (fun ms m' hms => .pure ⟨rfl, ?_⟩))
    rw [List.flatMap_append, Account.each_cons, ← show _ = account i n from hr, ← hms]
    rfl

theorem notes_walkMember (hn : n.Unnamed k) :
    (walkMember visit n).Notes i (fun n' m => Account.mk m n'.references = account i n) := by
  refine (h.made i hn).andThen (fun r m hr => (notes_single false r).given (fun o ho => ?_))
  cases o with
  | none => exact .fail
  | some n' =>
    refine .pure ⟨rfl, ?_⟩
    rw [Replacement.Meets, ← ho] at hr
    simpa using hr

theorem notes_walkSlot (optional : Bool) (hs : s.Unnamed k) : (walkSlot visit optional s).Notes i
    (fun s' m => m = (Account.each account i s.nodes).marks ∧ Slot.WalksTo account i s s') := by
  cases s with
  | absent => exact .pure ⟨rfl, rfl, fun _ heq => (by cases heq), fun _ => rfl, fun _ heq => by cases heq⟩
  | token t => exact .pure ⟨rfl, rfl, fun _ heq => heq, fun heq => (by cases heq), fun _ heq => by cases heq⟩
  | node n =>
    -- A type or a parameter leaves no statement, which is not told by what is written down of it.
    have hbare : (visit n).Notes i (fun r m => r.Meets (account i n) m ∧
        (n.IsAside → r.nodes.flatMap Node.blockStatements = [])) := fun r m heq =>
      ⟨h.made i (Slot.each_node.1 hs) r m heq, fun haside => h.bare i haside r m heq⟩
    refine hbare.andThen (fun r m hr => (notes_single optional r).given (fun o ho => .pure ⟨rfl, ?_⟩))
    obtain ⟨hr, hbare⟩ := hr
    have hmarks : m = (account i n).marks := congrArg Account.marks hr
    rw [Replacement.Meets, ← ho] at hr
    rw [← ho] at hbare
    refine ⟨by simpa using hmarks, ?_, fun t heq => ?_, fun heq => (by cases heq), fun n' heq haside => ?_⟩
    · simpa using congrArg Account.references hr
    · cases o <;> cases heq
    · cases heq
      have hnone := hbare haside
      cases o with
      | none => rfl
      | some n' => exact (List.append_nil _).symm.trans hnone
  | list ns =>
    refine (notes_walkList h (Slot.each_list.1 hs)).andThen (fun ms m hms => .pure ⟨rfl, ?_⟩)
    refine ⟨congrArg Account.marks hms, ?_, fun t heq => (by cases heq), fun heq => (by cases heq),
      fun n heq => by cases heq⟩
    simpa using congrArg Account.references hms
  | separated ns ts =>
    have hmembers : (ns.mapM (walkMember visit)).Notes i
        (fun ms m => Account.mk m (ms.flatMap Node.references) = Account.each account i ns) :=
      Notes.mapM (fun n hn => notes_walkMember h (hs.nodes n hn))
    refine hmembers.andThen (fun ms m hms => .pure ⟨rfl, ?_⟩)
    refine ⟨congrArg Account.marks hms, ?_, fun t heq => (by cases heq), fun heq => (by cases heq),
      fun n heq => by cases heq⟩
    simpa using congrArg Account.references hms

theorem notes_walkSlots (parent : NodeKind) : ∀ (index : Nat) {slots : List Slot}, (∀ s ∈ slots, s.Unnamed k) →
    (walkSlots visit parent index slots).Notes i (fun ss m =>
      m = (Account.each account i (slots.flatMap Slot.nodes)).marks ∧ List.Forall₂ (Slot.WalksTo account i) slots ss)
  | _, [], _ => .pure ⟨rfl, .nil⟩
  | index, s :: slots, hs => by
    obtain ⟨hs, hslots⟩ := List.forall_mem_cons.1 hs
    refine (notes_walkSlot h _ hs).bind (fun s' m hs' =>
      (notes_walkSlots parent (index + 1) hslots).andThen (fun ss m' hss => .pure ⟨rfl, ?_, .cons hs'.2 hss.2⟩))
    rw [List.flatMap_cons, Account.each_append, hs'.1, hss.1]
    rfl

omit h in
/-- What becomes of slots is what is written down of their nodes. -/
theorem references_walked {slots' : List Slot} (hw : List.Forall₂ (Slot.WalksTo account i) slots slots') :
    slots'.flatMap Slot.references = (Account.each account i (slots.flatMap Slot.nodes)).references := by
  induction hw with
  | nil => rfl
  | cons hs _ ih => rw [List.flatMap_cons, List.flatMap_cons, hs.references, ih, Account.each_append]; rfl

/-- **A node is walked through slot by slot.** -/
theorem notes_walk_slots (hn : n.Unnamed k) : (walk visit n).Notes i (fun n' m =>
    m = (Account.each account i n.children).marks ∧ ∃ slots, n' = .mk 0 n.kind slots ∧
      List.Forall₂ (Slot.WalksTo account i) n.slots slots) :=
  (notes_walkSlots h n.kind 0 hn.slots).andThen (fun ss _ hss => .make ⟨rfl, hss.1, ss, rfl, hss.2⟩)

/-- **What is walked through is what is written down of what stands in it**, if it is no body and no `this` itself. -/
theorem notes_walk (hn : n.Unnamed k) (hbody : n.kind.isBody = false) (hthis : n.kind ≠ .thisExpression) :
    (walk visit n).Notes i (fun n' m => Account.mk m n'.references = Account.each account i n.children ∧
      List.Forall₂ (Slot.WalksTo account i) n.slots n'.slots) := by
  refine (notes_walk_slots h hn).mono (fun n' m hw => ?_)
  obtain ⟨hm, slots, rfl, hw⟩ := hw
  refine ⟨Account.mk_eq hm ?_, hw⟩
  have hstarts : Slot.startsWithCapture slots = false := by
    have hslots := hn.slots
    generalize n.slots = before at hw hslots
    cases hw with
    | nil => rfl
    | @cons s s' _ _ hs _ =>
      cases s' with
      | token t =>
        cases hs.token t rfl
        exact Slot.each_token.1 (hslots _ (List.mem_cons_self ..))
      | _ => rfl
  rw [Node.references_plain hbody hthis hstarts, references_walked hw]
  rfl

/-- What must stay one node. -/
theorem notes_lower (hn : n.Unnamed k) :
    (lower visit n).Notes i (fun n' m => Account.mk m n'.references = account i n) := by
  have hone : ∀ (n' : Node) (r : Replacement) (m : Marks), r.nodes = [n'] →
      r.Meets (account i n) m → Account.mk m n'.references = account i n :=
    fun n' r m hnodes hr => by rwa [Replacement.Meets, hnodes, List.flatMap_singleton] at hr
  refine (h.made i hn).andThen (fun r m hr => ?_)
  split
  · exact .pure ⟨rfl, hone _ _ m rfl hr⟩
  · exact .pure ⟨rfl, hone _ _ m rfl hr⟩
  · exact .fail

/-- What may be left out. -/
theorem notes_lowerOption {o : Option Node} (ho : ∀ n ∈ o, n.Unnamed k) : (o.mapM (lower visit)).Notes i
    (fun o' m => Account.mk m (o'.toList.flatMap Node.references) = Account.each account i o.toList) := by
  cases o with
  | none => exact .pure rfl
  | some n =>
    show (some <$> lower visit n).Notes i _
    rw [map_eq_pure_bind]
    refine (notes_lower h (ho n rfl)).andThen (fun n' m hn => .pure ⟨rfl, ?_⟩)
    simpa using hn

end Walk

end Draft

end Downlevel
