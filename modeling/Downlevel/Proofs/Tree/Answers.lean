import Downlevel.Proofs.Tree.Runs
import Downlevel.Proofs.Tree.Schematic
import Downlevel.Proofs.Tree.Stands
/-!
# Proofs.Tree.Answers — a walk asks about each part and puts the answers together

A walk of a node asks what becomes of each token and node that stands directly in it, in document order, and nothing
else can make it fail than an answer that is not given or does not fit (`Transformer.Asks`).  What it makes is put
together from the answers slot by slot (`Slot.Rebuilt`), so its tokens are the tokens of the answers, and what looks
unchanged is unchanged.
-/
namespace Downlevel

/-! ## Parts and answers -/

/-- How many nodes may take the place of a node. -/
inductive Room where
  | anyNumber
  | exactlyOne (slot : Nat)
  | atMostOne (slot : Nat)

/-- What a walk asks about. -/
inductive Child where
  | token (t : Token)
  | node (n : Node) (room : Room)

/-- What becomes of a part. -/
inductive Answer where
  | token (t : Token)
  | node (rep : Replacement)

def Answer.tokens : Answer → List Token
  | token t => [t]
  | node rep => rep.nodes.flatMap Node.tokens

/-- Why a replacement does not fit the room that there is. -/
def Room.refusal? (parent : NodeKind) : Room → Replacement → Option SlotError
  | anyNumber, _ => none
  | exactlyOne slot, .removed => some (.requiredSlotRemoved parent slot)
  | exactlyOne slot, rep => if rep.nodes.length = 1 then none else some (.slotFanOut parent slot rep.nodes.length)
  | atMostOne _, .removed => none
  | atMostOne slot, rep => if rep.nodes.length = 1 then none else some (.slotFanOut parent slot rep.nodes.length)

/-- The room for the node of a slot that holds one. -/
def Room.ofSlot (optional : Bool) (slot : Nat) : Room := if optional then .atMostOne slot else .exactlyOne slot

namespace Child

/-- Why an answer is not taken. -/
def refusal? (parent : NodeKind) : Child → Answer → Option SlotError
  | node _ room, .node rep => room.refusal? parent rep
  | _, _ => none

/-- The tokens of a part. -/
def tokens : Child → List Token
  | token t => [t]
  | node n _ => n.tokens

/-- The answer is the part itself, given in the way that counts as no change. -/
def KeptBy : Child → Answer → Prop
  | token t, .token t' => t'.isSame t = true
  | node n .anyNumber, .node rep => ∃ n', rep = .one n' ∧ n'.isSame n = true
  | node n _, .node rep => ∃ n', rep.nodes = [n'] ∧ n'.isSame n = true
  | _, _ => False

/-- An object of the answer that has the number of the part is the part. -/
def KnownIn : Child → Answer → Prop
  | token t, .token t' => t'.id = t.id → t' = t
  | node n _, .node rep => ∀ n' ∈ rep.nodes, n'.id = n.id → n' = n
  | _, _ => True

end Child

def Slot.parts (index : Nat) (optional : Bool) : Slot → List Child
  | absent => []
  | token t => [.token t]
  | node n => [.node n (.ofSlot optional index)]
  | list members => members.map (fun n => .node n .anyNumber)
  | separated members separators =>
    interleave (members.map (fun n => .node n (.exactlyOne index))) (separators.map .token)

/-- The slot of a node of a kind may be left out. -/
abbrev NodeKind.mayOmit (kind : NodeKind) (index : Nat) : Bool := kind.shapes[index]?.any SlotShape.isOptional

/-- The parts of a row of slots of a node of a kind, from the one with the given number on. -/
def NodeKind.partsFrom (kind : NodeKind) : Nat → List Slot → List Child
  | _, [] => []
  | index, slot :: slots =>
    slot.parts index (kind.mayOmit index) ++ kind.partsFrom (index + 1) slots

/-- **The tokens and nodes that stand directly in a node**, in document order. -/
def Node.parts (n : Node) : List Child := n.kind.partsFrom 0 n.slots

theorem Child.tokens_interleave (room : Room) : ∀ (ns : List Node) (ts : List Token),
    (interleave (ns.map (fun n => Child.node n room)) (ts.map .token)).flatMap Child.tokens =
      (interleave (ns.map Node.tokens) (ts.map (fun t => [t]))).flatten := by
  intro ns ts
  rw [List.flatMap_def, map_interleave, List.map_map, List.map_map]
  rfl

theorem Slot.tokens_parts (index : Nat) (optional : Bool) (s : Slot) :
    (s.parts index optional).flatMap Child.tokens = s.tokens := by
  cases s with
  | absent => rfl
  | token t => rfl
  | node n => exact List.append_nil _
  | list ns => rw [Slot.parts, Slot.tokens_list, List.flatMap_map]; rfl
  | separated ns ts => rw [Slot.parts, Slot.tokens_separated, Child.tokens_interleave]

theorem Node.tokens_eq (n : Node) : n.tokens = n.slots.flatMap Slot.tokens := by
  cases n
  exact Node.tokens_mk ..

/-- **The tokens of the parts of a node are the tokens of the node.** -/
theorem Node.tokens_parts (n : Node) : n.parts.flatMap Child.tokens = n.tokens := by
  have hrow : ∀ (slots : List Slot) (index : Nat),
      (n.kind.partsFrom index slots).flatMap Child.tokens = slots.flatMap Slot.tokens := by
    intro slots
    induction slots with
    | nil => exact fun _ => rfl
    | cons s slots ih =>
      intro index
      rw [NodeKind.partsFrom, List.flatMap_append, Slot.tokens_parts, ih, List.flatMap_cons]
  rw [Node.parts, hrow, Node.tokens_eq]

theorem Slot.mem_parts {index : Nat} {optional : Bool} {s : Slot} {p : Child} (h : p ∈ s.parts index optional) :
    (∃ t ∈ s.ownTokens, p = .token t) ∨ ∃ c ∈ s.nodes, ∃ room, p = .node c room := by
  cases s with
  | absent => cases h
  | token t => exact .inl ⟨t, List.mem_singleton.2 rfl, List.mem_singleton.1 h⟩
  | node n => exact .inr ⟨n, List.mem_singleton.2 rfl, _, List.mem_singleton.1 h⟩
  | list ns =>
    obtain ⟨c, hc, rfl⟩ := List.mem_map.1 h
    exact .inr ⟨c, hc, _, rfl⟩
  | separated ns ts =>
    rcases mem_interleave.1 h with h | h
    · obtain ⟨c, hc, rfl⟩ := List.mem_map.1 h
      exact .inr ⟨c, hc, _, rfl⟩
    · obtain ⟨t, ht, rfl⟩ := List.mem_map.1 h
      exact .inl ⟨t, ht, rfl⟩

/-- A part of a node is a token that a slot of it holds or a child of it. -/
theorem Node.mem_parts {n : Node} {p : Child} (h : p ∈ n.parts) :
    (∃ s ∈ n.slots, ∃ t ∈ s.ownTokens, p = .token t) ∨ ∃ c ∈ n.children, ∃ room, p = .node c room := by
  have hrow : ∀ (slots : List Slot) (index : Nat), p ∈ n.kind.partsFrom index slots →
      (∃ s ∈ slots, ∃ t ∈ s.ownTokens, p = .token t) ∨ ∃ s ∈ slots, ∃ c ∈ s.nodes, ∃ room, p = .node c room := by
    intro slots
    induction slots with
    | nil => exact fun _ h => by cases h
    | cons s slots ih =>
      intro index h
      rcases List.mem_append.1 h with h | h
      · exact (Slot.mem_parts h).imp (fun h => ⟨s, List.mem_cons_self, h⟩) (fun h => ⟨s, List.mem_cons_self, h⟩)
      · exact (ih _ h).imp (fun ⟨s, hs, h⟩ => ⟨s, List.mem_cons_of_mem _ hs, h⟩)
          (fun ⟨s, hs, h⟩ => ⟨s, List.mem_cons_of_mem _ hs, h⟩)
  refine (hrow n.slots 0 h).imp_right (fun ⟨s, hs, c, hc, hp⟩ => ⟨c, List.mem_flatMap.2 ⟨s, hs, hc⟩, hp⟩)

section Run

variable {ε σ : Type} (r : Transformer ε σ) (parent : NodeKind)

/-- What becomes of a part. -/
def Transformer.ask : Child → Work ε σ Answer
  | .token t => do return .token (← r.token t)
  | .node n _ => do return .node (← r.node n)

/-- The parts are asked about one after the other, and every answer is taken. -/
inductive Transformer.Answered : List Child → Supplied σ → List Answer → Supplied σ → Prop
  | nil (s : Supplied σ) : Answered [] s [] s
  | cons {p : Child} {ps : List Child} {a : Answer} {as : List Answer} {s s₁ s' : Supplied σ}
    (ask : r.ask p s = .ok a s₁) (taken : p.refusal? parent a = none) (rest : Answered ps s₁ as s') :
    Answered (p :: ps) s (a :: as) s'

/-- The parts are asked about up to one whose answer is an error or is not taken; those behind it are not asked about. -/
def Transformer.Stopped (parts : List Child) (s : Supplied σ) (e : ε) (s' : Supplied σ) : Prop :=
  ∃ before p behind answers s₁, parts = before ++ p :: behind ∧ r.Answered parent before s answers s₁ ∧
    (r.ask p s₁ = .error e s' ∨
      ∃ a refusal, r.ask p s₁ = .ok a s' ∧ p.refusal? parent a = some refusal ∧ e = r.ofError refusal)

/-- The computation asks about the parts; it stops where they stop, and what it makes is related to the answers. -/
def Transformer.Asks {α : Type} (w : Work ε σ α) (parts : List Child) (R : List Answer → α → Prop) : Prop :=
  ∀ s, (∃ answers s' a, r.Answered parent parts s answers s' ∧ w s = .ok a s' ∧ R answers a) ∨
    ∃ e s', r.Stopped parent parts s e s' ∧ w s = .error e s'

end Run

namespace Transformer

variable {ε σ α β : Type} {r : Transformer ε σ} {parent : NodeKind}

theorem Answered.append {ps qs : List Child} {s s₁ s' : Supplied σ} {as bs : List Answer}
    (h : r.Answered parent ps s as s₁) (h' : r.Answered parent qs s₁ bs s') :
    r.Answered parent (ps ++ qs) s (as ++ bs) s' := by
  induction h with
  | nil => exact h'
  | cons ask taken _ ih => exact .cons ask taken (ih h')

theorem Answered.unique {ps : List Child} {s s₁ s₂ : Supplied σ} {as bs : List Answer}
    (h : r.Answered parent ps s as s₁) (h' : r.Answered parent ps s bs s₂) : as = bs ∧ s₁ = s₂ := by
  induction h generalizing bs with
  | nil =>
    cases h'
    exact ⟨rfl, rfl⟩
  | cons ask _ _ ih =>
    cases h' with
    | cons ask' _ rest' =>
      rw [ask] at ask'
      cases ask'
      obtain ⟨rfl, rfl⟩ := ih rest'
      exact ⟨rfl, rfl⟩

theorem Stopped.append_right {ps qs : List Child} {s s' : Supplied σ} {e : ε} (h : r.Stopped parent ps s e s') :
    r.Stopped parent (ps ++ qs) s e s' := by
  obtain ⟨before, p, behind, answers, s₁, rfl, hbefore, hp⟩ := h
  exact ⟨before, p, behind ++ qs, answers, s₁, by rw [List.append_assoc, List.cons_append], hbefore, hp⟩

theorem Stopped.append_left {ps qs : List Child} {s s₁ s' : Supplied σ} {as : List Answer} {e : ε}
    (h : r.Answered parent ps s as s₁) (h' : r.Stopped parent qs s₁ e s') : r.Stopped parent (ps ++ qs) s e s' := by
  obtain ⟨before, p, behind, answers, s₂, rfl, hbefore, hp⟩ := h'
  exact ⟨ps ++ before, p, behind, as ++ answers, s₂, by rw [List.append_assoc], h.append hbefore, hp⟩

theorem stopped_nil {s s' : Supplied σ} {e : ε} : ¬ r.Stopped parent [] s e s' := by
  rintro ⟨before, p, behind, answers, s₁, hsplit, -⟩
  cases before <;> cases hsplit

/-- A row of parts stops at the first one, or that one is answered and the others stop. -/
theorem stopped_cons {p : Child} {ps : List Child} {s s' : Supplied σ} {e : ε} :
    r.Stopped parent (p :: ps) s e s' ↔
      (r.ask p s = .error e s' ∨
        ∃ a refusal, r.ask p s = .ok a s' ∧ p.refusal? parent a = some refusal ∧ e = r.ofError refusal) ∨
      ∃ a s₁, r.ask p s = .ok a s₁ ∧ p.refusal? parent a = none ∧ r.Stopped parent ps s₁ e s' := by
  constructor
  · rintro ⟨before, q, behind, answers, s₁, hsplit, hbefore, hq⟩
    cases hbefore with
    | nil =>
      cases hsplit
      exact .inl hq
    | cons ask taken rest =>
      cases hsplit
      exact .inr ⟨_, _, ask, taken, _, q, behind, _, s₁, rfl, rest, hq⟩
  · rintro (hp | ⟨a, s₁, ask, taken, before, q, behind, answers, s₂, rfl, hbefore, hq⟩)
    · exact ⟨[], p, ps, [], s, rfl, .nil s, hp⟩
    · exact ⟨p :: before, q, behind, a :: answers, s₂, rfl, .cons ask taken hbefore, hq⟩

/-- A run stops with one error and in one state, and then it was not answered. -/
theorem Stopped.unique {ps : List Child} : ∀ {s s' : Supplied σ} {e : ε}, r.Stopped parent ps s e s' →
    (∀ {e' s''}, r.Stopped parent ps s e' s'' → e = e' ∧ s' = s'') ∧ ∀ as s₁, ¬ r.Answered parent ps s as s₁ := by
  induction ps with
  | nil => exact fun h => absurd h stopped_nil
  | cons p ps ih =>
    intro s s' e h
    rw [stopped_cons] at h
    -- A run stops where a part fails, where an answer is refused, or further on; each excludes the other two.
    rcases h with (herr | ⟨a, refusal, hask, hrefused, rfl⟩) | ⟨a, s₁, hask, htaken, hrest⟩
    · refine ⟨fun h' => ?_, fun as s₁ has => ?_⟩
      · simp only [stopped_cons, herr] at h'
        simpa using h'
      · cases has with
        | cons ask => rw [herr] at ask; cases ask
    · refine ⟨fun h' => ?_, fun as s₁ has => ?_⟩
      · simp only [stopped_cons, hask, EStateM.Result.ok.injEq] at h'
        rcases h' with (h' | ⟨b, refusal', ⟨rfl, rfl⟩, hrefused', rfl⟩) | ⟨b, s₁, ⟨rfl, rfl⟩, htaken, -⟩
        · cases h'
        · rw [hrefused] at hrefused'
          cases hrefused'
          exact ⟨rfl, rfl⟩
        · rw [hrefused] at htaken
          cases htaken
      · cases has with
        | cons ask taken =>
          rw [hask] at ask
          cases ask
          rw [hrefused] at taken
          cases taken
    · obtain ⟨hone, hnone⟩ := ih hrest
      refine ⟨fun h' => ?_, fun as s₁ has => ?_⟩
      · simp only [stopped_cons, hask, EStateM.Result.ok.injEq] at h'
        rcases h' with (h' | ⟨b, refusal', ⟨rfl, rfl⟩, hrefused, rfl⟩) | ⟨b, s₂, ⟨rfl, rfl⟩, -, h'⟩
        · cases h'
        · rw [htaken] at hrefused
          cases hrefused
        · exact hone h'
      · cases has with
        | cons ask _ rest =>
          rw [hask] at ask
          cases ask
          exact hnone _ _ rest

/-! ## How computations ask -/

namespace Asks

variable {w : Work ε σ α} {f : α → Work ε σ β} {ps qs : List Child} {R : List Answer → α → Prop}
  {S : List Answer → β → Prop}

theorem pure {a : α} (h : R [] a) : r.Asks parent (pure a) [] R := fun s => .inl ⟨[], s, a, .nil s, rfl, h⟩

theorem bind (hw : r.Asks parent w ps R)
    (hf : ∀ as a, R as a → r.Asks parent (f a) qs (fun bs b => S (as ++ bs) b)) :
    r.Asks parent (w >>= f) (ps ++ qs) S := by
  intro s
  rcases hw s with ⟨as, s₁, a, has, hrun, ha⟩ | ⟨e, s', hstop, hrun⟩
  · rw [Work.bind_of_ok hrun]
    rcases hf as a ha s₁ with ⟨bs, s', b, hbs, hrun', hb⟩ | ⟨e, s', hstop, hrun'⟩
    · exact .inl ⟨as ++ bs, s', b, has.append hbs, hrun', hb⟩
    · exact .inr ⟨e, s', hstop.append_left has, hrun'⟩
  · rw [Work.bind_of_error hrun]
    exact .inr ⟨e, s', hstop.append_right, rfl⟩

/-- What is made of the outcome afterwards asks about nothing. -/
theorem bindPure {g : α → β} (hw : r.Asks parent w ps R) (hg : ∀ as a, R as a → S as (g a)) :
    r.Asks parent (w >>= fun a => Pure.pure (g a)) ps S := by
  rw [← List.append_nil ps]
  exact hw.bind (fun as a ha => .pure (by rw [List.append_nil]; exact hg as a ha))

theorem mono {R' : List Answer → α → Prop} (hw : r.Asks parent w ps R) (h : ∀ as a, R as a → R' as a) :
    r.Asks parent w ps R' := fun s => (hw s).imp_left (fun ⟨as, s', a, has, hrun, ha⟩ => ⟨as, s', a, has, hrun, h as a ha⟩)

end Asks

/-- A part that is asked about alone. -/
theorem asks_of {w : Work ε σ α} {p : Child} {R : List Answer → α → Prop}
    (h : ∀ s, (∃ a s' b, r.ask p s = .ok a s' ∧ p.refusal? parent a = none ∧ w s = .ok b s' ∧ R [a] b) ∨
      ∃ e s', w s = .error e s' ∧ (r.ask p s = .error e s' ∨
        ∃ a refusal, r.ask p s = .ok a s' ∧ p.refusal? parent a = some refusal ∧ e = r.ofError refusal)) :
    r.Asks parent w [p] R := by
  intro s
  rcases h s with ⟨a, s', b, hask, htaken, hrun, hb⟩ | ⟨e, s', hrun, hp⟩
  · exact .inl ⟨[a], s', b, .cons hask htaken (.nil s'), hrun, hb⟩
  · exact .inr ⟨e, s', ⟨[], p, [], [], s, rfl, .nil s, hp⟩, hrun⟩

/-! ## How the parts of a walk ask -/

theorem asks_node (n : Node) : r.Asks parent (r.node n) [.node n .anyNumber] (fun as rep => as = [.node rep]) := by
  refine asks_of (fun s => ?_)
  have hask : ∀ room, r.ask (.node n room) s = (r.node n >>= fun rep => pure (.node rep)) s := fun _ => rfl
  cases hrun : r.node n s with
  | ok rep s' => exact .inl ⟨.node rep, s', rep, (hask _).trans (Work.bind_of_ok hrun), rfl, rfl, rfl⟩
  | error e s' => exact .inr ⟨e, s', rfl, .inl ((hask _).trans (Work.bind_of_error hrun))⟩

theorem asks_token (t : Token) : r.Asks parent (r.walkToken t) [.token t] (fun as w =>
    as = [.token w.value] ∧ (w.changed = false ↔ Child.KeptBy (.token t) (.token w.value))) := by
  refine asks_of (fun s => ?_)
  have hask : r.ask (.token t) s = (r.token t >>= fun t' => pure (.token t')) s := rfl
  cases hrun : r.token t s with
  | ok t' s' =>
    exact .inl ⟨.token t', s', ⟨t', !t'.isSame t⟩, hask.trans (Work.bind_of_ok hrun), rfl, Work.bind_of_ok hrun, rfl,
      by simp [Child.KeptBy]⟩
  | error e s' => exact .inr ⟨e, s', Work.bind_of_error hrun, .inl (hask.trans (Work.bind_of_error hrun))⟩

/-- Where one node belongs, one is given, or none where that is allowed. -/
theorem asks_single (n : Node) (index : Nat) (optional : Bool) :
    r.Asks parent (r.node n >>= r.single parent index optional) [.node n (.ofSlot optional index)] (fun as o =>
      ∃ rep, as = [.node rep] ∧ (rep = .removed ∧ optional = true ∧ o = none ∨ ∃ n', rep.nodes = [n'] ∧ o = some n')) := by
  refine asks_of (fun s => ?_)
  have hask : r.ask (.node n (.ofSlot optional index)) s = (r.node n >>= fun rep => pure (.node rep)) s := rfl
  cases hrun : r.node n s with
  | error e s' => exact .inr ⟨e, s', Work.bind_of_error hrun, .inl (hask.trans (Work.bind_of_error hrun))⟩
  | ok rep s' =>
    rw [hask, Work.bind_of_ok hrun, Work.bind_of_ok hrun]
    have htaken : ∀ n', rep.nodes = [n'] → Child.refusal? parent (.node n (.ofSlot optional index)) (.node rep) = none := by
      intro n' hone
      cases optional <;> cases rep <;> simp_all [Child.refusal?, Room.ofSlot, Room.refusal?, Replacement.nodes]
    cases rep with
    | one n' => exact .inl ⟨_, s', some n', rfl, htaken n' rfl, rfl, .one n', rfl, .inr ⟨n', rfl, rfl⟩⟩
    | removed =>
      cases optional with
      | true => exact .inl ⟨_, s', none, rfl, rfl, rfl, .removed, rfl, .inl ⟨rfl, rfl, rfl⟩⟩
      | false => exact .inr ⟨_, s', rfl, .inr ⟨_, _, rfl, rfl, rfl⟩⟩
    | many ns =>
      rcases ns with _ | ⟨m, _ | ⟨m', ms⟩⟩
      · exact .inr ⟨_, s', rfl, .inr ⟨_, .slotFanOut parent index 0, rfl, by cases optional <;> rfl, rfl⟩⟩
      · exact .inl ⟨_, s', some m, rfl, htaken m rfl, rfl, .many [m], rfl, .inr ⟨m, rfl, rfl⟩⟩
      · refine .inr ⟨_, s', rfl, .inr ⟨_, .slotFanOut parent index (ms.length + 2), rfl, ?_, rfl⟩⟩
        cases optional <;> simp [Child.refusal?, Room.ofSlot, Room.refusal?, Replacement.nodes]

theorem asks_member (n : Node) (index : Nat) :
    r.Asks parent (r.walkMember parent index n) [.node n (.exactlyOne index)] (fun as w =>
      ∃ rep, as = [.node rep] ∧ rep.nodes = [w.value] ∧
        (w.changed = false ↔ Child.KeptBy (.node n (.exactlyOne index)) (.node rep))) := by
  unfold walkMember
  rw [← bind_assoc, ← List.append_nil [Child.node n (.exactlyOne index)]]
  refine (asks_single n index false).bind (fun as o ho => ?_)
  obtain ⟨rep, rfl, ⟨-, hopt, -⟩ | ⟨n', hone, rfl⟩⟩ := ho
  · cases hopt
  · refine .pure ⟨rep, rfl, hone, ?_⟩
    simp [Child.KeptBy, hone]

theorem asks_list (ns : List Node) : r.Asks parent (r.walkList ns) (ns.map (fun n => .node n .anyNumber)) (fun as w =>
    ∃ reps : List Replacement, as = reps.map .node ∧ reps.length = ns.length ∧
      w.value = reps.flatMap Replacement.nodes ∧
      (w.changed = false ↔ List.Forall₂ Child.KeptBy (ns.map (fun n => .node n .anyNumber)) as)) := by
  induction ns with
  | nil => exact .pure ⟨[], rfl, rfl, rfl, by simp⟩
  | cons n ns hrest =>
    rw [walkList, List.map_cons, ← List.singleton_append]
    refine (asks_node n).bind (fun as rep hrep => ?_)
    subst hrep
    cases rep with
    | one n' =>
      refine hrest.bindPure (fun bs w hw => ?_)
      obtain ⟨reps, rfl, hlength, hvalue, hsame⟩ := hw
      refine ⟨.one n' :: reps, rfl, by simp [hlength], by simp [hvalue, Replacement.nodes], ?_⟩
      simp [hsame, Child.KeptBy]
    | removed =>
      refine hrest.bindPure (fun bs w hw => ?_)
      obtain ⟨reps, rfl, hlength, hvalue, -⟩ := hw
      refine ⟨.removed :: reps, rfl, by simp [hlength], by simp [hvalue, Replacement.nodes], ?_⟩
      simp [Child.KeptBy]
    | many ns' =>
      refine hrest.bindPure (fun bs w hw => ?_)
      obtain ⟨reps, rfl, hlength, hvalue, -⟩ := hw
      refine ⟨.many ns' :: reps, rfl, by simp [hlength], by simp [hvalue, Replacement.nodes], ?_⟩
      simp [Child.KeptBy]

theorem asks_separators : ∀ ts : List Token, r.Asks parent (r.walkSeparators ts) (ts.map .token) (fun as w =>
    as = w.value.map .token ∧ w.value.length = ts.length ∧
      (w.changed = false ↔ List.Forall₂ Child.KeptBy (ts.map .token) as))
  | [] => .pure ⟨rfl, rfl, by simp⟩
  | t :: ts => by
    rw [walkSeparators, List.map_cons, ← List.singleton_append]
    refine (asks_token t).bind (fun as t' ht' => ?_)
    obtain ⟨rfl, hkept⟩ := ht'
    refine (asks_separators ts).bindPure (fun bs w hw => ?_)
    obtain ⟨rfl, hlength, hsame⟩ := hw
    exact ⟨rfl, by simp [hlength], by simp [hkept, hsame]⟩

/-- The parts of a separated list in document order. -/
abbrev separatedParts (index : Nat) (ns : List Node) (ts : List Token) : List Child :=
  interleave (ns.map (fun n => .node n (.exactlyOne index))) (ts.map .token)

theorem asks_separated (index : Nat) : ∀ (ns : List Node) (ts : List Token),
    r.Asks parent (r.walkSeparated parent index ns ts) (separatedParts index ns ts) (fun as w =>
      ∃ reps : List Replacement, as = interleave (reps.map .node) (w.value.2.map .token) ∧
        reps.map Replacement.nodes = w.value.1.map (fun n => [n]) ∧
        w.value.1.length = ns.length ∧ w.value.2.length = ts.length ∧
        (w.changed = false ↔ List.Forall₂ Child.KeptBy (separatedParts index ns ts) as))
  | [], ts => by
    rw [walkSeparated]
    refine (asks_separators ts).bindPure (fun as w hw => ?_)
    obtain ⟨rfl, hlength, hsame⟩ := hw
    exact ⟨[], rfl, rfl, rfl, hlength, hsame⟩
  | n :: ns, [] => by
    have hparts : separatedParts index (n :: ns) [] = [.node n (.exactlyOne index)] ++ separatedParts index ns [] := by
      simp [separatedParts]
    rw [walkSeparated, hparts]
    refine (asks_member n index).bind (fun as n' hn' => ?_)
    obtain ⟨rep, rfl, hone, hkept⟩ := hn'
    refine (asks_separated index ns []).bindPure (fun bs w hw => ?_)
    obtain ⟨reps, rfl, hreps, hns, hts, hsame⟩ := hw
    rw [List.length_nil, List.length_eq_zero_iff] at hts
    rw [hts, List.map_nil, interleave_nil_right] at hsame ⊢
    refine ⟨rep :: reps, by simp, by simp [hone, hreps], by simp [hns], hts ▸ rfl, ?_⟩
    simp [hkept, hsame]
  | n :: ns, t :: ts => by
    -- Members and separators are asked in turn, as they stand in the document.
    have hparts : separatedParts index (n :: ns) (t :: ts) =
        [.node n (.exactlyOne index)] ++ ([.token t] ++ separatedParts index ns ts) := rfl
    rw [walkSeparated, hparts]
    refine (asks_member n index).bind (fun as n' hn' => ?_)
    obtain ⟨rep, rfl, hone, hkept⟩ := hn'
    refine (asks_token t).bind (fun bs t' ht' => ?_)
    obtain ⟨rfl, hkept'⟩ := ht'
    refine (asks_separated index ns ts).bindPure (fun cs w hw => ?_)
    obtain ⟨reps, rfl, hreps, hns, hts, hsame⟩ := hw
    refine ⟨rep :: reps, rfl, by simp [hone, hreps], by simp [hns], by simp [hts], ?_⟩
    simp [hkept, hkept', hsame, and_assoc]

end Transformer

/-! ## What is made of the answers -/

/-- The slot with the answers in place of its parts. -/
inductive Slot.Rebuilt (optional : Bool) : Slot → List Answer → Slot → Prop
  | absent : Rebuilt optional .absent [] .absent
  | token (t t' : Token) : Rebuilt optional (.token t) [.token t'] (.token t')
  | node (n n' : Node) (rep : Replacement) (one : rep.nodes = [n']) :
    Rebuilt optional (.node n) [.node rep] (.node n')
  | removed (n : Node) (allowed : optional = true) : Rebuilt optional (.node n) [.node .removed] .absent
  | list (ns : List Node) (reps : List Replacement) (length : reps.length = ns.length) :
    Rebuilt optional (.list ns) (reps.map .node) (.list (reps.flatMap Replacement.nodes))
  | separated (ns ns' : List Node) (ts ts' : List Token) (reps : List Replacement)
    (each : reps.map Replacement.nodes = ns'.map (fun n => [n])) (members : ns'.length = ns.length)
    (separators : ts'.length = ts.length) :
    Rebuilt optional (.separated ns ts) (interleave (reps.map .node) (ts'.map .token)) (.separated ns' ts')

/-- A row of slots of a node of a kind, from the one with the given number on, with the answers in place of the parts. -/
inductive NodeKind.RowRebuilt (kind : NodeKind) : Nat → List Slot → List Answer → List Slot → Prop
  | nil (index : Nat) : RowRebuilt kind index [] [] []
  | cons {index : Nat} {s s' : Slot} {slots slots' : List Slot} {as bs : List Answer}
    (slot : s.Rebuilt (kind.mayOmit index) as s') (rest : RowRebuilt kind (index + 1) slots bs slots') :
    RowRebuilt kind index (s :: slots) (as ++ bs) (s' :: slots')

/-! Rows that are put together of rows of the same lengths are related part by part. -/

theorem forall₂_append_iff {α β : Type} {R : α → β → Prop} {bs : List α} {ds : List β} :
    ∀ {as : List α} {cs : List β}, as.length = cs.length →
      (List.Forall₂ R (as ++ bs) (cs ++ ds) ↔ List.Forall₂ R as cs ∧ List.Forall₂ R bs ds)
  | [], [], _ => by simp
  | a :: as, c :: cs, h => by
    rw [List.cons_append, List.cons_append, List.forall₂_cons, List.forall₂_cons,
      forall₂_append_iff (Nat.succ.inj h), and_assoc]

theorem forall₂_and {α β : Type} {R S : α → β → Prop} {as : List α} {bs : List β} (h : List.Forall₂ R as bs)
    (h' : List.Forall₂ S as bs) : List.Forall₂ (fun a b => R a b ∧ S a b) as bs := by
  induction h with
  | nil => exact .nil
  | cons hhere _ ih =>
    rw [List.forall₂_cons] at h'
    exact .cons ⟨hhere, h'.1⟩ (ih h'.2)

theorem forall₂_interleave {α β : Type} {R : α → β → Prop} : ∀ {as bs : List α} {cs ds : List β},
    as.length = cs.length → bs.length = ds.length → List.Forall₂ R (interleave as bs) (interleave cs ds) →
      List.Forall₂ R as cs ∧ List.Forall₂ R bs ds
  | [], bs, [], ds, _, _, h => ⟨.nil, h⟩
  | a :: as, [], c :: cs, [], _, _, h => by
    rw [interleave_nil_right, interleave_nil_right] at h
    exact ⟨h, .nil⟩
  | a :: as, b :: bs, c :: cs, d :: ds, ha, hb, h => by
    rw [interleave, interleave, List.forall₂_cons, List.forall₂_cons] at h
    obtain ⟨hac, hbd, hrest⟩ := h
    obtain ⟨has, hbs⟩ := forall₂_interleave (Nat.succ.inj ha) (Nat.succ.inj hb) hrest
    exact ⟨.cons hac has, .cons hbd hbs⟩

namespace Child

/-- The answer is the part, and what looks like the part is the part. -/
def KeptAs (p : Child) (a : Answer) : Prop := p.KeptBy a ∧ p.KnownIn a

theorem KeptAs.token {t t' : Token} (h : KeptAs (.token t) (.token t')) : t' = t := h.2 (eq_of_beq h.1)

theorem KeptAs.node {n n' : Node} {room : Room} {rep : Replacement} (h : KeptAs (.node n room) (.node rep))
    (hone : rep.nodes = [n']) : n' = n := by
  have hsame : n'.isSame n = true := by
    cases room with
    | anyNumber =>
      obtain ⟨m, rfl, hsame⟩ := h.1
      rwa [← (List.cons.inj hone).1]
    | _ =>
      obtain ⟨m, hm, hsame⟩ := h.1
      rwa [(List.cons.inj (hone.symm.trans hm)).1]
  exact h.2 n' (by rw [hone]; exact List.mem_cons_self) (eq_of_beq hsame)

theorem members_eq_of_kept {ns : List Node} {reps : List Replacement}
    (h : List.Forall₂ (fun n rep => KeptAs (.node n .anyNumber) (.node rep)) ns reps) :
    reps.flatMap Replacement.nodes = ns := by
  induction h with
  | nil => rfl
  | cons hhere _ ih =>
    obtain ⟨m, rfl, -⟩ := hhere.1
    rw [List.flatMap_cons, ih, ← hhere.node rfl]
    rfl

/-- Members of a separated list that are all kept are the members of the list. -/
theorem each_eq_of_kept {index : Nat} {ns ns' : List Node} {reps : List Replacement}
    (hreps : reps.map Replacement.nodes = ns'.map (fun n => [n]))
    (h : List.Forall₂ (fun n rep => KeptAs (.node n (.exactlyOne index)) (.node rep)) ns reps) : ns' = ns := by
  induction h generalizing ns' with
  | nil => exact List.map_eq_nil_iff.1 hreps.symm
  | cons hhere _ ih =>
    cases ns' with
    | nil => cases hreps
    | cons n' ns' =>
      obtain ⟨hone, hrest⟩ := List.cons.inj hreps
      rw [ih hrest, hhere.node hone]

end Child

namespace Slot.Rebuilt

variable {optional : Bool} {s s' : Slot} {as : List Answer}

theorem length_eq (h : s.Rebuilt optional as s') (index : Nat) : (s.parts index optional).length = as.length := by
  cases h with
  | absent => rfl
  | token => rfl
  | node => rfl
  | removed => rfl
  | list ns reps hlength => rw [parts, List.length_map, List.length_map, hlength]
  | separated ns ns' ts ts' reps hreps hns hts =>
    have hlength := congrArg List.length hreps
    rw [List.length_map, List.length_map] at hlength
    rw [parts, length_interleave, length_interleave, List.length_map, List.length_map, List.length_map, List.length_map,
      hlength, hns, hts]

/-- **The tokens of a slot are those of the answers.** -/
theorem tokens_eq (h : s.Rebuilt optional as s') : s'.tokens = as.flatMap Answer.tokens := by
  cases h with
  | absent => rfl
  | token => rfl
  | node n n' rep hone => simp [Answer.tokens, hone]
  | removed => rfl
  | list ns reps => rw [tokens_list, List.flatMap_map, List.flatMap_assoc]; rfl
  | separated ns ns' ts ts' reps hreps =>
    have hmembers : reps.map (fun rep => Answer.tokens (.node rep)) = ns'.map Node.tokens := by
      have hall : reps.map (fun rep => Answer.tokens (.node rep)) =
          (reps.map Replacement.nodes).map (fun ns => ns.flatMap Node.tokens) := by
        rw [List.map_map]
        rfl
      rw [hall, hreps, List.map_map]
      exact List.map_congr_left (fun n _ => by simp)
    rw [tokens_separated, List.flatMap_def, map_interleave, List.map_map, List.map_map]
    exact congrArg (fun ms => (interleave ms (ts'.map (fun t => [t]))).flatten) hmembers.symm

theorem exists_of_mem_nodes {c : Node} (h : s.Rebuilt optional as s') (hc : c ∈ s'.nodes) :
    ∃ rep, .node rep ∈ as ∧ c ∈ rep.nodes := by
  cases h with
  | absent => cases hc
  | token => cases hc
  | node n n' rep hone => exact ⟨rep, List.mem_cons_self, hone ▸ hc⟩
  | removed => cases hc
  | list ns reps =>
    obtain ⟨rep, hrep, hc⟩ := List.mem_flatMap.1 hc
    exact ⟨rep, List.mem_map.2 ⟨rep, hrep, rfl⟩, hc⟩
  | separated ns ns' ts ts' reps hreps =>
    have hmem : [c] ∈ reps.map Replacement.nodes := hreps ▸ List.mem_map.2 ⟨c, hc, rfl⟩
    obtain ⟨rep, hrep, hone⟩ := List.mem_map.1 hmem
    exact ⟨rep, mem_interleave.2 (.inl (List.mem_map.2 ⟨rep, hrep, rfl⟩)), hone ▸ List.mem_cons_self⟩

theorem fits {shape : SlotShape} (h : s.Rebuilt optional as s') (hfits : s.fits shape = true)
    (hopt : optional = true → shape.isOptional = true) : s'.fits shape = true := by
  cases h with
  | removed n allowed => exact hopt allowed
  | _ => exact hfits

/-- **What is kept is unchanged**, if what looks like a part is the part. -/
theorem eq_of_kept {index : Nat} (h : s.Rebuilt optional as s')
    (hkept : List.Forall₂ Child.KeptAs (s.parts index optional) as) : s' = s := by
  cases h with
  | absent => rfl
  | token t t' =>
    rw [parts, List.forall₂_cons] at hkept
    rw [hkept.1.token]
  | node n n' rep hone =>
    rw [parts, List.forall₂_cons] at hkept
    rw [hkept.1.node hone]
  | removed n =>
    rw [parts, List.forall₂_cons] at hkept
    cases optional <;> obtain ⟨⟨m, hm, -⟩, -⟩ := hkept.1 <;> cases hm
  | list ns reps =>
    rw [parts, List.forall₂_map_left_iff, List.forall₂_map_right_iff] at hkept
    exact congrArg Slot.list (Child.members_eq_of_kept hkept)
  | separated ns ns' ts ts' reps hreps hns hts =>
    have hlength := congrArg List.length hreps
    rw [List.length_map, List.length_map, hns] at hlength
    obtain ⟨hmembers, hseparators⟩ := forall₂_interleave (by simpa using hlength.symm) (by simpa using hts.symm) hkept
    rw [List.forall₂_map_left_iff, List.forall₂_map_right_iff] at hmembers hseparators
    have hts' : List.Forall₂ (fun t t' => t = t') ts ts' := hseparators.imp (fun _ _ h => h.token.symm)
    rw [List.forall₂_eq_eq_eq] at hts'
    rw [Child.each_eq_of_kept hreps hmembers, hts']

end Slot.Rebuilt

namespace Transformer

variable {ε σ : Type} {r : Transformer ε σ} {parent : NodeKind}

theorem asks_slot (index : Nat) (optional : Bool) (s : Slot) :
    r.Asks parent (r.walkSlot parent index optional s) (s.parts index optional) (fun as w =>
      s.Rebuilt optional as w.value ∧ (w.changed = false ↔ List.Forall₂ Child.KeptBy (s.parts index optional) as)) := by
  cases s with
  | absent => exact .pure ⟨.absent, by simp [Slot.parts]⟩
  | token t =>
    refine (asks_token t).bindPure (fun as t' ht' => ?_)
    obtain ⟨rfl, hkept⟩ := ht'
    exact ⟨.token t _, by simp [hkept, Slot.parts]⟩
  | node n =>
    rw [walkSlot, ← bind_assoc, Slot.parts, ← List.append_nil [Child.node n _]]
    refine (asks_single n index optional).bind (fun as o ho => ?_)
    have hroom : ∀ rep, Child.KeptBy (.node n (.ofSlot optional index)) (.node rep) ↔
        ∃ n', rep.nodes = [n'] ∧ n'.isSame n = true := fun rep => by cases optional <;> rfl
    obtain ⟨rep, rfl, ⟨rfl, hopt, rfl⟩ | ⟨n', hone, rfl⟩⟩ := ho
    · exact .pure ⟨.removed n hopt, by simp [hroom, Replacement.nodes]⟩
    · exact .pure ⟨.node n n' rep hone, by simp [hroom, hone]⟩
  | list ns =>
    refine (asks_list ns).bindPure (fun as w hw => ?_)
    obtain ⟨reps, rfl, hlength, hvalue, hsame⟩ := hw
    rw [hvalue]
    exact ⟨.list ns reps hlength, hsame⟩
  | separated ns ts =>
    refine (asks_separated index ns ts).bindPure (fun as w hw => ?_)
    obtain ⟨reps, rfl, hreps, hns, hts, hsame⟩ := hw
    exact ⟨.separated ns _ ts _ reps hreps hns hts, hsame⟩

theorem asks_slots : ∀ (slots : List Slot) (index : Nat),
    r.Asks parent (r.walkSlots parent index slots) (parent.partsFrom index slots) (fun as w =>
      parent.RowRebuilt index slots as w.value ∧
        (w.changed = false ↔ List.Forall₂ Child.KeptBy (parent.partsFrom index slots) as))
  | [], index => .pure ⟨.nil index, by simp [NodeKind.partsFrom]⟩
  | s :: slots, index => by
    rw [walkSlots, NodeKind.partsFrom]
    refine (asks_slot index _ s).bind (fun as s' hs' => ?_)
    obtain ⟨hslot, hkept⟩ := hs'
    refine (asks_slots slots (index + 1)).bindPure (fun bs w hw => ?_)
    obtain ⟨hrest, hsame⟩ := hw
    refine ⟨.cons hslot hrest, ?_⟩
    rw [forall₂_append_iff (hslot.length_eq index), ← hkept, ← hsame]
    simp

end Transformer

namespace NodeKind.RowRebuilt

variable {kind : NodeKind} {index : Nat} {slots slots' : List Slot} {as : List Answer}

theorem tokens_eq (h : kind.RowRebuilt index slots as slots') :
    slots'.flatMap Slot.tokens = as.flatMap Answer.tokens := by
  induction h with
  | nil => rfl
  | cons hslot _ ih => rw [List.flatMap_cons, List.flatMap_append, hslot.tokens_eq, ih]

theorem exists_of_mem_nodes {s : Slot} {c : Node} (h : kind.RowRebuilt index slots as slots') (hs : s ∈ slots')
    (hc : c ∈ s.nodes) : ∃ rep, .node rep ∈ as ∧ c ∈ rep.nodes := by
  induction h with
  | nil => cases hs
  | cons hslot _ ih =>
    rcases List.mem_cons.1 hs with rfl | hs
    · obtain ⟨rep, hrep, hc⟩ := hslot.exists_of_mem_nodes hc
      exact ⟨rep, List.mem_append_left _ hrep, hc⟩
    · obtain ⟨rep, hrep, hc⟩ := ih hs
      exact ⟨rep, List.mem_append_right _ hrep, hc⟩

theorem fits (h : kind.RowRebuilt index slots as slots') (hfits : Slot.FitAll (kind.shapes.drop index) slots) :
    Slot.FitAll (kind.shapes.drop index) slots' := by
  induction h with
  | nil => exact hfits
  | @cons index s s' slots slots' as bs hslot _ ih =>
    cases hshapes : kind.shapes.drop index with
    | nil => rw [hshapes] at hfits; cases hfits
    | cons shape shapes =>
      have hhere : kind.shapes[index]? = some shape := by
        have := congrArg List.head? hshapes
        rwa [List.head?_drop] at this
      have hbehind : kind.shapes.drop (index + 1) = shapes := by
        rw [← List.tail_drop, hshapes]
        rfl
      rw [hshapes] at hfits
      rw [hbehind] at ih
      cases hfits with
      | cons hslotFits hrestFits =>
        refine .cons (hslot.fits hslotFits (fun hopt => ?_)) (ih hrestFits)
        rwa [mayOmit, hhere] at hopt

theorem eq_of_kept (h : kind.RowRebuilt index slots as slots')
    (hkept : List.Forall₂ Child.KeptAs (kind.partsFrom index slots) as) : slots' = slots := by
  induction h with
  | nil => rfl
  | cons hslot _ ih =>
    rw [partsFrom, forall₂_append_iff (hslot.length_eq _)] at hkept
    rw [hslot.eq_of_kept hkept.1, ih hkept.2]

end NodeKind.RowRebuilt

/-! ## The walk of a node -/

namespace Transformer

variable {ε σ : Type} {r : Transformer ε σ} {n : Node} {s : Supplied σ}

theorem make_of_fits {kind : NodeKind} {slots : List Slot} (h : Slot.FitAll kind.shapes slots) (s : Supplied σ) :
    r.make kind slots s = .ok (.mk s.next kind slots) { s with next := s.next + 1 } := by
  have hmake : Node.make? kind slots s.next = (.ok (.mk s.next kind slots), s.next + 1) := by
    unfold Node.make?
    rw [NodeKind.checkSlots_of_fits h]
    rfl
  have hlift : (liftM (Node.make? kind slots) : Work ε σ (Except SlotError Node)) s =
      .ok (.ok (.mk s.next kind slots)) { s with next := s.next + 1 } := by
    show Work.lift (Node.make? kind slots) s = _
    rw [Work.lift, hmake]
  exact Work.bind_of_ok hlift

/-- **A walk asks about the parts of the node.**  The node stays if every part is kept; else it is built anew of slots
that are put together from the answers. -/
theorem walk_cases (h : n.matchesSchema = true) (s : Supplied σ) :
    (∃ answers s₁ slots, r.Answered n.kind n.parts s answers s₁ ∧ n.kind.RowRebuilt 0 n.slots answers slots ∧
      (List.Forall₂ Child.KeptBy n.parts answers ∧ r.walk n s = .ok n s₁ ∨
        ¬ List.Forall₂ Child.KeptBy n.parts answers ∧ Slot.FitAll n.kind.shapes slots ∧
          r.walk n s = .ok (.mk s₁.next n.kind slots) { s₁ with next := s₁.next + 1 })) ∨
    ∃ e s', r.Stopped n.kind n.parts s e s' ∧ r.walk n s = .error e s' := by
  rcases @asks_slots ε σ r n.kind n.slots 0 s with
    ⟨answers, s₁, w, has, hrun, hrow, hsame⟩ | ⟨e, s', hstop, hrun⟩
  · refine .inl ⟨answers, s₁, w.value, has, hrow, ?_⟩
    have hwalk : r.walk n s = (if w.changed then r.make n.kind w.value else pure n) s₁ := Work.bind_of_ok hrun
    cases hchanged : w.changed with
    | false =>
      rw [hwalk, hchanged, if_neg Bool.false_ne_true]
      exact .inl ⟨hsame.1 hchanged, rfl⟩
    | true =>
      have hfits : Slot.FitAll n.kind.shapes w.value := hrow.fits (Node.fitAll h)
      rw [hwalk, hchanged, if_pos rfl, make_of_fits hfits]
      exact .inr ⟨fun hkept => Bool.false_ne_true ((hsame.2 hkept).symm.trans hchanged), hfits, rfl⟩
  · exact .inr ⟨e, s', hstop, Work.bind_of_error hrun⟩

/-- **A walk puts the answers about the parts of a node together in document order**, whatever becomes of them, and a
part that looks like one that was given back is that one.  It succeeds exactly if every part is answered and every
answer fits; else it ends with the error of the first part of which this is not so, in the state that this part left. -/
theorem walk_exact (h : n.matchesSchema = true) (s : Supplied σ) :
    (∀ n' s', r.walk n s = .ok n' s' → ∃ answers s₁, r.Answered n.kind n.parts s answers s₁ ∧ s'.own = s₁.own ∧
      (List.Forall₂ Child.KnownIn n.parts answers → n'.tokens = answers.flatMap Answer.tokens)) ∧
    ((∃ n' s', r.walk n s = .ok n' s') ↔ ∃ answers s₁, r.Answered n.kind n.parts s answers s₁) ∧
    ∀ e s', r.walk n s = .error e s' ↔ r.Stopped n.kind n.parts s e s' := by
  rcases walk_cases (r := r) h s with ⟨answers, s₁, slots, has, hrow, hmade⟩ | ⟨e, s', hstop, hrun⟩
  · have hok : ∃ n' s', r.walk n s = .ok n' s' ∧ s'.own = s₁.own ∧
        (List.Forall₂ Child.KnownIn n.parts answers → n'.tokens = answers.flatMap Answer.tokens) := by
      rcases hmade with ⟨hkept, hrun⟩ | ⟨-, -, hrun⟩
      · refine ⟨n, s₁, hrun, rfl, fun hknown => ?_⟩
        have hslots : slots = n.slots := hrow.eq_of_kept (forall₂_and hkept hknown)
        rw [← hrow.tokens_eq, hslots, Node.tokens_eq]
      · exact ⟨_, _, hrun, rfl, fun _ => by rw [Node.tokens_mk, hrow.tokens_eq]⟩
    obtain ⟨n', s', hrun, hown, htokens⟩ := hok
    refine ⟨fun m s'' hm => ?_, ⟨fun _ => ⟨answers, s₁, has⟩, fun _ => ⟨n', s', hrun⟩⟩, fun e s'' => ?_⟩
    · rw [hrun] at hm
      cases hm
      exact ⟨answers, s₁, has, hown, htokens⟩
    · rw [hrun]
      exact ⟨fun herr => (nomatch herr), fun hstop => absurd has (hstop.unique.2 _ _)⟩
  · refine ⟨fun m s'' hm => ?_, ⟨?_, ?_⟩, fun e' s'' => ?_⟩
    · rw [hrun] at hm
      cases hm
    · rintro ⟨m, s'', hm⟩
      rw [hrun] at hm
      cases hm
    · rintro ⟨answers, s₁, has⟩
      exact absurd has (hstop.unique.2 _ _)
    · rw [hrun, EStateM.Result.error.injEq]
      constructor
      · rintro ⟨rfl, rfl⟩
        exact hstop
      · exact fun h' => hstop.unique.1 h'

/-- Takes all nodes away and counts the tokens that it is asked about. -/
def removingNodes : Transformer SlotError Nat where
  ofError := id
  token t := do
    Work.modifyOwn (· + 1)
    return t
  node _ := return .removed

/-- What stands between the parentheses cannot be taken away, and the second one is not asked about. -/
theorem walk_exact_parenthesized :
    (Node.mk 3 .parenthesizedExpression
      [.token ⟨0, .empty .identifier⟩, .node (.mk 2 .thisExpression [.token ⟨1, .empty .identifier⟩]),
        .token ⟨4, .empty .identifier⟩]).matchesSchema = true ∧
    removingNodes.walk (Node.mk 3 .parenthesizedExpression
      [.token ⟨0, .empty .identifier⟩, .node (.mk 2 .thisExpression [.token ⟨1, .empty .identifier⟩]),
        .token ⟨4, .empty .identifier⟩]) ⟨5, 0⟩ =
      .error (.requiredSlotRemoved .parenthesizedExpression 1) ⟨5, 1⟩ := by
  have h : (Node.mk 3 .parenthesizedExpression
      [.token ⟨0, .empty .identifier⟩, .node (.mk 2 .thisExpression [.token ⟨1, .empty .identifier⟩]),
        .token ⟨4, .empty .identifier⟩]).matchesSchema = true := rfl
  refine ⟨h, ((walk_exact h ⟨5, 0⟩).2.2 _ _).2 ⟨[.token _], .node _ (.exactlyOne 1), [.token _], [.token _], ⟨5, 1⟩, rfl,
    .cons rfl rfl (.nil _), .inr ⟨.node .removed, .requiredSlotRemoved .parenthesizedExpression 1, rfl, rfl, rfl⟩⟩⟩

end Transformer

end Downlevel
