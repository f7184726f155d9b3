import Downlevel.Proofs.Tree.Answers
import Downlevel.Tree.Equality
/-!
# Proofs.Tree.TokenPasses — passes that change tokens only

A pass reads the tokens of a tree in document order, carries a state along, and puts new objects in the place of some
tokens (`TokenPass`).  Over a whole tree it never fails, the tokens of the outcome are those of the tree read one by one,
and a node is the object that it was exactly if all of its tokens are (`Node.transformTokens_runs`).
-/
namespace Downlevel

/-- What a pass does at one token: the content of the new object that it makes, if it makes one, and the state that it
goes on with. -/
structure TokenPass (σ : Type) where
  content? : σ → Token → Option Lexeme
  behind : σ → Token → σ

namespace TokenPass

variable {σ : Type} {p : TokenPass σ}

/-- From a state on, tokens stay or are replaced by new objects; what is made for nodes in between raises the next
number only. -/
inductive Runs (p : TokenPass σ) : Supplied σ → List Token → List Token → Supplied σ → Prop
  | done (own : σ) {i k : ObjectId} (next : i ≤ k) : Runs p ⟨i, own⟩ [] [] ⟨k, own⟩
  | kept {t : Token} {ts us : List Token} {own : σ} {i : ObjectId} {s' : Supplied σ} (same : p.content? own t = none)
    (rest : Runs p ⟨i, p.behind own t⟩ ts us s') : Runs p ⟨i, own⟩ (t :: ts) (t :: us) s'
  | made {t u : Token} {ts us : List Token} {own : σ} {i : ObjectId} {s' : Supplied σ}
    (content : p.content? own t = some u.lexeme) (fresh : i ≤ u.id)
    (rest : Runs p ⟨u.id + 1, p.behind own t⟩ ts us s') : Runs p ⟨i, own⟩ (t :: ts) (u :: us) s'

/-- The pass may leave `u` where `t` stood. -/
def Gives (p : TokenPass σ) (t u : Token) : Prop := u = t ∨ ∃ own, p.content? own t = some u.lexeme

/-- Whatever the pass puts in the place of a token agrees with it. -/
def Respects (p : TokenPass σ) (how : Comparison) : Prop := ∀ t u, p.Gives t u → u.agrees how t = true

/-- From a state on, the pass makes nothing of the tokens. -/
def Leaves (p : TokenPass σ) : σ → List Token → Prop
  | _, [] => True
  | own, t :: ts => p.content? own t = none ∧ p.Leaves (p.behind own t) ts

/-- A transformation of tokens does what the pass says. -/
def IsDoneBy (p : TokenPass σ) (token : Token → Work SlotError σ Token) : Prop :=
  ∀ t s, ∃ u s', token t s = .ok u s' ∧ p.Runs s [t] [u] s'

namespace Runs

variable {s s₁ s' : Supplied σ} {ts us vs ws : List Token} {t u : Token} {i k b : ObjectId}

theorem earlier (h : p.Runs s ts us s') (hi : i ≤ s.next) : p.Runs ⟨i, s.own⟩ ts us s' := by
  induction h generalizing i with
  | done own next => exact .done own (Nat.le_trans hi next)
  | kept same _ ih => exact .kept same (ih hi)
  | made content fresh rest => exact .made content (Nat.le_trans hi fresh) rest

theorem append (h : p.Runs s ts us s₁) (h' : p.Runs s₁ vs ws s') : p.Runs s (ts ++ vs) (us ++ ws) s' := by
  induction h with
  | done own next => exact h'.earlier next
  | kept same _ ih => exact .kept same (ih h')
  | made content fresh _ ih => exact .made content fresh (ih h')

theorem later (h : p.Runs s ts us s') (hk : s'.next ≤ k) : p.Runs s ts us ⟨k, s'.own⟩ := by
  have hend : p.Runs s' [] [] ⟨k, s'.own⟩ := .done s'.own hk
  have happ := h.append hend
  rwa [List.append_nil, List.append_nil] at happ

theorem next_le (h : p.Runs s ts us s') : s.next ≤ s'.next := by
  induction h with
  | done _ next => exact next
  | kept _ _ ih => exact ih
  | made _ fresh _ ih => exact Nat.le_trans (Nat.le_succ_of_le fresh) ih

/-- The tokens that come out stand for those that went in, one by one. -/
theorem gives (h : p.Runs s ts us s') : List.Forall₂ p.Gives ts us := by
  induction h with
  | done => exact .nil
  | kept _ _ ih => exact .cons (.inl rfl) ih
  | made content _ _ ih => exact .cons (.inr ⟨_, content⟩) ih

theorem length_eq (h : p.Runs s ts us s') : ts.length = us.length := h.gives.length_eq

/-- A token is an object that it was, or one that is new. -/
theorem known (h : p.Runs s [t] [u] s') (ht : t.id < s.next) (hid : u.id = t.id) : u = t := by
  cases h with
  | kept => rfl
  | made _ fresh => exact absurd ht (Nat.not_lt.2 (hid ▸ fresh))

/-- Every token that comes out is older than the next number. -/
theorem id_lt (h : p.Runs s ts us s') (hts : ∀ t ∈ ts, t.id < s.next) : ∀ u ∈ us, u.id < s'.next := by
  induction h with
  | done => exact fun _ hu => absurd hu List.not_mem_nil
  | kept _ rest ih =>
    refine List.forall_mem_cons.2 ⟨Nat.lt_of_lt_of_le (hts _ List.mem_cons_self) rest.next_le, ih (fun t ht => ?_)⟩
    exact hts t (List.mem_cons_of_mem _ ht)
  | made _ fresh rest ih =>
    refine List.forall_mem_cons.2 ⟨rest.next_le, ih (fun t ht => Nat.lt_succ_of_lt ?_)⟩
    exact Nat.lt_of_lt_of_le (hts t (List.mem_cons_of_mem _ ht)) fresh

/-- **The tokens are the objects that they were exactly if the pass makes nothing of them.** -/
theorem eq_iff (h : p.Runs s ts us s') (hts : ∀ t ∈ ts, t.id < s.next) : us = ts ↔ p.Leaves s.own ts := by
  induction h with
  | done => exact ⟨fun _ => trivial, fun _ => rfl⟩
  | kept same _ ih =>
    have hrest := ih (fun t ht => hts t (List.mem_cons_of_mem _ ht))
    rw [List.cons.injEq, hrest]
    exact ⟨fun h => ⟨same, h.2⟩, fun h => ⟨rfl, h.2⟩⟩
  | @made t u _ _ _ _ _ content fresh _ _ =>
    have hlow : t.id < u.id := Nat.lt_of_lt_of_le (hts t List.mem_cons_self) fresh
    refine ⟨fun heq => ?_, fun hleaves => ?_⟩
    · rw [(List.cons.inj heq).1] at hlow
      exact absurd hlow (Nat.lt_irrefl _)
    · rw [hleaves.1] at content
      cases content

end Runs

end TokenPass

/-! ## Trees that were read by a pass -/

theorem exists_of_mem_forall₂ {α β : Type} {R : α → β → Prop} {as : List α} {bs : List β} {b : β}
    (h : List.Forall₂ R as bs) (hb : b ∈ bs) : ∃ a, R a b := by
  induction h with
  | nil => cases hb
  | cons hhere _ ih =>
    rcases List.mem_cons.1 hb with rfl | hb
    · exact ⟨_, hhere⟩
    · exact ih hb

/-- Tokens that agree down to the widths of their trivia are as wide. -/
theorem Token.width_texts_of_agree {how : Comparison} (hoffsets : how.offsets = true) {ts us : List Token}
    (h : List.Forall₂ (fun t u => u.agrees how t = true) ts us) : Text.width (texts us) = Text.width (texts ts) := by
  induction h with
  | nil => rfl
  | @cons t u ts us hhere _ ih =>
    have htext : Text.width u.fullText = Text.width t.fullText := by
      simp only [agrees, hoffsets, Bool.and_eq_true, Bool.or_eq_true, beq_iff_eq, Bool.not_true,
        Bool.false_eq_true, false_or] at hhere
      obtain ⟨⟨⟨-, htext⟩, hlead, htrail⟩, -⟩ := hhere
      have hwidth : ∀ v : Token, Text.width v.fullText = v.leading.fullWidth + Text.width v.text + v.trailing.fullWidth :=
        fun v => v.lexeme.fullWidth_eq.symm
      rw [hwidth, hwidth, htext, hlead, htrail]
    rw [texts, texts, List.flatMap_cons, List.flatMap_cons, Text.width_append, Text.width_append, htext]
    exact congrArg _ ih

/-- Every object of the tree is older than `k`. -/
structure Node.OlderThan (k : ObjectId) (n : Node) : Prop where
  nodes : n.Every (fun m => m.id < k)
  tokens : ∀ t ∈ n.tokens, t.id < k

theorem Node.OlderThan.mono {k k' : ObjectId} {n : Node} (h : n.OlderThan k) (hk : k ≤ k') : n.OlderThan k' :=
  ⟨Node.Every.mono h.nodes (fun _ hm => Nat.lt_of_lt_of_le hm hk), fun t ht => Nat.lt_of_lt_of_le (h.tokens t ht) hk⟩

theorem Node.OlderThan.below {k : ObjectId} {n m : Node} (h : n.OlderThan k) (hm : m ∈ n.all) : m.OlderThan k :=
  ⟨h.nodes.below hm, (Node.every_tokens m).2 (((Node.every_tokens n).1 h.tokens).below hm)⟩

theorem Node.OlderThan.child {k : ObjectId} {n c : Node} (h : n.OlderThan k) (hc : c ∈ n.children) :
    c.OlderThan k := by
  obtain ⟨s, hs, hcs⟩ := List.mem_flatMap.1 hc
  exact ⟨h.nodes.child hc, fun t ht => h.tokens t (Node.mem_tokens.2 ⟨s, hs, Slot.mem_tokens.2 (.inr ⟨c, hcs, ht⟩)⟩)⟩

theorem Node.Sound.olderThan {F : Node → Prop} {L : Demand} {k : ObjectId} {n : Node} (h : n.Sound F L k) :
    n.OlderThan k :=
  ⟨Node.Every.mono h (fun _ hm => hm.id_lt), fun t ht => (h.tokens t ht).id_lt⟩

variable {σ : Type} {p : TokenPass σ}

/-- The tree is the one that a pass read if its tokens are; else it has the same structure. -/
structure Node.PassedAs (p : TokenPass σ) (k : ObjectId) (n u : Node) : Prop where
  agrees : ∀ how, p.Respects how → u.agrees how n = true
  tokens : List.Forall₂ p.Gives n.tokens u.tokens
  kept : u.tokens = n.tokens → u = n
  same : u.id = n.id → u = n
  schematic : u.Schematic
  older : u.Every (fun m => m.id < k)

theorem Node.PassedAs.refl {k : ObjectId} {n : Node} (h : n.Schematic) (hold : n.Every (fun m => m.id < k)) :
    n.PassedAs p k n where
  agrees how _ := by
    cases n
    simp [Node.agrees]
  tokens := List.forall₂_same.2 (fun _ _ => .inl rfl)
  kept _ := rfl
  same _ := rfl
  schematic := h
  older := hold

theorem Node.PassedAs.length {k : ObjectId} {n u : Node} (h : n.PassedAs p k u) : n.tokens.length = u.tokens.length :=
  h.tokens.length_eq

namespace Child

/-- The answer is what the pass leaves where the part stood. -/
def PassedAs (p : TokenPass σ) (k : ObjectId) : Child → Answer → Prop
  | token t, .token u => p.Gives t u ∧ (u.id = t.id → u = t)
  | node n _, .node rep => ∃ u, rep = .one u ∧ n.PassedAs p k u
  | _, _ => False

variable {k : ObjectId} {c : Child} {a : Answer} {cs : List Child} {as : List Answer}

theorem PassedAs.mono {k' : ObjectId} (h : c.PassedAs p k a) (hk : k ≤ k') : c.PassedAs p k' a := by
  cases c <;> cases a
  · exact h
  · exact h.elim
  · exact h.elim
  · obtain ⟨u, rfl, hu⟩ := h
    exact ⟨u, rfl, { hu with older := hu.older.mono (fun _ hm => Nat.lt_of_lt_of_le hm hk) }⟩

theorem PassedAs.length (h : c.PassedAs p k a) : c.tokens.length = a.tokens.length := by
  cases c <;> cases a
  · rfl
  · exact h.elim
  · exact h.elim
  · obtain ⟨u, rfl, hu⟩ := h
    simpa [tokens, Answer.tokens, Replacement.nodes] using hu.length

theorem PassedAs.taken (h : c.PassedAs p k a) (parent : NodeKind) : c.refusal? parent a = none := by
  cases c with
  | token t => cases a <;> rfl
  | node n room =>
    cases a with
    | token t => rfl
    | node rep =>
      obtain ⟨u, rfl, -⟩ := h
      cases room <;> rfl

theorem PassedAs.knownIn (h : c.PassedAs p k a) : c.KnownIn a := by
  cases c <;> cases a
  · exact h.2
  · exact h.elim
  · exact h.elim
  · obtain ⟨u, rfl, hu⟩ := h
    intro m hm hid
    rw [List.mem_singleton.1 hm] at hid ⊢
    exact hu.same hid

/-- The nodes of an answer are schematic and older than `k`. -/
theorem PassedAs.nodes {rep : Replacement} (h : c.PassedAs p k (.node rep)) :
    ∀ m ∈ rep.nodes, m.Schematic ∧ m.Every (fun m => m.id < k) := by
  cases c with
  | token t => exact h.elim
  | node n room =>
    obtain ⟨u, rfl, hu⟩ := h
    intro m hm
    rw [List.mem_singleton.1 hm]
    exact ⟨hu.schematic, hu.older⟩

theorem PassedAs.keptBy (h : c.PassedAs p k a) (htokens : a.tokens = c.tokens) : c.KeptBy a := by
  cases c with
  | token t =>
    cases a with
    | token u =>
      rw [List.singleton_inj.1 htokens]
      exact beq_self_eq_true _
    | node rep => exact h.elim
  | node n room =>
    cases a with
    | token u => exact h.elim
    | node rep =>
      obtain ⟨u, rfl, hu⟩ := h
      have hun : u = n := hu.kept (by simpa [tokens, Answer.tokens, Replacement.nodes] using htokens)
      rw [hun]
      cases room <;> exact ⟨n, rfl, beq_self_eq_true _⟩

/-- If the tokens of all answers are those of the parts, every part is kept. -/
theorem all_keptBy (h : List.Forall₂ (PassedAs p k) cs as)
    (htokens : as.flatMap Answer.tokens = cs.flatMap tokens) : List.Forall₂ KeptBy cs as := by
  induction h with
  | nil => exact .nil
  | cons hhere _ ih =>
    rw [List.flatMap_cons, List.flatMap_cons] at htokens
    obtain ⟨hc, hcs⟩ := List.append_inj htokens hhere.length.symm
    exact .cons (hhere.keptBy hc) (ih hcs)

/-- What the pass leaves of the members of a list. -/
theorem passed_members {room : Room} {ns : List Node} {reps : List Replacement}
    (h : List.Forall₂ (fun n rep => Child.PassedAs p k (.node n room) (.node rep)) ns reps) :
    List.Forall₂ (Node.PassedAs p k) ns (reps.flatMap Replacement.nodes) := by
  induction h with
  | nil => exact .nil
  | cons hhere _ ih =>
    obtain ⟨u, rfl, hu⟩ := hhere
    exact .cons hu ih

end Child

/-! ## The structure stays -/

section Structure

variable {how : Comparison} {k : ObjectId}

theorem Node.listAgrees_of_passed (hp : p.Respects how) {ns us : List Node} (h : List.Forall₂ (Node.PassedAs p k) ns us) :
    Node.listAgrees how us ns = true := by
  induction h with
  | nil => rfl
  | cons hhere _ ih => rw [Node.listAgrees, hhere.agrees how hp, ih, Bool.and_self]

theorem Token.allAgree_of_gives (hp : p.Respects how) {ts us : List Token} (h : List.Forall₂ p.Gives ts us) :
    Token.allAgree how us ts = true := by
  induction h with
  | nil => rfl
  | cons hhere _ ih => rw [Token.allAgree, hp _ _ hhere, ih, Bool.and_self]

/-- **A slot that was rebuilt of what a pass left agrees with the one that was there.** -/
theorem Slot.Rebuilt.agrees (hp : p.Respects how) {optional : Bool} {index : Nat} {s s' : Slot} {as : List Answer}
    (h : s.Rebuilt optional as s') (hpassed : List.Forall₂ (Child.PassedAs p k) (s.parts index optional) as) :
    Slot.agrees how s' s = true := by
  cases h with
  | absent => rfl
  | token t t' =>
    rw [parts, List.forall₂_cons] at hpassed
    exact hp _ _ hpassed.1.1
  | node n n' rep hone =>
    rw [parts, List.forall₂_cons] at hpassed
    obtain ⟨⟨u, rfl, hu⟩, -⟩ := hpassed
    cases hone
    exact hu.agrees how hp
  | removed n =>
    rw [parts, List.forall₂_cons] at hpassed
    obtain ⟨⟨u, hu, -⟩, -⟩ := hpassed
    cases hu
  | list ns reps =>
    rw [parts, List.forall₂_map_left_iff, List.forall₂_map_right_iff] at hpassed
    exact Node.listAgrees_of_passed hp (Child.passed_members hpassed)
  | separated ns ns' ts ts' reps hreps hns hts =>
    have hlength := congrArg List.length hreps
    rw [List.length_map, List.length_map, hns] at hlength
    obtain ⟨hmembers, hseparators⟩ := forall₂_interleave (by simpa using hlength.symm) (by simpa using hts.symm) hpassed
    rw [List.forall₂_map_left_iff, List.forall₂_map_right_iff] at hmembers hseparators
    have hns' : reps.flatMap Replacement.nodes = ns' := by
      rw [List.flatMap_def, hreps, flatten_map_singleton]
    have hnodes := Child.passed_members hmembers
    rw [hns'] at hnodes
    rw [Slot.agrees, Node.listAgrees_of_passed hp hnodes,
      Token.allAgree_of_gives hp (hseparators.imp (fun _ _ h => h.1)), Bool.and_self]

/-- A row of slots that was rebuilt of what a pass left agrees with the one that was there. -/
theorem NodeKind.RowRebuilt.allAgree (hp : p.Respects how) {kind : NodeKind} {index : Nat} {slots slots' : List Slot}
    {as : List Answer} (h : kind.RowRebuilt index slots as slots')
    (hpassed : List.Forall₂ (Child.PassedAs p k) (kind.partsFrom index slots) as) :
    Slot.allAgree how slots' slots = true := by
  induction h with
  | nil => rfl
  | cons hslot _ ih =>
    rw [partsFrom, forall₂_append_iff (hslot.length_eq _)] at hpassed
    rw [Slot.allAgree, hslot.agrees hp hpassed.1, ih hpassed.2, Bool.and_self]

/-- A node that was built of rows that agree, over tokens that agree, agrees. -/
theorem Node.agrees_of_slots (hp : p.Respects how) {id : ObjectId} {n : Node} {slots : List Slot}
    (hslots : Slot.allAgree how slots n.slots = true)
    (htokens : List.Forall₂ p.Gives n.tokens (slots.flatMap Slot.tokens)) :
    (Node.mk id n.kind slots).agrees how n = true := by
  have hwidth : (!how.offsets || Slot.allFullWidth slots == Slot.allFullWidth n.slots) = true := by
    cases hoffsets : how.offsets with
    | false => rfl
    | true =>
      have hw := Token.width_texts_of_agree hoffsets (htokens.imp hp)
      rw [Slot.allFullWidth_eq, Slot.allFullWidth_eq, hw, Node.tokens_eq]
      exact beq_self_eq_true _
  obtain ⟨i, kind, row⟩ := n
  rw [Node.agrees]
  simp only [Node.kind, Node.slots] at hslots hwidth ⊢
  rw [hslots, hwidth, beq_self_eq_true, Bool.and_self, Bool.and_self, Bool.or_true]

end Structure

/-! ## The pass -/

/-- The transformer carries out a pass over the tokens of the nodes that may be met. -/
structure Transformer.CarriesOut (r : Transformer SlotError σ) (p : TokenPass σ) (b : ObjectId) (P : Node → Prop) :
    Prop where
  token : p.IsDoneBy r.token
  node : ∀ {n s}, P n → b ≤ s.next →
    ∃ u s', r.node n s = .ok (.one u) s' ∧ p.Runs s n.tokens u.tokens s' ∧ n.PassedAs p s'.next u

namespace Transformer.CarriesOut

variable {r : Transformer SlotError σ} {b : ObjectId} {P : Node → Prop} {s : Supplied σ}

/-- The part is a token that is old enough, or a node that may be met. -/
def Fine (b : ObjectId) (P : Node → Prop) : Child → Prop
  | .token t => t.id < b
  | .node n _ => P n

theorem ask (h : r.CarriesOut p b P) {c : Child} (hc : Fine b P c) (hs : b ≤ s.next) :
    ∃ a s', r.ask c s = .ok a s' ∧ p.Runs s c.tokens a.tokens s' ∧ c.PassedAs p s'.next a := by
  cases c with
  | token t =>
    obtain ⟨u, s', hrun, hruns⟩ := h.token t s
    refine ⟨.token u, s', Work.bind_of_ok hrun, hruns, ?_, hruns.known (Nat.lt_of_lt_of_le hc hs)⟩
    obtain ⟨hgives, -⟩ := List.forall₂_cons.1 hruns.gives
    exact hgives
  | node n room =>
    obtain ⟨u, s', hrun, hruns, hpassed⟩ := h.node hc hs
    refine ⟨.node (.one u), s', Work.bind_of_ok hrun, ?_, u, rfl, hpassed⟩
    simpa [Child.tokens, Answer.tokens, Replacement.nodes] using hruns

/-- **All parts are answered**, each by what the pass leaves of it. -/
theorem answered (h : r.CarriesOut p b P) (parent : NodeKind) : ∀ {cs : List Child} {s : Supplied σ},
    (∀ c ∈ cs, Fine b P c) → b ≤ s.next → ∃ as s', r.Answered parent cs s as s' ∧
      p.Runs s (cs.flatMap Child.tokens) (as.flatMap Answer.tokens) s' ∧ List.Forall₂ (Child.PassedAs p s'.next) cs as
  | [], s, _, _ => ⟨[], s, .nil s, .done _ (Nat.le_refl _), .nil⟩
  | c :: cs, s, hcs, hs => by
    obtain ⟨a, s₁, hask, hruns, hpassed⟩ := h.ask (hcs c List.mem_cons_self) hs
    obtain ⟨as, s', has, hruns', hpassed'⟩ :=
      answered h parent (fun q hq => hcs q (List.mem_cons_of_mem _ hq)) (Nat.le_trans hs hruns.next_le)
    refine ⟨a :: as, s', .cons hask (hpassed.taken parent) has, hruns.append hruns', .cons (hpassed.mono ?_) hpassed'⟩
    exact hruns'.next_le

/-- **A node whose parts may be met is walked** to what the pass leaves of it. -/
theorem walk (h : r.CarriesOut p b P) {n : Node} (hn : n.Schematic) (hold : n.OlderThan b)
    (hchildren : ∀ c ∈ n.children, P c) (hs : b ≤ s.next) :
    ∃ u s', r.walk n s = .ok u s' ∧ p.Runs s n.tokens u.tokens s' ∧ n.PassedAs p s'.next u := by
  have hfine : ∀ c ∈ n.parts, Fine b P c := by
    intro c hc
    rcases Node.mem_parts hc with ⟨slot, hslot, t, ht, rfl⟩ | ⟨m, hm, room, rfl⟩
    · exact hold.tokens t (Node.mem_tokens.2 ⟨slot, hslot, Slot.mem_tokens.2 (.inl ht)⟩)
    · exact hchildren m hm
  obtain ⟨answers, s₁, has, hruns, hpassed⟩ := h.answered n.kind hfine hs
  have hnext : b ≤ s₁.next := Nat.le_trans hs hruns.next_le
  rcases walk_cases (r := r) hn.self s with ⟨answers', s₂, slots, has', hrow, hmade⟩ | ⟨e, s', hstop, -⟩
  · obtain ⟨rfl, rfl⟩ := has.unique has'
    have hslots : slots.flatMap Slot.tokens = answers.flatMap Answer.tokens := hrow.tokens_eq
    rw [Node.tokens_parts, ← hslots] at hruns
    -- If every part was kept the node is the one that was there; else it is new, and its tokens are not what they
    -- were.
    rcases hmade with ⟨hkept, hrun⟩ | ⟨hchanged, hfits, hrun⟩
    · have hsame : slots = n.slots := hrow.eq_of_kept (forall₂_and hkept (hpassed.imp (fun _ _ h => h.knownIn)))
      rw [hsame, ← Node.tokens_eq] at hruns
      exact ⟨n, s₁, hrun, hruns, .refl hn (hold.nodes.mono (fun _ hm => Nat.lt_of_lt_of_le hm hnext))⟩
    · have hmade : (Node.mk s₁.next n.kind slots).tokens = slots.flatMap Slot.tokens := Node.tokens_mk ..
      have hbelow : ∀ slot ∈ slots, ∀ c ∈ slot.nodes, c.Schematic ∧ c.Every (fun m => m.id < s₁.next) := by
        intro slot hslot c hc
        obtain ⟨rep, hrep, hc⟩ := hrow.exists_of_mem_nodes hslot hc
        obtain ⟨q, hq⟩ := exists_of_mem_forall₂ hpassed hrep
        exact hq.nodes c hc
      refine ⟨_, _, hrun, by rw [hmade]; exact hruns.later (Nat.le_succ _), ⟨fun how hp => ?_, ?_, fun htokens => ?_,
        fun hid => ?_, ?_, ?_⟩⟩
      · exact Node.agrees_of_slots hp (hrow.allAgree hp hpassed) hruns.gives
      · rw [hmade]
        exact hruns.gives
      · rw [hmade, hslots, ← Node.tokens_parts] at htokens
        exact absurd (Child.all_keptBy hpassed htokens) hchanged
      · have hid' : s₁.next = n.id := hid
        have hlow : n.id < b := hold.nodes.self
        exact absurd hid' (Nat.ne_of_gt (Nat.lt_of_lt_of_le hlow hnext))
      · exact Node.schematic_mk.2 ⟨hfits, fun slot hslot c hc => (hbelow slot hslot c hc).1⟩
      · refine Node.every_mk.2 ⟨Nat.lt_succ_self _, fun slot hslot c hc => (hbelow slot hslot c hc).2.mono ?_⟩
        exact fun _ hm => Nat.lt_succ_of_lt hm
  · exact absurd has (hstop.unique.2 _ _)

end Transformer.CarriesOut

/-- What a pass goes over: trees that fit the schema, with old objects only, that are not too high. -/
structure Node.Passable (b : ObjectId) (levels : Nat) (n : Node) : Prop where
  schematic : n.Schematic
  older : n.OlderThan b
  height : n.height ≤ levels

theorem Node.Passable.child {b : ObjectId} {levels : Nat} {n c : Node} (h : n.Passable b (levels + 1))
    (hc : c ∈ n.children) : c.Passable b levels := by
  have hlow := Node.height_lt_of_mem_children hc
  have hheight := h.height
  exact ⟨h.schematic.child hc, h.older.child hc, by omega⟩

/-- **A transformation of tokens that does what a pass says makes that pass**, however deep the tree. -/
theorem carriesOut_descend {token : Token → Work SlotError σ Token} (hp : p.IsDoneBy token) {b : ObjectId} : ∀ levels,
    (Transformer.ofRuleUpTo (fun e => e) token NodeRule.descend levels).CarriesOut p b (Node.Passable b levels)
  | 0 => ⟨hp, fun {n _} h _ => absurd h.height (Nat.not_le.2 (by cases n; exact Nat.succ_pos _))⟩
  | levels + 1 => by
    refine ⟨hp, fun {n s} h hs => ?_⟩
    obtain ⟨u, s', hwalk, hruns, hpassed⟩ :=
      (carriesOut_descend hp levels).walk h.schematic h.older (fun c hc => h.child hc) hs
    exact ⟨u, s', Work.bind_of_ok hwalk, hruns, hpassed⟩

/-- **A pass over a whole tree does not fail**: it reads the tokens of the tree one by one, and leaves a tree of the same
structure. -/
theorem Node.transformTokens_runs {token : Token → Work SlotError σ Token} (hp : p.IsDoneBy token) {n : Node}
    {k : ObjectId} (own : σ) (h : n.Schematic) (hold : n.OlderThan k) :
    ∃ u s', n.transformTokens token ⟨k, own⟩ = .ok u s' ∧ p.Runs ⟨k, own⟩ n.tokens u.tokens s' ∧
      n.PassedAs p s'.next u := by
  obtain ⟨u, s', hrun, hruns, hpassed⟩ :=
    (carriesOut_descend hp n.height).node (s := ⟨k, own⟩) ⟨h, hold, Nat.le_refl _⟩ (Nat.le_refl k)
  exact ⟨u, s', Work.bind_of_ok hrun, hruns, hpassed⟩

end Downlevel
