import Downlevel.Grammar.Parts
import Downlevel.Proofs.Grammar.Reads
import Downlevel.Proofs.Lexer.Denotes
import Downlevel.Proofs.Outline.Gives
import Downlevel.Proofs.Tree.Tightness
/-!
# Proofs.Grammar.Yields — what comes of a reader of the grammar

`YieldsAt r p P` says that what `p` reads from the place `r` on, if it ends well, has the property `P` together with the
place behind it, and that the reader stands in front of a proper token then.  It is established once for each way of
putting readers together.  What is known of the nodes that are read is `Node.Formed`: their tokens are proper, they bind
as their places ask for, and what computes a value starts with a token that has characters.
-/
namespace Downlevel

/-! ## Nodes that are read -/

/-- What is known of each node of a tree that was read. -/
structure Node.Formed (n : Node) : Prop where
  proper : ∀ s ∈ n.slots, ∀ t ∈ s.ownTokens, t.lexeme.Proper
  bound : n.Bound
  opens : OpenForm n
  /-- An expression that is a statement does not start with `function`. -/
  starts : n.kind = .expressionStatement → ∀ t ∈ n.tokens.head?, t.kind ≠ .keyword .functionKw

/-- What a slot brings to a node that asks for a least tightness. -/
structure Slot.Bears (least : Nat) (s : Slot) : Prop where
  tokens : ∀ t ∈ s.ownTokens, t.lexeme.Proper
  nodes : ∀ m ∈ s.nodes, m.Every Node.Formed ∧ least ≤ m.tightness

/-- The node starts with a token that has characters, and with `function` only where the token of the given kind is. -/
def Node.StartsAt (k : TokenKind) (n : Node) : Prop := ∃ t ts, n.tokens = t :: ts ∧ t.text ≠ [] ∧
  (t.kind = .keyword .functionKw → k = .keyword .functionKw)

/-- What is known of an expression that was read from a token of a kind on. -/
structure Node.Value (k : TokenKind) (least : Nat) (n : Node) : Prop where
  formed : n.Every Node.Formed
  tight : least ≤ n.tightness
  starts : n.StartsAt k

namespace Slot

variable {s : Slot} {t : Token} {n : Node} {least : Nat} {ns : List Node} {ts : List Token}

theorem Bears.weaken (h : s.Bears least) {l : Nat} (hl : l ≤ least) : s.Bears l :=
  ⟨h.tokens, fun m hm => ⟨(h.nodes m hm).1, Nat.le_trans hl (h.nodes m hm).2⟩⟩

theorem bears_absent : Slot.absent.Bears 0 := ⟨fun _ h => (by cases h), fun _ h => by cases h⟩

theorem bears_token (h : t.lexeme.Proper) : (Slot.token t).Bears 0 :=
  ⟨fun u hu => (by rw [List.mem_singleton.1 hu]; exact h), fun _ h => by cases h⟩

theorem bears_ofToken? {o : Option Token} (h : ∀ t ∈ o, t.lexeme.Proper) : (Slot.ofToken? o).Bears 0 := by
  cases o with
  | none => exact bears_absent
  | some t => exact bears_token (h t rfl)

theorem bears_node (h : n.Every Node.Formed) (hl : least ≤ n.tightness) : (Slot.node n).Bears least :=
  ⟨fun _ h => (by cases h), fun m hm => by rw [List.mem_singleton.1 hm]; exact ⟨h, hl⟩⟩

theorem bears_list (h : ∀ n ∈ ns, n.Every Node.Formed) : (Slot.list ns).Bears 0 :=
  ⟨fun _ h => (by cases h), fun m hm => ⟨h m hm, Nat.zero_le _⟩⟩

end Slot

namespace Node

variable {n m : Node} {id : ObjectId} {kind : NodeKind} {slots : List Slot} {k : TokenKind} {least : Nat} {t : Token}
  {leasts : List Nat}

/-- Slots that bring what a kind asks for make a bound node of that kind. -/
theorem bound_of_bears (h : List.Forall₂ Slot.Bears leasts slots) (hb : kind ≠ .binaryExpression)
    (hmet : kind.isMet leasts = true) : (Node.mk id kind slots).Bound :=
  bound_mk (h.imp (fun _ _ hs m hm => (hs.nodes m hm).2)) hb hmet

/-- A node of slots that bring what they should. -/
theorem formed_mk (hslots : List.Forall₂ Slot.Bears leasts slots) (hbound : (Node.mk id kind slots).Bound)
    (hopens : OpenForm (.mk id kind slots))
    (hstarts : kind = .expressionStatement →
      ∀ t ∈ (Node.mk id kind slots).tokens.head?, t.kind ≠ .keyword .functionKw) :
    (Node.mk id kind slots).Every Node.Formed := by
  have hbears : ∀ s ∈ slots, s.Bears 0 := fun s hs => by
    obtain ⟨index, hlt, rfl⟩ := List.getElem_of_mem hs
    exact (hslots.get (hslots.length_eq ▸ hlt) hlt).weaken (Nat.zero_le _)
  exact Node.every_mk.2 ⟨⟨fun s hs => (hbears s hs).tokens, hbound, hopens, hstarts⟩,
    fun s hs m hm => ((hbears s hs).nodes m hm).1⟩

theorem startsAt_of_token (h : t.text ≠ []) (hf : t.kind = .keyword .functionKw → k = .keyword .functionKw) :
    (Node.mk id kind (.token t :: slots)).StartsAt k :=
  ⟨t, slots.flatMap Slot.tokens, by rw [Node.tokens_mk, List.flatMap_cons, Slot.tokens_token]; rfl, h, hf⟩

theorem startsAt_of_node (h : n.StartsAt k) : (Node.mk id kind (.node n :: slots)).StartsAt k := by
  obtain ⟨t, ts, htokens, ht, hf⟩ := h
  exact ⟨t, ts ++ slots.flatMap Slot.tokens, by
    rw [Node.tokens_mk, List.flatMap_cons, Slot.tokens_node, htokens, List.cons_append], ht, hf⟩

theorem StartsAt.opens (h : n.StartsAt k) : n.Opens :=
  let ⟨t, ts, htokens, ht, _⟩ := h
  ⟨t, ts, htokens, ht⟩

theorem Value.weaken (h : n.Value k least) {l : Nat} (hl : l ≤ least) : n.Value k l :=
  ⟨h.formed, Nat.le_trans hl h.tight, h.starts⟩

theorem Value.slot (h : n.Value k least) : (Slot.node n).Bears least := Slot.bears_node h.formed h.tight

/-- A form that computes a value, of slots that bring what it asks for. -/
theorem value_mk (hslots : List.Forall₂ Slot.Bears leasts slots) (hbound : (Node.mk id kind slots).Bound)
    (hstarts : (Node.mk id kind slots).StartsAt k) (hk : kind ≠ .expressionStatement) :
    (Node.mk id kind slots).Value k (Node.mk id kind slots).tightness :=
  ⟨formed_mk hslots hbound (fun _ => hstarts.opens) (fun h => absurd h hk), Nat.le_refl _, hstarts⟩

end Node

namespace Reading

variable {r r' : Reading}

theorem next_proper (h : r.next = .ok r') : r'.current.Proper := by
  rw [(current_ofScanned h).1]
  exact Lexer.scan_proper _ _

theorem ofText_proper {text : List Char} (h : ofText text = .ok r) : r.current.Proper := by
  rw [(current_ofScanned h).1]
  exact Lexer.scan_proper _ _

theorem asRegularExpression_proper (h : r.asRegularExpression = .ok r') :
    r'.current.Proper ∧ r'.kind = .regularExpression := by
  obtain ⟨hcurrent, hnone⟩ := current_ofScanned h
  unfold Reading.kind
  rw [hcurrent]
  exact ⟨Lexer.rescanSlash_proper hnone, rfl⟩

/-- A token that is neither the end of the file nor a semicolon has characters. -/
theorem text_ne_nil (hr : r.current.Proper) (hend : r.kind ≠ .endOfFile)
    (hsemicolon : r.kind ≠ .punctuation .semicolon) : r.current.text ≠ [] :=
  fun hnil => (hr.text hnil).elim hend hsemicolon

end Reading

/-! ## Readers -/

namespace Parser

variable {α β : Type} {r : Reading} {P : α → Reading → Prop} {Q : β → Reading → Prop} {p : Parser α}
  {f : α → Parser β}

/-- What is read from a place on has a property, with the place behind it, where a proper token stands. -/
def YieldsAt (r : Reading) (p : Parser α) (P : α → Reading → Prop) : Prop :=
  ∀ next a s', p ⟨next, r⟩ = .ok a s' → s'.own.current.Proper ∧ P a s'.own

/-- What is read from wherever a proper token stands has a property. -/
def Yields (p : Parser α) (P : α → Prop) : Prop := ∀ r : Reading, r.current.Proper → YieldsAt r p (fun a _ => P a)

namespace YieldsAt

theorem mono {P' : α → Reading → Prop} (h : YieldsAt r p P) (hP : ∀ a r', P a r' → P' a r') : YieldsAt r p P' :=
  fun next a s' hp => ⟨(h next a s' hp).1, hP a _ (h next a s' hp).2⟩

/-- **What two readers read is what the second reads behind the first.** -/
theorem bind (hp : YieldsAt r p P) (hf : ∀ a r', r'.current.Proper → P a r' → YieldsAt r' (f a) Q) :
    YieldsAt r (p >>= f) Q := by
  intro next b s' h
  obtain ⟨a, ⟨next₁, r₁⟩, h₁, h₂⟩ := Work.bind_eq_ok h
  obtain ⟨hproper, ha⟩ := hp next a _ h₁
  exact hf a r₁ hproper ha next₁ b s' h₂

/-- A look at the place moves over nothing. -/
theorem look {a : α} (hp : ∀ next, p ⟨next, r⟩ = .ok a ⟨next, r⟩) (h : YieldsAt r (f a) Q) : YieldsAt r (p >>= f) Q :=
  fun next b s' hs => h next b s' ((Work.bind_of_ok (hp next)).symm.trans hs)

theorem ite {c : Prop} [Decidable c] {q : Parser α} (hp : c → YieldsAt r p P) (hq : ¬c → YieldsAt r q P) :
    YieldsAt r (if c then p else q) P := by
  split
  · exact hp ‹_›
  · exact hq ‹_›

theorem pure {a : α} (hr : r.current.Proper) (h : P a r) : YieldsAt r (pure a) P := by
  intro next b s' hs
  cases hs
  exact ⟨hr, h⟩

theorem map {g : α → β} (h : YieldsAt r p P) (hg : ∀ a r', P a r' → Q (g a) r') : YieldsAt r (g <$> p) Q := by
  rw [map_eq_pure_bind]
  exact h.bind (fun a r' hr ha => .pure hr (hg a r' ha))

theorem fail {e : ParseError} : YieldsAt r (Work.fail e : Parser α) P := fun _ _ _ h => by cases h

theorem fault {f : ParseFault} : YieldsAt r (fault f : Parser α) P := .look (fun _ => rfl) .fail

theorem expected {what : Expectation} : YieldsAt r (expected what : Parser α) P := .look (fun _ => rfl) .fail

end YieldsAt

namespace Yields

variable {P : α → Prop} {Q : β → Prop}

theorem here (h : Yields p P) (hr : r.current.Proper) : YieldsAt r p (fun a _ => P a) := h r hr

theorem mono {P' : α → Prop} (h : Yields p P) (hP : ∀ a, P a → P' a) : Yields p P' :=
  fun r hr => (h r hr).mono (fun a _ => hP a)

theorem bind (hp : Yields p P) (hf : ∀ a, P a → Yields (f a) Q) : Yields (p >>= f) Q :=
  fun r hr => (hp r hr).bind (fun a r' hr' ha => hf a ha r' hr')

theorem pure {a : α} (h : P a) : Yields (pure a) P := fun _ hr => .pure hr h

theorem map {g : α → β} (h : Yields p P) (hg : ∀ a, P a → Q (g a)) : Yields (g <$> p) Q :=
  fun r hr => (h r hr).map (fun a _ => hg a)

theorem ite {c : Prop} [Decidable c] {q : Parser α} (hp : Yields p P) (hq : Yields q P) :
    Yields (if c then p else q) P := fun r hr => .ite (fun _ => hp r hr) (fun _ => hq r hr)

/-- A look at the place moves over nothing. -/
theorem look {g : Supplied Reading → α} (h : ∀ a, Yields (f a) Q) :
    Yields (((fun s => .ok (g s) s) : Parser α) >>= f) Q :=
  fun r hr next b s' hs => h (g ⟨next, r⟩) r hr next b s' hs

theorem fault {f : ParseFault} : Yields (fault f : Parser α) P := fun _ _ => .fault

theorem expected {what : Expectation} : Yields (expected what : Parser α) P := fun _ _ => .expected

/-- Objects are made. -/
theorem lift {make : Fresh α} (h : ∀ next, P (make next).1) : Yields (liftM make : Parser α) P := by
  intro r hr next a s' hs
  obtain ⟨rfl, rfl⟩ := Work.lift_eq_ok hs
  exact ⟨hr, h next⟩

end Yields

/-! ## Tokens -/

/-- **The token that is taken is the current one.** -/
theorem yieldsAt_take : YieldsAt r take (fun t _ => t.lexeme = r.current) := by
  intro next t s' h
  rw [take_eq] at h
  cases hnext : r.next with
  | error e => rw [hnext] at h; cases h
  | ok after =>
    rw [hnext] at h
    cases h
    exact ⟨Reading.next_proper hnext, rfl⟩

theorem yields_take : Yields take (fun t => t.lexeme.Proper) :=
  fun _ hr => yieldsAt_take.mono (fun _ _ ht => ht.symm.subst (motive := Lexeme.Proper) hr)

theorem yieldsAt_token (k : TokenKind) : YieldsAt r (token k) (fun t _ => t.lexeme = r.current) :=
  .look (a := r.kind == k) (fun _ => rfl) (.ite (fun _ => yieldsAt_take) (fun _ => .expected))

theorem yields_token (k : TokenKind) : Yields (token k) (fun t => t.lexeme.Proper) :=
  fun _ hr => (yieldsAt_token k).mono (fun _ _ ht => ht.symm.subst (motive := Lexeme.Proper) hr)

theorem yields_token? (k : TokenKind) : Yields (token? k) (fun o => ∀ t ∈ o, t.lexeme.Proper) :=
  .look (fun _ => .ite (yields_take.map (fun _ ht _ hu => Option.some.inj hu ▸ ht)) (.pure (fun _ h => by cases h)))

theorem yieldsAt_identifier : YieldsAt r identifier (fun t _ => t.lexeme = r.current) :=
  .look (a := r.kind == .identifier) (fun _ => rfl) (.ite (fun _ => yieldsAt_take) (fun _ => .expected))

theorem yields_identifier : Yields identifier (fun t => t.lexeme.Proper) :=
  fun _ hr => yieldsAt_identifier.mono (fun _ _ ht => ht.symm.subst (motive := Lexeme.Proper) hr)

/-- A word that is taken as a name is proper. -/
theorem yields_toName {t : Token} (h : t.lexeme.Proper) : Yields (liftM t.toName : Parser Token) (fun u => u.lexeme.Proper) := by
  refine .lift (fun next => ?_)
  unfold Token.toName
  split
  · rename_i hk
    unfold Token.kind at hk
    cases hkind : t.lexeme.kind with
    | keyword k => exact h.asName hkind
    | _ => rw [hkind] at hk; cases hk
  · exact h

theorem yields_memberName : Yields memberName (fun t => t.lexeme.Proper) :=
  .look (fun _ => .ite (yields_take.bind (fun _ ht => yields_toName ht)) .expected)

theorem yields_propertyName : Yields propertyName (fun t => t.lexeme.Proper) :=
  .look (fun _ => .ite (yields_take.bind (fun _ ht => yields_toName ht)) .expected)

theorem yields_emptySemicolon : Yields emptySemicolon (fun t => t.lexeme.Proper) :=
  .lift (fun _ => Lexeme.proper_emptySemicolon)

theorem yields_semicolon : Yields semicolon (fun t => t.lexeme.Proper) :=
  .look (fun _ => .ite yields_take (.ite yields_emptySemicolon .expected))

/-! ## Nesting and going back -/

/-- A level more or less is the same place. -/
theorem yieldsAt_enter (hr : r.current.Proper) : YieldsAt r enter (fun _ r' => r'.kind = r.kind) := by
  intro next a s' h
  obtain ⟨_, s₁, h₁, h₂⟩ := Work.bind_eq_ok h
  cases h₁
  have h₃ : ((if maxDepth < r.depth + 1 then Parser.fault .tooDeep else Pure.pure ()) : Parser Unit)
    ⟨next, { r with depth := r.depth + 1 }⟩ = .ok a s' := h₂
  split at h₃
  · cases h₃
  · cases h₃
    exact ⟨hr, rfl⟩

theorem YieldsAt.leaving {P : α → Prop} (h : YieldsAt r p (fun a _ => P a)) :
    YieldsAt r (leaving p) (fun a _ => P a) := by
  intro next a s' hp
  obtain ⟨s₁, hrun, rfl⟩ := Work.andThen_eq_ok hp
  exact h next a s₁ hrun

/-- What lies one level deeper is read from the same kind of token on. -/
theorem YieldsAt.nested {P : α → Prop} (hr : r.current.Proper)
    (h : ∀ r' : Reading, r'.current.Proper → r'.kind = r.kind → YieldsAt r' p (fun a _ => P a)) :
    YieldsAt r (nested p) (fun a _ => P a) :=
  (yieldsAt_enter hr).bind (fun _ r' hr' hk => (h r' hr' hk).leaving)

theorem Yields.nested {P : α → Prop} (h : Yields p P) : Yields (nested p) P :=
  fun _ hr => .nested hr (fun r' hr' _ => h r' hr')

/-- **What is tried and given up moves over nothing.** -/
theorem YieldsAt.attempt {P : α → Prop} (hr : r.current.Proper) (h : YieldsAt r p (fun a _ => P a))
    (accept : Reading → Bool) :
    YieldsAt r (attempt p accept) (fun o r' => (∀ a ∈ o, P a) ∧ (o = none → r'.kind = r.kind)) := by
  intro next o s' hp
  unfold Parser.attempt at hp
  cases hrun : p ⟨next, r⟩ with
  | error e s₁ =>
    rw [hrun] at hp
    cases hp
    exact ⟨hr, (fun _ ha => by cases ha), fun _ => rfl⟩
  | ok a s₁ =>
    rw [hrun] at hp
    dsimp only at hp
    split at hp
    · cases hp
      obtain ⟨hproper, ha⟩ := h next a _ hrun
      exact ⟨hproper, (fun b hb => by cases hb; exact ha), fun hnone => by cases hnone⟩
    · cases hp
      exact ⟨hr, (fun _ ha => by cases ha), fun _ => rfl⟩

/-! ## Slots -/

/-- The slot holds the token that is current at the place. -/
def Heads (r : Reading) (s : Slot) : Prop := ∃ t, s = .token t ∧ t.lexeme = r.current

/-- What is read is formed throughout. -/
abbrev YieldsNode (p : Parser Node) : Prop := Yields p (Node.Every Node.Formed)

/-- What is read is a slot that brings a least tightness. -/
abbrev YieldsSlot (least : Nat) (p : Part) : Prop := Yields p (Slot.Bears least)

/-- What is read starts with characters and binds at least so tightly. -/
abbrev YieldsValue (p : Parser Node) (least : Nat) : Prop :=
  ∀ r : Reading, r.current.Proper → YieldsAt r p (fun n _ => n.Value r.kind least)

variable {element : Parser Node} {least : Nat} {d : Descent} {n : Node}

theorem YieldsValue.node (h : YieldsValue element least) : YieldsNode element :=
  fun r hr => (h r hr).mono (fun _ _ hn => hn.formed)

/-- The current token, if it has characters. -/
def Opening (r : Reading) (p : Part) : Prop := YieldsAt r p (fun s _ => Heads r s ∧ r.current.text ≠ [])

theorem opening_current (hr : r.current.Proper) (hend : r.kind ≠ .endOfFile)
    (hsemicolon : r.kind ≠ .punctuation .semicolon) : Opening r current :=
  yieldsAt_take.map (fun t _ ht => ⟨⟨t, rfl, ht⟩, Reading.text_ne_nil hr hend hsemicolon⟩)

theorem opening_token (hr : r.current.Proper) {k : TokenKind} (hend : k ≠ .endOfFile)
    (hsemicolon : k ≠ .punctuation .semicolon) : Opening r (Slot.token <$> token k) := by
  refine YieldsAt.map (P := fun t _ => t.lexeme = r.current ∧ r.current.text ≠ [])
    (.look (a := r.kind == k) (fun _ => rfl)
      (.ite (fun hk => yieldsAt_take.mono (fun t _ ht => ⟨ht, ?_⟩)) (fun _ => .expected)))
    (fun t _ ht => ⟨⟨t, rfl, ht.1⟩, ht.2⟩)
  have hkind : r.kind = k := beq_iff_eq.1 hk
  exact Reading.text_ne_nil hr (hkind ▸ hend) (hkind ▸ hsemicolon)

theorem opening_word (hr : r.current.Proper) (k : Keyword) : Opening r (word k) :=
  opening_token hr (fun h => by cases h) (fun h => by cases h)

theorem opening_mark (hr : r.current.Proper) {p : Punctuation} (h : p ≠ .semicolon) :
    Opening r (mark p) := opening_token hr (fun h => by cases h) (fun hp => h (TokenKind.punctuation.inj hp))

theorem opening_name (hr : r.current.Proper) : Opening r name := by
  refine YieldsAt.map (P := fun t _ => t.lexeme = r.current ∧ r.current.text ≠ [])
    (.look (a := r.kind == .identifier) (fun _ => rfl)
      (.ite (fun hk => yieldsAt_take.mono (fun t _ ht => ⟨ht, ?_⟩)) (fun _ => .expected)))
    (fun t _ ht => ⟨⟨t, rfl, ht.1⟩, ht.2⟩)
  have hkind : r.kind = .identifier := beq_iff_eq.1 hk
  exact Reading.text_ne_nil hr (by rw [hkind]; decide) (by rw [hkind]; decide)

theorem yields_tokenSlot {p : Parser Token} (h : Yields p (fun t => t.lexeme.Proper)) :
    YieldsSlot 0 (Slot.token <$> p) := h.map (fun _ ht => Slot.bears_token ht)

theorem yields_word (k : Keyword) : YieldsSlot 0 (word k) := yields_tokenSlot (yields_token _)

theorem yields_mark (p : Punctuation) : YieldsSlot 0 (mark p) := yields_tokenSlot (yields_token _)

theorem yields_current : YieldsSlot 0 current := yields_tokenSlot yields_take

theorem yields_name : YieldsSlot 0 name := yields_tokenSlot yields_identifier

theorem yields_member : YieldsSlot 0 member := yields_tokenSlot yields_memberName

theorem yields_property : YieldsSlot 0 property := yields_tokenSlot yields_propertyName

theorem yields_statementEnd : YieldsSlot 0 statementEnd := yields_tokenSlot yields_semicolon

theorem yields_optional (kind : TokenKind) : YieldsSlot 0 (optional kind) :=
  (yields_token? kind).map (fun _ ho => Slot.bears_ofToken? ho)

theorem yields_inner (h : YieldsNode element) : YieldsSlot 0 (inner element) :=
  h.map (fun _ hn => Slot.bears_node hn (Nat.zero_le _))

/-- An expression in a slot is as tight as it was read. -/
theorem yields_operand (h : YieldsValue element least) : YieldsSlot least (inner element) :=
  fun r hr => (h r hr).map (fun _ _ hn => hn.slot)

theorem yields_nothing : YieldsSlot 0 nothing := .pure Slot.bears_absent

theorem yields_innerIf (test : Reading → Bool) (h : YieldsNode element) : YieldsSlot 0 (innerIf test element) :=
  .look (fun _ => .ite (yields_inner h) yields_nothing)

/-! ## Nodes -/

variable {kind : NodeKind} {before : List Slot} {ps : List Part} {front behind : List Nat}

/-- **The slots that parts read bring what the parts bring.** -/
theorem yields_parts (h : List.Forall₂ YieldsSlot behind ps) :
    Yields (parts ps) (fun slots => List.Forall₂ Slot.Bears behind slots) := by
  induction h with
  | nil => exact .pure .nil
  | cons hp _ ih => exact hp.bind (fun _ hs => ih.bind (fun _ hslots => .pure (.cons hs hslots)))

/-- The kind computes no value and is no statement that does. -/
def isInert (kind : NodeKind) (leasts : List Nat) : Bool :=
  !kind.isExpression && kind != .expressionStatement && kind.isMet leasts

theorem yields_fresh {slots : List Slot} (h : List.Forall₂ Slot.Bears behind slots)
    (hkind : isInert kind behind = true) : YieldsNode (liftM (Node.fresh kind slots) : Parser Node) := by
  obtain ⟨⟨he, hs⟩, hmet⟩ : (kind.isExpression = false ∧ kind ≠ .expressionStatement) ∧ kind.isMet behind = true := by
    simpa [isInert] using hkind
  exact .lift (fun _ => Node.formed_mk h (Node.bound_of_bears h (fun hb => by rw [hb] at he; cases he) hmet)
    (fun ht => by cases he.symm.trans ht) (fun hk => absurd hk hs))

/-- **A node that computes no value is read by reading its slots.** -/
theorem yields_nodeAfter (hbefore : List.Forall₂ Slot.Bears front before) (hrest : List.Forall₂ YieldsSlot behind ps)
    (hkind : isInert kind (front ++ behind) = true) : YieldsNode (nodeAfter kind before ps) :=
  (yields_parts hrest).bind (fun _ hslots => yields_fresh (List.rel_append hbefore hslots) hkind)

theorem yields_node (h : List.Forall₂ YieldsSlot behind ps) (hkind : isInert kind behind = true) :
    YieldsNode (node kind ps) := yields_nodeAfter .nil h hkind

/-- The kind is tight and is no statement. -/
def isForm (kind : NodeKind) (leasts : List Nat) (least : Nat) : Bool :=
  kind != .expressionStatement && kind.isTight leasts least

theorem value_of_isForm {leasts : List Nat} {k : TokenKind} {id : ObjectId} {slots : List Slot}
    (h : List.Forall₂ Slot.Bears leasts slots) (hstarts : (Node.mk id kind slots).StartsAt k)
    (hkind : isForm kind leasts least = true) : (Node.mk id kind slots).Value k least := by
  obtain ⟨hs, htight⟩ : kind ≠ .expressionStatement ∧ kind.isTight leasts least = true := by
    simpa [isForm] using hkind
  obtain ⟨hb, hmet, hl⟩ := NodeKind.isTight_iff.1 htight
  have htightness : (Node.mk id kind slots).tightness = kind.tightness := Node.tightness_of_kind rfl hb
  rw [← htightness] at hl
  exact (Node.value_mk h (Node.bound_of_bears h hb hmet) hstarts hs).weaken hl

/-- **What starts with the current token** starts with characters where that token has some. -/
theorem yieldsAt_headed {first : Part} (hr : r.current.Proper) (hfirst : Opening r first)
    (hrest : List.Forall₂ YieldsSlot behind ps) (hkind : isForm kind (0 :: behind) least = true) :
    YieldsAt r (node kind (first :: ps)) (fun n _ => n.Value r.kind least) := by
  have hslots : YieldsAt r (parts (first :: ps)) (fun slots _ => ∃ t rest, slots = .token t :: rest ∧
      t.lexeme = r.current ∧ r.current.text ≠ [] ∧ List.Forall₂ Slot.Bears behind rest) :=
    hfirst.bind (fun s r' hr' hs => ((yields_parts hrest) r' hr').bind (fun rest r₂ hr₂ hrest =>
      let ⟨⟨t, hs, ht⟩, htext⟩ := hs
      .pure hr₂ ⟨t, rest, hs ▸ rfl, ht, htext, hrest⟩))
  refine hslots.bind (fun slots r' hr' hslots => ?_)
  obtain ⟨t, rest, rfl, ht, htext, hrest⟩ := hslots
  have hall : List.Forall₂ Slot.Bears (0 :: behind) (.token t :: rest) := .cons (Slot.bears_token (ht ▸ hr)) hrest
  have hword : t.kind = r.kind := congrArg Lexeme.kind ht
  exact Yields.lift (fun next => value_of_isForm hall
    (Node.startsAt_of_token (show t.lexeme.text ≠ [] from ht ▸ htext) (fun hf => hword ▸ hf)) hkind) r' hr'

/-- A node whose first slots were read before starts as these do. -/
theorem yieldsAt_nodeAfter {k : TokenKind} (hr : r.current.Proper) (hbefore : List.Forall₂ Slot.Bears front before)
    (hrest : List.Forall₂ YieldsSlot behind ps) (hstarts : ∀ id slots, (Node.mk id kind (before ++ slots)).StartsAt k)
    (hkind : isForm kind (front ++ behind) least = true) :
    YieldsAt r (nodeAfter kind before ps) (fun m _ => m.Value k least) :=
  ((yields_parts hrest) r hr).bind (fun rest r' hr' hrest => Yields.lift (fun next =>
    value_of_isForm (List.rel_append hbefore hrest) (hstarts next rest) hkind) r' hr')

/-- **What starts with an expression** starts as that one does. -/
theorem yieldsAt_grown {k : TokenKind} {l : Nat} (hr : r.current.Proper) (hn : n.Value k l)
    (hrest : List.Forall₂ YieldsSlot behind ps) (hkind : isForm kind (l :: behind) least = true) :
    YieldsAt r (nodeAfter kind [.node n] ps) (fun m _ => m.Value k least) :=
  yieldsAt_nodeAfter hr (.cons hn.slot .nil) hrest (fun _ _ => Node.startsAt_of_node hn.starts) hkind

/-- What starts with an expression and has one more slot. -/
theorem yieldsAt_twoParts {p : Parser Node} {q : Part} {k : TokenKind} (hp : YieldsAt r p (fun n _ => n.Value k least))
    (hq : YieldsSlot 0 q) :
    YieldsAt r (parts [inner p, q]) (fun slots _ => ∃ m s, slots = [.node m, s] ∧ m.Value k least ∧ s.Bears 0) := by
  refine (hp.map (Q := fun s _ => ∃ m, s = .node m ∧ m.Value k least) (fun m _ hm => ⟨m, rfl, hm⟩)).bind
    (fun s r' hr' hs => ?_)
  obtain ⟨m, rfl, hm⟩ := hs
  refine ((yields_parts (.cons hq .nil)).here hr').bind (fun slots r₂ hr₂ hslots => .pure hr₂ ?_)
  obtain ⟨_, _, hs, hnil, rfl⟩ := List.forall₂_cons_left_iff.1 hslots
  cases hnil
  exact ⟨m, _, rfl, hm, hs⟩

/-! ## Lists -/

theorem yields_omitted : Yields omitted (fun n => n.Every Node.Formed ∧ n.tightness = tightest) :=
  .lift (fun _ => ⟨Node.formed_mk .nil (Node.bound_of_bears .nil (by decide) rfl) (fun h => by cases h) (fun h => by cases h),
    rfl⟩)

theorem yields_membersUntil (stop : Reading → Bool) (h : YieldsNode element) :
    ∀ turns, Yields (membersUntil stop element turns) (fun ns => ∀ n ∈ ns, n.Every Node.Formed)
  | 0 => .fault
  | turns + 1 => .look (fun _ => .ite (.pure (fun _ hn => by cases hn)) (h.bind (fun _ hn =>
      (yields_membersUntil stop h turns).bind (fun _ hns => .pure (List.forall_mem_cons.2 ⟨hn, hns⟩)))))

theorem yields_members (h : YieldsNode element) : YieldsSlot 0 (members d element) :=
  (yields_membersUntil _ h _).map (fun _ hns => Slot.bears_list hns)

/-- Members that are formed and bind tightly enough, and separators that are proper. -/
structure AreMembers (least : Nat) (list : List Node × List Token) : Prop where
  nodes : ∀ n ∈ list.1, n.Every Node.Formed ∧ least ≤ n.tightness
  tokens : ∀ t ∈ list.2, t.lexeme.Proper

namespace AreMembers

variable {list : List Node × List Token} {t : Token}

theorem nil : AreMembers least ([], []) := ⟨fun _ hn => (by cases hn), fun _ ht => by cases ht⟩

theorem one (h : n.Every Node.Formed ∧ least ≤ n.tightness) : AreMembers least ([n], []) :=
  ⟨fun m hm => List.mem_singleton.1 hm ▸ h, fun _ ht => by cases ht⟩

theorem cons (hn : n.Every Node.Formed ∧ least ≤ n.tightness) (ht : t.lexeme.Proper) (h : AreMembers least list) :
    AreMembers least (separatedCons n t list) :=
  ⟨List.forall_mem_cons.2 ⟨hn, h.nodes⟩, List.forall_mem_cons.2 ⟨ht, h.tokens⟩⟩

theorem slot (h : AreMembers least list) : (Slot.separated list.1 list.2).Bears least := ⟨h.tokens, h.nodes⟩

end AreMembers

theorem yields_behindMember {n : Node} {more : Parser (List Node × List Token)} (hn : n.Every Node.Formed)
    (h : Yields more (AreMembers 0)) : Yields (behindMember n more) (AreMembers 0) := by
  refine (yields_token? _).bind (fun o ho => ?_)
  cases o with
  | none => exact .pure (.one ⟨hn, Nat.zero_le _⟩)
  | some t => exact h.map (fun _ hlist => .cons ⟨hn, Nat.zero_le _⟩ (ho t rfl) hlist)

theorem yields_commaListUpTo (h : YieldsNode element) : ∀ turns, Yields (commaListUpTo element turns) (AreMembers 0)
  | 0 => .fault
  | turns + 1 => h.bind (fun _ hn => yields_behindMember hn (yields_commaListUpTo h turns))

theorem yields_commaList (h : YieldsNode element) : YieldsSlot 0 (commaList d element) :=
  (yields_commaListUpTo h _).map (fun _ hlist => hlist.slot)

theorem yields_delimitedUpTo (close : Punctuation) (trailing : Bool)
    (h : Yields element (fun n => n.Every Node.Formed ∧ least ≤ n.tightness)) (hl : least ≤ tightest) :
    ∀ turns, Yields (delimitedUpTo close trailing element turns) (AreMembers least)
  | 0 => .fault
  | turns + 1 => h.bind (fun _ hn => (yields_token? _).bind (fun o ho => by
      cases o with
      | none => exact .pure (.one hn)
      | some t =>
        refine .look (fun _ => .ite (.ite ?_ .expected) ?_)
        · exact yields_omitted.bind (fun m hm => .pure (.cons hn (ho t rfl) (.one ⟨hm.1, hm.2 ▸ hl⟩)))
        · exact (yields_delimitedUpTo close trailing h hl turns).map (fun _ hlist => .cons hn (ho t rfl) hlist)))

/-- Members up to a closing mark bind as tightly as each of them was read. -/
theorem yields_delimited (close : Punctuation) (trailing : Bool)
    (h : Yields element (fun n => n.Every Node.Formed ∧ least ≤ n.tightness)) (hl : least ≤ tightest) :
    YieldsSlot least (delimited d close trailing element) :=
  .look (fun _ => .ite (.pure AreMembers.nil.slot)
    ((yields_delimitedUpTo close trailing h hl _).map (fun _ hlist => hlist.slot)))

theorem Yields.loose (h : YieldsNode element) : Yields element (fun n => n.Every Node.Formed ∧ 0 ≤ n.tightness) :=
  h.mono (fun _ hn => ⟨hn, Nat.zero_le _⟩)

/-! ## Growth -/

/-- **What grows to the left keeps what each step keeps**, up to where no step can extend it. -/
theorem yieldsAt_growUpTo {I J : Node → Reading → Prop} {step : Node → Parser (Option Node)}
    (hstep : ∀ n r, r.current.Proper → I n r →
      YieldsAt r (step n) (fun o r' => match o with | some m => I m r' | none => J n r')) :
    ∀ turns {n : Node} {r : Reading}, r.current.Proper → I n r → YieldsAt r (growUpTo step turns n) J
  | 0, _, _, _, _ => .fault
  | turns + 1, n, r, hr, hn => (hstep n r hr hn).bind (fun o r' hr' ho => by
      cases o with
      | none => exact .pure hr' ho
      | some m => exact yieldsAt_growUpTo hstep turns hr' ho)

/-- A step that extends what was read so far, or leaves it as it is. -/
theorem yieldsAt_larger {P : Node → Prop} {p : Parser Node} (h : YieldsAt r p (fun m _ => P m)) :
    YieldsAt r (some <$> p) (fun o _ => match o with | some m => P m | none => P n) := h.map (fun _ _ hm => hm)

theorem yieldsAt_noLarger {P : Node → Prop} (hr : r.current.Proper) (hn : P n) :
    YieldsAt r (return none) (fun o _ => match o with | some m => P m | none => P n) := .pure hr hn

/-- What is read and then grows keeps a property that each step keeps. -/
theorem yieldsAt_grow {P : Node → Prop} {step : Node → Parser (Option Node)} (hr : r.current.Proper) (hn : P n)
    (hstep : ∀ n r, r.current.Proper → P n →
      YieldsAt r (step n) (fun o _ => match o with | some m => P m | none => P n)) :
    YieldsAt r (grow d step n) (fun m _ => P m) :=
  yieldsAt_growUpTo (I := fun n _ => P n) (J := fun n _ => P n) hstep _ hr hn

end Parser

end Downlevel
