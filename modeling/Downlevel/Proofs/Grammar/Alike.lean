import Downlevel.Grammar.Parts
import Downlevel.Proofs.Outline.Basic
import Downlevel.Proofs.Tree.Runs
/-!
# Proofs.Grammar.Alike — reading two texts that differ by layout

Two places resemble each other if their current tokens have the same kind, characters and value and both or neither
start a line.  They are alike (`Reading.Alike k`) if that goes on for the places ahead, fewer than `k` tokens of which
are left.  `Mirrors` says that two readers, started at places that are alike, fail with the same fault or both end well;
then what they read has one outline and the places behind are alike.  The readers may be given different numbers of
turns as long as there are more turns than tokens, so how many there are does not show (`Stays.membersUntil`, …).
-/
namespace Downlevel

/-! ## Places -/

namespace Reading

/-- The places differ by layout only, as far as the current token goes. -/
structure Resembles (r r' : Reading) : Prop where
  kind : r.kind = r'.kind
  text : r.current.text = r'.current.text
  value : r.current.value = r'.current.value
  startsLine : r.startsLine = r'.startsLine

/-- Both lead to places that compare, or both fail with the same fault. -/
inductive Both (R : Reading → Reading → Prop) : Except ParseError Reading → Except ParseError Reading → Prop
  | ok {r r' : Reading} (h : R r r') : Both R (.ok r) (.ok r')
  | error {e e' : ParseError} (h : e.fault = e'.fault) : Both R (.error e) (.error e')

/-- The current token may be cut anew. -/
def AtSlash (k : TokenKind) : Prop := k = .punctuation .slash ∨ k = .punctuation .slashEquals

/-- **The places differ by layout only**, as far as can be read from them, which is fewer than `k` tokens. -/
def Alike : Nat → Reading → Reading → Prop
  | 0, _, _ => False
  | k + 1, r, r' => r.Resembles r' ∧ (r.kind ≠ .endOfFile → Both (Alike k) r.next r'.next) ∧
      (AtSlash r.kind → Both (fun q q' => q.Resembles q' ∧ q.kind = .regularExpression ∧ Both (Alike k) q.next q'.next)
        r.asRegularExpression r'.asRegularExpression)

variable {k j : Nat} {r r' : Reading}

theorem Both.mono {R Q : Reading → Reading → Prop} {x x' : Except ParseError Reading} (h : Both R x x')
    (hR : ∀ q q', R q q' → Q q q') : Both Q x x' := by
  cases h with
  | ok h => exact .ok (hR _ _ h)
  | error h => exact .error h

namespace Alike

theorem resembles (h : Alike k r r') : r.Resembles r' := by
  cases k with
  | zero => exact h.elim
  | succ k => exact h.1

theorem up (h : Alike k r r') (hj : k ≤ j) : Alike j r r' := by
  induction k generalizing j r r' with
  | zero => exact h.elim
  | succ k ih =>
    cases j with
    | zero => exact absurd hj (Nat.not_succ_le_zero k)
    | succ j =>
      have hle : k ≤ j := Nat.le_of_succ_le_succ hj
      refine ⟨h.1, fun hk => (h.2.1 hk).mono (fun _ _ hq => ih hq hle), fun hs => (h.2.2 hs).mono (fun q q' hq => ?_)⟩
      exact ⟨hq.1, hq.2.1, hq.2.2.mono (fun _ _ hq => ih hq hle)⟩

/-- A place that cuts the current token anew is alike again. -/
theorem asRegularExpression (h : Alike (k + 1) r r') (hs : AtSlash r.kind) :
    Both (fun q q' => Alike (k + 1) q q' ∧ q.kind = .regularExpression) r.asRegularExpression
      r'.asRegularExpression :=
  (h.2.2 hs).mono (fun q q' hq => ⟨⟨hq.1, fun _ => hq.2.2, fun hslash => by
    rw [hq.2.1] at hslash
    rcases hslash with hslash | hslash <;> cases hslash⟩, hq.2.1⟩)

end Alike

/-- The place with another count of levels. -/
def atDepth (r : Reading) (depth : Nat) : Reading := { r with depth := depth }

theorem ofScanned_atDepth (here : List Char) (start : Nat) (scanned : Lexer.Scanned) (ends : Bool) (depth d : Nat) :
    ofScanned here start scanned ends d = (ofScanned here start scanned ends depth).map (·.atDepth d) := by
  unfold ofScanned
  cases scanned.diagnostic <;> rfl

theorem next_atDepth (d : Nat) : (r.atDepth d).next = r.next.map (·.atDepth d) := ofScanned_atDepth ..

theorem asRegularExpression_atDepth (d : Nat) :
    (r.atDepth d).asRegularExpression = r.asRegularExpression.map (·.atDepth d) := ofScanned_atDepth ..

theorem Both.atDepth {R : Reading → Reading → Prop} {x x' : Except ParseError Reading} {d d' : Nat} (h : Both R x x')
    {Q : Reading → Reading → Prop} (hQ : ∀ q q', R q q' → Q (q.atDepth d) (q'.atDepth d')) :
    Both Q (x.map (·.atDepth d)) (x'.map (·.atDepth d')) := by
  cases h with
  | ok h => exact .ok (hQ _ _ h)
  | error h => exact .error h

/-- How many levels were entered is no part of what is ahead. -/
theorem Alike.atDepth (h : Alike k r r') (d d' : Nat) : Alike k (r.atDepth d) (r'.atDepth d') := by
  induction k generalizing r r' with
  | zero => exact h.elim
  | succ k ih =>
    refine ⟨⟨h.1.kind, h.1.text, h.1.value, h.1.startsLine⟩, fun hk => ?_, fun hs => ?_⟩
    · rw [next_atDepth, next_atDepth]
      exact (h.2.1 hk).atDepth (fun _ _ hq => ih hq)
    · rw [asRegularExpression_atDepth, asRegularExpression_atDepth]
      refine (h.2.2 hs).atDepth (fun q q' hq => ?_)
      refine ⟨⟨hq.1.kind, hq.1.text, hq.1.value, hq.1.startsLine⟩, hq.2.1, ?_⟩
      rw [next_atDepth, next_atDepth]
      exact hq.2.2.atDepth (fun _ _ hq => ih hq)

/-! ### Tests of places -/

/-- A test that places which resemble each other both pass or both fail. -/
def Blind (test : Reading → Bool) : Prop := ∀ r r' : Reading, r.Resembles r' → test r = test r'

theorem blind_kind (f : TokenKind → Bool) : Blind (fun r => f r.kind) := fun _ _ h => congrArg f h.kind

theorem blind_isWord (word : String) : Blind (fun r => r.isWord word) := fun r r' h => by
  show r.isWord word = r'.isWord word
  unfold isWord
  rw [h.kind, h.text]

theorem blind_startsLine : Blind startsLine := fun _ _ h => h.startsLine

theorem blind_mayEndStatement : Blind mayEndStatement := fun _ _ h => by
  unfold mayEndStatement
  rw [h.kind, h.startsLine]

theorem blind_isPropertyName : Blind isPropertyName := fun _ _ h => by
  unfold isPropertyName
  rw [h.kind]

theorem Blind.not {test : Reading → Bool} (h : Blind test) : Blind (fun r => !test r) :=
  fun r r' hr => congrArg Bool.not (h r r' hr)

theorem Blind.and {test test' : Reading → Bool} (h : Blind test) (h' : Blind test') :
    Blind (fun r => test r && test' r) := fun r r' hr => congrArg₂ Bool.and (h r r' hr) (h' r r' hr)

theorem Blind.or {test test' : Reading → Bool} (h : Blind test) (h' : Blind test') :
    Blind (fun r => test r || test' r) := fun r r' hr => congrArg₂ Bool.or (h r r' hr) (h' r r' hr)

/-- The token behind the current one is tested alike. -/
theorem Alike.nextHas {test : Reading → Bool} (h : Alike k r r') (hk : r.kind ≠ .endOfFile) (ht : Blind test) :
    r.nextHas test = r'.nextHas test := by
  cases k with
  | zero => exact h.elim
  | succ k =>
    unfold Reading.nextHas
    have hnext := h.2.1 hk
    generalize r.next = x at hnext
    generalize r'.next = x' at hnext
    cases hnext with
    | ok hq => exact ht _ _ hq.resembles
    | error => rfl

theorem Alike.nextIs (h : Alike k r r') (hk : r.kind ≠ .endOfFile) (kind : TokenKind) :
    r.nextIs kind = r'.nextIs kind := h.nextHas hk (blind_kind (· == kind))

end Reading

/-! ## Readers -/

namespace Parser

open Reading

variable {α β γ δ : Type} {k : Nat}

/-- How two readers end that mirror each other. -/
inductive Outcomes (Post : α → β → Reading → Reading → Prop) :
    EStateM.Result ParseError (Supplied Reading) α → EStateM.Result ParseError (Supplied Reading) β → Prop
  | ok {a : α} {b : β} {s s' : Supplied Reading} (depth : s.own.depth = s'.own.depth) (h : Post a b s.own s'.own) :
      Outcomes Post (.ok a s) (.ok b s')
  | error {e e' : ParseError} {s s' : Supplied Reading} (depth : s.own.depth = s'.own.depth)
      (h : e.fault = e'.fault) : Outcomes Post (.error e s) (.error e' s')

/-- **The readers mirror each other**, from places that are alike and in front of such a token. -/
def Mirrors (P : TokenKind → Prop) (k : Nat) (Post : α → β → Reading → Reading → Prop) (p : Parser α)
    (p' : Parser β) : Prop :=
  ∀ s s', s.own.depth = s'.own.depth → Alike k s.own s'.own → P s.own.kind → Outcomes Post (p s) (p' s')

abbrev Anywhere : TokenKind → Prop := fun _ => True

/-- What was read looks the same, and the places are alike. -/
def Read (f : α → γ) (k : Nat) : α → α → Reading → Reading → Prop := fun a b r r' => f a = f b ∧ Alike k r r'

/-- The readers mirror each other and consume a token at least; `k` bounds the tokens left behind it. -/
abbrev Steps (P : TokenKind → Prop) (k : Nat) (f : α → γ) (p p' : Parser α) : Prop := Mirrors P (k + 1) (Read f k) p p'

/-- The readers mirror each other, and may consume nothing. -/
abbrev Stays (k : Nat) (f : α → γ) (p p' : Parser α) : Prop := Mirrors Anywhere k (Read f k) p p'

/-- Something was read and a token consumed, or nothing at all. -/
inductive Grown (f : α → γ) (k : Nat) : Option α → Option α → Reading → Reading → Prop
  | none {r r' : Reading} (h : Alike (k + 1) r r') : Grown f k none none r r'
  | some {a b : α} {r r' : Reading} (hab : f a = f b) (h : Alike k r r') : Grown f k (some a) (some b) r r'

/-- The readers mirror each other and consume a token if they read something. -/
abbrev Grows (P : TokenKind → Prop) (k : Nat) (f : α → γ) (p p' : Parser (Option α)) : Prop :=
  Mirrors P (k + 1) (Grown f k) p p'

namespace Mirrors

variable {P P' : TokenKind → Prop} {Post : α → β → Reading → Reading → Prop}
  {Post' : γ → δ → Reading → Reading → Prop} {p : Parser α} {p' : Parser β}

theorem mono (h : Mirrors P k Post p p') {Q : α → β → Reading → Reading → Prop}
    (hQ : ∀ a b r r', Post a b r r' → Q a b r r') : Mirrors P k Q p p' := by
  intro s s' hdepth hs hP
  have hout := h s s' hdepth hs hP
  generalize p s = x at hout
  generalize p' s' = x' at hout
  cases hout with
  | ok hd hab => exact .ok hd (hQ _ _ _ _ hab)
  | error hd he => exact .error hd he

theorem before (h : Mirrors P k Post p p') (hP : ∀ κ, P' κ → P κ) : Mirrors P' k Post p p' :=
  fun s s' hdepth hs hP' => h s s' hdepth hs (hP _ hP')

theorem pure {a : α} {b : β} (h : ∀ r r', Alike k r r' → P r.kind → Post a b r r') :
    Mirrors P k Post (pure a) (pure b) := fun _ _ hdepth hs hP => .ok hdepth (h _ _ hs hP)

/-- **Two steps mirror two steps.** -/
theorem bind {j : Nat} {R : α → β → Prop} {f : α → Parser γ} {f' : β → Parser δ}
    (h : Mirrors P k (fun a b r r' => R a b ∧ Alike j r r') p p')
    (hf : ∀ a b, R a b → Mirrors Anywhere j Post' (f a) (f' b)) : Mirrors P k Post' (p >>= f) (p' >>= f') := by
  intro s s' hdepth hs hP
  have hout := h s s' hdepth hs hP
  generalize hx : p s = x at hout
  generalize hx' : p' s' = x' at hout
  cases hout with
  | ok hd hab =>
    rw [Work.bind_of_ok hx, Work.bind_of_ok hx']
    exact hf _ _ hab.1 _ _ hd hab.2 trivial
  | error hd he =>
    rw [Work.bind_of_error hx, Work.bind_of_error hx']
    exact .error hd he

/-- A first step that may have read nothing. -/
theorem bindGrown {f : α → γ} {p p' : Parser (Option α)} {g g' : Option α → Parser δ}
    {Post' : δ → δ → Reading → Reading → Prop} (h : Grows P k f p p')
    (hnone : Mirrors Anywhere (k + 1) Post' (g none) (g' none))
    (hsome : ∀ a b, f a = f b → Mirrors Anywhere k Post' (g (some a)) (g' (some b))) :
    Mirrors P (k + 1) Post' (p >>= g) (p' >>= g') := by
  intro s s' hdepth hs hP
  have hout := h s s' hdepth hs hP
  generalize hx : p s = x at hout
  generalize hx' : p' s' = x' at hout
  cases hout with
  | ok hd hab =>
    rw [Work.bind_of_ok hx, Work.bind_of_ok hx']
    cases hab with
    | none hr => exact hnone _ _ hd hr trivial
    | some hab hr => exact hsome _ _ hab _ _ hd hr trivial
  | error hd he =>
    rw [Work.bind_of_error hx, Work.bind_of_error hx']
    exact .error hd he

theorem ite {c c' : Prop} [Decidable c] [Decidable c'] {q : Parser α} {q' : Parser β} (hc : c ↔ c')
    (hp : c → Mirrors P k Post p p') (hq : ¬c → Mirrors P k Post q q') :
    Mirrors P k Post (if c then p else q) (if c' then p' else q') := by
  by_cases h : c
  · rw [if_pos h, if_pos (hc.1 h)]
    exact hp h
  · rw [if_neg h, if_neg (fun h' => h (hc.2 h'))]
    exact hq h

/-- What looks at the place. -/
theorem look {f : Reading → Parser α} {f' : Reading → Parser β}
    (h : ∀ r r', Alike k r r' → P r.kind → Mirrors (· = r.kind) k Post (f r) (f' r')) :
    Mirrors P k Post (here >>= f) (here >>= f') := fun s s' hdepth hs hP =>
  h s.own s'.own hs hP s s' hdepth hs rfl

theorem lookKind {f : TokenKind → Parser α} {f' : TokenKind → Parser β}
    (h : ∀ κ, P κ → Mirrors (· = κ) k Post (f κ) (f' κ)) :
    Mirrors P k Post (kind >>= f) (kind >>= f') := by
  show Mirrors P k Post (here >>= fun r => f r.kind) (here >>= fun r => f' r.kind)
  refine look (fun r r' hr hP => ?_)
  rw [← hr.resembles.kind]
  exact h _ hP

/-- What asks for the kind of the current token. -/
theorem ifSees (κ : TokenKind) {q : Parser α} {q' : Parser β} (hp : Mirrors (· = κ) k Post p p')
    (hq : Mirrors P k Post q q') :
    Mirrors P k Post (sees κ >>= fun b => if b = true then p else q) (sees κ >>= fun b => if b = true then p' else q') := by
  show Mirrors P k Post (here >>= fun r => if (r.kind == κ) = true then p else q)
    (here >>= fun r => if (r.kind == κ) = true then p' else q')
  refine look (fun r r' hr hP => ?_)
  rw [← hr.resembles.kind]
  exact ite Iff.rfl (fun hκ => hp.before (fun _ h => h.trans (eq_of_beq hκ))) (fun _ => hq.before (fun _ h => h ▸ hP))

end Mirrors

end Parser

end Downlevel
