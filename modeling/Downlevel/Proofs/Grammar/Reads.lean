import Downlevel.Grammar.Parts
import Downlevel.Proofs.Lexer.Breaks
import Downlevel.Proofs.Lexer.Canonical
import Downlevel.Proofs.Tree.Runs
import Downlevel.Proofs.Tree.Sorts
/-!
# Proofs.Grammar.Reads — what a reader of the grammar does to its text

A reader that succeeds has moved over some tokens and made nodes of them (`Advance`): the full texts of the tokens are
what was ahead and is not ahead any more, so are their line breaks, and each object is one of its own that did not exist
before.  `Reads p P` says that `p` makes objects `ts` and returns an `a` with `P a ts`; it is established once for each
way of putting readers together, so a rule of the grammar is read off its parts.  Going back, in `attempt`, forgets the
tokens but never their numbers.
-/
namespace Downlevel

/-! ## Moving over tokens -/

/-- The current token and the text behind it are the text ahead, the token is as it is cut off a text, nothing is behind
the end of the file, and only that has no characters. -/
structure Reading.Whole (r : Reading) : Prop where
  text : r.here = r.current.fullText ++ r.rest
  lineBreaks : Text.lineBreaks r.here = r.current.lineBreaks ++ Text.lineBreaks r.rest
  rest_eq_nil : r.kind = .endOfFile → r.rest = []
  text_ne_nil : r.kind ≠ .endOfFile → r.current.text ≠ []
  proper : r.current.Proper

/-- An object that was made: a token that was moved over, or a node, of which the number is kept. -/
inductive Made where
  | token (t : Token)
  | node (id : ObjectId)

namespace Made

def id : Made → ObjectId
  | token t => t.id
  | node id => id

def token? : Made → Option Token
  | token t => some t
  | node _ => none

/-- The tokens among objects. -/
def tokens (ts : List Made) : List Token := ts.filterMap token?

@[simp] theorem tokens_nil : tokens [] = [] := rfl

@[simp] theorem tokens_token (t : Token) (ts : List Made) : tokens (token t :: ts) = t :: tokens ts := rfl

@[simp] theorem tokens_node (id : ObjectId) (ts : List Made) : tokens (node id :: ts) = tokens ts := rfl

@[simp] theorem tokens_append (ts us : List Made) : tokens (ts ++ us) = tokens ts ++ tokens us := List.filterMap_append

theorem mem_tokens {t : Token} {ts : List Made} : t ∈ tokens ts ↔ token t ∈ ts := by
  unfold tokens
  rw [List.mem_filterMap]
  constructor
  · rintro ⟨x, hx, h⟩
    cases x with
    | token u => cases h; exact hx
    | node id => cases h
  · exact fun h => ⟨token t, h, rfl⟩

end Made

/-- From one place to another a reader has moved over the tokens among these objects, all of which it made on the way. -/
structure Advance (s s' : Supplied Reading) (ts : List Made) : Prop where
  whole : s'.own.Whole
  text : s.own.here = Token.texts (Made.tokens ts) ++ s'.own.here
  lineBreaks : Text.lineBreaks s.own.here
    = (Made.tokens ts).flatMap Token.lineBreaks ++ Text.lineBreaks s'.own.here
  next_le : s.next ≤ s'.next
  made : ∀ t ∈ ts, s.next ≤ t.id ∧ t.id < s'.next
  distinct : (ts.map Made.id).Nodup

namespace Advance

variable {s s' s'' : Supplied Reading} {ts us : List Made}

/-- A move over no token, which may have used up numbers and changed the count of nesting. -/
theorem still (h : s.own.Whole) (next_le : s.next ≤ s'.next) (here : s'.own.here = s.own.here)
    (current : s'.own.current = s.own.current) (rest : s'.own.rest = s.own.rest) : Advance s s' [] where
  whole := ⟨by rw [here, current, rest]; exact h.text, by rw [here, current, rest]; exact h.lineBreaks,
    fun hk => by rw [rest]; exact h.rest_eq_nil (by rw [Reading.kind, ← current]; exact hk),
    fun hk => by rw [current]; exact h.text_ne_nil (by rw [Reading.kind, ← current]; exact hk),
    by rw [current]; exact h.proper⟩
  text := by rw [here]; rfl
  lineBreaks := by rw [here]; rfl
  next_le := next_le
  made := fun t ht => by cases ht
  distinct := List.nodup_nil

/-- A node is made on the spot. -/
theorem node (h : s.own.Whole) : Advance s { s with next := s.next + 1 } [.node s.next] where
  whole := h
  text := rfl
  lineBreaks := rfl
  next_le := Nat.le_succ _
  made := fun t ht => by rw [List.mem_singleton.1 ht]; exact ⟨Nat.le_refl _, Nat.lt_succ_self _⟩
  distinct := by simp

theorem refl (h : s.own.Whole) : Advance s s [] := still h (Nat.le_refl _) rfl rfl rfl

/-- **Moves add up**, and the objects of both are distinct because the later ones have later numbers. -/
theorem trans (h : Advance s s' ts) (h' : Advance s' s'' us) : Advance s s'' (ts ++ us) where
  whole := h'.whole
  text := by rw [h.text, h'.text, Made.tokens_append, Token.texts_append, List.append_assoc]
  lineBreaks := by rw [h.lineBreaks, h'.lineBreaks, Made.tokens_append, List.flatMap_append, List.append_assoc]
  next_le := Nat.le_trans h.next_le h'.next_le
  made := fun t ht => by
    rcases List.mem_append.1 ht with ht | ht
    · exact ⟨(h.made t ht).1, Nat.lt_of_lt_of_le (h.made t ht).2 h'.next_le⟩
    · exact ⟨Nat.le_trans h.next_le (h'.made t ht).1, (h'.made t ht).2⟩
  distinct := by
    rw [List.map_append, List.nodup_append]
    refine ⟨h.distinct, h'.distinct, fun i hi j hj hij => ?_⟩
    obtain ⟨t, ht, rfl⟩ := List.mem_map.1 hi
    obtain ⟨u, hu, rfl⟩ := List.mem_map.1 hj
    exact absurd hij (Nat.ne_of_lt (Nat.lt_of_lt_of_le (h.made t ht).2 (h'.made u hu).1))

end Advance

/-! ## Cutting the next token -/

namespace Reading

variable {r r' : Reading}

theorem ofScanned_whole {here : List Char} {start : Nat} {scanned : Lexer.Scanned} {ends : Bool} {depth : Nat}
    (h : ofScanned here start scanned ends depth = .ok r) (htext : scanned.lexeme.fullText ++ scanned.rest = here)
    (hbreaks : scanned.diagnostic = none →
      scanned.lexeme.lineBreaks ++ Text.lineBreaks scanned.rest = Text.lineBreaks here)
    (hrest : scanned.lexeme.kind = .endOfFile → scanned.rest = [])
    (htoken : scanned.diagnostic = none → scanned.lexeme.Proper ∧
      (scanned.lexeme.kind ≠ .endOfFile → scanned.lexeme.text ≠ [])) :
    r.Whole ∧ r.here = here := by
  unfold ofScanned at h
  split at h
  · cases h
  · rename_i hnone
    cases h
    exact ⟨⟨htext.symm, (hbreaks hnone).symm, hrest, (htoken hnone).2, (htoken hnone).1⟩, rfl⟩

/-- **The next token is cut off the text behind the current one.** -/
theorem next_whole (h : r.next = .ok r') : r'.Whole ∧ r'.here = r.rest :=
  ofScanned_whole h (Lexer.scan_fullText _ _) Lexer.scan_lineBreaks Lexer.scan_rest_of_endOfFile
    (fun _ => ⟨Lexer.scan_proper _ _, mt Lexer.scan_text_eq_nil.1⟩)

theorem ofText_whole {text : List Char} (h : ofText text = .ok r) : r.Whole ∧ r.here = text :=
  ofScanned_whole h (Lexer.scan_fullText _ _) Lexer.scan_lineBreaks Lexer.scan_rest_of_endOfFile
    (fun _ => ⟨Lexer.scan_proper _ _, mt Lexer.scan_text_eq_nil.1⟩)

/-- **A token that is cut anew is cut off the same text.** -/
theorem asRegularExpression_whole (h : r.asRegularExpression = .ok r') : r'.Whole ∧ r'.here = r.here :=
  ofScanned_whole h (Lexer.rescanSlash_fullText _ _) Lexer.rescanSlash_lineBreaks (fun hk => by cases hk)
    (fun hnone => ⟨Lexer.rescanSlash_proper hnone,
      fun _ hnil => ((Lexer.rescanSlash_proper hnone).text hnil).elim nofun nofun⟩)

end Reading

/-! ## What a reader makes -/

namespace Parser

variable {α β : Type}

/-- The reader makes some objects and returns what `P` says of them, or fails; numbers that were given out are
never given out again. -/
structure Reads (p : Parser α) (P : α → List Made → Prop) : Prop where
  ok : ∀ {s a s'}, s.own.Whole → p s = .ok a s' → ∃ ts, Advance s s' ts ∧ P a ts
  error : ∀ {s e s'}, s.own.Whole → p s = .error e s' → s.next ≤ s'.next

namespace Reads

variable {p : Parser α} {P P' : α → List Made → Prop} {f : α → Parser β} {Q : β → List Made → Prop}

theorem weaken (h : Reads p P) (hP : ∀ a ts, P a ts → P' a ts) : Reads p P' where
  ok := fun hs hp => by
    obtain ⟨ts, hadv, ha⟩ := h.ok hs hp
    exact ⟨ts, hadv, hP _ ts ha⟩
  error := h.error

theorem pure {a : α} (h : P a []) : Reads (pure a) P where
  ok := fun hs hp => by cases hp; exact ⟨[], Advance.refl hs, h⟩
  error := fun _ hp => by cases hp

/-- **A reader and what follows it move over the tokens of both.** -/
theorem bind (h : Reads p P) (hf : ∀ a ts, P a ts → Reads (f a) (fun b us => Q b (ts ++ us))) :
    Reads (p >>= f) Q where
  ok := fun hs hp => by
    obtain ⟨a, s', h₁, h₂⟩ := Work.bind_eq_ok hp
    obtain ⟨ts, hadv, ha⟩ := h.ok hs h₁
    obtain ⟨us, hadv', hb⟩ := (hf a ts ha).ok hadv.whole h₂
    exact ⟨ts ++ us, hadv.trans hadv', hb⟩
  error := fun hs hp => by
    rcases Work.bind_eq_error hp with h₁ | ⟨a, s', h₁, h₂⟩
    · exact h.error hs h₁
    · obtain ⟨ts, hadv, ha⟩ := h.ok hs h₁
      exact Nat.le_trans hadv.next_le ((hf a ts ha).error hadv.whole h₂)

/-- Tokens that were read in two moves are read in one. -/
theorem assoc {Q : α → List Made → Prop} {ts us : List Made} (h : Reads p (fun a vs => Q a (ts ++ us ++ vs))) :
    Reads p (fun a vs => Q a (ts ++ (us ++ vs))) :=
  h.weaken (fun _ _ ha => List.append_assoc _ _ _ ▸ ha)

theorem map {g : α → β} (h : Reads p P) (hg : ∀ a ts, P a ts → Q (g a) ts) : Reads (g <$> p) Q := by
  show Reads (p >>= fun a => Pure.pure (g a)) Q
  exact h.bind (fun a ts ha => .pure (by rw [List.append_nil]; exact hg a ts ha))

/-- What looks at the place moves over nothing. -/
theorem look {g : Supplied Reading → α} (hf : ∀ a, Reads (f a) Q) :
    Reads (((fun s => .ok (g s) s) : Parser α) >>= f) Q where
  ok := fun {s _ _} hs hp => (hf (g s)).ok hs hp
  error := fun {s _ _} hs hp => (hf (g s)).error hs hp

theorem ite {c : Prop} [Decidable c] {q : Parser α} (hp : Reads p P) (hq : Reads q P) :
    Reads (if c then p else q) P := by
  split
  · exact hp
  · exact hq

end Reads

theorem reads_fault {P : α → List Made → Prop} (f : ParseFault) : Reads (fault f) P where
  ok := fun _ hp => by cases hp
  error := fun _ hp => by cases hp; exact Nat.le_refl _

theorem reads_expected {P : α → List Made → Prop} (what : Expectation) : Reads (expected what) P where
  ok := fun _ hp => by cases hp
  error := fun _ hp => by cases hp; exact Nat.le_refl _

/-! ## Single tokens -/

/-- Taking the current token makes it an object and steps behind it. -/
theorem take_eq (s : Supplied Reading) :
    take s = match s.own.next with
      | .ok next => .ok ⟨s.next, s.own.current⟩ ⟨s.next + 1, next⟩
      | .error e => .error e s := by
  show (Work.ofExcept s.own.next >>= fun next => do
    let t ← (Token.fresh s.own.current : Fresh Token)
    Work.setOwn next
    return t) s = _
  cases s.own.next <;> rfl

/-- One token object of the content of the current token, made on the way to the place behind it. -/
theorem Advance.one {s s' : Supplied Reading} {t : Token} (hs : s.own.Whole) (hnext : s.own.next = .ok s'.own)
    (htext : t.fullText = s.own.current.fullText) (hbreaks : t.lineBreaks = s.own.current.lineBreaks)
    (hlow : s.next ≤ t.id) (hhigh : t.id < s'.next) :
    Advance s s' [.token t] where
  whole := (Reading.next_whole hnext).1
  text := by rw [hs.text, (Reading.next_whole hnext).2, Made.tokens_token, Made.tokens_nil, Token.texts,
    List.flatMap_singleton, htext]
  lineBreaks := by rw [hs.lineBreaks, (Reading.next_whole hnext).2, Made.tokens_token, Made.tokens_nil,
    List.flatMap_singleton, hbreaks]
  next_le := Nat.le_trans hlow (Nat.le_of_lt hhigh)
  made := fun u hu => by rw [List.mem_singleton.1 hu]; exact ⟨hlow, hhigh⟩
  distinct := by simp

theorem reads_take : Reads take (fun t ts => ts = [.token t]) where
  ok := fun {s a s'} hs hp => by
    rw [take_eq] at hp
    cases hnext : s.own.next with
    | error e => rw [hnext] at hp; cases hp
    | ok next =>
      rw [hnext] at hp
      cases hp
      exact ⟨_, Advance.one hs hnext rfl rfl (Nat.le_refl _) (Nat.lt_succ_self _), rfl⟩
  error := fun {s e s'} hs hp => by
    rw [take_eq] at hp
    cases hnext : s.own.next with
    | error e => rw [hnext] at hp; cases hp; exact Nat.le_refl _
    | ok next => rw [hnext] at hp; cases hp

/-- A reserved word becomes another object, and any other token is itself. -/
theorem toName_eq (t : Token) (s : Supplied Reading) : (liftM t.toName : Parser Token) s =
    if t.kind.isKeyword then .ok ⟨s.next, t.lexeme.asName⟩ { s with next := s.next + 1 } else .ok t s := by
  show Work.lift t.toName s = _
  by_cases hk : t.kind.isKeyword = true <;> simp only [Work.lift, Token.toName, hk, if_true] <;> rfl

/-- A word that is taken as a name is another object of the same full text. -/
theorem reads_takeName : Reads (do (← take).toName) (fun t ts => ts = [.token t]) where
  ok := fun {s a s'} hs hp => by
    obtain ⟨t, s₁, ht, hname⟩ := Work.bind_eq_ok hp
    rw [take_eq] at ht
    cases hnext : s.own.next with
    | error e => rw [hnext] at ht; cases ht
    | ok next =>
      rw [hnext] at ht
      cases ht
      rw [toName_eq] at hname
      split at hname
      · cases hname
        exact ⟨_, Advance.one hs hnext rfl rfl (Nat.le_succ _) (Nat.lt_succ_self _), rfl⟩
      · cases hname
        exact ⟨_, Advance.one hs hnext rfl rfl (Nat.le_refl _) (Nat.lt_succ_self _), rfl⟩
  error := fun {s e s'} hs hp => by
    rcases Work.bind_eq_error hp with ht | ⟨t, s₁, ht, hname⟩
    · exact reads_take.error hs ht
    · cases hname

theorem reads_token (k : TokenKind) : Reads (token k) (fun t ts => ts = [.token t]) :=
  .look (fun _ => .ite reads_take (reads_expected _))

theorem reads_token? (k : TokenKind) : Reads (token? k) (fun t ts => ts = t.toList.map .token) :=
  .look (fun _ => .ite (reads_take.map (fun _ _ h => h ▸ rfl)) (.pure rfl))

theorem reads_identifier : Reads identifier (fun t ts => ts = [.token t]) :=
  .look (fun _ => .ite reads_take (reads_expected _))

theorem reads_memberName : Reads memberName (fun t ts => ts = [.token t]) :=
  .look (fun _ => .ite reads_takeName (reads_expected _))

theorem reads_propertyName : Reads propertyName (fun t ts => ts = [.token t]) :=
  .look (fun _ => .ite reads_takeName (reads_expected _))

/-- A semicolon that is left out is an object without text. -/
theorem reads_emptySemicolon : Reads emptySemicolon (fun t ts => ts = [.token t]) where
  ok := fun {s a s'} hs hp => by
    cases hp
    refine ⟨_, ⟨hs, rfl, rfl, Nat.le_succ _, fun t ht => ?_, by simp⟩, rfl⟩
    rw [List.mem_singleton.1 ht]
    exact ⟨Nat.le_refl _, Nat.lt_succ_self _⟩
  error := fun _ hp => by cases hp

theorem reads_semicolon : Reads semicolon (fun t ts => ts = [.token t]) :=
  .look (fun _ => .ite reads_take (.ite reads_emptySemicolon (reads_expected _)))

/-- Cutting the current token anew moves over nothing. -/
theorem reads_rescan : Reads rescan (fun _ ts => ts = []) where
  ok := fun {s a s'} hs hp => by
    obtain ⟨next, s₁, h₁, h₂⟩ := Work.bind_eq_ok (s := s) (w := Work.ofExcept s.own.asRegularExpression) hp
    cases hnext : s.own.asRegularExpression with
    | error e => rw [hnext] at h₁; cases h₁
    | ok r =>
      rw [hnext] at h₁
      cases h₁
      cases h₂
      obtain ⟨hwhole, hhere⟩ := Reading.asRegularExpression_whole hnext
      exact ⟨[], ⟨hwhole, hhere.symm, congrArg Text.lineBreaks hhere.symm, Nat.le_refl _, (fun t ht => by cases ht),
        List.nodup_nil⟩, rfl⟩
  error := fun {s e s'} hs hp => by
    rcases Work.bind_eq_error (s := s) (w := Work.ofExcept s.own.asRegularExpression) hp with h | ⟨_, _, _, h⟩
    · cases hnext : s.own.asRegularExpression with
      | error e => rw [hnext] at h; cases h; exact Nat.le_refl _
      | ok r => rw [hnext] at h; cases h
    · cases h

/-! ## Nesting and going back -/

namespace Reads

variable {p : Parser α} {P : α → List Made → Prop}

theorem leaving (h : Reads p P) : Reads (leaving p) P where
  ok := fun {s a s'} hs hp => by
    obtain ⟨s₁, hrun, rfl⟩ := Work.andThen_eq_ok hp
    obtain ⟨ts, hadv, ha⟩ := h.ok hs hrun
    have hwhole := hadv.whole
    exact ⟨ts, ⟨⟨hwhole.text, hwhole.lineBreaks, hwhole.rest_eq_nil, hwhole.text_ne_nil, hwhole.proper⟩, hadv.text,
      hadv.lineBreaks, hadv.next_le, hadv.made, hadv.distinct⟩, ha⟩
  error := fun {s e s'} hs hp => by
    obtain ⟨s₁, hrun, rfl⟩ := Work.andThen_eq_error hp
    have hle := h.error hs hrun
    exact hle

end Reads

theorem reads_enter : Reads enter (fun _ ts => ts = []) where
  ok := fun {s a s'} hs hp => by
    obtain ⟨_, s₁, h₁, h₂⟩ := Work.bind_eq_ok hp
    cases h₁
    have h₃ : ((if maxDepth < s.own.depth + 1 then fault .tooDeep else Pure.pure ()) : Parser Unit)
      { s with own := { s.own with depth := s.own.depth + 1 } } = .ok a s' := h₂
    split at h₃
    · cases h₃
    · cases h₃; exact ⟨[], Advance.still hs (Nat.le_refl _) rfl rfl rfl, rfl⟩
  error := fun {s e s'} hs hp => by
    rcases Work.bind_eq_error hp with h | ⟨_, s₁, h₁, h₂⟩
    · cases h
    · cases h₁
      have h₃ : ((if maxDepth < s.own.depth + 1 then fault .tooDeep else Pure.pure ()) : Parser Unit)
        { s with own := { s.own with depth := s.own.depth + 1 } } = .error e s' := h₂
      split at h₃
      · cases h₃; exact Nat.le_refl _
      · cases h₃

namespace Reads

variable {p : Parser α} {P : α → List Made → Prop}

theorem nested (h : Reads p P) : Reads (nested p) P :=
  reads_enter.bind (fun _ ts hts => by subst hts; exact h.leaving)

/-- **What is tried and given up moves over nothing**: the place is the old one, and only numbers are used up. -/
theorem attempt (h : Reads p P) (accept : Reading → Bool) :
    Reads (attempt p accept) (fun o ts => match o with | some a => P a ts | none => ts = []) where
  ok := fun {s o s'} hs hp => by
    unfold Parser.attempt at hp
    cases hrun : p s with
    | error e s₁ =>
      have hle := h.error hs hrun
      rw [hrun] at hp
      cases hp
      exact ⟨[], Advance.still hs hle rfl rfl rfl, rfl⟩
    | ok a s₁ =>
      rw [hrun] at hp
      obtain ⟨ts, hadv, ha⟩ := h.ok hs hrun
      dsimp only at hp
      split at hp
      · cases hp; exact ⟨ts, hadv, ha⟩
      · cases hp; exact ⟨[], Advance.still hs hadv.next_le rfl rfl rfl, rfl⟩
  error := fun {s e s'} hs hp => by
    unfold Parser.attempt at hp
    cases hrun : p s with
    | error e s₁ => rw [hrun] at hp; cases hp
    | ok a s₁ => rw [hrun] at hp; dsimp only at hp; split at hp <;> cases hp

end Reads

/-! ## Lists -/

/-- What is read behind a member of a list: nothing, or a comma and more members. -/
def behindMember (n : Node) (more : Parser (List Node × List Token)) : Parser (List Node × List Token) := do
  match ← token? (.punctuation .comma) with
  | none => return ([n], [])
  | some t => return separatedCons n t (← more)

end Parser

end Downlevel
