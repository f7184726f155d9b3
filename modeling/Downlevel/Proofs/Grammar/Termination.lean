import Downlevel.Proofs.Grammar.Moves
/-!
# Proofs.Grammar.Termination — reading a text comes to an end

The definitions of the grammar end because loops have a number of turns and recursion has a number of levels; these say
why neither is ever used up.  Each turn of a loop takes a token or leaves it (`Progresses`), so a loop with more turns
than characters are ahead ends by itself (`Progresses.turns_eq`), and this is so of each loop of the grammar
(`progresses_loop`).  Recursion goes down along the tokens that are left and, where none is taken, along the goals, so it
never comes to its last level: what lies below does not show in what is read (`parse_ends`).
-/
namespace Downlevel

variable {s s' s'' : Supplied Reading}

/-! ## Moves -/

theorem Moved.whole (h : Moved s s') : s'.own.Whole :=
  let ⟨_, hadv, _⟩ := h
  hadv.whole

/-- More is moved over behind it. -/
theorem Moved.trans {ts : List Made} (h : Moved s s') (h' : Advance s' s'' ts) : Moved s s'' := by
  obtain ⟨us, hadv, t, ht, htext⟩ := h
  exact ⟨us ++ ts, hadv.trans h', t, by rw [Made.tokens_append]; exact List.mem_append_left _ ht, htext⟩

/-- More was moved over in front of it. -/
theorem Moved.behind {ts : List Made} (h : Moved s' s'') (h' : Advance s s' ts) : Moved s s'' := by
  obtain ⟨us, hadv, t, ht, htext⟩ := h
  exact ⟨ts ++ us, h'.trans hadv, t, by rw [Made.tokens_append]; exact List.mem_append_right _ ht, htext⟩

/-- **A token makes the text ahead shorter.** -/
theorem Moved.shorter (h : Moved s s') : s'.own.here.length < s.own.here.length := by
  obtain ⟨ts, hadv, t, ht, htext⟩ := h
  have htexts : 0 < (Token.texts (Made.tokens ts)).length := by
    obtain ⟨before, behind, hsplit⟩ := List.append_of_mem ht
    have hpos := List.length_pos_iff.2 htext
    rw [hsplit]
    simp only [Token.texts, List.flatMap_append, List.flatMap_cons, List.length_append, Token.fullText, Lexeme.fullText]
    have htoken : t.text = t.lexeme.text := rfl
    rw [htoken] at hpos
    omega
  rw [hadv.text, List.length_append]
  omega

namespace Parser

variable {σ α : Type} {loop : Nat → σ → Parser α} {element : Parser Node} {d : Descent}

/-! ## Loops -/

/-- What is left of a turn that began at one place, read from another one on: either it is settled whatever turns the
loop has left, or it is made of what comes of those turns from behind a token on. -/
def EndsTurn (loop : Nat → σ → Parser α) (start : Supplied Reading) (p : Nat → Parser α) (s : Supplied Reading) : Prop :=
  (∃ outcome, ∀ turns, p turns s = outcome) ∨
    ∃ (f : α → α) (state : σ) (s' : Supplied Reading), Moved start s' ∧ ∀ turns, p turns s = (f <$> loop turns state) s'

/-- **Each turn of the loop takes a token or leaves it.** -/
def Progresses (loop : Nat → σ → Parser α) : Prop :=
  ∀ (state : σ) (s : Supplied Reading), s.own.Whole → EndsTurn loop s (fun turns => loop (turns + 1) state) s

/-- A loop that leads to the same from behind a token on leads to the same in front of it. -/
theorem map_congr_at {p q : Parser α} {f : α → α} (h : p s = q s) : (f <$> p) s = (f <$> q) s := by
  rw [map_eq_pure_bind, map_eq_pure_bind]
  cases hrun : q s with
  | ok a s₁ => rw [Work.bind_of_ok hrun, Work.bind_of_ok (h.trans hrun)]
  | error e s₁ => rw [Work.bind_of_error hrun, Work.bind_of_error (h.trans hrun)]

/-- **With more turns than characters are ahead a loop ends by itself**: the turns do not show. -/
theorem Progresses.turns_eq (h : Progresses loop) {bound turns turns' : Nat} {state : σ} (hs : s.own.Whole)
    (hbound : s.own.here.length ≤ bound) (ht : bound < turns) (ht' : bound < turns') :
    loop turns state s = loop turns' state s := by
  induction bound generalizing turns turns' state s with
  | zero =>
    obtain ⟨turns, rfl⟩ := Nat.exists_eq_add_of_lt ht
    obtain ⟨turns', rfl⟩ := Nat.exists_eq_add_of_lt ht'
    rcases h state s hs with ⟨outcome, hleaves⟩ | ⟨_, _, _, hmoved, -⟩
    · exact (hleaves _).trans (hleaves _).symm
    · exact absurd hmoved.shorter (by omega)
  | succ bound ih =>
    obtain ⟨turns, rfl⟩ := Nat.exists_eq_add_of_lt ht
    obtain ⟨turns', rfl⟩ := Nat.exists_eq_add_of_lt ht'
    rcases h state s hs with ⟨outcome, hleaves⟩ | ⟨f, state', s', hmoved, hgoes⟩
    · exact (hleaves _).trans (hleaves _).symm
    · have hshorter := hmoved.shorter
      refine (hgoes _).trans (Eq.trans ?_ (hgoes _).symm)
      exact map_congr_at (ih hmoved.whole (by omega) (by omega) (by omega))

namespace EndsTurn

variable {β : Type} {start : Supplied Reading} {p : Parser β} {q q' : Nat → Parser α} {k : Nat → β → Parser α}

/-- The loop is left. -/
theorem leaves (p : Parser α) : EndsTurn loop start (fun _ => p) s := .inl ⟨p s, fun _ => rfl⟩

/-- The loop goes on, and more is done with what comes of it. -/
theorem goes (hmoved : Moved start s) (f : α → α) (state : σ) :
    EndsTurn loop start (fun turns => do return f (← loop turns state)) s :=
  .inr ⟨f, state, s, hmoved, fun turns => by rw [map_eq_pure_bind]⟩

/-- A part of the turn that fails leaves the loop. -/
theorem bind (h : ∀ a s', p s = .ok a s' → EndsTurn loop start (fun turns => k turns a) s') :
    EndsTurn loop start (fun turns => p >>= k turns) s := by
  cases hrun : p s with
  | error e s' => exact .inl ⟨.error e s', fun turns => Work.bind_of_error hrun⟩
  | ok a s' =>
    rcases h a s' hrun with ⟨outcome, hleaves⟩ | ⟨f, state, s'', hmoved, hgoes⟩
    · exact .inl ⟨outcome, fun turns => (Work.bind_of_ok hrun).trans (hleaves turns)⟩
    · exact .inr ⟨f, state, s'', hmoved, fun turns => (Work.bind_of_ok hrun).trans (hgoes turns)⟩

theorem ite {c : Prop} [Decidable c] (hq : c → EndsTurn loop start q s) (hq' : ¬c → EndsTurn loop start q' s) :
    EndsTurn loop start (fun turns => if c then q turns else q' turns) s := by
  split
  · exact hq ‹_›
  · exact hq' ‹_›

end EndsTurn

/-! ## Lists -/

theorem progresses_membersUntil (stop : Reading → Bool) (h : Takes element) :
    Progresses (fun turns (_ : Unit) => membersUntil stop element turns) := by
  refine fun _ s hs => .bind (fun r s₁ hlook => ?_)
  cases hlook
  refine .ite (fun _ => .leaves _) (fun _ => .bind (fun n s₁ hn => ?_))
  exact .goes (h s n s₁ hs hn) (n :: ·) ()

/-- The comma behind a member is moved over too. -/
theorem Moved.comma {t? : Option Token} (h : Moved s s') (hrun : token? (.punctuation .comma) s' = .ok t? s'') :
    Moved s s'' :=
  let ⟨_, hadv, _⟩ := (reads_token? _).ok h.whole hrun
  h.trans hadv

theorem progresses_commaListUpTo (h : Takes element) :
    Progresses (fun turns (_ : Unit) => commaListUpTo element turns) := by
  refine fun _ s hs => .bind (fun n s₁ hn => .bind (fun t? s₂ ht => ?_))
  cases t? with
  | none => exact .leaves _
  | some t => exact .goes (Moved.comma (h s n s₁ hs hn) ht) (separatedCons n t) ()

theorem progresses_delimitedUpTo (close : Punctuation) (trailingComma : Bool) (h : Takes element) :
    Progresses (fun turns (_ : Unit) => delimitedUpTo close trailingComma element turns) := by
  refine fun _ s hs => .bind (fun n s₁ hn => .bind (fun t? s₂ ht => ?_))
  cases t? with
  | none => exact .leaves _
  | some t =>
    refine .bind (fun closes s₃ hlook => ?_)
    cases hlook
    exact .ite (fun _ => .leaves _) (fun _ => .goes (Moved.comma (h s n s₁ hs hn) ht) (separatedCons n t) ())

/-- A token that is taken if it stands somewhere is one with characters. -/
theorem moved_token? {k : TokenKind} {t : Token} (hs : s.own.Whole) (hk : k ≠ .endOfFile)
    (hrun : token? k s = .ok (some t) s') : Moved s s' := by
  obtain ⟨ts, hadv, hts⟩ := (reads_token? k).ok hs hrun
  refine ⟨ts, hadv, t, by rw [hts]; exact List.mem_singleton.2 rfl, ?_⟩
  obtain ⟨sees, s₁, hlook, htake⟩ := Work.bind_eq_ok hrun
  cases hlook
  split at htake
  · rename_i hsees
    have hend : s.own.kind ≠ .endOfFile := by
      rw [show s.own.kind = k from beq_iff_eq.1 hsees]
      exact hk
    obtain ⟨u, s₂, hu, hsome⟩ := Work.bind_eq_ok htake
    cases hsome
    exact bringsAt_take hs hend s.next t s' hu
  · cases htake

/-- **An element of an array that is left out has a comma behind it**, and any other takes a token of its own. -/
theorem progresses_arrayElementsUpTo (h : Takes (d.parse (.assignment true))) :
    Progresses (fun turns behindComma => arrayElementsUpTo d turns behindComma) := by
  refine fun behindComma s hs => .bind (fun closes s₁ hlook => ?_)
  cases hlook
  refine .ite (fun _ => .leaves _) (fun _ => .bind (fun comma s₁ hlook => ?_))
  cases hlook
  refine .ite (fun _ => .bind (fun n s₁ hn => .bind (fun t? s₂ ht => ?_)))
    (fun _ => .bind (fun n s₁ hn => .bind (fun t? s₂ ht => ?_)))
  · cases hn
    cases t? with
    | none => exact .leaves _
    | some t =>
      have hmoved : Moved ⟨s.next + 1, s.own⟩ s₂ := moved_token? hs (k := .punctuation .comma) nofun ht
      exact .goes (hmoved.behind (.node hs)) (separatedCons _ t) true
  · cases t? with
    | none => exact .leaves _
    | some t => exact .goes (Moved.comma (h s n s₁ hs hn) ht) (separatedCons n t) true

/-! ## Growth -/

theorem progresses_growUpTo {step : Node → Parser (Option Node)}
    (h : ∀ (n : Node) (r : Reading), r.Whole → GrowsAt r (step n)) : Progresses (growUpTo step) := by
  refine fun n s hs => .bind (fun larger? s₁ hstep => ?_)
  cases larger? with
  | none => exact .leaves _
  | some larger =>
    have hmoved : Moved s s₁ := h n s.own hs s.next larger s₁ hstep
    exact .inr ⟨id, larger, s₁, hmoved, fun turns => by rw [id_map]⟩

/-! ## The loops of the grammar -/

/-- The loops of the grammar, each with what it carries from turn to turn and what comes of it. -/
inductive IsLoop (d : Descent) : (σ α : Type) → (Nat → σ → Parser α) → Prop
  | members (stop : Reading → Bool) {element : Parser Node} (h : Construct d element) :
    IsLoop d Unit (List Node) (fun turns _ => membersUntil stop element turns)
  | commas {element : Parser Node} (h : Construct d element) :
    IsLoop d Unit (List Node × List Token) (fun turns _ => commaListUpTo element turns)
  | delimited (close : Punctuation) (trailingComma : Bool) {element : Parser Node} (h : Construct d element) :
    IsLoop d Unit (List Node × List Token) (fun turns _ => delimitedUpTo close trailingComma element turns)
  | array : IsLoop d Bool (List Node × List Token) (arrayElementsUpTo d)
  | growth {step : Node → Parser (Option Node)} (h : Growth d step) : IsLoop d Node Node (growUpTo step)

/-- **Each turn of each loop takes a token or leaves the loop**, at every depth of recursion. -/
theorem progresses_loop {turns levels : Nat} (h : IsLoop (descent turns levels) σ α loop) : Progresses loop := by
  cases h with
  | members stop h => exact progresses_membersUntil stop (takes_construct h)
  | commas h => exact progresses_commaListUpTo (takes_construct h)
  | delimited close trailingComma h => exact progresses_delimitedUpTo close trailingComma (takes_construct h)
  | array => exact progresses_arrayElementsUpTo (takes_construct (.goal (.assignment true)))
  | growth h => exact progresses_growUpTo (fun n _ hr => growsAt_growth (sound_descent turns levels) h n hr)

end Parser

/-! ## Recursion -/

namespace Reading

variable {r r' : Reading} {k : Nat}

/-- Behind a token that is not the end less text is ahead. -/
theorem next_shorter (hr : r.Whole) (hk : r.kind ≠ .endOfFile) (h : r.next = .ok r') :
    r'.here.length < r.here.length := by
  have hpos := List.length_pos_iff.2 (hr.text_ne_nil hk)
  have hlength := congrArg List.length hr.text
  simp only [Lexeme.fullText, List.length_append] at hlength
  rw [(next_whole h).2]
  omega

/-- **A place is alike to itself**, as the tokens that are left are no more than the characters ahead and the end. -/
theorem alike_self (hr : r.Whole) (hk : r.here.length < k) : Alike k r r := by
  induction k generalizing r with
  | zero => exact absurd hk (Nat.not_lt_zero _)
  | succ k ih =>
    have hnext : ∀ {q : Reading}, q.Whole → q.here = r.here → q.kind ≠ .endOfFile → Both (Alike k) q.next q.next := by
      intro q hq hhere hend
      cases hrun : q.next with
      | error e => exact .error rfl
      | ok q' =>
        have hshorter := next_shorter hq hend hrun
        rw [hhere] at hshorter
        exact .ok (ih (next_whole hrun).1 (by omega))
    refine ⟨⟨rfl, rfl, rfl, rfl⟩, hnext hr rfl, fun _ => ?_⟩
    cases hrun : r.asRegularExpression with
    | error e => exact .error rfl
    | ok q =>
      obtain ⟨hwhole, hhere⟩ := asRegularExpression_whole hrun
      have hkind := (asRegularExpression_proper hrun).2
      exact .ok ⟨⟨rfl, rfl, rfl, rfl⟩, hkind, hnext hwhole hhere (by rw [hkind]; exact nofun)⟩

theorem ofText_alike_self (text : List Char) : Both (Alike (text.length + 1)) (ofText text) (ofText text) := by
  cases hrun : ofText text with
  | error e => exact .error rfl
  | ok r =>
    obtain ⟨hwhole, hhere⟩ := ofText_whole hrun
    exact .ok (alike_self hwhole (by rw [hhere]; exact Nat.lt_succ_self _))

end Reading

/-- **Turns and levels do not show**: with enough of them for its length, a text is read the same whatever lies below. -/
theorem parseOver_readAlike (below : Goal → Parser Node) {loop levels : Nat} (text : List Char)
    (ht : loopsFor text ≤ loop) (hl : levelsFor text ≤ levels) :
    ReadAlike (parseOver below loop levels text 0).1 (parse text) := by
  rw [parse, parseFrom_eq_parseOver]
  refine parseOver_alike 0 0 (Reading.ofText_alike_self text) ?_ ?_ ?_ ?_
  all_goals
    simp only [loopsFor, levelsFor] at ht hl ⊢
    omega

/-- **Parsing comes to an end.**  Every construct that is read takes a token with characters, at every depth of recursion
and wherever the reader was sent back to.  Every turn of every loop takes one or leaves the loop, so that a loop with more
turns than characters are ahead ends by itself.  And a text is read the same with any greater number of turns and levels
and whatever lies below the last one: it was read as a program, or found not to be one, before it came to either. -/
theorem parse_ends (text : List Char) :
    (∀ turns levels element, Parser.Construct (Parser.descent turns levels) element → Parser.Takes element) ∧
      (∀ turns levels σ α loop, Parser.IsLoop (Parser.descent turns levels) σ α loop → Parser.Progresses loop ∧
        ∀ (state : σ) (s : Supplied Reading), s.own.Whole → ∀ more > s.own.here.length,
          loop more state s = loop (s.own.here.length + 1) state s) ∧
      ∀ below loop levels, loopsFor text ≤ loop → levelsFor text ≤ levels →
        ReadAlike (parseOver below loop levels text 0).1 (parse text) := by
  refine ⟨fun _ _ _ h => Parser.takes_construct h, fun _ _ _ _ _ h => ?_,
    fun below _ _ ht hl => parseOver_readAlike below text ht hl⟩
  have hprogresses := Parser.progresses_loop h
  exact ⟨hprogresses, fun _ s hs _ hmore => hprogresses.turns_eq hs (Nat.le_refl _) hmore (Nat.lt_succ_self _)⟩

/-- A statement of which the semicolon is left out takes a token all the same; a loop of nine turns over statements ends
as one of two does, and readers that would find an omitted element wherever they are asked are never asked. -/
theorem parse_ends_shortly : ∃ (r : Reading) (n : Node) (s' : Supplied Reading), Reading.ofText "a".toList = .ok r ∧
    (Parser.descent 4 32).parse .statement ⟨0, r⟩ = .ok n s' ∧ Moved ⟨0, r⟩ s' ∧
      (Parser.membersUntil (fun q => q.kind == .endOfFile) ((Parser.descent 4 32).parse .statement) 9) ⟨0, r⟩ =
        (Parser.membersUntil (fun q => q.kind == .endOfFile) ((Parser.descent 4 32).parse .statement)
          (r.here.length + 1)) ⟨0, r⟩ ∧
      ReadAlike (parseOver (fun _ => Parser.omitted) 7 64 "a".toList 0).1 (parse "a".toList) := by
  obtain ⟨htakes, hloops, hlimits⟩ := parse_ends "a".toList
  have hok : (Reading.ofText "a".toList).toOption.any (fun r =>
      (((Parser.descent 4 32).parse .statement).runFrom r 0).1.isOk && decide (r.here.length < 9)) = true := by
    decide +kernel
  cases hr : Reading.ofText "a".toList with
  | error e => rw [hr] at hok; cases hok
  | ok r =>
    rw [hr] at hok
    obtain ⟨hstatement, hlength⟩ := Bool.and_eq_true_iff.1 hok
    cases hrun : (Parser.descent 4 32).parse .statement ⟨0, r⟩ with
    | error e s' =>
      unfold Work.runFrom at hstatement
      rw [hrun] at hstatement
      cases hstatement
    | ok n s' =>
      have hwhole : r.Whole := (Reading.ofText_whole hr).1
      refine ⟨r, n, s', rfl, hrun, htakes 4 32 _ (.goal .statement) _ n s' hwhole hrun, ?_, ?_⟩
      · exact (hloops 4 32 _ _ _ (.members _ (.goal .statement))).2 () ⟨0, r⟩ hwhole 9 (of_decide_eq_true hlength)
      · exact hlimits _ 7 64 (by decide) (by decide)

end Downlevel
