import Downlevel.Proofs.Tree.TokenPasses
import Downlevel.Proofs.Trivia.Shifts
import Downlevel.Tree.Reindent
/-!
# Proofs.Tree.Reindented — moving the lines of a tree

Moving the lines of a tree is a pass over its tokens that carries along whether a line has just begun (`Shift.pass`), so
it never fails, and what it makes of the tokens is what a shift makes of a row of them (`Node.reindented_moved`).  Moves to
the right add up, and a move back puts every line where it was (`Node.reindented_action`).
-/
namespace Downlevel

namespace Shift

/-- The pass that moves lines; its state says whether a line starts in front of a token. -/
def pass (s : Shift) : TokenPass Bool where
  content? start t := s.content? start t.lexeme
  behind start t := Piece.startsBehind start t.lexeme.pieces

/-- What a token leaves behind is told by its trailing trivia. -/
theorem behind_eq {s : Shift} {start : Bool} {t : Token} (hwidth : t.fullWidth ≠ 0) :
    s.pass.behind start t = (s.apply false false t.trailing).atLineStart := by
  show Piece.startsBehind start t.lexeme.pieces = _
  rw [Lexeme.pieces_of_fullWidth hwidth, Piece.startsBehind_append, Piece.startsBehind_cons]
  exact (s.moves_trailing t.trailing).atLineStart.symm

/-- A token is made anew for its leading trivia and for its trailing trivia, each if that moves. -/
theorem token_eq {s : Shift} {start : Bool} {t : Token} (hwidth : t.fullWidth ≠ 0) (i : ObjectId) :
    s.token t ⟨i, start⟩ = (do
      let u ← (s.apply start true t.leading).result?.elim (pure t) (fun trivia => liftM (t.withLeading trivia))
      (s.apply false false t.trailing).result?.elim (pure u) (fun trivia => liftM (u.withTrailing trivia)) :
        Work SlotError Bool Token) ⟨i, s.pass.behind start t⟩ := by
  obtain ⟨-, -, hopen⟩ := s.leading_moves start t.leading (.token t.kind t.text t.value) rfl rfl
  rw [behind_eq hwidth]
  unfold Shift.token
  rw [if_neg hwidth, Work.bind_of_ok (show Work.own ⟨i, start⟩ = .ok start ⟨i, start⟩ from rfl)]
  dsimp only
  rw [hopen, Bool.false_and]
  cases (s.apply start true t.leading).result? <;> cases (s.apply false false t.trailing).result? <;> rfl

/-- **The transformation of tokens makes the pass.** -/
theorem isDoneBy_token (s : Shift) : s.pass.IsDoneBy s.token := by
  rintro t ⟨i, start⟩
  by_cases hwidth : t.fullWidth = 0
  · have hrun : s.token t ⟨i, start⟩ = .ok t ⟨i, start⟩ := by
      unfold Shift.token
      rw [if_pos hwidth]
      rfl
    have hbehind : s.pass.behind start t = start := by
      show Piece.startsBehind start t.lexeme.pieces = start
      rw [Lexeme.pieces_of_missing hwidth, Piece.startsBehind_nil]
    have hrest : s.pass.Runs ⟨i, s.pass.behind start t⟩ [] [] ⟨i, start⟩ := by
      rw [hbehind]
      exact .done start (Nat.le_refl i)
    exact ⟨t, ⟨i, start⟩, hrun, .kept (if_pos hwidth) hrest⟩
  · have hrun := @token_eq s start t hwidth i
    have hcontent : s.pass.content? start t =
        if (s.apply start true t.leading).changed || (s.apply false false t.trailing).changed then
          some (s.lexeme start t.lexeme) else none := content_eq hwidth
    have hmoved : s.lexeme start t.lexeme = .realized t.kind (.ofList (s.apply start true t.leading).items) t.text t.value
        (.ofList (s.apply false false t.trailing).items) := lexeme_eq hwidth
    -- Each side that changes takes a number of its own, so the four cases differ in the object that comes out.
    cases hleading : (s.apply start true t.leading).changed with
    | false =>
      cases htrailing : (s.apply false false t.trailing).changed with
      | false =>
        rw [hleading, htrailing] at hcontent
        refine ⟨t, ⟨i, s.pass.behind start t⟩, ?_, .kept hcontent (.done _ (Nat.le_refl _))⟩
        rw [hrun, Outcome.result?, Outcome.result?, hleading, htrailing]
        rfl
      | true =>
        rw [hleading, htrailing] at hcontent
        refine ⟨⟨i, s.lexeme start t.lexeme⟩, ⟨i + 1, s.pass.behind start t⟩, ?_,
          .made hcontent (Nat.le_refl _) (.done _ (Nat.le_refl _))⟩
        rw [hrun, hmoved, ofList_leading hleading, Outcome.result?, Outcome.result?, hleading, htrailing]
        rfl
    | true =>
      have hchanged : s.pass.content? start t = some (s.lexeme start t.lexeme) := by rw [hcontent, hleading]; rfl
      cases htrailing : (s.apply false false t.trailing).changed with
      | false =>
        refine ⟨⟨i, s.lexeme start t.lexeme⟩, ⟨i + 1, s.pass.behind start t⟩, ?_,
          .made hchanged (Nat.le_refl _) (.done _ (Nat.le_refl _))⟩
        rw [hrun, hmoved, (s.moves_trailing t.trailing).ofList htrailing, Outcome.result?, Outcome.result?, hleading,
          htrailing]
        rfl
      | true =>
        refine ⟨⟨i + 1, s.lexeme start t.lexeme⟩, ⟨i + 2, s.pass.behind start t⟩, ?_,
          .made hchanged (Nat.le_succ _) (.done _ (Nat.le_refl _))⟩
        rw [hrun, hmoved, Outcome.result?, Outcome.result?, hleading, htrailing]
        rfl

variable {s : Shift} {st st' : Supplied Bool} {ts us : List Token} {t u : Token}

/-- What comes of the tokens is the row of them with its lines moved. -/
theorem row_of_runs (h : s.pass.Runs st ts us st') : us.map Token.lexeme = s.row st.own (ts.map Token.lexeme) := by
  induction h with
  | done => rfl
  | @kept t _ _ own _ _ same _ ih =>
    have hsame : s.lexeme own t.lexeme = t.lexeme := lexeme_of_none same
    rw [List.map_cons, List.map_cons, row, hsame, ih]
    rfl
  | @made t u _ _ own _ _ content _ _ ih =>
    have hmade : s.lexeme own t.lexeme = u.lexeme := by
      rw [lexeme, show s.content? own t.lexeme = some u.lexeme from content]
      rfl
    rw [List.map_cons, List.map_cons, row, hmade, ih]
    rfl

/-- The pass makes nothing exactly if every line begins where it is to. -/
theorem leaves_iff {start : Bool} : s.pass.Leaves start ts ↔
    Piece.Heads (fun p => s.begin p = [p]) start (ts.flatMap (fun t => t.lexeme.pieces)) := by
  induction ts generalizing start with
  | nil => exact Iff.rfl
  | cons t ts ih =>
    have hcontent : s.pass.content? start t = none ↔ Piece.Heads (fun p => s.begin p = [p]) start t.lexeme.pieces :=
      content_eq_none
    rw [TokenPass.Leaves, ih, hcontent, List.flatMap_cons, Piece.heads_append]
    rfl

/-- The structure stays, and so do comments. -/
theorem respects_pass (s : Shift) : s.pass.Respects ⟨false, true⟩ := by
  rintro t u (rfl | ⟨start, hcontent⟩)
  · simp [Token.agrees]
  · have hmade : u.lexeme = s.lexeme start t.lexeme := by
      rw [lexeme, show s.content? start t.lexeme = some u.lexeme from hcontent]
      rfl
    obtain ⟨hkind, htext, -⟩ := s.kind_lexeme start t.lexeme
    obtain ⟨hleading, htrailing⟩ := s.filter_lexeme start t.lexeme
    rw [← hmade] at hkind htext hleading htrailing
    have hcomments : ∀ {x y : TriviaList}, x.toList.filter (fun item => !item.isWhitespace) =
        y.toList.filter (fun item => !item.isWhitespace) → x.comments = y.comments := by
      intro x y hxy
      have hcomment : ∀ item : Trivia, (item.isComment && !item.isWhitespace) = item.isComment := by
        rintro ⟨kind, text⟩
        cases kind <;> rfl
      have hfilter := congrArg (List.filter Trivia.isComment) hxy
      simp only [List.filter_filter, hcomment] at hfilter
      exact hfilter
    have hkind' : u.kind = t.kind := hkind
    have htext' : u.text = t.text := htext
    simp [Token.agrees, hkind', htext', hcomments (x := u.leading) (y := t.leading) hleading,
      hcomments (x := u.trailing) (y := t.trailing) htrailing]

end Shift

/-! ## Whole trees -/

/-- What comes of a tree when its lines are moved; every object of it is older than `k`. -/
structure Node.MovedAs (s : Shift) (first : Bool) (k : ObjectId) (n u : Node) : Prop where
  tokens : u.tokens.map Token.lexeme = s.row first (n.tokens.map Token.lexeme)
  agrees : u.agrees ⟨false, true⟩ n = true
  same : u.isSame n = true → u = n
  eq_iff : u = n ↔ Piece.Heads (fun p => s.begin p = [p]) first n.pieces
  schematic : u.Schematic
  older : u.OlderThan k

/-- **Moving the lines of a tree does not fail**, and it moves the lines of the row of its tokens. -/
theorem Node.reindented_moved {n : Node} {k : ObjectId} (h : n.Schematic) (hold : n.OlderThan k) (s : Shift)
    (first : Bool) : ∃ u k', n.reindented s first k = (.ok u, k') ∧ n.MovedAs s first k' u := by
  obtain ⟨u, s', hrun, hruns, hpassed⟩ := Node.transformTokens_runs s.isDoneBy_token first h hold
  have hsame : u = n ↔ Piece.Heads (fun p => s.begin p = [p]) first n.pieces := by
    rw [Node.pieces, ← Shift.leaves_iff, ← hruns.eq_iff hold.tokens]
    exact ⟨fun heq => by rw [heq], hpassed.kept⟩
  have hmoved : n.MovedAs s first s'.next u :=
    ⟨Shift.row_of_runs hruns, hpassed.agrees _ s.respects_pass, fun hid => hpassed.same (eq_of_beq hid), hsame,
      hpassed.schematic, hpassed.older, hruns.id_lt hold.tokens⟩
  unfold Node.reindented
  by_cases hdelta : s.delta = 0
  · have hstill : ∀ p, s.begin p = [p] := fun p => by
      rw [Shift.begin_eq_self, Shift.target, if_pos (by omega), hdelta]
      rfl
    have hun : u = n := hsame.2 (Piece.heads_of_forall hstill)
    rw [if_pos hdelta]
    subst hun
    exact ⟨u, k, rfl, { hmoved with older := hold }⟩
  · rw [if_neg hdelta, Work.runFrom, hrun]
    exact ⟨u, s'.next, rfl, hmoved⟩

namespace Node.MovedAs

variable {s : Shift} {first : Bool} {k : ObjectId} {n u : Node}

theorem fullText (h : n.MovedAs s first k u) : u.fullText = Piece.texts (Piece.respaced s.begin first n.pieces) := by
  have htokens : ∀ m : Node, m.fullText = (m.tokens.map Token.lexeme).flatMap Lexeme.fullText := fun m => by
    rw [List.flatMap_map]
    rfl
  have hpieces : n.pieces = (n.tokens.map Token.lexeme).flatMap Lexeme.pieces := by rw [List.flatMap_map, Node.pieces]
  rw [htokens u, h.tokens, hpieces, Shift.texts_row]

theorem pieces_eq (n : Node) : n.pieces = (n.tokens.map Token.lexeme).flatMap Lexeme.pieces := by
  rw [List.flatMap_map, Node.pieces]

/-- Two moves to the right are one. -/
theorem fullText_add {o : LayoutOptions} {a b m m' k' k'' : Nat} {v w : Node} (hu : n.MovedAs ⟨o, a, m⟩ first k u)
    (hv : u.MovedAs ⟨o, b, m'⟩ first k' v) (hw : n.MovedAs ⟨o, (a + b : Nat), m⟩ first k'' w) :
    v.fullText = w.fullText := by
  have hpieces : u.pieces = Piece.respaced (Shift.mk o a m).begin first n.pieces := by
    rw [pieces_eq, hu.tokens, Shift.pieces_row_right, ← pieces_eq]
  rw [hv.fullText, hw.fullText, hpieces, Piece.respaced_respaced Shift.begin_add Shift.startsBehind_right]

/-- **A move to the right and back** lays the starts of lines out anew, or is no move. -/
theorem pieces_back {o : LayoutOptions} {a m k' : Nat} {x : Node} (hu : n.MovedAs ⟨o, a, m⟩ first k u)
    (hx : u.MovedAs ⟨o, -(a : Int), 0⟩ first k' x) :
    x = n ∨ x.pieces = Piece.respaced (Piece.relaid o) first n.pieces := by
  rcases Nat.eq_zero_or_pos a with rfl | ha
  · have hun : u = n := hu.eq_iff.2 (Piece.heads_of_forall (fun _ => Shift.begin_still _))
    have hxu : x = u := hx.eq_iff.2 (Piece.heads_of_forall (fun _ => Shift.begin_still _))
    exact .inl (hxu.trans hun)
  · refine .inr ?_
    rw [pieces_eq, hx.tokens, hu.tokens, Shift.pieces_row_back ha, ← pieces_eq]

end Node.MovedAs

/-- The blanks that a line of the tree begins with are the ones that are written to reach their column. -/
def Node.IsIndented (o : LayoutOptions) (first : Bool) (n : Node) : Prop :=
  ∀ line ∈ Piece.startedLines first n.pieces, ∀ item rest, line = .trivia item :: rest → item.isWhitespace = true →
    item.text = o.indentation (o.columnAfter 0 item.text)

/-- Laying out anew what is indented changes no characters. -/
theorem Node.IsIndented.texts_relaid {o : LayoutOptions} {first : Bool} {n : Node} (h : n.IsIndented o first) :
    Piece.texts (Piece.respaced (Piece.relaid o) first n.pieces) = n.fullText := by
  rw [← Node.texts_pieces]
  refine Piece.texts_respaced (Piece.heads_iff.2 (fun line hline p rest hsplit _ => ?_))
  have hitem : p.isBlank = true → p.text = o.indentation (p.column o) := by
    intro hblank
    rw [Piece.column, if_pos hblank]
    cases p with
    | token => cases hblank
    | trivia item => exact h line hline item rest hsplit hblank
  unfold Piece.relaid Piece.behindBlanks
  by_cases hblank : p.isBlank = true
  · rw [if_pos hblank, hitem hblank]
    split
    · rename_i hcolumn
      rw [hcolumn]
      simp [LayoutOptions.indentation]
    · simp [LayoutOptions.indent, Piece.text]
  · have hcolumn : p.column o = 0 := if_neg hblank
    rw [if_neg hblank, if_pos hcolumn]
    simp

end Downlevel
