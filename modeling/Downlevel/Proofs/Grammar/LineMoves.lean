import Downlevel.Proofs.Grammar.Forms
import Downlevel.Proofs.Tree.Reindented
import Mathlib.Data.List.DropRight
/-!
# Proofs.Grammar.LineMoves — moving the lines of parsed code

A shift reads trivia item by item and never sees a line.  In trivia that was cut off a text no line begins with two runs
of blanks, and behind the characters of a token no line begins with trivia (`Lexeme.Proper.even`,
`Shift.trailing_lexeme`).  So moving the lines of parsed code does to each of its lines what `Shift.line` says of a line
(`Node.reindented_lines`).
-/
namespace Downlevel

namespace Piece

variable {start : Bool} {items : List Trivia} {core p : Piece} {rest line : List Piece}

/-! ## Trivia as it is cut off a text -/

/-- In front of the characters of a token, blanks have a comment, an end of line or the characters behind them. -/
theorem even_leading (h : items.IsChain (fun a b => a.isWhitespace = true → b.isWhitespace = false))
    (hcore : core.isBlank = false) (hrest : Even core.isNewLine rest) :
    Even start (items.map .trivia ++ core :: rest) := by
  induction items generalizing start with
  | nil => exact ⟨fun _ hblank => absurd hblank (by simp [hcore]), hrest⟩
  | cons item items ih =>
    obtain ⟨hnext, htail⟩ := List.isChain_cons.1 h
    refine ⟨fun _ hblank => ?_, ih htail⟩
    cases items with
    | nil => exact ⟨core, rest, rfl, hcore⟩
    | cons next items => exact ⟨.trivia next, _, rfl, hnext next rfl hblank⟩

/-- Behind the characters of a token, no line begins in front of the next token. -/
theorem even_trailing (h : ∀ item ∈ items.dropLast, item.isNewLine = false) :
    Even false (items.map .trivia) ∧ ∀ P : Piece → Prop, Heads P false (items.map .trivia) := by
  induction items with
  | nil => exact ⟨trivial, fun _ => trivial⟩
  | cons item items ih =>
    cases items with
    | nil => exact ⟨⟨fun hstart => (by cases hstart), trivial⟩, fun _ => ⟨fun hstart => (by cases hstart), trivial⟩⟩
    | cons next items =>
      obtain ⟨hitem, hitems⟩ := List.forall_mem_cons.1 (show ∀ x ∈ item :: (next :: items).dropLast, _ from h)
      obtain ⟨heven, hheads⟩ := ih hitems
      have hline : (Piece.trivia item).isNewLine = false := hitem
      rw [List.map_cons, Even, hline]
      refine ⟨⟨fun hstart => (by cases hstart), heven⟩, fun P => ?_⟩
      rw [Heads, hline]
      exact ⟨fun hstart => (by cases hstart), hheads P⟩

end Piece

/-- **No line of proper tokens begins with two runs of blanks.** -/
theorem Lexeme.Proper.even {l : Lexeme} (h : l.Proper) (start : Bool) : Piece.Even start l.pieces := by
  unfold Lexeme.pieces
  split
  · trivial
  · exact Piece.even_leading h.leading rfl (Piece.even_trailing h.trailing).1

theorem Node.even_pieces {n : Node} (h : ∀ t ∈ n.tokens, t.lexeme.Proper) (first : Bool) :
    Piece.Even first n.pieces := by
  unfold Node.pieces
  generalize n.tokens = ts at h
  induction ts generalizing first with
  | nil => trivial
  | cons t ts ih =>
    obtain ⟨ht, hts⟩ := List.forall_mem_cons.1 h
    exact (ht.even first).append (ih _ hts)

/-- The trivia behind the characters of a proper token stays. -/
theorem Shift.trailing_lexeme {l : Lexeme} (h : l.Proper) (s : Shift) (start : Bool) :
    (s.lexeme start l).trailing = l.trailing := by
  by_cases hwidth : l.fullWidth = 0
  · rw [Shift.lexeme_of_fullWidth hwidth]
  · have hmoves := s.moves_trailing l.trailing
    rw [Shift.lexeme_eq hwidth]
    exact hmoves.ofList (hmoves.changed.2 ((Piece.even_trailing h.trailing).2 _))

/-- The second token is the first one but for blanks in front of its characters. -/
structure Lexeme.IsRespaced (l l' : Lexeme) : Prop where
  kind : l'.kind = l.kind
  text : l'.text = l.text
  value : l'.value = l.value
  leading : l'.leading.toList.filter (fun item => !item.isWhitespace) = l.leading.toList.filter (fun item => !item.isWhitespace)
  trailing : l'.trailing = l.trailing

/-- **A shift touches a proper token only by the blanks in front of its characters.** -/
theorem Lexeme.Proper.isRespaced {l : Lexeme} (h : l.Proper) (s : Shift) (start : Bool) :
    l.IsRespaced (s.lexeme start l) :=
  ⟨(s.kind_lexeme start l).1, (s.kind_lexeme start l).2.1, (s.kind_lexeme start l).2.2, (s.filter_lexeme start l).1,
    Shift.trailing_lexeme h s start⟩

/-! ## One line -/

namespace Piece

variable {p : Piece} {rest : List Piece} {o : LayoutOptions}

/-- A line that begins with one run of blanks at most starts at the column of what it begins with. -/
theorem lineColumn_cons (h : p.isBlank = true → ∃ q qs, rest = q :: qs ∧ q.isBlank = false) :
    lineColumn o (p :: rest) = p.column o := by
  unfold lineColumn column
  by_cases hblank : p.isBlank = true
  · obtain ⟨q, qs, rfl, hq⟩ := h hblank
    simp [hblank, hq]
  · simp [hblank, LayoutOptions.columnAfter]

theorem dropWhile_cons (h : p.isBlank = true → ∃ q qs, rest = q :: qs ∧ q.isBlank = false) :
    (p :: rest).dropWhile isBlank = p.behindBlanks ++ rest := by
  unfold behindBlanks
  by_cases hblank : p.isBlank = true
  · obtain ⟨q, qs, rfl, hq⟩ := h hblank
    simp [hblank, hq]
  · simp [hblank]

end Piece

namespace Shift

variable {s : Shift} {ps : List Piece}

/-- **A line, moved.**  It gets other blanks in front of what it holds, unless it is to start where it does.  A line
that is empty, or ends at once, stays. -/
def line (s : Shift) : List Piece → List Piece
  | [] => []
  | p :: rest =>
    if p.isNewLine then p :: rest
    else if s.target (Piece.lineColumn s.options (p :: rest)) = Piece.lineColumn s.options (p :: rest) then p :: rest
    else (s.blanks (s.target (Piece.lineColumn s.options (p :: rest)))).map .trivia ++
      (p :: rest).dropWhile Piece.isBlank

/-- A line that begins with one run of blanks at most is moved by changing what it begins with. -/
theorem headed_begin (h : ∀ p rest, ps = p :: rest → p.isBlank = true → ∃ q qs, rest = q :: qs ∧ q.isBlank = false) :
    Piece.headed s.begin ps = s.line ps := by
  cases ps with
  | nil => rfl
  | cons p rest =>
    have hp := h p rest rfl
    rw [Piece.headed, Shift.line, Piece.lineColumn_cons hp, Piece.dropWhile_cons hp, begin]
    split
    · rfl
    split
    · rfl
    · rw [List.append_assoc]

/-- What the line holds stays. -/
theorem dropWhile_line (s : Shift) (ps : List Piece) :
    (s.line ps).dropWhile Piece.isBlank = ps.dropWhile Piece.isBlank := by
  cases ps with
  | nil => rfl
  | cons p rest =>
    rw [Shift.line]
    split
    · rfl
    split
    · rfl
    · have hdrop := List.dropWhile_idempotent Piece.isBlank
      rw [map_blanks]
      split
      · exact hdrop _
      · rw [List.singleton_append, List.dropWhile_cons_of_pos (Piece.isBlank_indent _ _), hdrop]

theorem line_of_not_inhabited (h : ¬ Piece.IsInhabited ps) : s.line ps = ps ∧ Piece.lineColumn s.options ps = 0 := by
  cases ps with
  | nil => exact ⟨rfl, rfl⟩
  | cons p rest =>
    have hp : p.isNewLine = true := by
      cases hp : p.isNewLine with
      | true => rfl
      | false => exact absurd ⟨p, rest, rfl, hp⟩ h
    have hblank : p.isBlank = false := by
      cases hblank : p.isBlank with
      | false => rfl
      | true => rw [Piece.isNewLine_of_isBlank hblank] at hp; cases hp
    exact ⟨if_pos hp, by simp [Piece.lineColumn, hblank, LayoutOptions.columnAfter]⟩

/-- **A line starts where it is to** after it was moved. -/
theorem lineColumn_line (h : Piece.IsInhabited ps) :
    Piece.lineColumn s.options (s.line ps) = s.target (Piece.lineColumn s.options ps) := by
  obtain ⟨p, rest, rfl, hp⟩ := h
  rw [Shift.line, if_neg (by simp [hp])]
  split
  · rename_i hstays
    exact hstays.symm
  · have htake : ∀ qs : List Piece, (qs.dropWhile Piece.isBlank).takeWhile Piece.isBlank = [] := fun qs => by
      rw [List.takeWhile_eq_nil_iff]
      intro hpos
      simpa using List.dropWhile_get_zero_not Piece.isBlank qs hpos
    rw [map_blanks]
    split
    · rename_i hzero
      rw [List.nil_append, Piece.lineColumn, htake, hzero]
      rfl
    · rw [List.singleton_append, Piece.lineColumn, List.takeWhile_cons_of_pos (Piece.isBlank_indent _ _), htake,
        Piece.texts_cons, Piece.texts_nil, List.append_nil]
      exact s.options.columnAfter_indentation _

/-- A line stays exactly if it starts where it is to. -/
theorem begin_eq_self_iff {p : Piece} {rest : List Piece} (hp : p.isNewLine = false)
    (h : p.isBlank = true → ∃ q qs, rest = q :: qs ∧ q.isBlank = false) : s.begin p = [p] ↔
      Piece.lineColumn s.options (s.line (p :: rest)) = Piece.lineColumn s.options (p :: rest) := by
  rw [lineColumn_line ⟨p, rest, rfl, hp⟩, Piece.lineColumn_cons h, begin_eq_self]

/-- A move to the left changes the order of no two columns. -/
theorem target_le (h : s.delta < 0) {column column' : Nat} (hle : column ≤ column') : s.target column ≤ s.target column' := by
  simp only [target, if_neg (Int.not_le.2 h)]
  split <;> split <;> omega

theorem lineColumn_line_left (h : s.delta < 0) (ps : List Piece) :
    Piece.lineColumn s.options (s.line ps) = s.target (Piece.lineColumn s.options ps) := by
  by_cases hline : Piece.IsInhabited ps
  · exact lineColumn_line hline
  · obtain ⟨hstays, hcolumn⟩ := line_of_not_inhabited (s := s) hline
    rw [hstays, hcolumn, target, if_neg (Int.not_le.2 h), if_pos (Nat.zero_le _)]

/-- What a shift does to every token of a row, wherever that stands. -/
theorem forall₂_row {R : Lexeme → Lexeme → Prop} {ls : List Lexeme} (h : ∀ l ∈ ls, ∀ start, R l (s.lexeme start l))
    (start : Bool) : List.Forall₂ R ls (s.row start ls) := by
  induction ls generalizing start with
  | nil => exact .nil
  | cons l ls ih =>
    obtain ⟨hl, hls⟩ := List.forall_mem_cons.1 h
    exact .cons (hl start) (ih hls _)

end Shift

/-! ## Parsed trees -/

end Downlevel
