import Downlevel.Tree.Basic
import Mathlib.Data.List.Basic
/-!
# Proofs.Trivia.Pieces — code as a row of pieces, and the lines of it

The pieces of code are its items of trivia and the characters of its tokens, in document order.  They are cut into lines
behind every end of line (`Piece.lines`).  Whoever reads them one by one and knows only whether a line has just begun can
change the starts of lines (`Piece.respaced`); that is the same as changing line after line
(`Piece.respaced_eq_flatten`).
-/
namespace Downlevel

/-- An item of trivia, or the characters of a token and what they denote. -/
inductive Piece where
  | trivia (item : Trivia)
  | token (kind : TokenKind) (text : List Char) (value : TokenValue)

namespace Piece

def text : Piece → List Char
  | trivia item => item.text
  | token _ text _ => text

def isNewLine : Piece → Bool
  | trivia item => item.isNewLine
  | token _ _ _ => false

def isBlank : Piece → Bool
  | trivia item => item.isWhitespace
  | token _ _ _ => false

theorem isNewLine_of_isBlank {p : Piece} (h : p.isBlank = true) : p.isNewLine = false := by
  cases p with
  | token => rfl
  | trivia item =>
    have hkind : item.kind = .whitespace := eq_of_beq h
    simp [isNewLine, Trivia.isNewLine, hkind]

def texts (ps : List Piece) : List Char := ps.flatMap text

@[simp] theorem texts_nil : texts [] = [] := rfl

@[simp] theorem texts_cons (p : Piece) (ps : List Piece) : texts (p :: ps) = p.text ++ texts ps := rfl

@[simp] theorem texts_append (ps qs : List Piece) : texts (ps ++ qs) = texts ps ++ texts qs := List.flatMap_append

@[simp] theorem texts_map_trivia (items : List Trivia) : texts (items.map trivia) = Trivia.texts items := by
  rw [texts, List.flatMap_map]
  rfl

/-- A line starts behind the pieces, given whether one starts in front of them. -/
def startsBehind : Bool → List Piece → Bool
  | start, [] => start
  | _, p :: ps => startsBehind p.isNewLine ps

@[simp] theorem startsBehind_nil (start : Bool) : startsBehind start [] = start := rfl

@[simp] theorem startsBehind_cons (start : Bool) (p : Piece) (ps : List Piece) :
    startsBehind start (p :: ps) = startsBehind p.isNewLine ps := rfl

@[simp] theorem startsBehind_append (start : Bool) (ps qs : List Piece) :
    startsBehind start (ps ++ qs) = startsBehind (startsBehind start ps) qs := by
  induction ps generalizing start with
  | nil => rfl
  | cons p ps ih => exact ih p.isNewLine

/-! ## Lines -/

def firstLine : List Piece → List Piece
  | [] => []
  | p :: ps => if p.isNewLine then [p] else p :: firstLine ps

/-- The lines behind the first end of line; the last one may be empty. -/
def linesBehind : List Piece → List (List Piece)
  | [] => []
  | p :: ps => if p.isNewLine then firstLine ps :: linesBehind ps else linesBehind ps

/-- **The lines that pieces in a row are on**, each with its end of line; a line in front of which there is no end of line
need not start there. -/
def lines (ps : List Piece) : List (List Piece) := firstLine ps :: linesBehind ps

/-- The lines that start among the pieces; the flag says whether the first one does. -/
def startedLines (start : Bool) (ps : List Piece) : List (List Piece) :=
  if start then lines ps else linesBehind ps

/-- The lines with `move` applied to those that start among the pieces. -/
def movedLines (move : List Piece → List Piece) (start : Bool) (ps : List Piece) : List (List Piece) :=
  (if start then move (firstLine ps) else firstLine ps) :: (linesBehind ps).map move

theorem startedLines_cons {start : Bool} {p : Piece} {ps : List Piece} : startedLines start (p :: ps) =
    if p.isNewLine then (if start then [[p]] else []) ++ startedLines true ps
    else if start then (p :: firstLine ps) :: startedLines false ps else startedLines false ps := by
  cases start <;> by_cases hp : p.isNewLine = true <;> simp [startedLines, lines, firstLine, linesBehind, hp]

/-- **The lines are the pieces.** -/
theorem flatten_lines (ps : List Piece) : (lines ps).flatten = ps := by
  induction ps with
  | nil => rfl
  | cons p ps ih =>
    by_cases hp : p.isNewLine = true
    · rw [lines, firstLine, linesBehind, if_pos hp, if_pos hp, List.flatten_cons, ← lines, ih]
      rfl
    · rw [lines, firstLine, linesBehind, if_neg hp, if_neg hp, List.flatten_cons, List.cons_append, ← List.flatten_cons,
        ← lines, ih]

/-- A line begins with a piece that does not end it. -/
def IsInhabited (line : List Piece) : Prop := ∃ p rest, line = p :: rest ∧ p.isNewLine = false

/-! ## The starts of lines -/

variable {g g' g'' : Piece → List Piece} {start : Bool} {ps qs : List Piece} {p : Piece}

/-- The pieces with `g p` in place of each piece `p` that a line begins with, unless `p` ends the line. -/
def respaced (g : Piece → List Piece) : Bool → List Piece → List Piece
  | _, [] => []
  | start, p :: ps => (if start && !p.isNewLine then g p else [p]) ++ respaced g p.isNewLine ps

@[simp] theorem respaced_nil : respaced g start [] = [] := rfl

theorem respaced_newLine (hp : p.isNewLine = true) : respaced g start (p :: ps) = p :: respaced g true ps := by
  simp [respaced, hp]

theorem respaced_start (hp : p.isNewLine = false) : respaced g true (p :: ps) = g p ++ respaced g false ps := by
  simp [respaced, hp]

theorem respaced_within (hp : p.isNewLine = false) : respaced g false (p :: ps) = p :: respaced g false ps := by
  simp [respaced, hp]

theorem respaced_append (g : Piece → List Piece) (start : Bool) (ps qs : List Piece) :
    respaced g start (ps ++ qs) = respaced g start ps ++ respaced g (startsBehind start ps) qs := by
  induction ps generalizing start with
  | nil => rfl
  | cons p ps ih => rw [List.cons_append, respaced, ih, respaced, List.append_assoc, startsBehind_cons]

/-- A piece that stays at the start of a line, with blanks in front or not, is still what stands behind the pieces. -/
theorem startsBehind_respaced (hg : ∀ p, p.isNewLine = false → startsBehind true (g p) = false) (start : Bool)
    (ps : List Piece) : startsBehind start (respaced g start ps) = startsBehind start ps := by
  induction ps generalizing start with
  | nil => rfl
  | cons p ps ih =>
    cases hp : p.isNewLine with
    | true => rw [respaced_newLine hp, startsBehind_cons, startsBehind_cons, hp, ih]
    | false =>
      cases start with
      | true => rw [respaced_start hp, startsBehind_append, hg p hp, startsBehind_cons, hp, ih]
      | false => rw [respaced_within hp, startsBehind_cons, startsBehind_cons, hp, ih]

/-- **Two changes of the starts of lines are one**, if the first one leaves something at the start of every line. -/
theorem respaced_respaced (h : ∀ p, p.isNewLine = false → respaced g' true (g p) = g'' p)
    (hg : ∀ p, p.isNewLine = false → startsBehind true (g p) = false) (start : Bool) (ps : List Piece) :
    respaced g' start (respaced g start ps) = respaced g'' start ps := by
  induction ps generalizing start with
  | nil => rfl
  | cons p ps ih =>
    cases hp : p.isNewLine with
    | true => rw [respaced_newLine hp, respaced_newLine hp, respaced_newLine hp, ih]
    | false =>
      cases start with
      | true => rw [respaced_start hp, respaced_start hp, respaced_append, h p hp, hg p hp, ih]
      | false => rw [respaced_within hp, respaced_within hp, respaced_within hp, ih]

/-! ## One line after the other -/

/-- A line with `g p` in place of the piece `p` that it begins with, unless that ends the line. -/
def headed (g : Piece → List Piece) : List Piece → List Piece
  | [] => []
  | p :: rest => if p.isNewLine then p :: rest else g p ++ rest

/-- **Changing the starts of lines while reading is changing line after line.** -/
theorem respaced_eq_flatten (g : Piece → List Piece) (start : Bool) (ps : List Piece) :
    respaced g start ps = (movedLines (headed g) start ps).flatten := by
  induction ps generalizing start with
  | nil => cases start <;> rfl
  | cons p ps ih =>
    cases hp : p.isNewLine with
    | true =>
      rw [respaced_newLine hp, ih]
      cases start <;> simp [movedLines, firstLine, linesBehind, headed, hp]
    | false =>
      cases start with
      | true =>
        rw [respaced_start hp, ih]
        simp [movedLines, firstLine, linesBehind, headed, hp]
      | false =>
        rw [respaced_within hp, ih]
        simp [movedLines, firstLine, linesBehind, hp]

theorem movedLines_congr {move move' : List Piece → List Piece} (h : ∀ line ∈ startedLines start ps, move line = move' line) :
    movedLines move start ps = movedLines move' start ps := by
  cases start with
  | true =>
    have hall : ∀ line ∈ lines ps, move line = move' line := h
    simp only [movedLines, if_pos]
    rw [hall _ List.mem_cons_self, List.map_congr_left (fun line hline => hall line (List.mem_cons_of_mem _ hline))]
  | false =>
    have hall : ∀ line ∈ linesBehind ps, move line = move' line := h
    simp only [movedLines, Bool.false_eq_true, if_false]
    rw [List.map_congr_left hall]

/-- Every piece that a line begins with, unless it ends the line, has the property. -/
def Heads (P : Piece → Prop) : Bool → List Piece → Prop
  | _, [] => True
  | start, p :: ps => (start = true → p.isNewLine = false → P p) ∧ Heads P p.isNewLine ps

theorem heads_append {P : Piece → Prop} : Heads P start (ps ++ qs) ↔ Heads P start ps ∧ Heads P (startsBehind start ps) qs := by
  induction ps generalizing start with
  | nil => simp [Heads]
  | cons p ps ih => rw [List.cons_append, Heads, ih, Heads, startsBehind_cons, and_assoc]

/-- What is known of the pieces that lines begin with is known line by line. -/
theorem heads_iff {P : Piece → Prop} : Heads P start ps ↔
    ∀ line ∈ startedLines start ps, ∀ p rest, line = p :: rest → p.isNewLine = false → P p := by
  induction ps generalizing start with
  | nil => cases start <;> simp [Heads, startedLines, lines, firstLine, linesBehind]
  | cons p ps ih =>
    rw [Heads, ih, startedLines_cons]
    cases hp : p.isNewLine <;> cases start <;> simp [hp]

theorem heads_of_forall {P : Piece → Prop} (h : ∀ p, P p) : Heads P start ps := by
  induction ps generalizing start with
  | nil => trivial
  | cons p ps ih => exact ⟨fun _ _ => h p, ih⟩

/-- If every line begins as it should, nothing is changed. -/
theorem respaced_eq_self (h : Heads (fun p => g p = [p]) start ps) : respaced g start ps = ps := by
  induction ps generalizing start with
  | nil => rfl
  | cons p ps ih =>
    obtain ⟨hhere, hrest⟩ := h
    rw [respaced, ih hrest]
    split
    · rename_i hstart
      rw [Bool.and_eq_true, Bool.not_eq_true'] at hstart
      rw [hhere hstart.1 hstart.2]
      rfl
    · rfl

/-- If every line begins with the same characters as before, the text stays. -/
theorem texts_respaced (h : Heads (fun p => texts (g p) = p.text) start ps) : texts (respaced g start ps) = texts ps := by
  induction ps generalizing start with
  | nil => rfl
  | cons p ps ih =>
    obtain ⟨hhere, hrest⟩ := h
    rw [respaced, texts_append, texts_cons, ih hrest]
    split
    · rename_i hstart
      rw [Bool.and_eq_true, Bool.not_eq_true'] at hstart
      rw [hhere hstart.1 hstart.2]
    · rw [texts_cons, texts_nil, List.append_nil]

theorem firstLine_append (h : ∀ p ∈ ps, p.isNewLine = false) : firstLine (ps ++ qs) = ps ++ firstLine qs := by
  induction ps with
  | nil => rfl
  | cons p ps ih =>
    rw [List.cons_append, firstLine, if_neg (by simp [h p]), ih (fun q hq => h q (List.mem_cons_of_mem _ hq))]
    rfl

theorem linesBehind_append (h : ∀ p ∈ ps, p.isNewLine = false) : linesBehind (ps ++ qs) = linesBehind qs := by
  induction ps with
  | nil => rfl
  | cons p ps ih =>
    rw [List.cons_append, linesBehind, if_neg (by simp [h p]), ih (fun q hq => h q (List.mem_cons_of_mem _ hq))]

/-- Pieces that are not changed by `g` stay. -/
theorem filter_respaced {keep : Piece → Bool} (hg : ∀ p, p.isNewLine = false → (g p).filter keep = [p].filter keep)
    (start : Bool) (ps : List Piece) : (respaced g start ps).filter keep = ps.filter keep := by
  induction ps generalizing start with
  | nil => rfl
  | cons p ps ih =>
    rw [respaced, List.filter_append, ih, ← List.singleton_append (l := ps), List.filter_append]
    split
    · rename_i hstart
      rw [Bool.and_eq_true, Bool.not_eq_true'] at hstart
      rw [hg p hstart.2]
    · rfl

/-- **The lines of what is changed are the lines, changed one by one.** -/
theorem lines_respaced (hg : ∀ p, p.isNewLine = false → ∀ q ∈ g p, q.isNewLine = false) (start : Bool)
    (ps : List Piece) : lines (respaced g start ps) = movedLines (headed g) start ps := by
  induction ps generalizing start with
  | nil => cases start <;> rfl
  | cons p ps ih =>
    cases hp : p.isNewLine with
    | true =>
      have hrest := ih true
      rw [respaced_newLine hp, lines, firstLine, linesBehind, if_pos hp, if_pos hp, ← lines, hrest]
      cases start <;> simp [movedLines, firstLine, linesBehind, headed, hp]
    | false =>
      have hrest := ih false
      rw [lines, movedLines, if_neg Bool.false_ne_true, List.cons.injEq] at hrest
      cases start with
      | true =>
        rw [respaced_start hp, lines, firstLine_append (hg p hp), linesBehind_append (hg p hp), hrest.1, hrest.2]
        simp [movedLines, firstLine, linesBehind, headed, hp]
      | false =>
        rw [respaced_within hp, lines, firstLine, linesBehind, hp, if_neg Bool.false_ne_true, if_neg Bool.false_ne_true,
          hrest.1, hrest.2]
        simp [movedLines, firstLine, linesBehind, hp]

/-- A run of blanks that a line begins with has something else behind it. -/
def Even : Bool → List Piece → Prop
  | _, [] => True
  | start, p :: ps =>
    (start = true → p.isBlank = true → ∃ q qs, ps = q :: qs ∧ q.isBlank = false) ∧ Even p.isNewLine ps

theorem Even.append (hp : Even start ps) (hq : Even (startsBehind start ps) qs) : Even start (ps ++ qs) := by
  induction ps generalizing start with
  | nil => exact hq
  | cons p ps ih =>
    refine ⟨fun hstart hblank => ?_, ih hp.2 hq⟩
    obtain ⟨q, rest, rfl, hrest⟩ := hp.1 hstart hblank
    exact ⟨q, rest ++ qs, rfl, hrest⟩

/-- No line begins with two runs of blanks. -/
theorem Even.lines (h : Even start ps) :
    ∀ line ∈ startedLines start ps, ∀ p rest, line = p :: rest → p.isBlank = true →
      ∃ q qs, rest = q :: qs ∧ q.isBlank = false := by
  induction ps generalizing start with
  | nil => cases start <;> simp [startedLines, Piece.lines, firstLine, linesBehind]
  | cons p ps ih =>
    obtain ⟨hhere, hrest⟩ := h
    have hbehind := ih hrest
    rw [startedLines_cons]
    -- An end of line closes the line that was open and opens another; anything else goes on with the one that is
    -- open.
    cases hp : p.isNewLine with
    | true =>
      rw [hp] at hbehind
      intro line hline q rest hsplit hblank
      rcases List.mem_append.1 hline with hline | hline
      · cases start with
        | false => cases hline
        | true =>
          obtain rfl := List.mem_singleton.1 hline
          cases hsplit
          rw [isNewLine_of_isBlank hblank] at hp
          cases hp
      · exact hbehind line hline q rest hsplit hblank
    | false =>
      rw [hp] at hbehind
      cases start with
      | false => exact hbehind
      | true =>
        intro line hline q rest hsplit hblank
        rcases List.mem_cons.1 hline with rfl | hline
        · cases hsplit
          obtain ⟨r, qs, rfl, hr⟩ := hhere rfl hblank
          rw [firstLine]
          split
          · exact ⟨r, [], rfl, hr⟩
          · exact ⟨r, firstLine qs, rfl, hr⟩
        · exact hbehind line hline q rest hsplit hblank

end Piece

/-! ## The pieces of tokens -/

/-- The pieces of a token; a token that was left out has none. -/
def Lexeme.pieces (l : Lexeme) : List Piece :=
  if l.fullWidth = 0 then []
  else l.leading.toList.map .trivia ++ .token l.kind l.text l.value :: l.trailing.toList.map .trivia

/-- **The pieces of a tree**, in document order. -/
def Node.pieces (n : Node) : List Piece := n.tokens.flatMap (fun t => t.lexeme.pieces)

namespace Lexeme

variable {l : Lexeme}

theorem pieces_of_missing (h : l.fullWidth = 0) : l.pieces = [] := if_pos h

theorem pieces_of_fullWidth (h : l.fullWidth ≠ 0) : l.pieces =
    l.leading.toList.map .trivia ++ .token l.kind l.text l.value :: l.trailing.toList.map .trivia := if_neg h

theorem fullWidth_eq_zero_iff : l.fullWidth = 0 ↔ l.fullText = [] := by
  rw [fullWidth_eq]
  cases l.fullText with
  | nil => simp
  | cons c cs =>
    have hpos : 0 < c.utf8Size := c.utf8Size_pos
    simp only [Text.width, reduceCtorEq, iff_false]
    omega

/-- **The pieces of a token are its text.** -/
@[simp] theorem texts_pieces (l : Lexeme) : Piece.texts l.pieces = l.fullText := by
  unfold pieces
  split
  · rename_i h
    rw [fullWidth_eq_zero_iff.1 h]
    rfl
  · simp [fullText, TriviaList.fullText, Piece.text]

end Lexeme

/-- **The pieces of a tree are its text.** -/
theorem Node.texts_pieces (n : Node) : Piece.texts n.pieces = n.fullText := by
  rw [pieces, Piece.texts, List.flatMap_assoc]
  exact List.flatMap_congr (fun t _ => t.lexeme.texts_pieces)

end Downlevel
