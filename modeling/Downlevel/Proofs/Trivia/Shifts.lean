import Downlevel.Proofs.Trivia.Pieces
import Downlevel.Trivia.Placement
/-!
# Proofs.Trivia.Shifts — a shift changes the starts of lines only

A shift reads trivia item by item, tokens apart, and carries along whether a line has just begun.  Read as pieces, it
changes what a line begins with and nothing else (`Shift.moves_items`, `Shift.fullText_lexeme`).  A move to the right
leaves blanks at the start of every line, so a second shift finds what the first one wrote there: two moves to the right
are one (`Shift.begin_add`), and a move back writes the columns that there were (`Shift.pieces_row_back`).
-/
namespace Downlevel

namespace LayoutOptions

theorem columnAfter_append (o : LayoutOptions) (column : Nat) (s t : List Char) :
    o.columnAfter column (s ++ t) = o.columnAfter (o.columnAfter column s) t := by simp [columnAfter]

theorem le_columnBehind (size column : Nat) (c : Char) (h : 0 < size) : column < columnBehind size column c := by
  unfold columnBehind
  split
  · have hmod := Nat.mod_lt column h
    omega
  · exact Nat.lt_succ_self column

theorem le_columnAfter (o : LayoutOptions) (column : Nat) (text : List Char) : column ≤ o.columnAfter column text := by
  induction text generalizing column with
  | nil => exact Nat.le_refl _
  | cons c text ih => exact Nat.le_trans (Nat.le_of_lt (le_columnBehind o.tabSize column c o.tabSize_pos)) (ih _)

/-- Whatever has characters reaches a column. -/
theorem eq_nil_of_columnAfter {o : LayoutOptions} {text : List Char} (h : o.columnAfter 0 text = 0) : text = [] := by
  cases text with
  | nil => rfl
  | cons c text =>
    have hstep := le_columnBehind o.tabSize 0 c o.tabSize_pos
    have hrest := o.le_columnAfter (columnBehind o.tabSize 0 c) text
    have hall : o.columnAfter (columnBehind o.tabSize 0 c) text = 0 := h
    omega

theorem indentation_ne_nil (o : LayoutOptions) {column : Nat} (h : 0 < column) : o.indentation column ≠ [] := by
  intro hnil
  have hcolumn := o.columnAfter_indentation column
  rw [hnil] at hcolumn
  exact absurd hcolumn.symm (Nat.ne_of_gt h)

/-- The blanks that reach a column, as a piece. -/
def indent (o : LayoutOptions) (column : Nat) : Piece := .trivia ⟨.whitespace, o.indentation column⟩

end LayoutOptions

namespace Piece

variable {p : Piece} {o : LayoutOptions}

/-- The column that blanks at the start of a line reach; anything else there starts at the first column. -/
def column (o : LayoutOptions) (p : Piece) : Nat := if p.isBlank then o.columnAfter 0 p.text else 0

/-- The piece, if it is more than blanks. -/
def behindBlanks (p : Piece) : List Piece := if p.isBlank then [] else [p]

@[simp] theorem isBlank_indent (o : LayoutOptions) (column : Nat) : (o.indent column).isBlank = true := rfl

@[simp] theorem isNewLine_indent (o : LayoutOptions) (column : Nat) : (o.indent column).isNewLine = false := rfl

@[simp] theorem column_indent (o : LayoutOptions) (column : Nat) : (o.indent column).column o = column :=
  o.columnAfter_indentation column

@[simp] theorem behindBlanks_indent (o : LayoutOptions) (column : Nat) : (o.indent column).behindBlanks = [] := rfl

/-- A line that begins with blanks and the piece, laid out anew: its blanks reach the column where it began. -/
def relaid (o : LayoutOptions) (p : Piece) : List Piece :=
  if p.column o = 0 then p.behindBlanks else o.indent (p.column o) :: p.behindBlanks

/-- A line laid out anew has characters if it had some. -/
theorem text_eq_nil_of_relaid (h : texts (p.relaid o) = []) : p.text = [] := by
  unfold relaid at h
  split at h
  · rename_i hcolumn
    unfold column at hcolumn
    unfold behindBlanks at h
    split at h
    · rename_i hblank
      rw [if_pos hblank] at hcolumn
      exact LayoutOptions.eq_nil_of_columnAfter hcolumn
    · simpa using h
  · rename_i hcolumn
    rw [texts_cons] at h
    exact absurd (List.append_eq_nil_iff.1 h).1 (o.indentation_ne_nil (Nat.pos_of_ne_zero hcolumn))

/-- What changes the starts of lines so that characters stay characters leaves no token without any. -/
theorem texts_eq_nil_of_respaced {g : Piece → List Piece}
    (hg : ∀ p, p.isNewLine = false → texts (g p) = [] → p.text = []) {start : Bool} {ps : List Piece}
    (h : texts (respaced g start ps) = []) : texts ps = [] := by
  induction ps generalizing start with
  | nil => rfl
  | cons p ps ih =>
    rw [respaced, texts_append] at h
    obtain ⟨hhere, hrest⟩ := List.append_eq_nil_iff.1 h
    rw [texts_cons, ih hrest, List.append_nil]
    split at hhere
    · rename_i hstart
      rw [Bool.and_eq_true, Bool.not_eq_true'] at hstart
      exact hg p hstart.2 hhere
    · simpa using hhere

end Piece

namespace Shift

variable {s : Shift} {p : Piece} {start : Bool} {l : Lexeme}

/-- What a line that begins with the piece begins with after the move. -/
def begin (s : Shift) (p : Piece) : List Piece :=
  if s.target (p.column s.options) = p.column s.options then [p]
  else (s.blanks (s.target (p.column s.options))).map .trivia ++ p.behindBlanks

theorem map_blanks (s : Shift) (column : Nat) :
    (s.blanks column).map Piece.trivia = if column = 0 then [] else [s.options.indent column] := by
  unfold blanks
  split
  · rw [if_neg (by omega)]
    rfl
  · rw [if_pos (by omega)]
    rfl

/-- A line is left alone exactly if it starts where it is to start. -/
theorem begin_eq_self : s.begin p = [p] ↔ s.target (p.column s.options) = p.column s.options := by
  constructor
  · intro h
    unfold begin at h
    split at h
    · assumption
    · rename_i hmoved
      exfalso
      rw [map_blanks] at h
      unfold Piece.behindBlanks at h
      by_cases hzero : s.target (p.column s.options) = 0
      · rw [if_pos hzero] at h
        split at h
        · cases h
        · rename_i hblank
          have hcolumn : p.column s.options = 0 := if_neg hblank
          exact hmoved (hzero.trans hcolumn.symm)
      · rw [if_neg hzero] at h
        split at h
        · have hp : s.options.indent (s.target (p.column s.options)) = p := (List.cons.inj h).1
          exact hmoved ((Piece.column_indent _ _).symm.trans (congrArg (Piece.column s.options) hp))
        · exact absurd (congrArg List.length h) (by simp)
  · exact fun h => if_pos h

theorem items_start (s : Shift) {item : Trivia} (rest : List Trivia) (h : item.isNewLine = false) :
    ∃ lead changed, s.items true (item :: rest) =
        ⟨lead ++ (s.items false rest).items, (s.items false rest).changed || changed, (s.items false rest).atLineStart⟩ ∧
      lead.map Piece.trivia = s.begin (.trivia item) ∧
      (changed = false ↔ s.target ((Piece.trivia item).column s.options) = (Piece.trivia item).column s.options) := by
  rw [items, h]
  cases hblank : item.isWhitespace with
  | true =>
    have hcolumn : (Piece.trivia item).column s.options = s.options.columnAfter 0 item.text := if_pos hblank
    have hrest : (Piece.trivia item).behindBlanks = [] := if_pos hblank
    rw [hcolumn]
    by_cases hstays : s.target (s.options.columnAfter 0 item.text) = s.options.columnAfter 0 item.text
    · refine ⟨[item], false, by simp [hstays], ?_, by simp [hstays]⟩
      rw [begin, hcolumn, if_pos hstays]
      rfl
    · refine ⟨s.blanks (s.target (s.options.columnAfter 0 item.text)), true, by simp [hstays], ?_, by simp [hstays]⟩
      rw [begin, hcolumn, if_neg hstays, hrest, List.append_nil]
  | false =>
    have hcolumn : (Piece.trivia item).column s.options = 0 := if_neg (by simp [Piece.isBlank, hblank])
    have hrest : (Piece.trivia item).behindBlanks = [.trivia item] := if_neg (by simp [Piece.isBlank, hblank])
    rw [hcolumn]
    refine ⟨s.blanks (s.target 0) ++ [item], !(s.blanks (s.target 0)).isEmpty, by simp, ?_, ?_⟩
    · rw [begin, hcolumn, hrest, List.map_append, map_blanks]
      by_cases hstays : s.target 0 = 0 <;> simp [hstays]
    · by_cases hstays : s.target 0 = 0
      · simp [blanks, hstays]
      · simp [blanks, hstays, Nat.pos_of_ne_zero hstays]

/-- What was moved, read as pieces that begin at a place: their lines begin as they are to, and it is known whether that
changed them and whether a line starts behind them. -/
structure Outcome.Moves (r : Outcome) (s : Shift) (start : Bool) (ps : List Piece) : Prop where
  items : r.items.map Piece.trivia = Piece.respaced s.begin start ps
  changed : r.changed = false ↔ Piece.Heads (fun p => s.begin p = [p]) start ps
  atLineStart : r.atLineStart = Piece.startsBehind start ps

/-- **A shift of trivia changes what lines begin with.** -/
theorem moves_items (s : Shift) (start : Bool) (items : List Trivia) :
    (s.items start items).Moves s start (items.map .trivia) := by
  induction items generalizing start with
  | nil => exact ⟨rfl, by simp [Shift.items, Piece.Heads], rfl⟩
  | cons item rest ih =>
    -- An end of line sets the flag again; any other item is moved only if the flag is set, and clears it.
    cases hline : item.isNewLine with
    | true =>
      have hpiece : (Piece.trivia item).isNewLine = true := hline
      have hitems : s.items start (item :: rest) =
          { s.items true rest with items := item :: (s.items true rest).items } := by rw [Shift.items, if_pos hline]
      rw [hitems, List.map_cons]
      refine ⟨?_, ?_, ?_⟩
      · rw [Piece.respaced_newLine hpiece, List.map_cons, (ih true).items]
      · rw [Piece.Heads, hpiece, (ih true).changed]
        simp
      · rw [Piece.startsBehind_cons, hpiece]
        exact (ih true).atLineStart
    | false =>
      have hpiece : (Piece.trivia item).isNewLine = false := hline
      cases start with
      | true =>
        obtain ⟨lead, changed, hitems, hlead, hchanged⟩ := s.items_start rest hline
        rw [hitems, List.map_cons]
        refine ⟨?_, ?_, ?_⟩
        · rw [Piece.respaced_start hpiece, List.map_append, (ih false).items, hlead]
        · rw [Piece.Heads, hpiece, ← (ih false).changed, begin_eq_self, ← hchanged]
          simp [and_comm]
        · rw [Piece.startsBehind_cons, hpiece]
          exact (ih false).atLineStart
      | false =>
        have hitems : s.items false (item :: rest) =
            { s.items false rest with items := item :: (s.items false rest).items } := by
          rw [Shift.items, if_neg (by simp [hline])]
          rfl
        rw [hitems, List.map_cons]
        refine ⟨?_, ?_, ?_⟩
        · rw [Piece.respaced_within hpiece, List.map_cons, (ih false).items]
        · rw [Piece.Heads, hpiece, (ih false).changed]
          simp
        · rw [Piece.startsBehind_cons, hpiece]
          exact (ih false).atLineStart

/-- Trivia behind the characters of a token stays on their line up to its first end of line. -/
theorem moves_trailing (s : Shift) (t : TriviaList) : (s.apply false false t).Moves s false (t.toList.map .trivia) :=
  s.moves_items false t.toList

/-- **In front of the characters of a token**, a line that is left open begins with them. -/
theorem leading_moves (s : Shift) (start : Bool) (t : TriviaList) (core : Piece) (hline : core.isNewLine = false)
    (hblank : core.isBlank = false) :
    (s.apply start true t).items.map .trivia ++ [core] = Piece.respaced s.begin start (t.toList.map .trivia ++ [core]) ∧
      ((s.apply start true t).changed = false ↔
        Piece.Heads (fun p => s.begin p = [p]) start (t.toList.map .trivia ++ [core])) ∧
      (s.apply start true t).atLineStart = false := by
  have hmoves := s.moves_items start t.toList
  have hcolumn : core.column s.options = 0 := if_neg (by simp [hblank])
  have hrest : core.behindBlanks = [core] := if_neg (by simp [hblank])
  have hbegin : s.begin core = (s.blanks (s.target 0)).map .trivia ++ [core] := by
    rw [begin, hcolumn, hrest, map_blanks]
    by_cases hstays : s.target 0 = 0 <;> simp [hstays]
  rw [Piece.respaced_append, Piece.heads_append, ← hmoves.items, ← hmoves.changed, ← hmoves.atLineStart]
  unfold apply
  cases hopen : (s.items start t.toList).atLineStart with
  | true =>
    refine ⟨?_, ?_, by simp [hopen]⟩
    · rw [Piece.respaced_start hline, hbegin]
      simp [hopen]
    · have hstays : ((!(s.blanks (s.target 0)).isEmpty) = false) ↔ s.begin core = [core] := by
        rw [begin_eq_self, hcolumn, blanks]
        by_cases hzero : s.target 0 = 0
        · simp [hzero]
        · simp [hzero, Nat.pos_of_ne_zero hzero]
      simp only [Piece.Heads, hline, hopen, ← hstays]
      simp
  | false =>
    refine ⟨?_, ?_, by simp [hopen]⟩
    · rw [Piece.respaced_within hline]
      simp [hopen]
    · simp [Piece.Heads, hopen]

/-! ## Tokens -/

/-- The token with its lines moved, if some line moves. -/
def content? (s : Shift) (start : Bool) (l : Lexeme) : Option Lexeme :=
  if l.fullWidth = 0 then none
  else
    let leading := s.apply start true l.leading
    let trailing := s.apply false false l.trailing
    if leading.changed || trailing.changed then
      some (.realized l.kind (.ofList leading.items) l.text l.value (.ofList trailing.items))
    else none

/-- The token with its lines moved; `start` says whether a line starts in front of it. -/
def lexeme (s : Shift) (start : Bool) (l : Lexeme) : Lexeme := (s.content? start l).getD l

theorem lexeme_of_none (h : s.content? start l = none) : s.lexeme start l = l := by rw [lexeme, h, Option.getD_none]

theorem lexeme_of_fullWidth (h : l.fullWidth = 0) : s.lexeme start l = l := lexeme_of_none (if_pos h)

theorem content_eq (h : l.fullWidth ≠ 0) : s.content? start l =
    if (s.apply start true l.leading).changed || (s.apply false false l.trailing).changed then some (s.lexeme start l)
    else none := by
  unfold lexeme content?
  rw [if_neg h]
  dsimp only
  split <;> rfl

theorem eq_of_map_trivia {items items' : List Trivia} (h : items.map Piece.trivia = items'.map .trivia) : items = items' :=
  List.map_injective_iff.2 (fun _ _ h => Piece.trivia.inj h) h

/-- Trivia in which no line moves is what it was. -/
theorem Outcome.Moves.ofList {r : Outcome} {t : TriviaList} (h : r.Moves s start (t.toList.map .trivia))
    (hchanged : r.changed = false) : TriviaList.ofList r.items = t := by
  have hitems := h.items
  rw [Piece.respaced_eq_self (h.changed.1 hchanged)] at hitems
  rw [eq_of_map_trivia hitems, TriviaList.ofList_toList]

theorem ofList_leading {t : TriviaList} (h : (s.apply start true t).changed = false) :
    TriviaList.ofList (s.apply start true t).items = t := by
  obtain ⟨hitems, hchanged, -⟩ := s.leading_moves start t (.token .error [] .none) rfl rfl
  rw [Piece.respaced_eq_self (hchanged.1 h)] at hitems
  rw [eq_of_map_trivia (List.append_cancel_right hitems), TriviaList.ofList_toList]

/-- **What a shift makes of a token**: other trivia around the same characters. -/
theorem lexeme_eq (h : l.fullWidth ≠ 0) : s.lexeme start l = .realized l.kind
    (.ofList (s.apply start true l.leading).items) l.text l.value (.ofList (s.apply false false l.trailing).items) := by
  unfold lexeme content?
  rw [if_neg h]
  dsimp only
  split
  · rfl
  · rename_i hsame
    obtain ⟨hleading, htrailing⟩ : (s.apply start true l.leading).changed = false ∧
        (s.apply false false l.trailing).changed = false := by simpa using hsame
    rw [ofList_leading hleading, (s.moves_trailing l.trailing).ofList htrailing]
    cases l with
    | empty kind => exact absurd rfl h
    | realized => rfl

/-- The pieces of the trivia and the characters of a token with its lines moved. -/
theorem moved_pieces (h : l.fullWidth ≠ 0) : (s.apply start true l.leading).items.map Piece.trivia ++
    .token l.kind l.text l.value :: (s.apply false false l.trailing).items.map .trivia =
      Piece.respaced s.begin start l.pieces := by
  obtain ⟨hleading, -, -⟩ := s.leading_moves start l.leading (.token l.kind l.text l.value) rfl rfl
  have hsplit := Piece.respaced_append s.begin start (l.leading.toList.map .trivia ++ [.token l.kind l.text l.value])
    (l.trailing.toList.map .trivia)
  rw [Piece.startsBehind_append, List.append_assoc] at hsplit
  rw [Lexeme.pieces_of_fullWidth h, List.append_cons, hleading, (s.moves_trailing l.trailing).items]
  exact hsplit.symm

/-- A token is left alone exactly if every line in it begins where it is to. -/
theorem content_eq_none : s.content? start l = none ↔ Piece.Heads (fun p => s.begin p = [p]) start l.pieces := by
  unfold content?
  by_cases h : l.fullWidth = 0
  · rw [if_pos h, Lexeme.pieces_of_missing h]
    exact ⟨fun _ => trivial, fun _ => rfl⟩
  · obtain ⟨-, hleading, -⟩ := s.leading_moves start l.leading (.token l.kind l.text l.value) rfl rfl
    rw [if_neg h, Lexeme.pieces_of_fullWidth h, List.append_cons, Piece.heads_append, ← hleading,
      Piece.startsBehind_append, Piece.startsBehind_cons, Piece.startsBehind_nil]
    have htrailing := (s.moves_trailing l.trailing).changed
    rw [show (Piece.token l.kind l.text l.value).isNewLine = false from rfl, ← htrailing]
    simp

/-- **The text of a token with its lines moved** is that of its pieces with the starts of lines changed. -/
theorem fullText_lexeme (s : Shift) (start : Bool) (l : Lexeme) :
    (s.lexeme start l).fullText = Piece.texts (Piece.respaced s.begin start l.pieces) := by
  by_cases h : l.fullWidth = 0
  · rw [lexeme_of_fullWidth h, Lexeme.pieces_of_missing h, Lexeme.fullWidth_eq_zero_iff.1 h]
    rfl
  · rw [lexeme_eq h, ← moved_pieces h]
    simp [Lexeme.fullText, Lexeme.leading, Lexeme.text, Lexeme.trailing, TriviaList.fullText, Piece.text]

/-- A token that keeps some of its text has its pieces with the starts of lines changed. -/
theorem pieces_lexeme (h : (s.lexeme start l).fullWidth = 0 → l.fullWidth = 0) :
    (s.lexeme start l).pieces = Piece.respaced s.begin start l.pieces := by
  by_cases hwidth : l.fullWidth = 0
  · rw [lexeme_of_fullWidth hwidth, Lexeme.pieces_of_missing hwidth]
    rfl
  · rw [Lexeme.pieces_of_fullWidth (fun hzero => hwidth (h hzero)), ← moved_pieces hwidth, lexeme_eq hwidth]
    simp [Lexeme.leading, Lexeme.kind, Lexeme.text, Lexeme.value, Lexeme.trailing]

/-- The kind, the characters and what they denote stay. -/
theorem kind_lexeme (s : Shift) (start : Bool) (l : Lexeme) : (s.lexeme start l).kind = l.kind ∧
    (s.lexeme start l).text = l.text ∧ (s.lexeme start l).value = l.value := by
  by_cases h : l.fullWidth = 0
  · rw [lexeme_of_fullWidth h]
    exact ⟨rfl, rfl, rfl⟩
  · rw [lexeme_eq h]
    exact ⟨rfl, rfl, rfl⟩

/-- What is more than blanks stays. -/
theorem filter_begin (s : Shift) (p : Piece) :
    (s.begin p).filter (fun q => !q.isBlank) = [p].filter (fun q => !q.isBlank) := by
  unfold begin
  split
  · rfl
  · rw [List.filter_append, map_blanks]
    have hlead : (if s.target (p.column s.options) = 0 then []
        else [s.options.indent (s.target (p.column s.options))]).filter (fun q => !q.isBlank) = [] := by split <;> rfl
    rw [hlead, List.nil_append, Piece.behindBlanks]
    cases hblank : p.isBlank <;> simp [hblank]

theorem filter_map_trivia (items : List Trivia) : (items.map Piece.trivia).filter (fun q => !q.isBlank) =
    (items.filter (fun item => !item.isWhitespace)).map .trivia := by
  rw [List.filter_map]
  rfl

theorem filter_leading (s : Shift) (start : Bool) (t : TriviaList) :
    (s.apply start true t).items.filter (fun item => !item.isWhitespace) =
      t.toList.filter (fun item => !item.isWhitespace) := by
  obtain ⟨hitems, -, -⟩ := s.leading_moves start t (.token .error [] .none) rfl rfl
  replace hitems := congrArg (List.filter (fun q => !q.isBlank)) hitems
  rw [Piece.filter_respaced (fun p _ => s.filter_begin p), List.filter_append, List.filter_append] at hitems
  replace hitems := List.append_cancel_right hitems
  rw [filter_map_trivia, filter_map_trivia] at hitems
  exact eq_of_map_trivia hitems

theorem filter_trailing (s : Shift) (t : TriviaList) :
    (s.apply false false t).items.filter (fun item => !item.isWhitespace) =
      t.toList.filter (fun item => !item.isWhitespace) := by
  have hitems := congrArg (List.filter (fun q => !q.isBlank)) (s.moves_trailing t).items
  rw [Piece.filter_respaced (fun p _ => s.filter_begin p), filter_map_trivia, filter_map_trivia] at hitems
  exact eq_of_map_trivia hitems

/-- **Comments and ends of line stay where they are**, on both sides of every token. -/
theorem filter_lexeme (s : Shift) (start : Bool) (l : Lexeme) :
    (s.lexeme start l).leading.toList.filter (fun item => !item.isWhitespace) =
      l.leading.toList.filter (fun item => !item.isWhitespace) ∧
    (s.lexeme start l).trailing.toList.filter (fun item => !item.isWhitespace) =
      l.trailing.toList.filter (fun item => !item.isWhitespace) := by
  by_cases h : l.fullWidth = 0
  · rw [lexeme_of_fullWidth h]
    exact ⟨rfl, rfl⟩
  · rw [lexeme_eq h]
    simp only [Lexeme.leading, Lexeme.trailing, TriviaList.toList_ofList]
    exact ⟨s.filter_leading start _, s.filter_trailing _⟩

/-- Tokens in a row with their lines moved. -/
def row (s : Shift) : Bool → List Lexeme → List Lexeme
  | _, [] => []
  | start, l :: ls => s.lexeme start l :: s.row (Piece.startsBehind start l.pieces) ls

/-- **The text of a row with its lines moved.** -/
theorem texts_row (s : Shift) (start : Bool) (ls : List Lexeme) :
    (s.row start ls).flatMap Lexeme.fullText = Piece.texts (Piece.respaced s.begin start (ls.flatMap Lexeme.pieces)) := by
  induction ls generalizing start with
  | nil => rfl
  | cons l ls ih =>
    rw [row, List.flatMap_cons, List.flatMap_cons, Piece.respaced_append, Piece.texts_append, ih, fullText_lexeme]

/-! ## Moves to the right and back -/

section Back

variable {o : LayoutOptions} {a b m m' : Nat}

theorem target_right (o : LayoutOptions) (a m column : Nat) : (Shift.mk o a m).target column = column + a := by
  simp [target]

theorem target_left (o : LayoutOptions) (a column : Nat) : (Shift.mk o (-(a : Int)) 0).target (column + a) = column := by
  unfold target
  by_cases ha : a = 0
  · simp [ha]
  · rw [if_neg (by simp only []; omega), if_neg (show ¬ column + a ≤ 0 by omega)]
    simp

/-- Behind a move to the right, every line begins with blanks. -/
theorem begin_right (ha : 0 < a) (p : Piece) :
    (Shift.mk o a m).begin p = o.indent (p.column o + a) :: p.behindBlanks := by
  rw [begin, target_right, if_neg (by omega), map_blanks, if_neg (by omega)]
  rfl

theorem begin_still (p : Piece) : (Shift.mk o ((0 : Nat) : Int) m).begin p = [p] := by
  rw [begin_eq_self, target_right]
  rfl

theorem respaced_indent (g : Piece → List Piece) {p : Piece} (hp : p.isNewLine = false) (column : Nat) :
    Piece.respaced g true (o.indent column :: p.behindBlanks) = g (o.indent column) ++ p.behindBlanks := by
  rw [Piece.respaced_start (Piece.isNewLine_indent o column)]
  unfold Piece.behindBlanks
  split
  · rfl
  · rw [Piece.respaced_within hp]
    rfl

theorem startsBehind_right (p : Piece) (hp : p.isNewLine = false) :
    Piece.startsBehind true ((Shift.mk o a m).begin p) = false := by
  rcases Nat.eq_zero_or_pos a with rfl | ha
  · rw [begin_still]
    exact hp
  · rw [begin_right ha]
    unfold Piece.behindBlanks
    split
    · rfl
    · exact hp

/-- Two moves to the right are one. -/
theorem begin_add (p : Piece) (hp : p.isNewLine = false) :
    Piece.respaced (Shift.mk o b m').begin true ((Shift.mk o a m).begin p) = (Shift.mk o ((a + b : Nat) : Int) m).begin p := by
  rcases Nat.eq_zero_or_pos a with rfl | ha
  · rw [begin_still, Piece.respaced_start hp, Piece.respaced_nil, List.append_nil, Nat.zero_add]
    rfl
  · rw [begin_right ha, respaced_indent _ hp, begin_right (Nat.add_pos_left ha b)]
    rcases Nat.eq_zero_or_pos b with rfl | hb
    · rw [begin_still]
      rfl
    · rw [begin_right hb, Piece.column_indent, Piece.behindBlanks_indent, Nat.add_assoc]
      rfl

/-- A move to the right and back lays the start of a line out anew. -/
theorem begin_back (ha : 0 < a) (p : Piece) (hp : p.isNewLine = false) :
    Piece.respaced (Shift.mk o (-(a : Int)) 0).begin true ((Shift.mk o a m).begin p) = p.relaid o := by
  rw [begin_right ha, respaced_indent _ hp, begin, Piece.column_indent, target_left, if_neg (by omega), map_blanks,
    Piece.behindBlanks_indent, List.append_nil, Piece.relaid]
  split
  · rfl
  · rfl

/-- A move to the right leaves no token without text that had some. -/
theorem fullWidth_right (h : ((Shift.mk o a m).lexeme start l).fullWidth = 0) : l.fullWidth = 0 := by
  rw [Lexeme.fullWidth_eq_zero_iff, fullText_lexeme] at h
  rw [Lexeme.fullWidth_eq_zero_iff, ← Lexeme.texts_pieces]
  refine Piece.texts_eq_nil_of_respaced (fun p _ htexts => ?_) h
  rcases Nat.eq_zero_or_pos a with rfl | ha
  · rw [begin_still] at htexts
    simpa using htexts
  · rw [begin_right ha, Piece.texts_cons] at htexts
    exact absurd (List.append_eq_nil_iff.1 htexts).1 (o.indentation_ne_nil (Nat.add_pos_right _ ha))

theorem pieces_right : ((Shift.mk o a m).lexeme start l).pieces = Piece.respaced (Shift.mk o a m).begin start l.pieces :=
  pieces_lexeme fullWidth_right

theorem pieces_row_right (start : Bool) (ls : List Lexeme) : ((Shift.mk o a m).row start ls).flatMap Lexeme.pieces =
    Piece.respaced (Shift.mk o a m).begin start (ls.flatMap Lexeme.pieces) := by
  induction ls generalizing start with
  | nil => rfl
  | cons l ls ih => rw [row, List.flatMap_cons, List.flatMap_cons, Piece.respaced_append, ih, pieces_right]

/-- A move to the right and back lays the starts of lines in a token out anew. -/
theorem pieces_back (ha : 0 < a) :
    ((Shift.mk o (-(a : Int)) 0).lexeme start ((Shift.mk o a m).lexeme start l)).pieces =
      Piece.respaced (Piece.relaid o) start l.pieces := by
  have hback : Piece.respaced (Shift.mk o (-(a : Int)) 0).begin start ((Shift.mk o a m).lexeme start l).pieces =
      Piece.respaced (Piece.relaid o) start l.pieces := by
    rw [pieces_right, Piece.respaced_respaced (begin_back ha) startsBehind_right]
  rw [← hback]
  refine pieces_lexeme (fun hzero => ?_)
  rw [Lexeme.fullWidth_eq_zero_iff, fullText_lexeme, hback] at hzero
  have hnil := Piece.texts_eq_nil_of_respaced (fun _ _ h => Piece.text_eq_nil_of_relaid h) hzero
  rw [Lexeme.texts_pieces, ← Lexeme.fullWidth_eq_zero_iff] at hnil
  rw [lexeme_of_fullWidth hnil, hnil]

/-- **A move to the right and back** lays the starts of lines in a row out anew. -/
theorem pieces_row_back (ha : 0 < a) (start : Bool) (ls : List Lexeme) :
    ((Shift.mk o (-(a : Int)) 0).row start ((Shift.mk o a m).row start ls)).flatMap Lexeme.pieces =
      Piece.respaced (Piece.relaid o) start (ls.flatMap Lexeme.pieces) := by
  induction ls generalizing start with
  | nil => rfl
  | cons l ls ih =>
    have hstart : Piece.startsBehind start ((Shift.mk o a m).lexeme start l).pieces = Piece.startsBehind start l.pieces := by
      rw [pieces_right, Piece.startsBehind_respaced startsBehind_right]
    rw [row, row, List.flatMap_cons, List.flatMap_cons, Piece.respaced_append, pieces_back ha, hstart, ih]

end Back

end Shift

/-! ## Columns -/

namespace Piece

variable {o : LayoutOptions}

/-- The column where a line starts: behind all of the blanks that it begins with. -/
def lineColumn (o : LayoutOptions) (line : List Piece) : Nat := o.columnAfter 0 (texts (line.takeWhile isBlank))

/-- **A line that is laid out anew starts where it did.** -/
theorem lineColumn_headed_relaid (line : List Piece) : lineColumn o (headed (relaid o) line) = lineColumn o line := by
  cases line with
  | nil => rfl
  | cons p rest =>
    rw [headed]
    split
    · rfl
    · unfold relaid behindBlanks
      by_cases hblank : p.isBlank = true
      · have hcolumn : p.column o = o.columnAfter 0 p.text := if_pos hblank
        rw [if_pos hblank, lineColumn, lineColumn, List.takeWhile_cons_of_pos hblank, texts_cons]
        split
        · rename_i hzero
          rw [hcolumn] at hzero
          rw [LayoutOptions.eq_nil_of_columnAfter hzero]
          rfl
        · have hindent := o.columnAfter_indentation (p.column o)
          rw [List.singleton_append, List.takeWhile_cons_of_pos (isBlank_indent _ _), texts_cons,
            show (o.indent (p.column o)).text = o.indentation (p.column o) from rfl, LayoutOptions.columnAfter_append,
            LayoutOptions.columnAfter_append, hindent, hcolumn]
      · have hcolumn : p.column o = 0 := if_neg hblank
        rw [if_neg hblank, if_pos hcolumn]
        rfl

theorem isNewLine_relaid (p : Piece) (hp : p.isNewLine = false) : ∀ q ∈ p.relaid o, q.isNewLine = false := by
  unfold relaid behindBlanks
  split <;> split <;> simp [hp]

/-- Laying lines out anew leaves the columns where they start. -/
theorem columns_respaced_relaid (o : LayoutOptions) (start : Bool) (ps : List Piece) :
    (lines (respaced (relaid o) start ps)).map (lineColumn o) = (lines ps).map (lineColumn o) := by
  rw [lines_respaced isNewLine_relaid, movedLines, lines, List.map_cons, List.map_cons, List.map_map]
  congr 1
  · split
    · exact lineColumn_headed_relaid _
    · rfl
  · exact List.map_congr_left (fun line _ => lineColumn_headed_relaid line)

end Piece

end Downlevel
