import Downlevel.Tree.Positions
import Downlevel.Proofs.Grammar.Fidelity
import Downlevel.Proofs.Lexer.Strings
import Downlevel.Proofs.Text.Lines
import Downlevel.Proofs.Trivia.Pieces
/-!
# Proofs.Grammar.LineStarts — lines of trivia and lines of the map

The lexer ends lines with trivia of their own, the map of lines (`LineMap`) reads the characters of the whole text.  No
piece of a text is cut within `\r\n`, so the lines that start in a text start in its pieces (`Piece.IsCut`): behind an
end of line, or within a token or a comment.  What is left are the two separators U+2028 and U+2029, which end a line for
the lexer and do not for the map.
-/
namespace Downlevel

open CharClass
open Text (Parted)

/-! ## Pieces with their offsets -/

namespace Piece

variable {ps qs : List Piece} {p : Piece} {behind : List Char} {offset b : Nat}

/-- The piece is the characters of a token, or a comment. -/
def isContent : Piece → Bool
  | trivia item => item.isComment
  | token _ _ _ => true

/-- The piece holds a separator. -/
def isSeparator (p : Piece) : Bool := p.text.any Lexer.isSeparator

/-- The piece ends a line, and is no separator. -/
def isTerminator (p : Piece) : Bool := p.isNewLine && !p.isSeparator

/-- Pieces in a row, each with the offset at which it starts. -/
def placed : Nat → List Piece → List (Nat × Piece)
  | _, [] => []
  | offset, p :: ps => (offset, p) :: placed (offset + Text.width p.text) ps

def endsOf (sort : Piece → Bool) (offset : Nat) (ps : List Piece) : List Nat :=
  ((placed offset ps).filter (fun q => sort q.2)).map (fun q => q.1 + Text.width q.2.text)

/-- What ends at an offset ends in a token or in a comment. -/
def isWithin (offset : Nat) (ps : List Piece) (b : Nat) : Bool :=
  (placed offset ps).any (fun q => q.2.isContent && decide (q.1 < b) && decide (b ≤ q.1 + Text.width q.2.text))

theorem isNewLine_of_isContent (h : p.isContent = true) : p.isNewLine = false := by
  cases p with
  | token => rfl
  | trivia item =>
    obtain ⟨kind, text⟩ := item
    cases kind with
    | newLine => cases h
    | _ => rfl

@[simp] theorem endsOf_cons (sort : Piece → Bool) : endsOf sort offset (p :: ps) =
    (if sort p then [offset + Text.width p.text] else []) ++ endsOf sort (offset + Text.width p.text) ps := by
  unfold endsOf
  rw [placed, List.filter_cons]
  split <;> rfl

@[simp] theorem isWithin_cons : isWithin offset (p :: ps) b =
    (p.isContent && decide (offset < b) && decide (b ≤ offset + Text.width p.text)
      || isWithin (offset + Text.width p.text) ps b) := rfl

/-- Nothing ends in pieces behind it. -/
theorem isWithin_eq_false (h : b ≤ offset) : isWithin offset ps b = false := by
  induction ps generalizing offset with
  | nil => rfl
  | cons p ps ih =>
    have hlt : ¬ offset < b := by omega
    rw [isWithin_cons, ih (by omega)]
    simp [hlt]

/-! ## Pieces that are cut off a text -/

/-- Of the pieces that are neither tokens nor comments only the ends of lines hold a terminator, and they are one; a
separator holds none. -/
def IsLined (p : Piece) : Prop := p.isContent = false → ∀ offset,
  LineMap.startsBehind offset p.text = if p.isTerminator then [offset + Text.width p.text] else []

/-- Pieces that are cut off a text one after the other, what is left behind them given, and none within a terminator. -/
def IsCut : List Piece → List Char → Prop
  | [], _ => True
  | p :: ps, behind => p.IsLined ∧ Parted p.text (texts ps ++ behind) ∧ IsCut ps behind

theorem isCut_append : IsCut (ps ++ qs) behind ↔ IsCut ps (texts qs ++ behind) ∧ IsCut qs behind := by
  induction ps with
  | nil => exact (true_and _).symm.to_iff
  | cons p ps ih => rw [List.cons_append, IsCut, ih, IsCut, texts_append, List.append_assoc, and_assoc, and_assoc]

/-- **The lines that start outside tokens and comments start behind the ends of lines.** -/
theorem IsCut.starts (h : IsCut ps []) :
    (LineMap.startsBehind offset (texts ps)).filter (fun b => !isWithin offset ps b) = endsOf isTerminator offset ps := by
  induction ps generalizing offset with
  | nil => rfl
  | cons p ps ih =>
    obtain ⟨hlined, hparted, hcut⟩ := h
    rw [List.append_nil] at hparted
    have hhere : (LineMap.startsBehind offset p.text).filter (fun b => !isWithin offset (p :: ps) b) =
        if p.isTerminator then [offset + Text.width p.text] else [] := by
      have hbounds : ∀ b ∈ LineMap.startsBehind offset p.text, isWithin offset (p :: ps) b = p.isContent := fun b hb => by
        obtain ⟨hlt, hle⟩ := LineMap.bounds_of_mem_startsBehind hb
        rw [isWithin_cons, isWithin_eq_false hle, decide_eq_true hlt, decide_eq_true hle, Bool.and_true, Bool.and_true,
          Bool.or_false]
      rw [List.filter_congr (fun b hb => by rw [hbounds b hb])]
      cases hcontent : p.isContent with
      | true => rw [isTerminator, isNewLine_of_isContent hcontent]; simp
      | false => rw [hlined hcontent offset]; simp
    have hlater : (LineMap.startsBehind (offset + Text.width p.text) (texts ps)).filter
        (fun b => !isWithin offset (p :: ps) b) = endsOf isTerminator (offset + Text.width p.text) ps := by
      rw [← ih hcut]
      refine List.filter_congr (fun b hb => ?_)
      have hlt := (LineMap.bounds_of_mem_startsBehind hb).1
      rw [isWithin_cons, decide_eq_false (Nat.not_le.2 hlt), Bool.and_false, Bool.false_or]
    rw [texts_cons, LineMap.startsBehind_append hparted, List.filter_append, hhere, hlater, endsOf_cons]

/-- The line starts of the map, taken for the whole text. -/
theorem IsCut.starts_ofText (h : IsCut ps []) : endsOf isTerminator 0 ps =
    (LineMap.ofText (texts ps)).starts.filter (fun b => b ≠ 0 && !isWithin 0 ps b) := by
  rw [← h.starts, LineMap.ofText, List.filter_cons_of_neg (by simp)]
  refine List.filter_congr (fun b hb => ?_)
  have hpos := (LineMap.bounds_of_mem_startsBehind hb).1
  simp [Nat.ne_of_gt hpos]

end Piece

namespace Lexer

open Piece (IsLined IsCut)

variable {cs : List Char} {offset : Nat}

/-! ## Cutting pieces off a text -/

/-- An end of line is one terminator, or a separator, and takes `\r\n` whole. -/
theorem cutLineBreak_lined {c : Char} (h : isLineBreak c = true) :
    IsLined (.trivia (cutLineBreak c cs).item) ∧ Parted (cutLineBreak c cs).item.text (cutLineBreak c cs).rest := by
  have hone : ∀ d rest, isLineBreak d = true → (d = '\r' → rest.head? ≠ some '\n') →
      IsLined (.trivia ⟨.newLine, [d]⟩) ∧ Parted [d] rest := fun d rest hd hnext => by
    refine ⟨fun _ offset => ?_, fun hlast => hnext (Option.some.inj hlast)⟩
    have hd : ((d = '\n' ∨ d = '\r') ∨ d = '\u2028') ∨ d = '\u2029' := by simpa [isLineBreak] using hd
    rcases hd with ((rfl | rfl) | rfl) | rfl
    all_goals rfl
  unfold cutLineBreak
  split
  · rename_i rest
    split
    · rename_i hc
      subst hc
      exact ⟨fun _ _ => rfl, .of_not_last (fun hlast => by cases hlast)⟩
    · rename_i hc
      exact hone c _ h (fun hreturn => absurd hreturn hc)
  · rename_i hpair
    refine hone c cs h (fun _ hhead => ?_)
    obtain ⟨rest, rfl⟩ := List.head?_eq_some_iff.1 hhead
    exact hpair rest rfl

/-- **A piece of trivia is cut off as it should be.** -/
theorem cut?_lined {cut : TriviaCut} (h : cut? cs = some cut) :
    IsLined (.trivia cut.item) ∧ Parted cut.item.text cut.rest := by
  unfold cut? at h
  split at h
  · cases h
  split at h
  · obtain rfl := Option.some.inj h
    refine ⟨fun _ offset => LineMap.startsBehind_eq_nil (fun d hd => ?_), .of_not_mem (not_mem_takeWhile rfl)⟩
    have hblank : isBlank d = true := List.mem_takeWhile_imp hd
    constructor
    all_goals
      rintro rfl
      cases hblank
  split at h
  · rename_i hbreak
    obtain rfl := Option.some.inj h
    exact cutLineBreak_lined hbreak
  split at h
  · split at h
    · obtain rfl := Option.some.inj h
      exact ⟨nofun, .of_not_mem (not_mem_takeWhile rfl)⟩
    · obtain rfl := Option.some.inj h
      refine ⟨fun hcontent => ?_, cutMultiLine_parted _⟩
      unfold cutMultiLine at hcontent
      split at hcontent <;> cases hcontent
    · cases h
  · cases h

theorem runUpTo_isCut (trailing : Bool) (limit offset : Nat) (cs : List Char) :
    IsCut ((runUpTo trailing limit offset cs).items.map .trivia) (runUpTo trailing limit offset cs).rest := by
  fun_induction runUpTo trailing limit offset cs with
  | case1 => trivial
  | case2 => trivial
  | case3 _ _ _ cut hcut => exact ⟨(cut?_lined hcut).1, (cut?_lined hcut).2, trivial⟩
  | case4 limit offset cs cut hcut _ _ more ih =>
    have hrest : Piece.texts (more.items.map .trivia) ++ more.rest = cut.rest := by
      rw [Piece.texts_map_trivia]
      exact runUpTo_append _ _ _ _
    refine ⟨(cut?_lined hcut).1, ?_, ih⟩
    rw [hrest]
    exact (cut?_lined hcut).2

theorem run_isCut (trailing : Bool) (offset : Nat) (cs : List Char) :
    IsCut ((run trailing offset cs).items.map .trivia) (run trailing offset cs).rest :=
  runUpTo_isCut trailing cs.length offset cs

/-- **The pieces of a token that is scanned without a fault are cut off as they should be.** -/
theorem scan_isCut (h : (scan offset cs).diagnostic = none) :
    IsCut (scan offset cs).lexeme.pieces (scan offset cs).rest := by
  obtain ⟨-, hlater⟩ := Option.or_eq_none_iff.1 h
  obtain ⟨herror, -⟩ := Option.or_eq_none_iff.1 hlater
  have htoken : Parted (cutToken (run false offset cs).rest).text (cutToken (run false offset cs).rest).rest :=
    cutToken_parted rfl (Option.map_eq_none_iff.1 herror)
  have htokenText := cutToken_append (run false offset cs).rest
  have hlead := run_isCut false offset cs
  by_cases hwidth : (scan offset cs).lexeme.fullWidth = 0
  · rw [Lexeme.pieces_of_missing hwidth]
    trivial
  rw [Lexeme.pieces_of_fullWidth hwidth, Piece.isCut_append]
  simp only [scan, Lexeme.leading, Lexeme.text, Lexeme.trailing, Lexeme.kind, TriviaList.toList_ofList, Piece.texts_cons,
    Piece.texts_map_trivia, Piece.text, List.append_assoc]
  split
  · rw [Trivia.texts, List.flatMap_nil, List.nil_append, htokenText]
    exact ⟨hlead, fun h => absurd h.symm Bool.false_ne_true, htoken, trivial⟩
  · rw [run_append, htokenText]
    refine ⟨hlead, fun h => absurd h.symm Bool.false_ne_true, ?_, run_isCut _ _ _⟩
    rw [Piece.texts_map_trivia, run_append]
    exact htoken

def pieces (tokens : List (Lexeme × Option Diagnostic)) : List Piece := tokens.flatMap (fun t => t.1.pieces)

theorem Scans.texts_pieces {tokens : List (Lexeme × Option Diagnostic)} (h : Scans offset cs tokens) :
    Piece.texts (pieces tokens) = cs := by
  rw [← h.canonical.lossless, List.flatMap_map, pieces, Piece.texts, List.flatMap_assoc]
  exact List.flatMap_congr (fun t _ => t.1.texts_pieces)

/-- **The tokens of a text without a fault are cut off it as they should be.** -/
theorem Scans.isCut {tokens : List (Lexeme × Option Diagnostic)} (h : Scans offset cs tokens)
    (hnone : ∀ t ∈ tokens, t.2 = none) : IsCut (pieces tokens) [] := by
  induction h with
  | @last offset cs ends =>
    have hcut := scan_isCut (hnone _ (List.mem_singleton_self _))
    rw [scan_rest_of_endOfFile ends] at hcut
    simpa [pieces] using hcut
  | @more offset cs tokens goes rest ih =>
    obtain ⟨hhere, hrest⟩ := List.forall_mem_cons.1 hnone
    rw [pieces, List.flatMap_cons, Piece.isCut_append, ← pieces, rest.texts_pieces, List.append_nil]
    exact ⟨scan_isCut hhere, ih hrest⟩

end Lexer

/-! ## Columns -/

theorem Positions.columnAt_of_startOf {p : Positions} {b : Nat} (h : p.lines.startOf b = b) : p.columnAt b = 0 := by
  have hwithin : min b (Text.width p.text) - b = 0 := by omega
  unfold columnAt
  rw [h, Text.slice?]
  cases Text.splitAtByte? p.text b with
  | none => rfl
  | some split =>
    have hnone : Text.splitAtByte? split.2 0 = some ([], split.2) := by cases split.2 <;> rfl
    simp only [Option.bind_eq_bind, Option.bind_some, hwithin, hnone]
    split <;> rfl

namespace Lexer

/-! ## Whole texts -/

/-- **The trivia that ends lines and the map of lines agree**, the separators U+2028 and U+2029 left out: in a text that
is scanned without a fault the terminators among the ends of lines end where the map starts a line outside tokens and
comments, and nowhere else.  The map of a tree that is read from the text is that map, so there columns count from zero. -/
theorem scanAll_lineStarts (text : List Char) (h : ∀ t ∈ scanAll text, t.2 = none) :
    Piece.endsOf Piece.isTerminator 0 (pieces (scanAll text)) = (LineMap.ofText text).starts.filter
        (fun b => b ≠ 0 && !Piece.isWithin 0 (pieces (scanAll text)) b) ∧
      ∀ (tree : Node) (o : LayoutOptions), parse text = .ok tree →
        (Positions.ofTree tree o).lines = LineMap.ofText text ∧
          ∀ b ∈ Piece.endsOf Piece.isTerminator 0 (pieces (scanAll text)),
            (Positions.ofTree tree o).lines.startOf b = b ∧ (Positions.ofTree tree o).columnAt b = 0 := by
  have hcut := (scanAll_scans text).isCut h
  have hstarts := hcut.starts_ofText
  rw [(scanAll_scans text).texts_pieces] at hstarts
  refine ⟨hstarts, fun tree o hparse => ?_⟩
  obtain ⟨k, -, hprogram⟩ := parse_isProgram hparse
  have hlines : (Positions.ofTree tree o).lines = LineMap.ofText text := congrArg LineMap.ofText hprogram.fullText
  refine ⟨hlines, fun b hb => ?_⟩
  rw [hstarts] at hb
  have hstart : (Positions.ofTree tree o).lines.startOf b = b := by
    rw [hlines]
    exact LineMap.startOf_eq_self (LineMap.pairwise_starts_ofText text) (List.mem_of_mem_filter hb)
  exact ⟨hstart, Positions.columnAt_of_startOf hstart⟩

/-- Lines that end in a comment, behind it, in a string literal and behind a comment that the end of the line ends. -/
theorem scanAll_lineStarts_mixed :
    (∀ t ∈ scanAll "a /*\r\n*/ \r\n'b\\\n' // c\rd\n".toList, t.2 = none) ∧
    Piece.endsOf Piece.isTerminator 0 (pieces (scanAll "a /*\r\n*/ \r\n'b\\\n' // c\rd\n".toList)) =
      (LineMap.ofText "a /*\r\n*/ \r\n'b\\\n' // c\rd\n".toList).starts.filter
        (fun b => b ≠ 0 && !Piece.isWithin 0 (pieces (scanAll "a /*\r\n*/ \r\n'b\\\n' // c\rd\n".toList)) b) ∧
    ∃ tree, parse "a /*\r\n*/ \r\n'b\\\n' // c\rd\n".toList = .ok tree ∧
      11 ∈ Piece.endsOf Piece.isTerminator 0 (pieces (scanAll "a /*\r\n*/ \r\n'b\\\n' // c\rd\n".toList)) ∧
      (Positions.ofTree tree .standard).lines.startOf 11 = 11 ∧ (Positions.ofTree tree .standard).columnAt 11 = 0 := by
  have hnone : ∀ t ∈ scanAll "a /*\r\n*/ \r\n'b\\\n' // c\rd\n".toList, t.2 = none := by decide +kernel
  have hmem : 11 ∈ Piece.endsOf Piece.isTerminator 0
      (pieces (scanAll "a /*\r\n*/ \r\n'b\\\n' // c\rd\n".toList)) := by decide +kernel
  have hok : (parse "a /*\r\n*/ \r\n'b\\\n' // c\rd\n".toList).isOk = true := by decide +kernel
  obtain ⟨hstarts, hmap⟩ := scanAll_lineStarts _ hnone
  cases hparse : parse "a /*\r\n*/ \r\n'b\\\n' // c\rd\n".toList with
  | error e => rw [hparse] at hok; cases hok
  | ok tree => exact ⟨hnone, hstarts, tree, rfl, hmem, (hmap tree .standard hparse).2 11 hmem⟩

/-- **A separator ends a line of the lexer and none of the map.** -/
theorem scanAll_lineStarts_separator :
    (∀ t ∈ scanAll ['a', '\u2028', 'b'], t.2 = none) ∧
    Piece.endsOf Piece.isNewLine 0 (pieces (scanAll ['a', '\u2028', 'b'])) ≠
      (LineMap.ofText ['a', '\u2028', 'b']).starts.filter
        (fun b => b ≠ 0 && !Piece.isWithin 0 (pieces (scanAll ['a', '\u2028', 'b'])) b) := by
  decide +kernel

end Lexer

end Downlevel
