import Downlevel.Proofs.Grammar.Keeps
import Downlevel.Proofs.Lexer.Strings
/-!
# Proofs.Grammar.ErrorPlaces — errors point at tokens and comments

A reader stands in front of a token that was cut off the text at its place, or cut anew there as a regular expression
literal (`Lexer.Cuts`, `Reading.StandsIn`).  A fault of the grammar is met at the characters of such a token, and a
lexical one at the characters or at a comment of a token that could not be cut (`Lexer.Cuts.hasError`).  Both point into
the text, between two characters; that no rule leads elsewhere is known of all of them at once (`Parser.cutting`).
-/
namespace Downlevel

/-! ## What is cut off a text -/

/-- A comment of the trivia, which stand at `first`, begins at the offset. -/
def TriviaList.CommentAt (t : TriviaList) (first offset : Nat) : Prop :=
  ∃ front comment behind, t.toList = front ++ comment :: behind ∧ comment.isComment = true ∧
    offset = first + Trivia.widths front

namespace Lexeme

/-- The offset of the characters of a token that stands at `first`. -/
def textStart (l : Lexeme) (first : Nat) : Nat := first + l.leading.fullWidth

/-- A comment around the characters of a token that stands at `first` begins at the offset. -/
def CommentAt (l : Lexeme) (first offset : Nat) : Prop :=
  l.leading.CommentAt first offset ∨ l.trailing.CommentAt (l.textStart first + l.width) offset

end Lexeme

/-- Between two characters of the text, or at one of its ends. -/
def Text.IsBoundary (text : List Char) (offset : Nat) : Prop :=
  ∃ before behind, text = before ++ behind ∧ Text.width before = offset

namespace Lexer

/-- **The token is cut off the text ahead at an offset**, all tokens in front of it having been cut without an error.
Each is cut behind the one before, and a slash may be cut anew as a regular expression literal, which readers do where an
expression is asked for (`Parser.primary`). -/
inductive Cuts (text : List Char) : Nat → List Char → Scanned → Prop
  | first : Cuts text 0 text (scan 0 text)
  | next {first : Nat} {ahead : List Char} {x : Scanned} (h : Cuts text first ahead x) (sound : x.diagnostic = none) :
      Cuts text (first + x.lexeme.fullWidth) x.rest (scan (first + x.lexeme.fullWidth) x.rest)
  | again {first : Nat} {ahead : List Char} {x : Scanned} (h : Cuts text first ahead x) (sound : x.diagnostic = none)
      (slash : Reading.AtSlash x.lexeme.kind) : Cuts text first ahead (rescanSlash first ahead)

end Lexer

/-- The error is that of the token, which stands at `first`: it points at a comment that is not closed, or at the
characters. -/
def Lexeme.HasError (l : Lexeme) (first : Nat) (e : ParseError) : Prop :=
  if e.fault = .lexical .unterminatedComment then l.CommentAt first e.offset else e.offset = l.textStart first

/-- **The error points into the text**, at what has it of a token that is cut off it. -/
def ParseError.PointsInto (text : List Char) (e : ParseError) : Prop :=
  ∃ first ahead x, Lexer.Cuts text first ahead x ∧ x.lexeme.HasError first e

/-! ## Boundaries -/

namespace Text.IsBoundary

variable {text : List Char} {offset : Nat}

theorem le_width (h : IsBoundary text offset) : offset ≤ width text := by
  obtain ⟨before, behind, rfl, rfl⟩ := h
  rw [width_append]
  exact Nat.le_add_right _ _

/-- Bytes of a text that stands within another one. -/
theorem within {cs : List Char} (before behind : List Char) (h : IsBoundary cs offset) :
    IsBoundary (before ++ cs ++ behind) (width before + offset) := by
  obtain ⟨front, back, rfl, rfl⟩ := h
  exact ⟨before ++ front, back ++ behind, by simp, width_append _ _⟩

end Text.IsBoundary

namespace TriviaList.CommentAt

variable {x : Trivia} {items : List Trivia} {first offset : Nat}

theorem head (h : x.isComment = true) : (ofList (x :: items)).CommentAt first first := ⟨[], x, items, by simp, h, rfl⟩

theorem cons (h : (ofList items).CommentAt (first + x.fullWidth) offset) :
    (ofList (x :: items)).CommentAt first offset := by
  obtain ⟨front, comment, behind, hitems, hcomment, rfl⟩ := h
  rw [toList_ofList] at hitems
  refine ⟨x :: front, comment, behind, ?_, hcomment, Nat.add_assoc _ _ _⟩
  rw [toList_ofList, hitems, List.cons_append]

theorem isBoundary {t : TriviaList} (h : t.CommentAt first offset) :
    ∃ n, offset = first + n ∧ Text.IsBoundary t.fullText n := by
  obtain ⟨front, comment, behind, hitems, -, rfl⟩ := h
  refine ⟨_, rfl, Trivia.texts front, Trivia.texts (comment :: behind), ?_, (Trivia.widths_eq front).symm⟩
  rw [fullText, hitems, Trivia.texts, List.flatMap_append]
  rfl

end TriviaList.CommentAt

namespace Lexeme

variable {l : Lexeme} {first offset : Nat}

theorem textStart_isBoundary (l : Lexeme) : Text.IsBoundary l.fullText l.leading.fullWidth :=
  ⟨l.leading.fullText, l.text ++ l.trailing.fullText, List.append_assoc _ _ _,
    l.leading.fullWidth_eq_width_fullText.symm⟩

theorem CommentAt.isBoundary (h : l.CommentAt first offset) :
    ∃ n, offset = first + n ∧ Text.IsBoundary l.fullText n := by
  rcases h with h | h
  · obtain ⟨n, rfl, hn⟩ := h.isBoundary
    have hfull := hn.within [] (l.text ++ l.trailing.fullText)
    exact ⟨n, rfl, by simpa [fullText, List.append_assoc] using hfull⟩
  · obtain ⟨n, rfl, hn⟩ := h.isBoundary
    have hfull := hn.within (l.leading.fullText ++ l.text) []
    refine ⟨l.leading.fullWidth + l.width + n, by unfold textStart; omega, ?_⟩
    simpa [fullText, width, TriviaList.fullWidth_eq_width_fullText] using hfull

end Lexeme

namespace Lexer

variable {text ahead cs : List Char} {first offset : Nat} {x : Scanned}

theorem Cuts.lexeme_append (h : Cuts text first ahead x) : x.lexeme.fullText ++ x.rest = ahead := by
  cases h with
  | first => exact scan_fullText _ _
  | next => exact scan_fullText _ _
  | again => exact rescanSlash_fullText _ _

/-- **Tokens are cut where they stand**: in front of the text ahead is as much of the text as the offset says. -/
theorem Cuts.place (h : Cuts text first ahead x) : ∃ before, text = before ++ ahead ∧ Text.width before = first := by
  induction h with
  | first => exact ⟨[], rfl, rfl⟩
  | @next first ahead x h _ ih =>
    obtain ⟨before, rfl, rfl⟩ := ih
    refine ⟨before ++ x.lexeme.fullText, ?_, ?_⟩
    · rw [List.append_assoc, h.lexeme_append]
    · rw [Text.width_append, x.lexeme.fullWidth_eq]
  | again _ _ _ ih => exact ih

/-- What stands between two characters of a token that was cut stands between two characters of the text. -/
theorem Cuts.isBoundary (h : Cuts text first ahead x) (hoffset : Text.IsBoundary x.lexeme.fullText offset) :
    Text.IsBoundary text (first + offset) := by
  obtain ⟨before, rfl, rfl⟩ := h.place
  rw [← h.lexeme_append, ← List.append_assoc]
  exact hoffset.within _ _

/-! ## Where lexical errors are -/

/-- An error in trivia is at the comment that is not closed. -/
theorem runUpTo_commentAt {trailing : Bool} {limit : Nat} : ∀ d ∈ (runUpTo trailing limit offset cs).diagnostic,
    (TriviaList.ofList (runUpTo trailing limit offset cs).items).CommentAt offset d.offset := by
  fun_induction runUpTo trailing limit offset cs with
  | case1 => exact fun _ h => by cases h
  | case2 => exact fun _ h => by cases h
  | case3 _ offset _ cut hcut diagnostic =>
    intro d (hd : diagnostic = some d)
    simp only [diagnostic, Option.ite_none_right_eq_some, Option.some.injEq] at hd
    obtain ⟨hopen, rfl⟩ := hd
    exact .head (cut?_unterminated hcut hopen).2
  | case4 limit offset cs cut hcut diagnostic _ more ih =>
    intro d (hd : diagnostic.or more.diagnostic = some d)
    rcases Option.or_eq_some_iff.1 hd with hd | ⟨-, hd⟩
    · simp only [diagnostic, Option.ite_none_right_eq_some, Option.some.injEq] at hd
      obtain ⟨hopen, rfl⟩ := hd
      exact .head (cut?_unterminated hcut hopen).2
    · exact (ih d hd).cons

/-- **An error in trivia is a comment that is not closed**, and its offset is that of the comment. -/
theorem run_diagnostic {trailing : Bool} {d : Diagnostic} (h : d ∈ (run trailing offset cs).diagnostic) :
    d.error = .unterminatedComment ∧
      (TriviaList.ofList (run trailing offset cs).items).CommentAt offset d.offset :=
  ⟨(runUpTo_diagnostic d h).1, runUpTo_commentAt d h⟩

theorem cutToken_error {e : LexicalError} (h : (cutToken cs).error = some e) : e ≠ .unterminatedComment := by
  rintro rfl
  unfold cutToken cutName at h
  repeat' split at h
  all_goals dsimp only at h
  all_goals repeat' split at h
  all_goals cases h

/-- The first error of a token: one of the trivia in front, of the characters or of the trivia behind. -/
theorem hasError_of_or {l : Lexeme} {lead own trail : Option Diagnostic} {d : Diagnostic}
    (hlead : ∀ d ∈ lead, d.error = .unterminatedComment ∧ l.leading.CommentAt first d.offset)
    (hown : ∀ d ∈ own, d.error ≠ .unterminatedComment ∧ d.offset = l.textStart first)
    (htrail : ∀ d ∈ trail, d.error = .unterminatedComment ∧
      l.trailing.CommentAt (l.textStart first + l.width) d.offset)
    (h : lead.or (own.or trail) = some d) : l.HasError first ⟨.lexical d.error, d.offset⟩ := by
  unfold Lexeme.HasError
  rcases Option.or_eq_some_iff.1 h with h | ⟨-, h⟩
  · obtain ⟨herror, hcomment⟩ := hlead d h
    rw [if_pos (by rw [herror])]
    exact .inl hcomment
  rcases Option.or_eq_some_iff.1 h with h | ⟨-, h⟩
  · obtain ⟨herror, hstart⟩ := hown d h
    rw [if_neg (fun heq => herror (ParseFault.lexical.inj heq))]
    exact hstart
  · obtain ⟨herror, hcomment⟩ := htrail d h
    rw [if_pos (by rw [herror])]
    exact .inr hcomment

/-- **The error of a token that cannot be cut is at the token.** -/
theorem scan_diagnostic {d : Diagnostic} (h : (scan first cs).diagnostic = some d) :
    (scan first cs).lexeme.HasError first ⟨.lexical d.error, d.offset⟩ := by
  refine hasError_of_or (fun _ h => run_diagnostic h) (fun d h => ?_) (fun d h => ?_) h
  · obtain ⟨e, herror, rfl⟩ := Option.map_eq_some_iff.1 h
    exact ⟨cutToken_error herror, rfl⟩
  · -- Behind the end of the file no trivia are cut.
    split at h
    · cases h
    · rename_i hend
      have htrail := run_diagnostic h
      simp only [scan, if_neg hend]
      exact htrail

theorem rescanSlash_diagnostic {d : Diagnostic} (h : (rescanSlash first cs).diagnostic = some d) :
    (rescanSlash first cs).lexeme.HasError first ⟨.lexical d.error, d.offset⟩ := by
  refine hasError_of_or (fun _ h => run_diagnostic h) (fun d h => ?_) (fun _ h => run_diagnostic h) h
  split at h
  · cases h
  · cases h
    exact ⟨nofun, rfl⟩

theorem Cuts.hasError {d : Diagnostic} (h : Cuts text first ahead x) (hd : x.diagnostic = some d) :
    x.lexeme.HasError first ⟨.lexical d.error, d.offset⟩ := by
  cases h with
  | first => exact scan_diagnostic hd
  | next => exact scan_diagnostic hd
  | again => exact rescanSlash_diagnostic hd

end Lexer

/-- **An error that points into the text points between two characters.** -/
theorem ParseError.PointsInto.isBoundary {text : List Char} {e : ParseError} (h : e.PointsInto text) :
    Text.IsBoundary text e.offset := by
  obtain ⟨first, ahead, x, hcuts, herror⟩ := h
  unfold Lexeme.HasError at herror
  split at herror
  · obtain ⟨n, hn, hboundary⟩ := herror.isBoundary
    rw [hn]
    exact hcuts.isBoundary hboundary
  · rw [herror]
    exact hcuts.isBoundary x.lexeme.textStart_isBoundary

/-! ## Where a program fails -/

/-- The reading stands in front of a token that is cut off the text without an error. -/
def Reading.StandsIn (text : List Char) (r : Reading) : Prop :=
  ∃ x, Lexer.Cuts text r.start r.here x ∧ x.diagnostic = none ∧ r.current = x.lexeme ∧ r.rest = x.rest

namespace Reading.StandsIn

variable {text : List Char} {r r' : Reading} {e : ParseError}

/-- A token that is cut without an error is one in front of which a reading stands. -/
theorem of_ofScanned {first depth : Nat} {ahead : List Char} {x : Lexer.Scanned} {ends : Bool}
    (hcuts : Lexer.Cuts text first ahead x) (h : ofScanned ahead first x ends depth = .ok r) : r.StandsIn text := by
  unfold ofScanned at h
  split at h
  · cases h
  · rename_i hsound
    cases h
    exact ⟨x, hcuts, hsound, rfl, rfl⟩

/-- **The error of a token that cannot be cut is at that token.** -/
theorem pointsInto_of_ofScanned {first depth : Nat} {ahead : List Char} {x : Lexer.Scanned} {ends : Bool}
    (hcuts : Lexer.Cuts text first ahead x) (h : ofScanned ahead first x ends depth = .error e) :
    e.PointsInto text := by
  unfold ofScanned at h
  split at h
  · rename_i d hd
    cases h
    exact ⟨first, ahead, x, hcuts, hcuts.hasError hd⟩
  · cases h

/-- The token behind the current one is cut off the text. -/
theorem cuts_next (h : r.StandsIn text) : Lexer.Cuts text r.stop r.rest (Lexer.scan r.stop r.rest) := by
  obtain ⟨x, hcuts, hsound, hcurrent, hrest⟩ := h
  rw [stop, hcurrent, hrest]
  exact hcuts.next hsound

theorem cuts_again (h : r.StandsIn text) (hslash : AtSlash r.kind) :
    Lexer.Cuts text r.start r.here (Lexer.rescanSlash r.start r.here) := by
  obtain ⟨x, hcuts, hsound, hcurrent, -⟩ := h
  rw [kind, hcurrent] at hslash
  exact hcuts.again hsound hslash

/-- **A fault of the grammar is at the characters of the current token.** -/
theorem errorHere (h : r.StandsIn text) (f : ParseFault) (hf : ∀ e, f ≠ .lexical e) :
    (r.errorHere f).PointsInto text := by
  obtain ⟨x, hcuts, -, hcurrent, -⟩ := h
  have hno : (r.errorHere f).fault ≠ .lexical .unterminatedComment := hf _
  refine ⟨r.start, r.here, x, hcuts, ?_⟩
  rw [Lexeme.HasError, if_neg hno, ← hcurrent]
  rfl

end Reading.StandsIn

/-- Readings stand in front of tokens that are cut off the text, and errors point into it. -/
def Parser.cutting (text : List Char) : Parser.Invariant where
  place := Reading.StandsIn text
  error := ParseError.PointsInto text
  next h := Reading.StandsIn.of_ofScanned h.cuts_next
  nextError h := Reading.StandsIn.pointsInto_of_ofScanned h.cuts_next
  again h hslash := Reading.StandsIn.of_ofScanned (h.cuts_again hslash)
  againError h hslash := Reading.StandsIn.pointsInto_of_ofScanned (h.cuts_again hslash)
  depth h _ := h
  fault h := h.errorHere

/-- **The error of a text that is no program points into the text.** -/
theorem parse_pointsInto {text : List Char} {e : ParseError} (h : parse text = .error e) : e.PointsInto text := by
  unfold parse parseFrom at h
  split at h
  · rename_i e' herror
    cases h
    exact Reading.StandsIn.pointsInto_of_ofScanned .first herror
  · rename_i r hr
    have hends := Parser.keeps_program (I := Parser.cutting text) (loopsFor text) (levelsFor text) r
      (Reading.StandsIn.of_ofScanned .first hr) 0
    unfold Work.runFrom at h
    cases hrun : Parser.program (Parser.descent (loopsFor text) (levelsFor text)) ⟨0, r⟩ with
    | ok n s => rw [hrun] at h; cases h
    | error e' s =>
      rw [hrun] at h hends
      cases h
      exact hends

/-- **A parse error points into the text**: its offset is one between two characters, and some token that is cut off
the text, or cut anew there, has its characters or a comment that is not closed at it. -/
theorem parse_error_place (text : List Char) (e : ParseError) (h : parse text = .error e) :
    e.offset ≤ Text.width text ∧ Text.IsBoundary text e.offset ∧ e.PointsInto text :=
  have hpoints := parse_pointsInto h
  ⟨hpoints.isBoundary.le_width, hpoints.isBoundary, hpoints⟩

/-- A comment that is not closed, behind a regular expression that has the marks of one in it, in a text that has
fewer characters than bytes. -/
theorem parse_error_place_comment :
    parse "é = /[/*]/; y /* z".toList = .error ⟨.lexical .unterminatedComment, 15⟩ ∧
      15 ≤ Text.width "é = /[/*]/; y /* z".toList ∧ Text.IsBoundary "é = /[/*]/; y /* z".toList 15 ∧
        ParseError.PointsInto "é = /[/*]/; y /* z".toList ⟨.lexical .unterminatedComment, 15⟩ := by
  have hrun : parse "é = /[/*]/; y /* z".toList = .error ⟨.lexical .unterminatedComment, 15⟩ := by
    have herror : (match parse "é = /[/*]/; y /* z".toList with | .ok _ => none | .error e => some e) =
        some ⟨.lexical .unterminatedComment, 15⟩ := by decide +kernel
    cases h : parse "é = /[/*]/; y /* z".toList with
    | ok tree => rw [h] at herror; cases herror
    | error e => rw [h] at herror; cases herror; rfl
  exact ⟨hrun, parse_error_place _ _ hrun⟩

/-- The place that is shown for an error is that of its offset, which is never past the end of the text. -/
theorem parse_error_position {text : List Char} {e : ParseError} (h : parse text = .error e) :
    e.position text = (LineMap.ofText text).positionOf e.offset := by
  rw [ParseError.position, Nat.min_eq_left (parse_pointsInto h).isBoundary.le_width]

end Downlevel
