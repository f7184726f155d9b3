import Downlevel.Layout.Options
import Downlevel.Proofs.Grammar.Layout
import Downlevel.Proofs.Lexer.Lines
/-!
# Proofs.Grammar.Seen — what the grammar sees of a text

Of each token the grammar sees the kind, the characters, what they denote, and whether the token starts a line
(`Lexer.Seen`).  Texts of plain lines of which it sees the same are alike (`alike_of_seen`); and it sees the same of a
line however the line is indented and whichever characters end it, as can be checked line by line (`LinesSeen.laid`).
-/
namespace Downlevel

namespace Lexer

variable {cs t rest : List Char} {n m : Nat} {ends ends' : Bool}

/-- What the grammar sees of a token. -/
structure Seen where
  kind : TokenKind
  text : List Char
  value : TokenValue
  startsLine : Bool
  deriving DecidableEq

/-- What is seen of the first tokens of a text, whether a line ends with them, and the text behind. -/
structure SeenRun where
  tokens : List Seen
  ends : Bool
  rest : List Char
  deriving DecidableEq

/-- What is seen of so many tokens of a text, none of which is faulty, the end of the file or a slash; `ends` says that
the text starts a line. -/
def seenUpTo : Nat → Bool → List Char → Option SeenRun
  | 0, ends, cs => some ⟨[], ends, cs⟩
  | n + 1, ends, cs =>
    let next := scan 0 cs
    let x := next.lexeme
    if next.diagnostic.isNone && !(x.kind == .endOfFile || x.kind == .punctuation .slash
        || x.kind == .punctuation .slashEquals) then
      (seenUpTo n x.trailing.hasNewLine next.rest).map (fun run =>
        { run with tokens := ⟨x.kind, x.text, x.value, ends || x.leading.hasNewLine⟩ :: run.tokens })
    else none

/-- The first of the tokens that are seen. -/
theorem seenUpTo_succ {run : SeenRun} (h : seenUpTo (n + 1) ends cs = some run) : ∃ x rest more,
    scan 0 cs = ⟨x, rest, none⟩ ∧ x.kind ≠ .endOfFile ∧ ¬ Reading.AtSlash x.kind ∧
      seenUpTo n x.trailing.hasNewLine rest = some more ∧
      run = { more with tokens := ⟨x.kind, x.text, x.value, ends || x.leading.hasNewLine⟩ :: more.tokens } := by
  unfold seenUpTo at h
  dsimp only at h
  split at h
  · rename_i hok
    obtain ⟨more, hmore, rfl⟩ := Option.map_eq_some_iff.1 h
    simp only [Bool.and_eq_true, Option.isNone_iff_eq_none, Bool.not_eq_true', Bool.or_eq_false_iff,
      beq_eq_false_iff_ne] at hok
    obtain ⟨hnone, ⟨hend, hslash⟩, hassign⟩ := hok
    exact ⟨_, _, more, by rw [← hnone], hend, fun h => h.elim hslash hassign, hmore, rfl⟩
  · cases h

theorem seenUpTo_of_scan {x : Lexeme} {more : SeenRun} (hscan : scan 0 cs = ⟨x, rest, none⟩)
    (hend : x.kind ≠ .endOfFile) (hslash : ¬ Reading.AtSlash x.kind) (h : seenUpTo n x.trailing.hasNewLine rest = some more) :
    seenUpTo (n + 1) ends cs =
      some { more with tokens := ⟨x.kind, x.text, x.value, ends || x.leading.hasNewLine⟩ :: more.tokens } := by
  rw [Reading.AtSlash, not_or] at hslash
  unfold seenUpTo
  simp [hscan, hend, hslash.1, hslash.2, h]

/-- **What is seen of lines does not depend on what follows them.** -/
theorem seenUpTo_append_lines : ∀ {n : Nat} {ends : Bool} {cs : List Char} {run : SeenRun}, PlainLines cs →
    seenUpTo n ends cs = some run → seenUpTo n ends (cs ++ t) = some { run with rest := run.rest ++ t }
  | 0, _, _, _, _, h => by cases h; rfl
  | n + 1, ends, cs, run, hlines, h => by
    obtain ⟨x, rest, more, hscan, hend, hslash, hmore, rfl⟩ := seenUpTo_succ h
    obtain ⟨hscan', hrest⟩ := scan_append_lines hlines hscan hend
    exact seenUpTo_of_scan hscan' hend hslash (seenUpTo_append_lines hrest hmore)

/-- Tokens are seen one after the other. -/
theorem seenUpTo_add : ∀ {n : Nat} {ends : Bool} {cs : List Char} {run more : SeenRun},
    seenUpTo n ends cs = some run → seenUpTo m run.ends run.rest = some more →
      seenUpTo (n + m) ends cs = some { more with tokens := run.tokens ++ more.tokens }
  | 0, _, _, _, _, h, hmore => by
    cases h
    rw [Nat.zero_add]
    exact hmore
  | n + 1, ends, cs, run, more, h, hmore => by
    obtain ⟨x, rest, run', hscan, hend, hslash, hrun, rfl⟩ := seenUpTo_succ h
    rw [Nat.succ_add]
    exact seenUpTo_of_scan hscan hend hslash (seenUpTo_add hrun hmore)

/-- **Blanks at the start of a line are not seen.** -/
theorem seenUpTo_indented {blanks : List Char} (hblanks : ∀ c ∈ blanks, CharClass.isBlank c = true)
    (hcs : cut? cs = none) {run : SeenRun} (h : seenUpTo (n + 1) true cs = some run) :
    seenUpTo (n + 1) true (blanks ++ cs) = some run := by
  obtain ⟨x, rest, more, hscan, hend, hslash, hmore, rfl⟩ := seenUpTo_succ h
  obtain ⟨lead, hscan'⟩ := scan_indented hblanks hcs hscan hend
  exact (seenUpTo_of_scan hscan' hend hslash hmore).trans rfl

end Lexer

namespace Reading

open Lexer

/-- **Texts of which the same is seen are alike.** -/
theorem alike_of_seen : ∀ {n : Nat} {ends ends' : Bool} {cs cs' : List Char} {run : SeenRun} (a b d d' : Nat),
    run.rest = [] → seenUpTo n ends cs = some run → seenUpTo n ends' cs' = some run →
      Both (Alike (n + 1)) (ofScanned cs a (scan a cs) ends d) (ofScanned cs' b (scan b cs') ends' d')
  | 0, ends, ends', cs, cs', run, a, b, d, d', hnil, h, h' => by
    cases h
    obtain ⟨-, rfl, rfl⟩ := SeenRun.mk.inj (Option.some.inj h')
    obtain rfl : cs' = [] := hnil
    refine .ok ⟨⟨rfl, rfl, rfl, rfl⟩, fun hk => absurd rfl hk, fun hs => ?_⟩
    rcases hs with hs | hs <;> cases hs
  | n + 1, ends, ends', cs, cs', run, a, b, d, d', hnil, h, h' => by
    obtain ⟨x, rest, more, hscan, hend, hslash, hmore, rfl⟩ := seenUpTo_succ h
    obtain ⟨x', rest', more', hscan', hend', -, hmore', heq⟩ := seenUpTo_succ h'
    obtain ⟨htokens, hends, hrest⟩ := SeenRun.mk.inj heq
    obtain ⟨hseen, htokens⟩ := List.cons.inj htokens
    obtain ⟨hkind, htext, hvalue, hline⟩ := Seen.mk.inj hseen
    have hmore : more' = more := by
      obtain ⟨ts, e, r⟩ := more'
      rw [← show more.tokens = ts from htokens, ← show more.ends = e from hends, ← show more.rest = r from hrest]
    subst hmore
    rw [scan_offset hscan hend a, scan_offset hscan' hend' b]
    refine .ok ⟨⟨hkind, htext, hvalue, hline⟩, fun _ => ?_, fun hs => absurd hs hslash⟩
    exact alike_of_seen _ _ d d' (show more'.rest = [] from hnil) hmore hmore'

end Reading

/-! ## Lines -/

namespace Lexer

/-- The same is seen of the line, one token at least, whichever characters end it. -/
structure SeenLine (ends : Bool) (line : List Char) (count : Nat) (tokens : List Seen) : Prop where
  plain : ∀ c ∈ line, isPlain c = true
  starts : ∀ e : LineEnding, cut? (line ++ e.text) = none
  seen : ∀ e : LineEnding, seenUpTo (count + 1) ends (line ++ e.text) = some ⟨tokens, true, []⟩

variable {line : List Char} {count : Nat} {tokens : List Seen}

theorem SeenLine.lines (h : SeenLine ends line count tokens) (e : LineEnding) : PlainLines (line ++ e.text) where
  plain c hc := (List.mem_append.1 hc).elim (h.plain c) (fun hc => by
    cases e with
    | lf => obtain rfl := List.mem_singleton.1 hc; rfl
    | crlf => rcases List.mem_pair.1 hc with rfl | rfl <;> rfl)
  ends c hc := by
    rw [List.getLast?_append] at hc
    cases e <;> cases hc <;> rfl

/-- **The same is seen of a line in front of others**, however it is indented if it may be. -/
theorem SeenLine.behind (h : SeenLine ends line count tokens) (e : LineEnding) {blanks : List Char}
    (hblanks : ∀ c ∈ blanks, CharClass.isBlank c = true) (hends : ends = true ∨ blanks = []) :
    seenUpTo (count + 1) ends (blanks ++ (line ++ e.text ++ t)) = some ⟨tokens, true, t⟩ := by
  have hseen : seenUpTo (count + 1) ends (line ++ e.text ++ t) = some ⟨tokens, true, t⟩ :=
    seenUpTo_append_lines (h.lines e) (h.seen e)
  rcases hends with rfl | rfl
  · refine seenUpTo_indented hblanks ?_ hseen
    rw [cut?_append_lines (h.lines e).plain ((h.lines e).mem ?_), h.starts e]
    · rfl
    · cases e <;> simp [LineEnding.text]
  · exact hseen

/-- What is seen of a line that a line feed ends. -/
def seenLine (ends : Bool) (line : List Char) (count : Nat) : List Seen :=
  ((seenUpTo (count + 1) ends (line ++ LineEnding.lf.text)).map SeenRun.tokens).getD []

/-- The line is plain, starts with a token, and has so many tokens and one more, the same with each end of line. -/
def isSeenLine (ends : Bool) (line : List Char) (count : Nat) : Bool :=
  line.all isPlain && [LineEnding.crlf, .lf].all (fun e => cut? (line ++ e.text) = none &&
    seenUpTo (count + 1) ends (line ++ e.text) = some ⟨seenLine ends line count, true, []⟩)

theorem seenLine_of_check (h : isSeenLine ends line count = true) :
    SeenLine ends line count (seenLine ends line count) := by
  simp only [isSeenLine, Bool.and_eq_true, List.all_eq_true, decide_eq_true_eq] at h
  have hmem : ∀ e : LineEnding, e ∈ [LineEnding.crlf, .lf] := fun e => by cases e <;> decide
  exact ⟨h.1, fun e => (h.2 e (hmem e)).1, fun e => (h.2 e (hmem e)).2⟩

/-! ## Lines laid out -/

/-- Lines, each with whether it is indented, with blanks in front of those that are and a text that ends each. -/
def layLines (blanks newLine : List Char) (lines : List (Bool × List Char)) : List Char :=
  lines.flatMap (fun line => (if line.1 then blanks else []) ++ (line.2 ++ newLine))

variable {blanks newLine : List Char} {lines : List (Bool × List Char)}

theorem layLines_cons (x : Bool × List Char) : layLines blanks newLine (x :: lines) =
    (if x.1 then blanks else []) ++ (x.2 ++ newLine ++ layLines blanks newLine lines) := by
  simp [layLines]

/-- Lines are no shorter than what stands in them. -/
theorem length_layLines (lines : List (Bool × List Char)) :
    (lines.map (fun x => x.2.length)).sum ≤ (layLines blanks newLine lines).length := by
  induction lines with
  | nil => exact Nat.le_refl _
  | cons x lines ih =>
    rw [layLines_cons, List.map_cons, List.sum_cons]
    simp only [List.length_append]
    omega

/-- So many tokens are seen in lines, the first of which starts a line of the text or does not. -/
inductive LinesSeen : Bool → List (Bool × List Char) → Nat → List Seen → Prop
  | nil (ends : Bool) : LinesSeen ends [] 0 []
  | cons {ends indented : Bool} {line : List Char} {lines : List (Bool × List Char)} {n : Nat} {more : List Seen}
    (count : Nat) (seen : isSeenLine ends line count = true) (starts : ends = true ∨ indented = false)
    (rest : LinesSeen true lines n more) :
    LinesSeen ends ((indented, line) :: lines) (count + 1 + n) (seenLine ends line count ++ more)

/-- **The same is seen of lines however they are laid out.** -/
theorem LinesSeen.laid (h : LinesSeen ends lines n tokens) (hblanks : ∀ c ∈ blanks, CharClass.isBlank c = true)
    (e : LineEnding) :
    seenUpTo n ends (layLines blanks e.text lines) = some ⟨tokens, ends || !lines.isEmpty, []⟩ := by
  induction h with
  | nil ends => simp [seenUpTo, layLines]
  | @cons ends indented line lines n more count seen starts _ ih =>
    rw [layLines_cons]
    have hlead : ∀ c ∈ (if indented then blanks else []), CharClass.isBlank c = true := by
      split
      · exact hblanks
      · exact fun _ hc => by cases hc
    have hstart : ends = true ∨ (if indented then blanks else []) = [] := starts.imp_right (by rintro rfl; rfl)
    exact (seenUpTo_add ((seenLine_of_check seen).behind e hlead hstart) ih).trans (by simp)

end Lexer

end Downlevel
