import Downlevel.Proofs.Lexer.Denotes
import Mathlib.Algebra.Ring.Nat
import Mathlib.Data.List.Chain
/-!
# Proofs.Lexer.Canonical — a text is cut into its tokens, and nothing is left over

`Scans` is the loop that cuts one token after the other and stops behind the end of the file.  Each turn takes characters
off the text, so the loop ends, and `scanAll` gives what it gives (`scanUpTo_scans`).  What one turn takes is the text
up to the next token, trivia in front of a token belongs to the token before it as far as the line goes, and only the
end of the file has no characters; from that the tokens of a whole text are canonical (`scanAll_canonical`).
-/
namespace Downlevel.Lexer

open CharClass

variable {cs : List Char} {offset : Nat}

/-! ## The characters of a token -/

theorem cutName_text_ne_nil (h : cs ≠ []) : (cutName cs).text ≠ [] := by
  intro hnil
  have hdenotes : (Lexeme.realized (cutName cs).kind .empty (cutName cs).text (cutName cs).value .empty).Denotes :=
    cutName_denotes h
  rcases hdenotes.text hnil with hk | hk
  all_goals
    change (cutName cs).kind = _ at hk
    unfold cutName at hk
    dsimp only at hk
    repeat' split at hk
    all_goals cases hk

/-- **Only the end of the file has no characters.** -/
theorem cutToken_text_eq_nil : (cutToken cs).text = [] ↔ cs = [] := by
  refine ⟨fun hnil => ?_, fun h => by rw [h]; rfl⟩
  cases cs with
  | nil => rfl
  | cons c after =>
    exfalso
    unfold cutToken at hnil
    dsimp only at hnil
    split at hnil
    · exact cutName_text_ne_nil (List.cons_ne_nil _ _) hnil
    split at hnil
    · rename_i hnumber
      rw [Bool.or_eq_true, Bool.and_eq_true, decide_eq_true_eq] at hnumber
      exact splitNumber_ne_nil (hnumber.imp_right And.left) hnil
    split at hnil
    · cases hnil
    split at hnil
    · rename_i p _
      exact p.ne_nil hnil
    · cases hnil

theorem cutToken_kind_eq_endOfFile : (cutToken cs).kind = .endOfFile ↔ cs = [] := by
  refine ⟨fun hk => ?_, fun h => by rw [h]; rfl⟩
  cases cs with
  | nil => rfl
  | cons c after =>
    exfalso
    unfold cutToken at hk
    simp only [cutName] at hk
    repeat' split at hk
    all_goals cases hk

/-! ## One token -/

theorem scan_kind_eq_endOfFile : (scan offset cs).lexeme.kind = .endOfFile ↔ (run false offset cs).rest = [] :=
  cutToken_kind_eq_endOfFile

/-- Only the end of the file is cut off without characters. -/
theorem scan_text_eq_nil : (scan offset cs).lexeme.text = [] ↔ (scan offset cs).lexeme.kind = .endOfFile :=
  cutToken_text_eq_nil.trans scan_kind_eq_endOfFile.symm

/-- **Each token but the last one makes the text shorter.** -/
theorem scan_rest_length (h : (scan offset cs).lexeme.kind ≠ .endOfFile) : (scan offset cs).rest.length < cs.length := by
  have hpos := List.length_pos_iff.2 (fun hnil => h (scan_text_eq_nil.1 hnil))
  have hlength := congrArg List.length (scan_fullText offset cs)
  simp only [Lexeme.fullText, List.length_append] at hlength
  omega

theorem scan_leading : (scan offset cs).lexeme.leading.toList = (run false offset cs).items :=
  TriviaList.toList_ofList _

/-- The trivia behind a token, and the text behind that. -/
theorem scan_trailing : (scan offset cs).lexeme.trailing = .empty ∧ (scan offset cs).rest = [] ∨
    ∃ start behind, (scan offset cs).lexeme.trailing.toList = (run true start behind).items ∧
      (scan offset cs).rest = (run true start behind).rest := by
  by_cases hk : (scan offset cs).lexeme.kind = .endOfFile
  · refine .inl ⟨?_, scan_rest_of_endOfFile hk⟩
    have hk : (cutToken (run false offset cs).rest).kind = .endOfFile := hk
    simp only [scan, Lexeme.trailing, if_pos hk]
    rfl
  · have hk : ¬ (cutToken (run false offset cs).rest).kind = .endOfFile := hk
    simp only [scan, Lexeme.trailing, if_neg hk, TriviaList.toList_ofList]
    exact .inr ⟨_, _, rfl, rfl⟩

/-- All trivia around a token has characters. -/
theorem scan_trivia : ∀ item ∈ (scan offset cs).lexeme.leading.toList ++ (scan offset cs).lexeme.trailing.toList,
    item.text ≠ [] := by
  rw [scan_leading, List.forall_mem_append]
  refine ⟨runUpTo_items, ?_⟩
  rcases scan_trailing with ⟨hnone, -⟩ | ⟨_, _, htrailing, -⟩
  · rw [hnone]
    exact fun _ h => by cases h
  · rw [htrailing]
    exact runUpTo_items

/-- Of the trivia behind a token only the last piece ends a line. -/
theorem scan_trailing_newLine : ∀ item ∈ (scan offset cs).lexeme.trailing.toList.dropLast, item.isNewLine = false := by
  rcases scan_trailing with ⟨hnone, -⟩ | ⟨_, _, htrailing, -⟩
  · rw [hnone]
    exact fun _ h => by cases h
  · rw [htrailing]
    exact runUpTo_trailing_newLine

/-- **Behind a token that ends no line the next one follows at once.** -/
theorem scan_next_leading (h : (scan offset cs).lexeme.trailing.hasNewLine = false) (next : Nat) :
    (scan next (scan offset cs).rest).lexeme.leading = .empty := by
  have hnone : cut? (scan offset cs).rest = none := by
    rcases scan_trailing with ⟨-, hrest⟩ | ⟨start, behind, htrailing, hrest⟩
    · rw [hrest]
      rfl
    · rw [TriviaList.hasNewLine_eq, htrailing] at h
      rw [hrest]
      refine (runUpTo_stops (Nat.le_refl _)).resolve_right (fun ⟨_, hline⟩ => ?_)
      exact Bool.false_ne_true (h.symm.trans hline)
  refine TriviaList.ext_toList ?_
  rw [scan_leading, run_of_cut?_eq_none hnone]
  rfl

/-! ## All tokens -/

/-- Cutting one token after the other off a text comes to the end of the file with these tokens. -/
inductive Scans : Nat → List Char → List (Lexeme × Option Diagnostic) → Prop
  | last {offset : Nat} {cs : List Char} (ends : (scan offset cs).lexeme.kind = .endOfFile) :
    Scans offset cs [((scan offset cs).lexeme, (scan offset cs).diagnostic)]
  | more {offset : Nat} {cs : List Char} {tokens : List (Lexeme × Option Diagnostic)}
    (goes : (scan offset cs).lexeme.kind ≠ .endOfFile)
    (rest : Scans (offset + (scan offset cs).lexeme.fullWidth) (scan offset cs).rest tokens) :
    Scans offset cs (((scan offset cs).lexeme, (scan offset cs).diagnostic) :: tokens)

/-- **The loop ends**: a text has no more tokens than characters, and one for the end of the file. -/
theorem scanUpTo_scans : ∀ {limit offset : Nat} {cs : List Char}, cs.length < limit →
    Scans offset cs (scanUpTo limit offset cs)
  | limit + 1, offset, cs, h => by
    unfold scanUpTo
    dsimp only
    split
    · rename_i hk
      exact .last hk
    · rename_i hk
      have hshort := scan_rest_length hk
      exact .more hk (scanUpTo_scans (by omega))

/-- Tokens that make up a text in the one way in which it is cut. -/
structure Canonical (text : List Char) (tokens : List Lexeme) : Prop where
  /-- The tokens with their trivia are the text. -/
  lossless : tokens.flatMap Lexeme.fullText = text
  /-- The end of the file stands at the end and nowhere else, and it alone has no characters. -/
  ends : ∃ before last, tokens = before ++ [last] ∧ (last.kind = .endOfFile ∧ last.text = []) ∧
    ∀ x ∈ before, x.kind ≠ .endOfFile ∧ x.text ≠ []
  /-- No piece of trivia is empty. -/
  trivia : ∀ x ∈ tokens, ∀ item ∈ x.leading.toList ++ x.trailing.toList, item.text ≠ []
  /-- Of the trivia behind a token only the last piece may end a line. -/
  trailing : ∀ x ∈ tokens, ∀ item ∈ x.trailing.toList.dropLast, item.isNewLine = false
  /-- Trivia stands in front of a token only where the token before it ends a line. -/
  leading : tokens.IsChain (fun x y => x.trailing.hasNewLine = false → y.leading = .empty)

namespace Scans

variable {tokens : List (Lexeme × Option Diagnostic)}

theorem head (h : Scans offset cs tokens) : ∃ rest, tokens.map Prod.fst = (scan offset cs).lexeme :: rest := by
  cases h with
  | last => exact ⟨[], rfl⟩
  | @more _ _ tokens => exact ⟨tokens.map Prod.fst, rfl⟩

/-- Each token of a text was scanned behind the tokens in front of it. -/
theorem scanned {before behind : List (Lexeme × Option Diagnostic)} {x : Lexeme} {d : Option Diagnostic}
    (h : Scans offset cs tokens) (hsplit : tokens = before ++ (x, d) :: behind) :
    ∃ ds, x = (scan (offset + (before.map (fun t => t.1.fullWidth)).sum) ds).lexeme ∧
      d = (scan (offset + (before.map (fun t => t.1.fullWidth)).sum) ds).diagnostic := by
  induction h generalizing before with
  | @last offset cs ends =>
    cases before with
    | nil =>
      cases hsplit
      exact ⟨cs, rfl, rfl⟩
    | cons t before =>
      obtain ⟨-, hnil⟩ := List.cons.inj hsplit
      exact absurd hnil.symm (List.append_ne_nil_of_right_ne_nil _ (List.cons_ne_nil _ _))
  | @more offset cs tokens goes rest ih =>
    cases before with
    | nil =>
      cases hsplit
      exact ⟨cs, rfl, rfl⟩
    | cons t before =>
      obtain ⟨rfl, hrest⟩ := List.cons.inj hsplit
      obtain ⟨ds, hx, hd⟩ := ih hrest
      rw [List.map_cons, List.sum_cons, ← Nat.add_assoc]
      exact ⟨ds, hx, hd⟩

/-- Every token of a text was cut off somewhere in it. -/
theorem cut (h : Scans offset cs tokens) : ∀ x ∈ tokens.map Prod.fst, ∃ start ds, x = (scan start ds).lexeme := by
  intro x hx
  obtain ⟨⟨x, d⟩, hmem, rfl⟩ := List.mem_map.1 hx
  obtain ⟨before, behind, hsplit⟩ := List.append_of_mem hmem
  obtain ⟨ds, hcut, -⟩ := h.scanned hsplit
  exact ⟨_, ds, hcut⟩

/-- **The tokens that come one after the other are canonical.** -/
theorem canonical (h : Scans offset cs tokens) : Canonical cs (tokens.map Prod.fst) := by
  induction h with
  | @last offset cs ends =>
    refine ⟨?_, ⟨[], _, rfl, ⟨ends, scan_text_eq_nil.2 ends⟩, fun _ hx => by cases hx⟩, ?_, ?_, .singleton _⟩
    · have hall := scan_fullText offset cs
      rw [scan_rest_of_endOfFile ends, List.append_nil] at hall
      simpa using hall
    · exact List.forall_mem_singleton.2 scan_trivia
    · exact List.forall_mem_singleton.2 scan_trailing_newLine
  | @more offset cs tokens goes rest ih =>
    obtain ⟨before, last, hsplit, hlast, hbefore⟩ := ih.ends
    rw [List.map_cons]
    refine ⟨?_, ⟨(scan offset cs).lexeme :: before, last, by rw [hsplit]; rfl, hlast, ?_⟩, ?_, ?_, ?_⟩
    · rw [List.flatMap_cons, ih.lossless, scan_fullText]
    · exact List.forall_mem_cons.2 ⟨⟨goes, fun hnil => goes (scan_text_eq_nil.1 hnil)⟩, hbefore⟩
    · exact List.forall_mem_cons.2 ⟨scan_trivia, ih.trivia⟩
    · exact List.forall_mem_cons.2 ⟨scan_trailing_newLine, ih.trailing⟩
    · have hleading := ih.leading
      obtain ⟨behind, hhead⟩ := rest.head
      rw [hhead] at hleading ⊢
      exact .cons_cons (fun hline => scan_next_leading hline _) hleading

end Scans

theorem scanAll_scans (text : List Char) : Scans 0 text (scanAll text) := scanUpTo_scans (Nat.lt_succ_self _)

/-- **Scanning is a lossless and canonical decomposition**: it comes to an end for every text, and its tokens make up the
text in the one way in which it is cut. -/
theorem scanAll_canonical (text : List Char) :
    Scans 0 text (scanAll text) ∧ Canonical text ((scanAll text).map Prod.fst) :=
  ⟨scanAll_scans text, (scanAll_scans text).canonical⟩

end Downlevel.Lexer
