import Downlevel.Proofs.Lexer.Lossless
import Mathlib.Algebra.Ring.Nat
/-!
# Proofs.Lexer.Lines — a line is cut without a look at the next

A token that is cut off without a fault is the same wherever it stands (`scan_offset`).  How far a name, a mark or a run
of blanks reaches is known at the end of its line at the latest, so the tokens of lines that hold nothing else are the
same whatever follows the lines (`scan_append_lines`), and however the lines are indented (`scan_indented`).
-/
namespace Downlevel.Lexer

open CharClass

variable {cs t : List Char} {c : Char}

/-! ## Offsets -/

theorem runUpTo_offset {trailing : Bool} : ∀ {limit a : Nat} {cs rest : List Char} {items : List Trivia},
    runUpTo trailing limit a cs = ⟨items, rest, none⟩ → ∀ b, runUpTo trailing limit b cs = ⟨items, rest, none⟩
  | 0, _, _, _, _, h, _ => h
  | limit + 1, a, cs, rest, items, h, b => by
    unfold runUpTo at h ⊢
    cases hcut : cut? cs with
    | none =>
      rw [hcut] at h
      exact h
    | some cut =>
      rw [hcut] at h
      dsimp only at h ⊢
      cases hclosed : cut.unterminated with
      | true =>
        rw [hclosed] at h
        split at h <;> cases h
      | false =>
        rw [hclosed] at h
        simp only [Bool.false_eq_true, if_false, Option.none_or] at h ⊢
        split at h
        · rename_i hstop
          rw [if_pos hstop]
          exact h
        · rename_i hstop
          rw [if_neg hstop]
          generalize hmore : runUpTo trailing limit (a + cut.item.fullWidth) cut.rest = more at h
          obtain ⟨items', rest', diagnostic⟩ := more
          cases h
          rw [runUpTo_offset hmore]

/-- What is cut off without a fault: the trivia in front, the token and the trivia behind. -/
theorem scan_eq {a : Nat} {x : Lexeme} {rest : List Char} (h : scan a cs = ⟨x, rest, none⟩) (hend : x.kind ≠ .endOfFile) :
    ∃ items behind items' b, run false a cs = ⟨items, behind, none⟩ ∧ (cutToken behind).error = none ∧
      run true b (cutToken behind).rest = ⟨items', rest, none⟩ ∧ x = .realized (cutToken behind).kind (.ofList items)
        (cutToken behind).text (cutToken behind).value (.ofList items') := by
  unfold scan at h
  generalize hlead : run false a cs = lead at h
  obtain ⟨items, behind, diagnostic⟩ := lead
  dsimp only at h
  have hkind : (cutToken behind).kind ≠ .endOfFile := fun hk => hend ((congrArg (fun s => s.lexeme.kind) h).symm.trans hk)
  rw [if_neg hkind] at h
  generalize htrail : run true _ (cutToken behind).rest = trail at h
  obtain ⟨items', rest', diagnostic'⟩ := trail
  obtain ⟨rfl, rfl, hnone⟩ := Scanned.mk.inj h
  obtain ⟨hlead', hlater⟩ := Option.or_eq_none_iff.1 hnone
  obtain ⟨herror, htrail'⟩ := Option.or_eq_none_iff.1 hlater
  dsimp only at htrail'
  subst hlead' htrail'
  exact ⟨items, behind, items', _, rfl, Option.map_eq_none_iff.1 herror, htrail, rfl⟩

/-- A token is cut off where the trivia around it is. -/
theorem scan_of_runs {a : Nat} {behind rest : List Char} {items items' : List Trivia} {cut : TokenCut}
    (hlead : run false a cs = ⟨items, behind, none⟩) (hcut : cutToken behind = cut) (hok : cut.error = none)
    (hend : cut.kind ≠ .endOfFile) (htrail : ∀ b, run true b cut.rest = ⟨items', rest, none⟩) :
    scan a cs = ⟨.realized cut.kind (.ofList items) cut.text cut.value (.ofList items'), rest, none⟩ := by
  unfold scan
  rw [hlead]
  dsimp only
  rw [hcut]
  simp only [if_neg hend, htrail, hok, Option.map_none, Option.or_none]

/-- **A token that is cut off without a fault is the same wherever the text stands.** -/
theorem scan_offset {a : Nat} {x : Lexeme} {rest : List Char} (h : scan a cs = ⟨x, rest, none⟩)
    (hend : x.kind ≠ .endOfFile) (b : Nat) : scan b cs = ⟨x, rest, none⟩ := by
  obtain ⟨items, behind, items', o, hlead, hok, htrail, rfl⟩ := scan_eq h hend
  exact scan_of_runs (runUpTo_offset hlead b) rfl hok hend (runUpTo_offset htrail)

/-! ## Whole lines -/

/-- The character stands in names, marks, blanks and ends of line, but starts no number, literal or comment. -/
def isPlain (c : Char) : Bool := !(isDigit c || c == '\\' || c == '"' || c == '\'' || c == '/')

/-- The text ends with a line, or there is none, and it is made of such characters. -/
structure PlainLines (cs : List Char) : Prop where
  plain : ∀ c ∈ cs, isPlain c = true
  ends : ∀ c ∈ cs.getLast?, c = '\n'

namespace PlainLines

theorem mem (h : PlainLines cs) (hne : cs ≠ []) : '\n' ∈ cs := by
  have hc := h.ends _ (List.getLast?_eq_some_getLast hne)
  exact hc ▸ List.getLast_mem hne

theorem behind {a b : List Char} (h : PlainLines (a ++ b)) : PlainLines b where
  plain c hc := h.plain c (List.mem_append_right a hc)
  ends c hc := h.ends c (by
    rw [List.getLast?_append, Option.mem_def.1 hc]
    rfl)

end PlainLines

/-! ## Runs of characters -/

section Runs

variable {p : Char → Bool}

theorem takeWhile_append_lines (hp : p '\n' = false) (h : '\n' ∈ cs) : (cs ++ t).takeWhile p = cs.takeWhile p := by
  induction cs with
  | nil => cases h
  | cons c cs ih =>
    rw [List.cons_append, List.takeWhile_cons, List.takeWhile_cons]
    cases hc : p c with
    | false => rfl
    | true =>
      have hcs : '\n' ∈ cs := (List.mem_cons.1 h).resolve_left (by rintro rfl; rw [hp] at hc; cases hc)
      simp only [if_true, ih hcs]

theorem dropWhile_append_lines (hp : p '\n' = false) (h : '\n' ∈ cs) :
    (cs ++ t).dropWhile p = cs.dropWhile p ++ t := by
  induction cs with
  | nil => cases h
  | cons c cs ih =>
    rw [List.cons_append, List.dropWhile_cons, List.dropWhile_cons]
    cases hc : p c with
    | false => rfl
    | true =>
      have hcs : '\n' ∈ cs := (List.mem_cons.1 h).resolve_left (by rintro rfl; rw [hp] at hc; cases hc)
      simpa only [if_true] using ih hcs

theorem mem_dropWhile_lines (hp : p '\n' = false) (h : '\n' ∈ cs) : '\n' ∈ cs.dropWhile p := by
  induction cs with
  | nil => cases h
  | cons c cs ih =>
    rw [List.dropWhile_cons]
    cases hc : p c with
    | false => exact h
    | true => exact ih ((List.mem_cons.1 h).resolve_left (by rintro rfl; rw [hp] at hc; cases hc))

end Runs

/-! ## Tokens -/

/-- A name without escapes is a run of characters. -/
theorem splitName_append_lines (h : '\\' ∉ cs) (hmem : '\n' ∈ cs) :
    splitName (cs ++ t) = (cs.takeWhile isIdentifierPart, cs.dropWhile isIdentifierPart ++ t) := by
  induction cs with
  | nil => cases hmem
  | cons c cs ih =>
    rw [List.mem_cons, not_or] at h
    rw [List.cons_append, List.takeWhile_cons, List.dropWhile_cons]
    unfold splitName
    cases hpart : isIdentifierPart c with
    | true =>
      have hcs : '\n' ∈ cs := (List.mem_cons.1 hmem).resolve_left (by rintro rfl; cases hpart)
      simp [ih h.2 hcs]
    | false => simp [Ne.symm h.1]

/-- No mark reaches over the end of a line. -/
theorem punctuation?_append_lines (h : '\n' ∈ cs) : punctuation? (cs ++ t) = punctuation? cs := by
  have hmark : ∀ p ∈ Punctuation.all, '\n' ∉ p.text := by decide
  have hfind : ∀ n, Punctuation.all.find? (fun p => p.text == (cs ++ t).take n) =
      Punctuation.all.find? (fun p => p.text == cs.take n) := by
    intro n
    by_cases hn : n ≤ cs.length
    · rw [List.take_append_of_le_length hn]
    · have hlong : ∀ ds : List Char, '\n' ∈ ds → Punctuation.all.find? (fun p => p.text == ds) = none := fun ds hd =>
        List.find?_eq_none.2 (fun p hp heq => hmark p hp (by rw [eq_of_beq heq]; exact hd))
      have hle : cs.length ≤ n := Nat.le_of_not_le hn
      rw [hlong _ (by rw [List.take_append, List.take_of_length_le hle]; exact List.mem_append_left _ h),
        hlong _ (by rw [List.take_of_length_le hle]; exact h)]
  unfold punctuation?
  exact congrArg (fun f => List.findSome? f [4, 3, 2, 1]) (funext hfind)

/-- A token that starts plainly is a name or a mark. -/
theorem cutToken_of_plain {after : List Char} (hc : isPlain c = true)
    (hnext : c = '.' → after.head?.any isDigit = false) :
    cutToken (c :: after) = if isIdentifierStart c then cutName (c :: after) else
      match punctuation? (c :: after) with
      | some p => ⟨.punctuation p, p.text, .none, (c :: after).drop p.text.length, none⟩
      | none => ⟨.error, [c], .none, after, some (.unexpectedCharacter c)⟩ := by
  simp only [isPlain, Bool.not_eq_true', Bool.or_eq_false_iff, beq_eq_false_iff_ne] at hc
  obtain ⟨⟨⟨⟨hdigit, hback⟩, hquote⟩, happ⟩, -⟩ := hc
  have hnumber : (isDigit c || (decide (c = '.') && after.head?.any isDigit)) = false := by
    rw [hdigit, Bool.false_or, Bool.and_eq_false_imp]
    exact fun h => hnext (of_decide_eq_true h)
  unfold cutToken
  cases punctuation? (c :: after) <;>
    simp only [hback, decide_false, Bool.or_false, hnumber, hquote, happ, Bool.false_eq_true, if_false]

/-- The cut with more text behind. -/
def TokenCut.before (t : List Char) (cut : TokenCut) : TokenCut := { cut with rest := cut.rest ++ t }

theorem cutName_append_lines (h : '\\' ∉ cs) (hmem : '\n' ∈ cs) (hok : (cutName cs).error = none) :
    cutName (cs ++ t) = (cutName cs).before t ∧ (cutName cs).rest ≠ [] := by
  have hrest : cs.dropWhile isIdentifierPart ≠ [] := List.ne_nil_of_mem (mem_dropWhile_lines rfl hmem)
  have hsplit : splitName cs = (cs.takeWhile isIdentifierPart, cs.dropWhile isIdentifierPart) := by
    have happ := @splitName_append_lines cs [] h hmem
    rwa [List.append_nil, List.append_nil] at happ
  unfold cutName at hok ⊢
  rw [splitName_append_lines h hmem]
  rw [hsplit] at hok ⊢
  dsimp only at hok ⊢
  split at hok
  · cases hok
  · rename_i hname
    rw [if_neg hname, if_neg hname]
    split <;> exact ⟨rfl, hrest⟩

/-- **A token of a line is cut off whatever follows the line**, and does not take the end of the line. -/
theorem cutToken_append_lines (h : ∀ c ∈ cs, isPlain c = true) (hmem : '\n' ∈ cs) (hok : (cutToken cs).error = none) :
    cutToken (cs ++ t) = (cutToken cs).before t ∧ (cutToken cs).rest ≠ [] := by
  cases cs with
  | nil => cases hmem
  | cons c after =>
    have hc := h c List.mem_cons_self
    have hback : '\\' ∉ c :: after := fun hm => by cases h _ hm
    -- In plain lines there are no digits, so a point is never the front of a number.
    have hplain : ∀ d ∈ after.head?, isDigit d = false := fun d hd => by
      have := h d (List.mem_cons_of_mem c (List.mem_of_mem_head? hd))
      simp only [isPlain, Bool.not_eq_true', Bool.or_eq_false_iff] at this
      exact this.1.1.1.1
    have hnext : after.head?.any isDigit = false := by
      cases hd : after.head? with
      | none => rfl
      | some d => exact hplain d hd
    have hnext' : c = '.' → (after ++ t).head?.any isDigit = false := by
      rintro rfl
      cases after with
      | nil => simp at hmem
      | cons d after => exact hnext
    rw [List.cons_append, cutToken_of_plain hc (fun _ => hnext)]
    rw [cutToken_of_plain hc (fun _ => hnext)] at hok
    rw [cutToken_of_plain hc hnext', ← List.cons_append, punctuation?_append_lines hmem]
    split at hok
    · rename_i hstart
      rw [if_pos hstart, if_pos hstart]
      exact cutName_append_lines hback hmem hok
    · rename_i hstart
      rw [if_neg hstart, if_neg hstart]
      cases hp : punctuation? (c :: after) with
      | none =>
        rw [hp] at hok
        cases hok
      | some p =>
        have htext := punctuation?_text hp
        have hle : p.text.length ≤ (c :: after).length := by
          rw [← htext, List.length_append]
          exact Nat.le_add_right _ _
        have hmark : '\n' ∉ p.text := by cases p <;> decide
        refine ⟨?_, List.ne_nil_of_mem (a := '\n') ?_⟩
        · dsimp only [TokenCut.before]
          rw [List.drop_append_of_le_length hle]
        · rw [← htext] at hmem
          exact (List.mem_append.1 hmem).resolve_left hmark

/-! ## Trivia -/

/-- Trivia that starts plainly is a run of blanks or an end of line. -/
theorem cut?_of_plain {rest : List Char} (hc : isPlain c = true) : cut? (c :: rest) =
    if isBlank c then some ⟨⟨.whitespace, (c :: rest).takeWhile isBlank⟩, (c :: rest).dropWhile isBlank, false⟩
    else if isLineBreak c then some (cutLineBreak c rest) else none := by
  have hslash : c ≠ '/' := by rintro rfl; cases hc
  unfold cut?
  dsimp only
  rw [if_neg hslash]

theorem cutLineBreak_append_lines {rest : List Char} (hmem : '\n' ∈ c :: rest) :
    cutLineBreak c (rest ++ t) = { cutLineBreak c rest with rest := (cutLineBreak c rest).rest ++ t } := by
  cases rest with
  | nil =>
    obtain rfl := List.mem_singleton.1 hmem
    unfold cutLineBreak
    dsimp only
    split <;> rfl
  | cons d rest =>
    rw [List.cons_append]
    unfold cutLineBreak
    by_cases hd : d = '\n'
    · subst hd
      by_cases hc : c = '\r' <;> simp [hc]
    · split
      · rename_i heq
        exact absurd (List.cons.inj heq).1 hd
      · split
        · rename_i heq
          exact absurd (List.cons.inj heq).1 hd
        · rfl

/-- **A piece of trivia of a line is cut off whatever follows the line.** -/
theorem cut?_append_lines (h : ∀ c ∈ cs, isPlain c = true) (hmem : '\n' ∈ cs) :
    cut? (cs ++ t) = (cut? cs).map (fun cut => { cut with rest := cut.rest ++ t }) := by
  cases cs with
  | nil => cases hmem
  | cons c rest =>
    have hc := h c List.mem_cons_self
    rw [List.cons_append, cut?_of_plain hc, cut?_of_plain hc, ← List.cons_append, takeWhile_append_lines rfl hmem,
      dropWhile_append_lines rfl hmem, cutLineBreak_append_lines hmem]
    split
    · rfl
    · split <;> rfl

theorem cutLineBreak_eq (c : Char) (rest : List Char) : (cutLineBreak c rest).item.isNewLine = true ∧
    (cutLineBreak c rest).unterminated = false ∧ (cutLineBreak c rest).rest.length ≤ rest.length := by
  unfold cutLineBreak
  split
  · split
    · exact ⟨rfl, rfl, Nat.le_succ _⟩
    · exact ⟨rfl, rfl, Nat.le_refl _⟩
  · exact ⟨rfl, rfl, Nat.le_refl _⟩

/-- A piece of plain trivia has an end and some characters, and if it does not end the line, that is still to come. -/
theorem cut?_plain {cut : TriviaCut} (h : ∀ c ∈ cs, isPlain c = true) (hcut : cut? cs = some cut) :
    cut.unterminated = false ∧ cut.rest.length < cs.length ∧
      ('\n' ∈ cs → cut.item.isNewLine = false → '\n' ∈ cut.rest) := by
  cases cs with
  | nil => cases hcut
  | cons c rest =>
    rw [cut?_of_plain (h c List.mem_cons_self)] at hcut
    split at hcut
    · rename_i hblank
      cases hcut
      refine ⟨rfl, ?_, fun hmem _ => mem_dropWhile_lines rfl hmem⟩
      dsimp only
      rw [List.dropWhile_cons, if_pos hblank]
      exact Nat.lt_succ_of_le (List.dropWhile_sublist _).length_le
    · split at hcut
      · cases hcut
        obtain ⟨hline, hclosed, hle⟩ := cutLineBreak_eq c rest
        exact ⟨hclosed, Nat.lt_succ_of_le hle, fun _ hnot => by rw [hline] at hnot; cases hnot⟩
      · cases hcut

/-- **Trivia of a line is cut off whatever follows the line.** -/
theorem runUpTo_append_lines {trailing : Bool} : ∀ {limit limit' a : Nat} {cs rest : List Char} {items : List Trivia},
    PlainLines cs → cs ≠ [] → cs.length ≤ limit → cs.length ≤ limit' →
      runUpTo trailing limit a cs = ⟨items, rest, none⟩ → trailing = true ∨ rest ≠ [] →
        runUpTo trailing limit' a (cs ++ t) = ⟨items, rest ++ t, none⟩
  | 0, _, _, _, _, _, _, hne, hlimit, _, _, _ => absurd (List.length_eq_zero_iff.1 (Nat.le_zero.1 hlimit)) hne
  | _, 0, _, _, _, _, _, hne, _, hlimit', _, _ => absurd (List.length_eq_zero_iff.1 (Nat.le_zero.1 hlimit')) hne
  | limit + 1, limit' + 1, a, cs, rest, items, h, hne, hlimit, hlimit', hrun, hbehind => by
    unfold runUpTo at hrun ⊢
    rw [cut?_append_lines h.plain (h.mem hne)]
    cases hcut : cut? cs with
    | none =>
      rw [hcut] at hrun
      cases hrun
      rfl
    | some cut =>
      obtain ⟨hclosed, hshorter, hline⟩ := cut?_plain h.plain hcut
      rw [hcut] at hrun
      dsimp only [Option.map_some] at hrun ⊢
      simp only [hclosed, Bool.false_eq_true, if_false, Option.none_or] at hrun ⊢
      split at hrun
      · rename_i hstop
        rw [if_pos hstop]
        cases hrun
        rfl
      · rename_i hstop
        rw [if_neg hstop]
        have hlines : PlainLines cut.rest := ((cut?_append hcut).symm ▸ h).behind
        generalize hmore : runUpTo trailing limit (a + cut.item.fullWidth) cut.rest = more at hrun
        obtain ⟨items', rest', diagnostic⟩ := more
        cases hrun
        -- Something must be left for the next turn: an end of line stops trailing trivia, and leading trivia leaves a
        -- token.
        have hrest : cut.rest ≠ [] := by
          rcases hbehind with rfl | hbehind
          · refine List.ne_nil_of_mem (hline (h.mem hne) ?_)
            simpa using hstop
          · rintro hnil
            rw [hnil] at hmore
            cases limit <;> cases hmore <;> exact hbehind rfl
        rw [runUpTo_append_lines hlines hrest (by omega) (by omega) hmore hbehind]

/-! ## Tokens of lines -/

/-- **The tokens of lines are the same whatever follows the lines.** -/
theorem scan_append_lines {a : Nat} {x : Lexeme} {rest : List Char} (h : PlainLines cs)
    (hscan : scan a cs = ⟨x, rest, none⟩) (hend : x.kind ≠ .endOfFile) :
    scan a (cs ++ t) = ⟨x, rest ++ t, none⟩ ∧ PlainLines rest := by
  obtain ⟨items, behind, items', b, hlead, hok, htrail, rfl⟩ := scan_eq hscan hend
  -- neither the trivia in front nor the token uses up the lines
  have hbehind : behind ≠ [] := by
    rintro rfl
    exact hend rfl
  have hcs : Trivia.texts items ++ behind = cs := by
    have happ := run_append false a cs
    rwa [hlead] at happ
  have hne : cs ≠ [] := by
    rintro rfl
    exact hbehind (List.append_eq_nil_iff.1 hcs).2
  have hlines : PlainLines behind := (hcs.symm ▸ h).behind
  obtain ⟨htoken, hrest⟩ := cutToken_append_lines hlines.plain (hlines.mem hbehind) hok
  have hlines' : PlainLines (cutToken behind).rest := ((cutToken_append behind).symm ▸ hlines).behind
  have hlead' : run false a (cs ++ t) = ⟨items, behind ++ t, none⟩ :=
    runUpTo_append_lines h hne (Nat.le_refl _) (by simp) hlead (.inr hbehind)
  have hscan' := scan_of_runs hlead' htoken hok hend (fun b' =>
    runUpTo_append_lines hlines' hrest (Nat.le_refl _) (by simp [TokenCut.before]) (runUpTo_offset htrail b') (.inl rfl))
  have happ := run_append true b (cutToken behind).rest
  rw [htrail] at happ
  exact ⟨hscan', (happ.symm ▸ hlines').behind⟩

/-- **Blanks in front of a text that starts with a token are trivia of that token.** -/
theorem scan_indented {a : Nat} {x : Lexeme} {rest blanks : List Char} (hblanks : ∀ c ∈ blanks, isBlank c = true)
    (hcs : cut? cs = none) (hscan : scan a cs = ⟨x, rest, none⟩) (hend : x.kind ≠ .endOfFile) : ∃ lead : TriviaList,
      scan a (blanks ++ cs) = ⟨.realized x.kind lead x.text x.value x.trailing, rest, none⟩ := by
  have hstart : ∀ limit b, runUpTo false limit b cs = ⟨[], cs, none⟩ := fun limit b => by
    cases limit with
    | zero => rfl
    | succ limit =>
      unfold runUpTo
      rw [hcs]
  obtain ⟨items, behind, items', b, hlead, hok, htrail, rfl⟩ := scan_eq hscan hend
  obtain ⟨rfl, rfl, -⟩ := TriviaRun.mk.inj (hlead.symm.trans (hstart _ a))
  cases blanks with
  | nil => exact ⟨.empty, hscan⟩
  | cons c blanks =>
    -- The text itself starts with a token, so the run of blanks ends where it did.
    have hnone : behind.takeWhile isBlank = [] ∧ behind.dropWhile isBlank = behind := by
      cases behind with
      | nil => exact ⟨rfl, rfl⟩
      | cons d behind =>
        cases hd : isBlank d with
        | false => simp [hd]
        | true =>
          unfold cut? at hcs
          simp [hd] at hcs
    have hcut : cut? (c :: blanks ++ behind) = some ⟨⟨.whitespace, c :: blanks⟩, behind, false⟩ := by
      rw [List.cons_append]
      unfold cut?
      dsimp only
      rw [if_pos (hblanks c List.mem_cons_self), ← List.cons_append, List.takeWhile_append_of_pos hblanks,
        List.dropWhile_append_of_pos hblanks, hnone.1, hnone.2, List.append_nil]
    have hlead' : run false a (c :: blanks ++ behind) = ⟨[⟨.whitespace, c :: blanks⟩], behind, none⟩ := by
      unfold run
      rw [List.cons_append, List.length_cons, ← List.cons_append]
      unfold runUpTo
      rw [hcut]
      dsimp only
      rw [hstart]
      rfl
    exact ⟨.single ⟨.whitespace, c :: blanks⟩, scan_of_runs hlead' rfl hok hend (runUpTo_offset htrail)⟩

end Downlevel.Lexer
