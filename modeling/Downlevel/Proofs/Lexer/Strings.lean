import Downlevel.Proofs.Lexer.Alone
import Downlevel.Proofs.Lexer.Escapes
import Downlevel.Proofs.Lexer.Lines
import Downlevel.Tree.Build
/-!
# Proofs.Lexer.Strings — where a string literal ends, and literals that are written read back

The lexer walks a literal from its opening quote on and takes escapes as they come; what the literal denotes is found
from its end, where a quote closes it if an even number of backslashes stands in front.  Each step of the walk takes an
even number of backslashes or ends with another character, so the two agree (`cutString_closed_iff`): of the string
literals of a text those are reported that lose no quote (`scanAll_string_ends`).

A text that is written as a literal denotes itself (`Escapes.literalValue_stringText`).  The lexer takes the literal for
one token just where no line or paragraph separator is in the text: those two end a line and are written as they are
(`scanAll_stringText_iff`).
-/
namespace Downlevel

open CharClass

/-! ## Where a literal ends -/

namespace Lexer

variable {cs : List Char} {offset : Nat}

theorem LiteralCut.after_closed_iff {quote : Char} {lead : List Char} {cut : LiteralCut}
    (h : cut.closed = true ↔ Escapes.ClosedBy quote cut.text) (hlead : Escapes.backslashesBehind lead % 2 = 0)
    (hopen : ¬ Escapes.ClosedBy quote lead) :
    (cut.after lead).closed = true ↔ Escapes.ClosedBy quote (cut.after lead).text := by
  rw [after_text]
  by_cases hnil : cut.text = []
  · rw [hnil, List.append_nil]
    refine iff_of_false (fun hclosed => ?_) hopen
    have hlast := (h.1 hclosed).1
    rw [hnil] at hlast
    cases hlast
  · exact h.trans (Escapes.closedBy_append hlead hnil).symm

/-- **Walking a literal and judging its last quote come to the same**: it is closed if it ends with a quote that an even
number of backslashes stands in front of. -/
theorem cutString_closed_iff {quote : Char} (hquote : quote = '"' ∨ quote = '\'') (cs : List Char) :
    (cutString quote cs).closed = true ↔ Escapes.ClosedBy quote (cutString quote cs).text := by
  fun_induction cutString quote cs with
  | case1 => exact iff_of_false Bool.false_ne_true (fun h => by cases h.1)
  | case2 cs => exact iff_of_true rfl ⟨rfl, rfl⟩
  | case3 hslash => exact iff_of_false Bool.false_ne_true (fun h => hslash (Option.some.inj h.1))
  | case4 rest hslash ih =>
    refine LiteralCut.after_closed_iff ih rfl (fun h => ?_)
    have hfeed : '\n' = quote := Option.some.inj h.1
    rcases hquote with rfl | rfl
    all_goals cases hfeed
  | case5 d rest hpair hslash ih =>
    refine LiteralCut.after_closed_iff ih ?_ (fun h => by cases h.2)
    by_cases hd : d = '\\'
    · subst hd
      rfl
    · simp [Escapes.backslashesBehind, hd]
  | case6 => exact iff_of_false Bool.false_ne_true (fun h => by cases h.1)
  | case7 c cs hopen hslash hbreak ih =>
    refine LiteralCut.after_closed_iff ih ?_ (fun h => hopen (Option.some.inj h.1))
    simp [Escapes.backslashesBehind, hslash]

/-- A string literal begins with a quote and is cut at the next one that is not escaped. -/
theorem cutToken_string (h : (cutToken cs).kind = .string) : ∃ quote after, (quote = '"' ∨ quote = '\'') ∧
    cs = quote :: after ∧ cutToken cs = ⟨.string, quote :: (cutString quote after).text,
      .string (Escapes.literalValue (quote :: (cutString quote after).text)), (cutString quote after).rest,
      if (cutString quote after).closed then none else some .unterminatedString⟩ := by
  cases cs with
  | nil => cases h
  | cons c after =>
    rcases cutToken_cases c after with hcut | ⟨-, hcut⟩ | ⟨hquote, hcut⟩ | ⟨p, hkind⟩ | hkind
    · rw [hcut] at h
      exact absurd h cutName_kind.1
    · rw [hcut] at h
      cases h
    · exact ⟨c, after, by simpa using hquote, rfl, hcut⟩
    · rw [hkind] at h
      cases h
    · rw [hkind] at h
      cases h

/-! ## What is reported -/

/-- What is not closed is a comment, and it goes to the end of the text. -/
theorem cut?_unterminated {cut : TriviaCut} (h : cut? cs = some cut) (hopen : cut.unterminated = true) :
    cut.rest = [] ∧ cut.item.isComment = true := by
  unfold cut? at h
  repeat' split at h
  all_goals cases h
  all_goals try cases hopen
  · unfold cutLineBreak at hopen
    repeat' split at hopen
    all_goals cases hopen
  · unfold cutMultiLine at hopen ⊢
    split at hopen
    · cases hopen
    · exact ⟨rfl, rfl⟩

/-- The only fault of trivia is a comment that is not closed, and nothing follows it. -/
theorem runUpTo_diagnostic {trailing : Bool} {limit : Nat} : ∀ d ∈ (runUpTo trailing limit offset cs).diagnostic,
    d.error = .unterminatedComment ∧ (runUpTo trailing limit offset cs).rest = [] := by
  fun_induction runUpTo trailing limit offset cs with
  | case1 => exact fun _ h => by cases h
  | case2 => exact fun _ h => by cases h
  | case3 _ _ _ cut hcut diagnostic =>
    intro d (hd : diagnostic = some d)
    simp only [diagnostic, Option.ite_none_right_eq_some, Option.some.injEq] at hd
    obtain ⟨hopen, rfl⟩ := hd
    exact ⟨rfl, (cut?_unterminated hcut hopen).1⟩
  | case4 limit offset cs cut hcut diagnostic _ more ih =>
    intro d (hd : diagnostic.or more.diagnostic = some d)
    cases hopen : cut.unterminated with
    | false =>
      simp only [diagnostic, hopen] at hd
      exact ih d hd
    | true =>
      have hmore : more = ⟨[], [], none⟩ := by
        simp only [more, (cut?_unterminated hcut hopen).1]
        cases limit <;> rfl
      simp only [diagnostic, hopen] at hd
      obtain rfl := Option.some.inj hd
      exact ⟨rfl, congrArg TriviaRun.rest hmore⟩

/-- **A string literal that is scanned is reported where it begins, if it is not closed**; the only other fault is of a
comment behind it. -/
theorem scan_string (h : (scan offset cs).lexeme.kind = .string) :
    ∃ quote after, (quote = '"' ∨ quote = '\'') ∧
      (scan offset cs).lexeme.text = quote :: (cutString quote after).text ∧
      (scan offset cs).lexeme.value = .string (Escapes.literalValue (scan offset cs).lexeme.text) ∧
      ((scan offset cs).diagnostic = some ⟨offset + (scan offset cs).lexeme.leading.fullWidth, .unterminatedString⟩ ↔
        (cutString quote after).closed = false) ∧
      ∀ d ∈ (scan offset cs).diagnostic, d.error = .unterminatedString ∨ d.error = .unterminatedComment := by
  obtain ⟨quote, after, hquote, hrest, hcut⟩ := cutToken_string h
  have hlead : (run false offset cs).diagnostic = none := by
    refine Option.eq_none_iff_forall_ne_some.2 (fun d hd => ?_)
    have hnil := (runUpTo_diagnostic d hd).2
    rw [← run, hrest] at hnil
    cases hnil
  refine ⟨quote, after, hquote, congrArg TokenCut.text hcut, ?_⟩
  simp only [scan, Lexeme.value, Lexeme.text, Lexeme.leading, hlead, hcut, Option.none_or]
  refine ⟨trivial, ?_⟩
  cases hclosed : (cutString quote after).closed with
  | false => simp
  | true =>
    have htrail : ∀ start, ∀ d ∈ (run true start (cutString quote after).rest).diagnostic,
        d.error = .unterminatedComment := fun _ d hd => (runUpTo_diagnostic d hd).1
    simp only [if_true, Option.map_none, Option.none_or, Bool.true_eq_false, iff_false]
    refine ⟨fun hd => ?_, fun d hd => .inr (htrail _ d hd)⟩
    cases htrail _ _ hd

/-- **The lexer and the reader of escapes agree on where a string literal ends.**  A string literal of a text is
reported as not closed exactly if no closing quote is left out of its body; and if it is not reported, it denotes what
the characters between its two quotes spell. -/
theorem scanAll_string_ends {text : List Char} {before behind : List (Lexeme × Option Diagnostic)} {x : Lexeme}
    {d : Option Diagnostic} (h : scanAll text = before ++ (x, d) :: behind) (hk : x.kind = .string) :
    (d.map (fun found => (found.offset, found.error.message)) =
        some ((before.map (fun t => t.1.fullWidth)).sum + x.leading.fullWidth, "unterminated string literal".toList) ↔
      ¬ Escapes.ClosingQuoteStripped x.text) ∧
    ((∀ found ∈ d, found.error.message ≠ "unterminated string literal".toList) → ∃ quote body,
      (quote = '"' ∨ quote = '\'') ∧ x.text = quote :: body ++ [quote] ∧ x.value = .string (Escapes.decode body)) := by
  obtain ⟨ds, rfl, rfl⟩ := (scanAll_scans text).scanned h
  rw [Nat.zero_add] at hk ⊢
  obtain ⟨quote, after, hquote, htext, hvalue, hreported, hfaults⟩ := scan_string hk
  have hstripped : Escapes.ClosingQuoteStripped (scan (before.map (fun t => t.1.fullWidth)).sum ds).lexeme.text ↔
      (cutString quote after).closed = true := by
    rw [htext, Escapes.closingQuoteStripped_iff, cutString_closed_iff hquote]
  have hcomment : LexicalError.unterminatedComment.message ≠ "unterminated string literal".toList := by decide
  rw [hstripped, Bool.not_eq_true, ← hreported]
  refine ⟨⟨fun h => ?_, fun h => by rw [h]; rfl⟩, fun h => ?_⟩
  · obtain ⟨found, hfound, heq⟩ := Option.map_eq_some_iff.1 h
    obtain ⟨hoffset, hmessage⟩ := Prod.mk.inj heq
    rcases hfaults found hfound with herror | herror
    · rw [hfound, ← hoffset, ← herror]
    · rw [herror] at hmessage
      exact absurd hmessage hcomment
  · have hclosed : (cutString quote after).closed = true := by
      rw [← Bool.not_eq_false, ← hreported]
      exact fun hopen => h _ hopen rfl
    obtain ⟨quote', hbody⟩ := hstripped.2 hclosed
    rw [hvalue, Escapes.literalValue]
    generalize Escapes.literalBody _ = body at hbody ⊢
    rw [htext] at hbody
    obtain ⟨rfl, -⟩ := List.cons.inj hbody
    exact ⟨quote, body, hquote, htext.trans hbody, rfl⟩

/-- A quote that an even number of backslashes stands in front of closes a literal, and one that is escaped does not. -/
theorem scanAll_string_ends_escaped :
    scanAll ['\'', '\\', '\\', '\'', '"', 'a', '\\', '"'] =
        [(.realized .string .empty ['\'', '\\', '\\', '\''] (.string ['\\']) .empty, none)] ++
          (.realized .string .empty ['"', 'a', '\\', '"'] (.string ['a', '"']) .empty, some ⟨4, .unterminatedString⟩) ::
            [(.realized .endOfFile .empty [] .none .empty, none)] ∧
      ¬ Escapes.ClosingQuoteStripped ['"', 'a', '\\', '"'] :=
  have hscan : scanAll ['\'', '\\', '\\', '\'', '"', 'a', '\\', '"'] =
      [(.realized .string .empty ['\'', '\\', '\\', '\''] (.string ['\\']) .empty, none)] ++
        (.realized .string .empty ['"', 'a', '\\', '"'] (.string ['a', '"']) .empty, some ⟨4, .unterminatedString⟩) ::
          [(.realized .endOfFile .empty [] .none .empty, none)] := by decide +kernel
  ⟨hscan, (scanAll_string_ends hscan rfl).1.1 (by decide +kernel)⟩

end Lexer

/-! ## Literals that are written -/

namespace Escapes

theorem decode_escaped (c : Char) (cs : List Char) : decode (Build.escaped c ++ cs) = c :: decode cs := by
  unfold Build.escaped
  split
  · rename_i hc
    exact decode_mark (.inl rfl) cs |>.trans (by rw [hc])
  split
  · rename_i hc
    exact decode_mark (.inr rfl) cs |>.trans (by rw [hc])
  split
  · rename_i hc
    exact decode_control (by rw [hc]; rfl) cs
  split
  · rename_i hc
    exact decode_control (by rw [hc]; rfl) cs
  · rename_i hslash _ _
    exact decode_cons hslash cs

theorem backslashesBehind_escaped (c : Char) : backslashesBehind (Build.escaped c) % 2 = 0 := by
  unfold Build.escaped
  repeat' split
  all_goals simp [backslashesBehind, *]

theorem decode_flatMap_escaped (value : List Char) : decode (value.flatMap Build.escaped) = value := by
  induction value with
  | nil => rfl
  | cons c value ih => rw [List.flatMap_cons, decode_escaped, ih]

theorem lastIsEscaped_flatMap_escaped (value : List Char) (quote : Char) :
    lastIsEscaped (value.flatMap Build.escaped ++ [quote]) = false := by
  induction value with
  | nil => rfl
  | cons c value ih =>
    rw [List.flatMap_cons, List.append_assoc, lastIsEscaped_append (backslashesBehind_escaped c) (by simp), ih]

/-- **A text that is written as a literal denotes itself**, whatever characters are in it. -/
theorem literalValue_stringText (value : List Char) : literalValue (Build.stringText value) = value := by
  rw [literalValue, Build.stringText, literalBody_of_closed (lastIsEscaped_flatMap_escaped value '"'),
    decode_flatMap_escaped]

end Escapes

namespace Lexer

/-- The two characters that end a line and are written into a literal as they are. -/
def isSeparator (c : Char) : Bool := c = '\u2028' || c = '\u2029'

theorem cutString_escaped {c : Char} (h : isSeparator c = false) (cs : List Char) :
    cutString '"' (Build.escaped c ++ cs) = (cutString '"' cs).after (Build.escaped c) := by
  unfold Build.escaped
  split
  · exact cutString_escape (by decide) (fun _ hr => by cases hr)
  split
  · exact cutString_escape (by decide) (fun _ hr => by cases hr)
  split
  · exact cutString_escape (by decide) (fun _ hr => by cases hr)
  split
  · exact cutString_escape (by decide) (fun _ hr => by cases hr)
  · rename_i hquote hslash hfeed hreturn
    refine cutString_plain hquote hslash ?_ cs
    simpa [isLineBreak, hfeed, hreturn, isSeparator] using h

theorem cutString_quote (quote : Char) (cs : List Char) : cutString quote (quote :: cs) = ⟨[quote], cs, true⟩ := by
  rw [cutString.eq_def]
  exact if_pos rfl

theorem cutString_separator {c : Char} (h : isSeparator c = true) (cs : List Char) :
    (cutString '"' (Build.escaped c ++ cs)).closed = false := by
  have hc : c = '\u2028' ∨ c = '\u2029' := by simpa [isSeparator] using h
  rcases hc with rfl | rfl
  all_goals
    rw [cutString.eq_def]
    rfl

theorem cutString_flatMap_escaped {value : List Char} (h : ∀ c ∈ value, isSeparator c = false) (cs : List Char) :
    cutString '"' (value.flatMap Build.escaped ++ '"' :: cs) = ⟨value.flatMap Build.escaped ++ ['"'], cs, true⟩ := by
  induction value with
  | nil => exact cutString_quote '"' cs
  | cons c value ih =>
    obtain ⟨hc, hvalue⟩ := List.forall_mem_cons.1 h
    rw [List.flatMap_cons, List.append_assoc, cutString_escaped hc, ih hvalue, LiteralCut.after, List.append_assoc]

/-- A literal that is closed has no separator in it. -/
theorem not_isSeparator_of_closed {value cs : List Char}
    (h : (cutString '"' (value.flatMap Build.escaped ++ cs)).closed = true) : ∀ c ∈ value, isSeparator c = false := by
  induction value with
  | nil => exact fun _ hc => by cases hc
  | cons c value ih =>
    rw [List.flatMap_cons, List.append_assoc] at h
    have hc : isSeparator c = false := Bool.eq_false_iff.2 (fun hc => by
      rw [cutString_separator hc] at h
      cases h)
    rw [cutString_escaped hc] at h
    exact List.forall_mem_cons.2 ⟨hc, ih h⟩

/-- **A text that is written as a literal is scanned as one token without a fault exactly if no separator is in it**,
and the token denotes the text. -/
theorem scanAll_stringText_iff (value : List Char) :
    scanAll (Build.stringText value) =
        [(.realized .string .empty (Build.stringText value) (.string value) .empty, none),
          (.realized .endOfFile .empty [] .none .empty, none)] ↔ ∀ c ∈ value, isSeparator c = false := by
  constructor
  · intro h
    have hhead := (List.cons.inj h).1
    obtain ⟨hlexeme, hdiagnostic⟩ := Prod.mk.inj hhead
    obtain ⟨quote, after, -, htext, -, hreported, -⟩ := scan_string (by rw [hlexeme]; rfl)
    rw [hlexeme] at htext
    obtain ⟨rfl, hbody : value.flatMap Build.escaped ++ ['"'] = _⟩ := List.cons.inj htext
    have hclosed : (cutString '"' after).closed = true := by
      rw [← Bool.not_eq_false, ← hreported, hdiagnostic]
      exact nofun
    -- the characters of the literal are cut anew as they were cut, so they are closed
    have halone := cutString_alone '"' after
    rw [← hbody] at halone
    have hagain : (cutString '"' (value.flatMap Build.escaped ++ ['"'])).closed = true := by rw [halone]; exact hclosed
    exact not_isSeparator_of_closed hagain
  · intro h
    have hcut : cutToken (Build.stringText value) = ⟨.string, Build.stringText value,
        .string (Escapes.literalValue (Build.stringText value)), [], none⟩ := by
      have hnumber :
          ¬ (isDigit '"' || ('"' = '.' && (value.flatMap Build.escaped ++ ['"']).head?.any isDigit)) = true := by
        simp [isDigit]
      have hquote := cutToken_of_quote (by decide) hnumber (by decide)
      rw [cutString_flatMap_escaped h] at hquote
      exact hquote
    rw [Escapes.literalValue_stringText] at hcut
    have hlead : run false 0 (Build.stringText value) = ⟨[], Build.stringText value, none⟩ := rfl
    have htrail : ∀ start, run true start [] = ⟨[], [], none⟩ := fun _ => rfl
    have hscan : scan 0 (Build.stringText value) =
        ⟨.realized .string .empty (Build.stringText value) (.string value) .empty, [], none⟩ :=
      scan_of_runs hlead hcut rfl (fun hk => by cases hk) htrail
    rw [scanAll, scanUpTo, hscan]
    rfl

end Lexer

end Downlevel
