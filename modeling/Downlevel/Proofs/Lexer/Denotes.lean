import Downlevel.Grammar.Reading
import Downlevel.Proofs.Lexer.Trivia
/-!
# Proofs.Lexer.Denotes — the kind and the characters of a token say what it denotes

Two tokens that were cut off texts and have the same kind and characters denote the same (`Lexeme.Proper.value_eq`),
whatever stands around them, and only the end of the file and a semicolon may have no characters.  In the trivia in front
of such a token no two runs of blanks stand side by side, and of the trivia behind it only the last piece ends a line.
-/
namespace Downlevel

def TokenKind.valueOf : TokenKind → List Char → TokenValue
  | .number, text => .number (NumericLiteral.value text)
  | .string, text => .string (Escapes.literalValue text)
  | .regularExpression, text => .regex text
  | .identifier, text => .identifier (Escapes.decode text)
  | .keyword .trueKw, _ => .boolean true
  | .keyword .falseKw, _ => .boolean false
  | _, _ => .none

/-- A token that denotes what its characters say, and has some where it cannot be left out. -/
structure Lexeme.Denotes (x : Lexeme) : Prop where
  value : x.value = x.kind.valueOf x.text
  word : ∀ k, x.kind = .keyword k → x.text = k.text
  text : x.text = [] → x.kind = .endOfFile ∨ x.kind = .punctuation .semicolon

/-- A token that denotes what its characters say, in trivia as it is cut off a text. -/
structure Lexeme.Proper (x : Lexeme) : Prop extends Lexeme.Denotes x where
  leading : x.leading.toList.IsChain (fun a b => a.isWhitespace = true → b.isWhitespace = false)
  trailing : ∀ item ∈ x.trailing.toList.dropLast, item.isNewLine = false

theorem Lexeme.Proper.value_eq {x y : Lexeme} (hx : x.Proper) (hy : y.Proper) (hk : x.kind = y.kind)
    (ht : x.text = y.text) : x.value = y.value := by rw [hx.value, hy.value, hk, ht]

/-- A semicolon that was left out. -/
theorem Lexeme.proper_emptySemicolon : (Lexeme.empty (.punctuation .semicolon)).Proper :=
  ⟨⟨rfl, fun _ h => (by cases h), fun _ => .inr rfl⟩, List.isChain_nil, fun _ h => by cases h⟩

theorem Keyword.ne_nil (k : Keyword) : k.text ≠ [] := by cases k <;> decide

theorem Keyword.no_backslash (k : Keyword) : '\\' ∉ k.text := by cases k <;> decide

theorem Punctuation.ne_nil (p : Punctuation) : p.text ≠ [] := by cases p <;> decide

/-- **A reserved word that is taken as a plain name denotes the name that it spells.** -/
theorem Lexeme.Proper.asName {x : Lexeme} {k : Keyword} (hx : x.Proper) (hk : x.kind = .keyword k) : x.asName.Proper where
  value := by
    show TokenValue.identifier x.text = .identifier (Escapes.decode x.text)
    rw [Escapes.decode_of_no_backslash (by rw [hx.word k hk]; exact k.no_backslash)]
  word := fun _ h => by cases h
  text := fun h => absurd (show x.text = [] from h) (by rw [hx.word k hk]; exact k.ne_nil)
  leading := hx.leading
  trailing := hx.trailing

namespace Lexer

open CharClass

theorem splitNumber_ne_nil {c : Char} {after : List Char} (h : isDigit c = true ∨ c = '.') :
    (splitNumber (c :: after)).1 ≠ [] := by
  have hdecimal : (splitDecimal (c :: after)).1 ≠ [] := by
    unfold splitDecimal
    intro hnil
    replace hnil : (List.takeWhile isDigit (c :: after) ++
      (splitFraction (List.dropWhile isDigit (c :: after))).1) ++ _ = [] := hnil
    obtain ⟨hnil, -⟩ := List.append_eq_nil_iff.1 hnil
    obtain ⟨hdigits, hfraction⟩ := List.append_eq_nil_iff.1 hnil
    by_cases hc : isDigit c = true
    · rw [List.takeWhile_cons, if_pos hc] at hdigits
      cases hdigits
    · obtain rfl : c = '.' := h.resolve_left hc
      rw [List.dropWhile_cons, if_neg hc] at hfraction
      cases hfraction
  unfold splitNumber
  split
  · split
    · exact fun hnil => by cases hnil
    · exact hdecimal
  · exact hdecimal

/-- The characters that a word is cut off as are the word or a name. -/
theorem cutName_denotes {cs : List Char} {lead trail : TriviaList} (h : cs ≠ []) :
    (Lexeme.realized (cutName cs).kind lead (cutName cs).text (cutName cs).value trail).Denotes := by
  unfold cutName
  generalize splitName cs = split
  obtain ⟨name, rest⟩ := split
  dsimp only
  split
  · refine ⟨rfl, fun _ hk => (by cases hk), fun htext => absurd (show cs.take 1 = [] from htext) ?_⟩
    cases cs with
    | nil => exact absurd rfl h
    | cons c cs => exact List.cons_ne_nil _ _
  · rename_i hname
    have hnil : name ≠ [] := fun hnil => hname (by rw [hnil]; rfl)
    have hword : ∀ k, Keyword.ofText? name = some k → name = k.text := fun k hk =>
      have htext : (k.text == name) = true := List.find?_some (p := fun k : Keyword => k.text == name) hk
      (beq_iff_eq.1 htext).symm
    split
    all_goals rename_i hk
    · exact ⟨rfl, fun k hkind => (by cases hkind; exact hword _ hk), fun htext => absurd htext hnil⟩
    · exact ⟨rfl, fun k hkind => (by cases hkind; exact hword _ hk), fun htext => absurd htext hnil⟩
    · rename_i k htrue hfalse
      refine ⟨?_, fun k hkind => (by cases hkind; exact hword _ hk), fun htext => absurd htext hnil⟩
      show TokenValue.none = TokenKind.valueOf (.keyword k) name
      unfold TokenKind.valueOf
      split
      all_goals first | rfl | simp_all
    · exact ⟨rfl, fun _ hkind => (by cases hkind), fun htext => absurd htext hnil⟩

/-- What is cut off a text denotes what its characters say, be it right or wrong. -/
theorem cutToken_denotes (cs : List Char) (lead trail : TriviaList) :
    (Lexeme.realized (cutToken cs).kind lead (cutToken cs).text (cutToken cs).value trail).Denotes := by
  unfold cutToken
  cases cs with
  | nil => exact ⟨rfl, fun _ hk => (by cases hk), fun _ => .inl rfl⟩
  | cons c after =>
    dsimp only
    split
    · exact cutName_denotes (List.cons_ne_nil _ _)
    split
    · rename_i hnumber
      refine ⟨rfl, fun _ hk => (by cases hk), fun htext => absurd htext (splitNumber_ne_nil ?_)⟩
      rw [Bool.or_eq_true, Bool.and_eq_true, decide_eq_true_eq] at hnumber
      exact hnumber.imp_right And.left
    split
    · exact ⟨rfl, fun _ hk => (by cases hk), fun htext => by cases htext⟩
    split
    · rename_i p hp
      exact ⟨rfl, fun _ hk => (by cases hk), fun htext => absurd htext p.ne_nil⟩
    · exact ⟨rfl, fun _ hk => (by cases hk), fun htext => by cases htext⟩

/-- **What is cut off a text is proper.** -/
theorem scan_proper (offset : Nat) (cs : List Char) : (scan offset cs).lexeme.Proper where
  toDenotes := cutToken_denotes _ _ _
  leading := by
    simp only [scan, Lexeme.leading, TriviaList.toList_ofList]
    exact runUpTo_isChain
  trailing := by
    simp only [scan, Lexeme.trailing, TriviaList.toList_ofList]
    split
    · exact fun _ h => by cases h
    · exact runUpTo_trailing_newLine

/-- A regular expression that is closed has characters. -/
theorem rescanSlash_proper {offset : Nat} {cs : List Char} (h : (rescanSlash offset cs).diagnostic = none) :
    (rescanSlash offset cs).lexeme.Proper := by
  refine ⟨⟨rfl, fun _ hk => (by cases hk), fun htext => ?_⟩, ?_, ?_⟩
  rotate_left
  · simp only [rescanSlash, Lexeme.leading, TriviaList.toList_ofList]
    exact runUpTo_isChain
  · simp only [rescanSlash, Lexeme.trailing, TriviaList.toList_ofList]
    exact runUpTo_trailing_newLine
  change (run false offset cs).diagnostic.or ((if (cutRegularExpression (run false offset cs).rest).closed then none
    else some _).or _) = none at h
  change (cutRegularExpression (run false offset cs).rest).text = [] at htext
  obtain ⟨-, h⟩ := Option.or_eq_none_iff.1 h
  obtain ⟨hclosed, -⟩ := Option.or_eq_none_iff.1 h
  generalize (run false offset cs).rest = rest at hclosed htext
  cases rest with
  | nil => cases hclosed
  | cons c rest =>
    unfold cutRegularExpression at htext
    dsimp only at htext
    split at htext
    all_goals cases htext

end Lexer

namespace Reading

variable {r r' : Reading}

theorem current_ofScanned {here : List Char} {start : Nat} {scanned : Lexer.Scanned} {ends : Bool} {depth : Nat}
    (h : ofScanned here start scanned ends depth = .ok r) :
    r.current = scanned.lexeme ∧ scanned.diagnostic = none := by
  unfold ofScanned at h
  split at h
  · cases h
  · rename_i hnone
    cases h
    exact ⟨rfl, hnone⟩

end Reading

end Downlevel
