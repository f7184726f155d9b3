import Downlevel.Proofs.Lexer.Breaks
import Downlevel.Proofs.Lowering.Outcome
/-!
# Proofs.Lowering.LineEndings — lines end as they did or as the layout says

Every end of line in the trivia of a lowered tree is one of the layout or one of the tree that was read.  So where all
line breaks of a text are those of the layout, the same holds of the code that comes out, with the helper for derived
classes: of all its characters outside comments and string literals (`lower_lineEndings`).

Both follow from what lowering does to tokens (`lower_meets`), with a demand for each: one on ends of line, and one on
every line break of the code.
-/
namespace Downlevel

open CharClass

/-! ## Texts -/

/-- Every line of the text is ended by `newLine`. -/
def Text.EndsBy (newLine cs : List Char) : Prop := ∀ b ∈ lineBreaks cs, b = newLine

namespace Text

variable {front back cs : List Char} {newLine : List Char} {e : LineEnding}

def isOneLine (cs : List Char) : Bool := cs.all (fun c => !isLineBreak c)

theorem isOneLine_iff : isOneLine cs = true ↔ ∀ c ∈ cs, isLineBreak c = false := by
  simp only [isOneLine, List.all_eq_true, Bool.not_eq_true']

theorem EndsBy.of_plain (h : ∀ c ∈ cs, isLineBreak c = false) : EndsBy newLine cs := fun b hb => by
  rw [lineBreaks_eq_nil h] at hb
  cases hb

theorem EndsBy.of_isOneLine (h : isOneLine cs = true) : EndsBy newLine cs := .of_plain (isOneLine_iff.1 h)

theorem mem_lineBreaks_of_last (h : front.getLast? = some '\r') : ['\r'] ∈ lineBreaks front := by
  obtain ⟨lead, rfl⟩ := List.getLast?_eq_some_iff.1 h
  rw [lineBreaks_append (fun _ hhead => by cases hhead)]
  exact List.mem_append_right _ List.mem_cons_self

theorem endsBy_text (e : LineEnding) : EndsBy e.text e.text := by
  cases e <;> exact fun b hb => List.mem_singleton.1 hb

/-- Neither end of line is `\r` alone, so two texts that are put together do not make a line break of their own. -/
theorem EndsBy.append (h : EndsBy e.text front) (h' : EndsBy e.text back) : EndsBy e.text (front ++ back) := by
  have hparted : Parted front back := fun hlast => by
    have hcr : ['\r'] = e.text := h _ (mem_lineBreaks_of_last hlast)
    cases e <;> cases hcr
  intro b hb
  rw [lineBreaks_append hparted] at hb
  exact (List.mem_append.1 hb).elim (h b) (h' b)

theorem EndsBy.flatMap {α : Type} {f : α → List Char} {xs : List α} (h : ∀ x ∈ xs, EndsBy e.text (f x)) :
    EndsBy e.text (xs.flatMap f) := by
  induction xs with
  | nil => exact .of_plain (fun c hc => by cases hc)
  | cons x xs ih =>
    obtain ⟨hx, hxs⟩ := List.forall_mem_cons.1 h
    exact hx.append (ih hxs)

end Text

/-! ## Ends of line and code of a tree -/

/-- The texts of the ends of line in the trivia of a token. -/
def Token.newLines (t : Token) : List (List Char) :=
  ((t.leading.toList ++ t.trailing.toList).filter Trivia.isNewLine).map Trivia.text

/-- The texts of the ends of line in the trivia of a tree. -/
def Node.newLines (n : Node) : List (List Char) := n.tokens.flatMap Token.newLines

/-- Trivia with a blank for a comment. -/
def Trivia.code (item : Trivia) : List Char := if item.isComment then [' '] else item.text

/-- Trivia with a blank for each comment. -/
def TriviaList.code (t : TriviaList) : List Char := t.toList.flatMap Trivia.code

/-- A token and its trivia with a blank for each comment and for a string literal. -/
def Token.code (t : Token) : List Char :=
  t.leading.code ++ (if t.kind = .string then [' '] else t.text) ++ t.trailing.code

/-- What a tree prints with a blank for each comment and each string literal. -/
def Node.code (n : Node) : List Char := n.tokens.flatMap Token.code

theorem Token.mem_newLines {t : Token} {b : List Char} : b ∈ t.newLines ↔
    ∃ item, (item ∈ t.leading.toList ∨ item ∈ t.trailing.toList) ∧ item.isNewLine = true ∧ item.text = b := by
  simp only [newLines, List.mem_map, List.mem_filter, List.mem_append, and_assoc]

/-! ## What is asked of tokens -/

/-- Ends of line are of some kind. -/
def Demand.newLines (allowed : List Char → Prop) : Demand :=
  .onTrivia (fun item => item.isNewLine = true → allowed item.text)

/-- Outside comments and string literals every line break is `newLine`. -/
def Demand.code (newLine : List Char) : Demand :=
  ⟨fun item => item.isComment = true ∨ ∀ b ∈ item.lineBreaks, b = newLine,
    fun kind text => kind = .string ∨ Text.EndsBy newLine text⟩

theorem Demand.newLines_suits {allowed : List Char → Prop} {o : LayoutOptions} (h : allowed o.newLine) :
    (Demand.newLines allowed).Suits o := Demand.onTrivia_suits (fun _ hline => by cases hline) (fun _ => h)

/-- A character of a class without line breaks is none. -/
theorem isLineBreak_eq_false {p : Char → Bool} {c : Char} (hc : p c = true)
    (hp : ['\n', '\r', '\u2028', '\u2029'].any p = false) : isLineBreak c = false := by
  by_contra hbreak
  rw [Bool.not_eq_false] at hbreak
  have hmem : c ∈ ['\n', '\r', '\u2028', '\u2029'] := by simpa [isLineBreak, or_assoc] using hbreak
  exact Bool.false_ne_true (hp.symm.trans (List.any_eq_true.2 ⟨c, hmem, hc⟩))

theorem isLineBreak_toDigits {n : Nat} {c : Char} (h : c ∈ Nat.toDigits 10 n) : isLineBreak c = false :=
  isLineBreak_eq_false (Nat.isDigit_of_mem_toDigits (by decide) (by decide) h) (by decide)

theorem isLineBreak_ofNat {n : Nat} {c : Char} (h : c ∈ Text.ofNat n) : isLineBreak c = false := by
  rw [Text.ofNat, Nat.toList_repr] at h
  exact isLineBreak_toDigits h

theorem Binary64.isLineBreak_positional {d : Decimal} {c : Char} (h : c ∈ positional d) : isLineBreak c = false := by
  have hzero : ∀ count, c ∈ List.replicate count '0' → isLineBreak c = false := fun count hc => by
    rw [List.eq_of_mem_replicate hc]
    rfl
  unfold positional at h
  dsimp only at h
  split at h
  · exact (List.mem_append.1 h).elim isLineBreak_toDigits (hzero _)
  · split at h
    · rcases List.mem_append.1 h with h | h
      · rcases List.mem_append.1 h with h | h
        · exact isLineBreak_toDigits (List.mem_of_mem_take h)
        · rw [List.mem_singleton.1 h]
          rfl
      · exact isLineBreak_toDigits (List.mem_of_mem_drop h)
    · rcases List.mem_append.1 h with h | h
      · rcases List.mem_append.1 h with h | h
        · exact isLineBreak_eq_false (p := (['0', '.'].contains ·)) (by simpa using h) (by decide)
        · exact hzero _ h
      · exact isLineBreak_toDigits h

theorem Binary64.isLineBreak_text {x : Binary64} {c : Char} (h : c ∈ x.text) : isLineBreak c = false := by
  cases x with
  | nan => exact Text.isOneLine_iff.1 (by decide) c h
  | infinity negative => cases negative <;> exact Text.isOneLine_iff.1 (by decide) c h
  | finite negative mantissa exponent =>
    rcases List.mem_append.1 h with h | h
    · cases negative
      · cases h
      · rw [List.mem_singleton.1 h]
        rfl
    · unfold magnitudeText at h
      split at h
      · split at h
        · exact isLineBreak_toDigits h
        · exact isLineBreak_positional h
      · exact isLineBreak_positional h

theorem TokenKind.isOneLine_text (kind : TokenKind) : Text.isOneLine (kind.text?.getD []) = true := by
  cases kind with
  | keyword k => cases k <;> decide
  | punctuation p => cases p <;> decide
  | _ => rfl

theorem Demand.code_suits (o : LayoutOptions) : (Demand.code o.newLine).Suits o where
  blank text h := .inr (Text.EndsBy.of_plain (fun c hc => by rcases h c hc with rfl | rfl <;> rfl))
  newLine := .inr (fun b hb => List.mem_singleton.1 hb)
  fixed kind := .inr (.of_isOneLine kind.isOneLine_text)
  asName _ _ h := .inr (h.resolve_left (fun hkind => by cases hkind))
  word _ h := .inr (.of_plain (fun c hc =>
    isLineBreak_eq_false (p := fun c => c.isAlpha || c == '_') (List.all_eq_true.1 h.2 c hc) (by decide)))
  natural _ := .inr (.of_plain (fun _ => isLineBreak_ofNat))
  number _ _ := .inr (.of_plain (fun _ => Binary64.isLineBreak_text))
  string _ := .inl rfl

/-! ## Texts that are read -/

variable {text newLine : List Char} {i k next : ObjectId} {tree n : Node} {o : LayoutOptions} {e : LineEnding}

/-- An end of line that meets the demand on the code is the one that is asked for. -/
theorem Demand.code_newLine {item : Trivia} (h : (Demand.code newLine).trivia item) (hline : item.isNewLine = true) :
    item.text = newLine := by
  rcases h with h | h
  · unfold Trivia.isNewLine at hline
    unfold Trivia.isComment at h
    rw [beq_iff_eq.1 hline] at h
    cases h
  · refine h _ ?_
    rw [Trivia.lineBreaks, if_pos hline]
    exact List.mem_singleton_self _

/-- **All tokens of a text whose lines end alike meet the demand.** -/
theorem IsProgram.meets_code (h : IsProgram text i k n) (hends : Text.EndsBy newLine text) :
    ∀ t ∈ n.tokens, t.Meets (.code newLine) k := by
  intro t ht
  have hbreaks : ∀ b ∈ t.lineBreaks, b = newLine := fun b hb =>
    hends b (h.lineBreaks ▸ List.mem_flatMap.2 ⟨t, ht, hb⟩)
  simp only [Token.lineBreaks, Lexeme.lineBreaks, TriviaList.lineBreaks, List.mem_append, List.mem_flatMap] at hbreaks
  exact ⟨(h.tokens t ht).2, fun item hitem => .inr (fun b hb => hbreaks b (.inl (.inl ⟨item, hitem, hb⟩))),
    fun item hitem => .inr (fun b hb => hbreaks b (.inr ⟨item, hitem, hb⟩)),
    .inr (fun b hb => hbreaks b (.inl (.inr hb)))⟩

theorem IsProgram.meets_newLines (h : IsProgram text i k n) {allowed : List Char → Prop}
    (hallowed : ∀ b ∈ n.newLines, allowed b) : ∀ t ∈ n.tokens, t.Meets (.newLines allowed) k := by
  intro t ht
  have hmem : ∀ b ∈ t.newLines, allowed b := fun b hb => hallowed b (List.mem_flatMap.2 ⟨t, ht, hb⟩)
  exact ⟨(h.tokens t ht).2, fun item hitem hline => hmem _ (Token.mem_newLines.2 ⟨item, .inl hitem, hline, rfl⟩),
    fun item hitem hline => hmem _ (Token.mem_newLines.2 ⟨item, .inr hitem, hline, rfl⟩), trivial⟩

theorem mem_newLines_of_meets {allowed : List Char → Prop} {j : Nat}
    (h : ∀ t ∈ n.tokens, t.Meets (.newLines allowed) j) : ∀ b ∈ n.newLines, allowed b := by
  intro b hb
  obtain ⟨t, ht, hb⟩ := List.mem_flatMap.1 hb
  obtain ⟨item, hitem | hitem, hline, rfl⟩ := Token.mem_newLines.1 hb
  · exact (h t ht).leading item hitem hline
  · exact (h t ht).trailing item hitem hline

/-- **The code of a tree whose tokens meet the demand has no other line breaks.** -/
theorem endsBy_code_of_meets {j : Nat} (h : ∀ t ∈ n.tokens, t.Meets (.code e.text) j) : Text.EndsBy e.text n.code := by
  have htrivia : ∀ {t : TriviaList}, t.Meets (.code e.text) → Text.EndsBy e.text t.code := fun {t} ht => by
    refine .flatMap (fun item hitem => ?_)
    unfold Trivia.code
    split
    · exact .of_isOneLine (by decide)
    · rename_i hcomment
      cases hline : item.isNewLine with
      | true =>
        rw [Demand.code_newLine (ht item hitem) hline]
        exact Text.endsBy_text e
      | false =>
        have hbreaks := (ht item hitem).resolve_left hcomment
        rwa [Trivia.lineBreaks, hline, if_neg Bool.false_ne_true] at hbreaks
  refine .flatMap (fun t ht => ?_)
  obtain ⟨-, hlead, htrail, htext⟩ := h t ht
  refine ((htrivia hlead).append ?_).append (htrivia htrail)
  split
  · exact .of_isOneLine (by decide)
  · rename_i hkind
    exact htext.resolve_left hkind

/-! ## The helper -/

/-- **The helper ends its lines as the layout says.** -/
theorem endsBy_extendsHelper (he : o.newLine = e.text) : Text.EndsBy e.text o.extendsHelper := by
  have hlines : extendsHelperLines.all (fun line => Text.isOneLine line.2) = true := by decide +kernel
  rw [o.extendsHelper_eq, he]
  refine .flatMap (fun line hline => ?_)
  have hblanks : Text.EndsBy e.text (if line.1 = true then o.indentation o.indentSize else []) := by
    split
    · exact .of_plain (fun c hc => isLineBreak_eq_false (isBlank_of_mem_indentation hc) (by decide))
    · exact .of_plain (fun c hc => by cases hc)
  have hcode : Text.EndsBy e.text line.2 := .of_isOneLine (List.all_eq_true.1 hlines line hline)
  exact hblanks.append (hcode.append (Text.endsBy_text e))

theorem helperReads_code (he : o.newLine = e.text) : o.HelperReads (.code o.newLine) :=
  LayoutOptions.helperReads ⟨e, he⟩ (fun _ _ _ h => h.meets_code (he ▸ endsBy_extendsHelper he))

theorem helperReads_newLines (he : o.newLine = e.text) {allowed : List Char → Prop} (h : allowed o.newLine) :
    o.HelperReads (.newLines allowed) := by
  refine LayoutOptions.helperReads ⟨e, he⟩ (fun _ _ helper hhelper t ht => ?_)
  obtain ⟨hid, hlead, htrail, -⟩ := hhelper.meets_code (he ▸ endsBy_extendsHelper he) t ht
  have hmeets : ∀ {trivia : TriviaList}, trivia.Meets (.code o.newLine) → trivia.Meets (.newLines allowed) :=
    fun htrivia item hitem hline => Demand.code_newLine (htrivia item hitem) hline ▸ h
  exact ⟨hid, hmeets hlead, hmeets htrail, trivial⟩

/-! ## Lowering -/

/-- **Lines end as they did or as the layout says.**  Whatever lowering moves, joins or writes by itself, every end of
line in the trivia that comes out has the text of the layout or that of one that was read.  So if no line of a text is
ended otherwise than the layout says, none of the code that comes out is, outside comments and string literals. -/
theorem lower_lineEndings (text : List Char) (o : LoweringOptions) (tree u : Node) (i k next : ObjectId)
    (hend : ∃ e : LineEnding, o.layout.newLine = e.text) (hparse : parseFrom text i = (.ok tree, k)) (hnext : k ≤ next)
    (hlower : (tree.lower o next).1 = .ok u) :
    (∀ b ∈ u.newLines, b = o.layout.newLine ∨ b ∈ tree.newLines) ∧
      ((∀ b ∈ Text.lineBreaks text, b = o.layout.newLine) → ∀ b ∈ Text.lineBreaks u.code, b = o.layout.newLine) := by
  obtain ⟨e, he⟩ := hend
  have hprogram := (parseFrom_isProgram hparse).2
  constructor
  · let allowed : List Char → Prop := fun b => b = o.layout.newLine ∨ b ∈ tree.newLines
    have hlayout : allowed o.layout.newLine := .inl rfl
    obtain ⟨j, hmeets⟩ := lower_meets hparse hnext (Demand.newLines_suits hlayout) (helperReads_newLines he hlayout)
      (hprogram.meets_newLines (fun b hb => .inr hb)) hlower
    exact mem_newLines_of_meets hmeets
  · intro htext
    obtain ⟨j, hmeets⟩ := lower_meets hparse hnext (Demand.code_suits o.layout) (helperReads_code he)
      (hprogram.meets_code htext) hlower
    rw [he] at hmeets ⊢
    exact endsBy_code_of_meets hmeets

/-- A derived class, which the helper is put in front of, in a text whose lines all end with `\r\n`. -/
theorem lower_lineEndings_derived : ∃ tree k u,
    parseFrom "class D extends B \x7b // one\r\n x = 1; \x7d\r\n".toList 0 = (.ok tree, k) ∧
    (tree.lower ⟨⟨4, false, LineEnding.crlf.text⟩, true⟩ k).1 = .ok u ∧
    (∀ b ∈ u.newLines, b = LineEnding.crlf.text ∨ b ∈ tree.newLines) ∧
    (∀ b ∈ Text.lineBreaks "class D extends B \x7b // one\r\n x = 1; \x7d\r\n".toList, b = LineEnding.crlf.text) ∧
    ∀ b ∈ Text.lineBreaks u.code, b = LineEnding.crlf.text := by
  obtain ⟨tree, k, u, hparse, hlower, -⟩ := exists_of_lowersInto ⟨⟨4, false, LineEnding.crlf.text⟩, true⟩ (fun _ _ => true)
    "class D extends B \x7b // one\r\n x = 1; \x7d\r\n".toList (by decide +kernel)
  obtain ⟨hlines, hcode⟩ := lower_lineEndings _ _ tree u 0 k k ⟨.crlf, rfl⟩ hparse le_rfl hlower
  have htext : ∀ b ∈ Text.lineBreaks "class D extends B \x7b // one\r\n x = 1; \x7d\r\n".toList,
    b = LineEnding.crlf.text := by decide +kernel
  exact ⟨tree, k, u, hparse, hlower, hlines, htext, hcode htext⟩

end Downlevel
