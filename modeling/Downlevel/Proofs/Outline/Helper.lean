import Downlevel.Lowering.Program
import Downlevel.Proofs.Grammar.Seen
/-!
# Proofs.Outline.Helper — the helper for derived classes is read alike however it is laid out

The text of the helper is made of lines that are laid out (`LayoutOptions.extendsHelper_eq`).  The grammar sees the same
of each of them whatever blanks stand in front and whichever characters end it, so the helper is read as the same tree
but for its layout (`readAlike_extendsHelper`).
-/
namespace Downlevel

open Lexer

/-- The lines of the helper, each with whether it is indented. -/
def extendsHelperLines : List (Bool × List Char) :=
  [(false, "var __extends = this.__extends || function (d, b) \x7b".toList),
    (true, "function __() \x7b this.constructor = d; \x7d".toList), (true, "__.prototype = b.prototype;".toList),
    (true, "d.prototype = new __();".toList), (false, "\x7d;".toList)]

/-- The text of the helper is made of its lines, which have no run of four spaces and no line feed in them. -/
theorem extendsHelperSource_lines : extendsHelperSource = layLines "    ".toList ['\n'] extendsHelperLines ∧
    (∀ x ∈ extendsHelperLines, replaceFourSpaces [] x.2 = x.2) ∧ (∀ x ∈ extendsHelperLines, '\n' ∉ x.2) ∧
    45 ≤ (extendsHelperLines.map (fun x => x.2.length)).sum := by
  unfold extendsHelperSource extendsHelperLines
  simp only [String.reduceAppend, String.reduceToList]
  decide +kernel

variable {blanks newLine line rest : List Char} {lines : List (Bool × List Char)}

theorem length_replaceFourSpaces_nil : ∀ cs : List Char, (replaceFourSpaces [] cs).length ≤ cs.length := by
  intro cs
  fun_induction replaceFourSpaces [] cs with
  | case1 cs ih => simp; omega
  | case2 c cs _ ih => simpa using ih
  | case3 => exact Nat.le_refl _

/-- A line without a run of four spaces is left as it is. -/
theorem replaceFourSpaces_line (h : replaceFourSpaces [] line = line) :
    replaceFourSpaces blanks (line ++ '\n' :: rest) = line ++ '\n' :: replaceFourSpaces blanks rest := by
  fun_induction replaceFourSpaces [] line with
  | case1 cs _ =>
    have hle := length_replaceFourSpaces_nil cs
    rw [List.nil_append] at h
    rw [h] at hle
    simp at hle
    omega
  | case2 c cs hno ih =>
    rw [List.cons_append, List.cons_append, ← ih (List.cons.inj h).2, replaceFourSpaces]
    rintro ds rfl hds
    rcases cs with _ | ⟨c, _ | ⟨c', _ | ⟨c'', cs⟩⟩⟩
    all_goals simp_all
  | case3 => rw [List.nil_append, List.nil_append, replaceFourSpaces]; simp

/-- Other blanks in place of four spaces. -/
theorem replaceFourSpaces_layLines (h : ∀ x ∈ lines, replaceFourSpaces [] x.2 = x.2) :
    replaceFourSpaces blanks (layLines "    ".toList ['\n'] lines) = layLines blanks ['\n'] lines := by
  induction lines with
  | nil => rfl
  | cons x lines ih =>
    obtain ⟨hx, hlines⟩ := List.forall_mem_cons.1 h
    have hline : replaceFourSpaces blanks (x.2 ++ ['\n'] ++ layLines "    ".toList ['\n'] lines) =
        x.2 ++ ['\n'] ++ layLines blanks ['\n'] lines := by
      rw [List.append_assoc, List.singleton_append, replaceFourSpaces_line hx, ih hlines, List.append_assoc,
        List.singleton_append]
    rw [layLines_cons, layLines_cons, ← hline]
    cases x.1 <;> rfl

/-- Other ends of line in place of line feeds. -/
theorem replaceChar_layLines (hblanks : '\n' ∉ blanks) (h : ∀ x ∈ lines, '\n' ∉ x.2) :
    Text.replaceChar '\n' newLine (layLines blanks ['\n'] lines) = layLines blanks newLine lines := by
  have hother : ∀ cs : List Char, '\n' ∉ cs → Text.replaceChar '\n' newLine cs = cs := fun cs hcs => by
    have hkeep : ∀ c ∈ cs, (if c = '\n' then newLine else [c]) = [c] := fun c hc =>
      if_neg (by rintro rfl; exact hcs hc)
    exact (List.flatMap_congr hkeep).trans (List.flatMap_singleton' cs)
  have happend : ∀ cs ds : List Char, Text.replaceChar '\n' newLine (cs ++ ds) =
      Text.replaceChar '\n' newLine cs ++ Text.replaceChar '\n' newLine ds := fun cs ds => List.flatMap_append
  induction lines with
  | nil => rfl
  | cons x lines ih =>
    obtain ⟨hx, hlines⟩ := List.forall_mem_cons.1 h
    have hlead : '\n' ∉ (if x.1 then blanks else []) := by split <;> simp [hblanks]
    rw [layLines_cons, layLines_cons, happend, happend, happend, hother _ hlead, hother _ hx, ih hlines]
    simp [Text.replaceChar]

theorem isBlank_of_mem_indentation {o : LayoutOptions} {column : Nat} {c : Char} (h : c ∈ o.indentation column) :
    CharClass.isBlank c = true := by
  unfold LayoutOptions.indentation at h
  split at h
  · rcases List.mem_append.1 h with h | h <;> rw [List.eq_of_mem_replicate h] <;> rfl
  · rw [List.eq_of_mem_replicate h]
    rfl

/-- **The helper laid out is its lines laid out.** -/
theorem LayoutOptions.extendsHelper_eq (o : LayoutOptions) :
    o.extendsHelper = layLines (o.indentation o.indentSize) o.newLine extendsHelperLines := by
  obtain ⟨hsource, hspaces, hfeeds, -⟩ := extendsHelperSource_lines
  unfold LayoutOptions.extendsHelper
  rw [hsource, replaceFourSpaces_layLines hspaces, replaceChar_layLines _ hfeeds]
  exact fun h => by cases isBlank_of_mem_indentation h

/-- **The same is seen of the lines of the helper** however they are laid out. -/
theorem linesSeen_extendsHelper : ∃ tokens, LinesSeen false extendsHelperLines 45 tokens :=
  ⟨_, .cons 13 (by decide +kernel) (.inr rfl) <| .cons 11 (by decide +kernel) (.inl rfl) <|
    .cons 7 (by decide +kernel) (.inl rfl) <| .cons 8 (by decide +kernel) (.inl rfl) <|
    .cons 1 (by decide +kernel) (.inl rfl) (.nil _)⟩

/-- **Layout does not influence what the helper is read as.** -/
theorem readAlike_extendsHelper {o o' : LayoutOptions} (h : ∃ e : LineEnding, o.newLine = e.text)
    (h' : ∃ e : LineEnding, o'.newLine = e.text) (i j : ObjectId) :
    ReadAlike (parseFrom o.extendsHelper i).1 (parseFrom o'.extendsHelper j).1 := by
  obtain ⟨e, he⟩ := h
  obtain ⟨e', he'⟩ := h'
  obtain ⟨tokens, hseen⟩ := linesSeen_extendsHelper
  have hlong : ∀ blanks newLine, 46 ≤ (layLines blanks newLine extendsHelperLines).length + 1 := fun blanks newLine =>
    Nat.succ_le_succ (Nat.le_trans extendsHelperSource_lines.2.2.2 (length_layLines extendsHelperLines))
  rw [o.extendsHelper_eq, o'.extendsHelper_eq, he, he']
  refine parseFrom_alike i j ?_ (hlong _ _) (hlong _ _)
  exact Reading.alike_of_seen 0 0 0 0 rfl (hseen.laid (fun _ hc => isBlank_of_mem_indentation hc) e)
    (hseen.laid (fun _ hc => isBlank_of_mem_indentation hc) e')

end Downlevel
