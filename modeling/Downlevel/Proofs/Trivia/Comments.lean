import Downlevel.Proofs.Lexer.Trivia
import Downlevel.Proofs.Trivia.Shifts
import Downlevel.Tree.Equality
/-!
# Proofs.Trivia.Comments — no new layout loses a comment

Whoever lays trivia out anew writes blanks and ends of line of its own and may drop some, but never touches a comment
(`TriviaList.comments`).  A shift, a new place and a cut behind the last line keep more than that: all that is not
blanks stays in its order (`TriviaList.lasting`).  To give trivia its place a second time changes nothing where no two
runs of blanks stand side by side, and in trivia that is cut off a text none do (`TriviaList.layouts_keep`).
-/
namespace Downlevel

namespace TriviaList

/-- The items that are more than blanks, in order: comments, ends of line and skipped text. -/
def lasting (t : TriviaList) : List Trivia := t.toList.filter (fun item => !item.isWhitespace)

variable {t u : TriviaList} {o : LayoutOptions} {indent items rest : List Trivia} {item : Trivia} {start : Bool}
  {column : Nat}

theorem isWhitespace_of_isComment (h : item.isComment = true) : item.isWhitespace = false := by
  cases item with
  | mk kind text => cases kind <;> simp_all [Trivia.isComment, Trivia.isWhitespace]

/-- **Comments last.** -/
theorem comments_eq (t : TriviaList) : t.comments = t.lasting.filter Trivia.isComment := by
  rw [lasting, List.filter_filter, comments]
  refine List.filter_congr (fun item _ => ?_)
  cases hcomment : item.isComment with
  | false => rfl
  | true => simp [isWhitespace_of_isComment hcomment]

theorem comments_congr (h : t.lasting = u.lasting) : t.comments = u.comments := by rw [comments_eq, comments_eq, h]

theorem comments_append (t u : TriviaList) : (t ++ u).comments = t.comments ++ u.comments := by
  rw [comments, toList_append, List.filter_append, comments, comments]

theorem comments_ofList (items : List Trivia) : (ofList items).comments = items.filter Trivia.isComment := by
  rw [comments, toList_ofList]

/-! ## Blanks that are written -/

/-- The blanks that reach a column are none or one run. -/
theorem indentItems_cases (column : Nat) (o : LayoutOptions) : indentItems column o = [] ∨
    ∃ item : Trivia, item.isWhitespace = true ∧ indentItems column o = [item] := by
  unfold indentItems
  split
  · exact .inl rfl
  · exact .inr ⟨_, rfl, rfl⟩

theorem indentItems_blank (column : Nat) (o : LayoutOptions) : ∀ item ∈ indentItems column o, item.isWhitespace = true := by
  intro item hitem
  rcases indentItems_cases column o with hnone | ⟨blank, hblank, hone⟩
  · rw [hnone] at hitem
    cases hitem
  · rw [hone, List.mem_singleton] at hitem
    exact hitem ▸ hblank

theorem filter_blank (h : ∀ item ∈ items, item.isWhitespace = true) :
    items.filter (fun item => !item.isWhitespace) = [] :=
  List.filter_eq_nil_iff.2 (fun item hitem => by simp [h item hitem])

theorem filter_isComment_blank (h : ∀ item ∈ items, item.isWhitespace = true) : items.filter Trivia.isComment = [] :=
  List.filter_eq_nil_iff.2 (fun item hitem hcomment => by
    have hblank := isWhitespace_of_isComment hcomment
    rw [h item hitem] at hblank
    cases hblank)

/-! ## What stays -/

theorem lasting_shifted (t : TriviaList) (delta : Int) (o : LayoutOptions) : (t.shifted delta o).lasting = t.lasting := by
  unfold shifted
  split
  · rfl
  · dsimp only
    unfold Shift.Outcome.result?
    split
    · rw [Option.getD_some, lasting, toList_ofList]
      exact Shift.filter_leading _ true t
    · rfl

/-- Wherever a line starts, only blanks come and go. -/
theorem filter_relocatedItems (hindent : ∀ item ∈ indent, item.isWhitespace = true) (start : Bool) :
    ∀ items : List Trivia, (relocatedItems indent start items).filter (fun item => !item.isWhitespace) =
      items.filter (fun item => !item.isWhitespace)
  | [] => by
    unfold relocatedItems
    split
    · exact filter_blank hindent
    · rfl
  | item :: rest => by
    have hrest := fun start => filter_relocatedItems hindent start rest
    unfold relocatedItems
    split
    · rw [List.filter_cons, List.filter_cons, hrest]
    · split
      · split
        · rename_i hblank
          rw [List.filter_append, filter_blank hindent, List.nil_append, hrest, List.filter_cons, hblank]
          rfl
        · rw [List.filter_append, filter_blank hindent, List.nil_append, List.filter_cons, List.filter_cons, hrest]
      · rw [List.filter_cons, List.filter_cons, hrest]

theorem lasting_relocated (t : TriviaList) (column : Nat) (o : LayoutOptions) :
    (t.relocated column o).lasting = t.lasting := by
  rw [lasting, relocated, toList_ofList, filter_relocatedItems (indentItems_blank column o)]
  rfl

/-- **What is cut behind the last end of line is put together again.** -/
theorem splitLines_append (t : TriviaList) : t.splitLines.1 ++ t.splitLines.2 = t := by
  refine ext_toList ?_
  rw [toList_append]
  unfold splitLines
  split
  · rw [toList_ofList, toList_ofList]
    have hsuffix : (t.toList.reverse.takeWhile (fun item => !item.isNewLine)).reverse <:+ t.toList := by
      have hprefix := List.reverse_suffix.2 (List.takeWhile_prefix (l := t.toList.reverse) (fun item => !item.isNewLine))
      rwa [List.reverse_reverse] at hprefix
    obtain ⟨before, hbefore⟩ := hsuffix
    generalize (t.toList.reverse.takeWhile (fun item => !item.isNewLine)).reverse = tail at *
    rw [← hbefore, List.length_append, Nat.add_sub_cancel, List.take_left]
  · rfl

theorem comments_endingLine (t : TriviaList) (o : LayoutOptions) : (t.endingLine o).comments = t.comments := by
  unfold endingLine
  split
  · rfl
  · have hsplit : t.toList = (t.toList.reverse.dropWhile Trivia.isWhitespace).reverse ++
        (t.toList.reverse.takeWhile Trivia.isWhitespace).reverse := by
      rw [← List.reverse_append, List.takeWhile_append_dropWhile, List.reverse_reverse]
    have hblank : ∀ item ∈ (t.toList.reverse.takeWhile Trivia.isWhitespace).reverse, item.isWhitespace = true :=
      fun item hitem => List.all_eq_true.1 List.all_takeWhile item (List.mem_reverse.1 hitem)
    rw [comments_ofList, comments, List.filter_append]
    conv_rhs => rw [hsplit, List.filter_append, filter_isComment_blank hblank]
    rfl

/-- Comments that each get something around them that is none are the comments. -/
theorem filter_flatMap_comments {around : Trivia → List Trivia} (items : List Trivia)
    (h : ∀ item, item.isComment = true → (around item).filter Trivia.isComment = [item]) :
    ((items.filter Trivia.isComment).flatMap around).filter Trivia.isComment = items.filter Trivia.isComment := by
  induction items with
  | nil => rfl
  | cons item items ih =>
    rw [List.filter_cons]
    split
    · rename_i hcomment
      rw [List.flatMap_cons, List.filter_append, ih, h item hcomment]
      rfl
    · exact ih

theorem comments_commentLines (t : TriviaList) (column : Nat) (o : LayoutOptions) :
    (t.commentLines column o).comments = t.comments := by
  have hindent := filter_isComment_blank (indentItems_blank column o)
  rw [commentLines, comments_ofList, List.filter_append, hindent, List.append_nil, filter_flatMap_comments, comments]
  intro item hcomment
  rw [List.filter_append, hindent, List.nil_append, List.filter_cons, if_pos hcomment]
  rfl

theorem comments_trailingCommentLine (t : TriviaList) (o : LayoutOptions) :
    (t.trailingCommentLine o).comments = t.comments := by
  rw [trailingCommentLine, comments_ofList, List.filter_append, filter_flatMap_comments]
  · exact List.append_nil _
  · intro item hcomment
    rw [List.filter_cons, List.filter_cons, if_pos hcomment]
    rfl

/-! ## A second time -/

/-- No two runs of blanks stand side by side. -/
def Single (items : List Trivia) : Prop := items.IsChain (fun a b => a.isWhitespace = true → b.isWhitespace = false)

/-- Where nothing is written at the start of a line, it does not show whether what has no blanks in front starts one. -/
theorem relocatedItems_nil_start (h : ∀ item ∈ items.head?, item.isWhitespace = false) :
    relocatedItems [] true items = relocatedItems [] false items := by
  cases items with
  | nil => rfl
  | cons item rest =>
    have hitem : item.isWhitespace = false := h item rfl
    simp [relocatedItems, hitem]

/-- **To give a place a second time changes nothing.** -/
theorem relocatedItems_twice (column : Nat) (o : LayoutOptions) : ∀ (items : List Trivia) (start : Bool), Single items →
    relocatedItems (indentItems column o) start (relocatedItems (indentItems column o) start items) =
      relocatedItems (indentItems column o) start items
  | [], start, _ => by
    -- At column zero no blanks are put in front, so those that were there are gone for good.
    rcases indentItems_cases column o with hnone | ⟨blank, hblank, hone⟩
    · rw [hnone]
      cases start <;> rfl
    · have hline : blank.isNewLine = false := Piece.isNewLine_of_isBlank (p := .trivia blank) hblank
      rw [hone]
      cases start
      · rfl
      · simp [relocatedItems, hblank, hline]
  | item :: rest, start, h => by
    obtain ⟨hnext, hrest⟩ := List.isChain_cons.1 h
    have ih := fun start => relocatedItems_twice column o rest start hrest
    cases hline : item.isNewLine with
    | true => simp [relocatedItems, hline, ih]
    | false =>
      cases start with
      | false => simp [relocatedItems, hline, ih]
      | true =>
        rcases indentItems_cases column o with hnone | ⟨blank, hblank, hone⟩
        · rw [hnone] at ih ⊢
          cases hitem : item.isWhitespace with
          | false => simp [relocatedItems, hline, hitem, ih]
          | true =>
            have hhead : relocatedItems [] true rest = relocatedItems [] false rest :=
              relocatedItems_nil_start (fun next hmem => hnext next hmem hitem)
            simp only [relocatedItems, hline, hitem, if_true, List.nil_append, Bool.false_eq_true, if_false]
            rw [← hhead]
            exact ih true
        · have hblankLine : blank.isNewLine = false := Piece.isNewLine_of_isBlank (p := .trivia blank) hblank
          rw [hone] at ih ⊢
          cases hitem : item.isWhitespace <;> simp [relocatedItems, hline, hitem, hblank, hblankLine, ih]

theorem relocated_relocated (h : Single t.toList) (column : Nat) (o : LayoutOptions) :
    (t.relocated column o).relocated column o = t.relocated column o := by
  refine ext_toList ?_
  simp only [relocated, toList_ofList]
  exact relocatedItems_twice column o t.toList true h

/-- **No new layout of trivia loses a comment** or changes the order of comments, whatever the trivia, the column, the
move and the options are; a shift, a new place and a cut behind the last line keep the order of all that is more than
blanks.  Trivia that is cut off a text and given its place stays there if it is given the place once more. -/
theorem layouts_keep (t : TriviaList) (column : Nat) (delta : Int) (o : LayoutOptions) :
    (t.shifted delta o).comments = t.comments ∧ (t.relocated column o).comments = t.comments ∧
      (t.endingLine o).comments = t.comments ∧ (t.commentLines column o).comments = t.comments ∧
      (t.trailingCommentLine o).comments = t.comments ∧
      t.splitLines.1.comments ++ t.splitLines.2.comments = t.comments ∧
      (t.shifted delta o).lasting = t.lasting ∧ (t.relocated column o).lasting = t.lasting ∧
      t.splitLines.1 ++ t.splitLines.2 = t ∧
      ∀ (trailing : Bool) (offset : Nat) (text : List Char),
        let scanned := ofList (Lexer.run trailing offset text).items
        (scanned.relocated column o).relocated column o = scanned.relocated column o := by
  refine ⟨comments_congr (lasting_shifted t delta o), comments_congr (lasting_relocated t column o),
    comments_endingLine t o, comments_commentLines t column o, comments_trailingCommentLine t o, ?_,
    lasting_shifted t delta o, lasting_relocated t column o, splitLines_append t, fun trailing offset text => ?_⟩
  · rw [← comments_append, splitLines_append]
  · refine relocated_relocated ?_ column o
    rw [toList_ofList]
    exact Lexer.runUpTo_isChain

end TriviaList

end Downlevel
