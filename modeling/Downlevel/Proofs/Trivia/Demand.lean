import Downlevel.Lowering.Erasure
/-!
# Proofs.Trivia.Demand — what is asked of trivia survives every new layout

A `Demand` asks something of each piece of trivia and of the characters of each kind of token.  It suits a layout
(`Demand.Suits`) if it grants what lowering writes by itself: blanks, ends of line, fixed spellings, its own names,
numbers and strings.  Then whatever trivia lowering lays out anew meets the demand if the trivia that it started from
does: no function of the layout makes any other piece.
-/
namespace Downlevel

/-- What is asked of each piece of trivia, and of the characters of a token of each kind. -/
structure Demand where
  trivia : Trivia → Prop
  text : TokenKind → List Char → Prop

/-- A name that lowering may write by itself. -/
def IsWord (name : List Char) : Prop := name ≠ [] ∧ name.all (fun c => c.isAlpha || c == '_') = true

instance (name : List Char) : Decidable (IsWord name) := inferInstanceAs (Decidable (_ ∧ _))

/-- The demand grants what lowering writes by itself in a given layout. -/
structure Demand.Suits (L : Demand) (o : LayoutOptions) : Prop where
  blank : ∀ text : List Char, (∀ c ∈ text, c = ' ' ∨ c = '\t') → L.trivia ⟨.whitespace, text⟩
  newLine : L.trivia ⟨.newLine, o.newLine⟩
  fixed : ∀ kind : TokenKind, L.text kind (kind.text?.getD [])
  asName : ∀ (k : Keyword) (text : List Char), L.text (.keyword k) text → L.text .identifier text
  word : ∀ name, IsWord name → L.text .identifier name
  natural : ∀ n : Nat, L.text .number (Text.ofNat n)
  number : ∀ x : Binary64, x.isNegative = false → L.text .number x.text
  string : ∀ value : List Char, L.text .string (Build.stringText value)

/-- Every piece of the list is what is asked for. -/
def TriviaList.Meets (t : TriviaList) (L : Demand) : Prop := ∀ item ∈ t.toList, L.trivia item

namespace TriviaList.Meets

variable {L : Demand} {s t : TriviaList} {o : LayoutOptions}

theorem empty : TriviaList.empty.Meets L := fun item h => by cases h

theorem ofList {items : List Trivia} (h : ∀ item ∈ items, L.trivia item) : (TriviaList.ofList items).Meets L := by
  intro item hitem
  rw [toList_ofList] at hitem
  exact h item hitem

theorem append (hs : s.Meets L) (ht : t.Meets L) : (s ++ t).Meets L := by
  intro item hitem
  rw [toList_append] at hitem
  rcases List.mem_append.1 hitem with h | h
  · exact hs item h
  · exact ht item h

theorem afterErasure (hs : s.Meets L) (ht : t.Meets L) : (s.afterErasure t).Meets L := by
  unfold TriviaList.afterErasure
  split
  · exact hs.append ht
  · exact ht

end TriviaList.Meets

/-! ## Blanks and ends of line -/

theorem LayoutOptions.indentation_blank (o : LayoutOptions) (column : Nat) :
    ∀ c ∈ o.indentation column, c = ' ' ∨ c = '\t' := by
  intro c hc
  unfold indentation at hc
  split at hc
  · rcases List.mem_append.1 hc with h | h
    · exact .inr (List.eq_of_mem_replicate h)
    · exact .inl (List.eq_of_mem_replicate h)
  · exact .inl (List.eq_of_mem_replicate hc)

namespace Demand.Suits

variable {L : Demand} {o : LayoutOptions} {t : TriviaList}

theorem space (hL : L.Suits o) {text : List Char} (h : ∀ c ∈ text, c = ' ' ∨ c = '\t') :
    (TriviaList.space text).Meets L := by
  unfold TriviaList.space
  split
  · exact .empty
  · intro item hitem
    rw [List.mem_singleton.1 hitem]
    exact hL.blank _ h

theorem oneSpace (hL : L.Suits o) : Build.oneSpace.Meets L := hL.space (by simp)

theorem indentation (hL : L.Suits o) (column : Nat) : (TriviaList.indentation column o).Meets L :=
  hL.space (o.indentation_blank column)

theorem lineBreak (hL : L.Suits o) : (TriviaList.newLine o).Meets L := by
  intro item hitem
  rw [List.mem_singleton.1 hitem]
  exact hL.newLine

theorem indentItems (hL : L.Suits o) (column : Nat) : ∀ item ∈ TriviaList.indentItems column o, L.trivia item := by
  intro item hitem
  unfold TriviaList.indentItems at hitem
  split at hitem
  · cases hitem
  · rw [List.mem_singleton.1 hitem]
    exact hL.blank _ (o.indentation_blank column)

/-! ## Shifted lines -/

theorem shiftBlanks (hL : L.Suits o) {s : Shift} (hs : s.options = o) (column : Nat) :
    ∀ item ∈ s.blanks column, L.trivia item := by
  intro item hitem
  unfold Shift.blanks at hitem
  split at hitem
  · rw [List.mem_singleton.1 hitem, hs]
    exact hL.blank _ (o.indentation_blank column)
  · cases hitem

/-- **Moving lines changes blanks only.** -/
theorem shiftItems (hL : L.Suits o) {s : Shift} (hs : s.options = o) : ∀ (start : Bool) (items : List Trivia),
    (∀ item ∈ items, L.trivia item) → ∀ item ∈ (s.items start items).items, L.trivia item
  | start, [], _, item, hitem => by cases hitem
  | start, i :: rest, h, item, hitem => by
    have hi : L.trivia i := h i (List.mem_cons_self ..)
    have ih : ∀ start, ∀ item ∈ (s.items start rest).items, L.trivia item := fun start =>
      hL.shiftItems hs start rest (fun x hx => h x (List.mem_cons_of_mem _ hx))
    have hcons : ∀ start, ∀ item ∈ i :: (s.items start rest).items, L.trivia item := fun start x hx => by
      rcases List.mem_cons.1 hx with rfl | hx
      · exact hi
      · exact ih start x hx
    unfold Shift.items at hitem
    split at hitem
    · exact hcons true item hitem
    · dsimp only at hitem
      split at hitem
      · split at hitem
        · split at hitem
          · exact hcons false item hitem
          · rcases List.mem_append.1 hitem with hx | hx
            · exact hL.shiftBlanks hs _ item hx
            · exact ih false item hx
        · rcases List.mem_append.1 hitem with hx | hx
          · exact hL.shiftBlanks hs _ item hx
          · exact hcons false item hx
      · exact hcons false item hitem

theorem shiftApply (hL : L.Suits o) {s : Shift} (hs : s.options = o) (start before : Bool) (h : t.Meets L) :
    ∀ item ∈ (s.apply start before t).items, L.trivia item := by
  intro item hitem
  unfold Shift.apply at hitem
  dsimp only at hitem
  split at hitem
  · rcases List.mem_append.1 hitem with hx | hx
    · exact hL.shiftItems hs start _ h item hx
    · exact hL.shiftBlanks hs _ item hx
  · exact hL.shiftItems hs start _ h item hitem

/-- The moved list, where some line moved. -/
theorem shiftResult (hL : L.Suits o) {s : Shift} (hs : s.options = o) (start before : Bool) (h : t.Meets L)
    {moved : TriviaList} (hmoved : (s.apply start before t).result? = some moved) : moved.Meets L := by
  unfold Shift.Outcome.result? at hmoved
  split at hmoved
  · cases hmoved; exact .ofList (hL.shiftApply hs start before h)
  · cases hmoved

theorem shifted (hL : L.Suits o) (h : t.Meets L) (delta : Int) : (t.shifted delta o).Meets L := by
  unfold TriviaList.shifted
  split
  · exact h
  · dsimp only
    cases hmoved : (Shift.apply ⟨o, delta, o.indentSize⟩ true true t).result? with
    | none => exact h
    | some moved => exact hL.shiftResult rfl true true h hmoved

/-! ## New places -/

theorem relocatedItems (hL : L.Suits o) {indent : List Trivia} (hindent : ∀ item ∈ indent, L.trivia item) :
    ∀ (start : Bool) (items : List Trivia), (∀ item ∈ items, L.trivia item) →
      ∀ item ∈ TriviaList.relocatedItems indent start items, L.trivia item
  | start, [], _, item, hitem => by
    unfold TriviaList.relocatedItems at hitem
    split at hitem
    · exact hindent item hitem
    · cases hitem
  | start, i :: rest, h, item, hitem => by
    have hi : L.trivia i := h i (List.mem_cons_self ..)
    have ih : ∀ start, ∀ item ∈ TriviaList.relocatedItems indent start rest, L.trivia item := fun start =>
      hL.relocatedItems hindent start rest (fun x hx => h x (List.mem_cons_of_mem _ hx))
    have hcons : ∀ start, ∀ item ∈ i :: TriviaList.relocatedItems indent start rest, L.trivia item :=
      fun start x hx => by
        rcases List.mem_cons.1 hx with rfl | hx
        · exact hi
        · exact ih start x hx
    unfold TriviaList.relocatedItems at hitem
    split at hitem
    · exact hcons true item hitem
    · split at hitem
      · split at hitem
        · rcases List.mem_append.1 hitem with hx | hx
          · exact hindent item hx
          · exact ih false item hx
        · rcases List.mem_append.1 hitem with hx | hx
          · exact hindent item hx
          · exact hcons false item hx
      · exact hcons false item hitem

theorem relocated (hL : L.Suits o) (h : t.Meets L) (column : Nat) : (t.relocated column o).Meets L :=
  .ofList (hL.relocatedItems (hL.indentItems column) true _ h)

theorem endingLine (hL : L.Suits o) (h : t.Meets L) : (t.endingLine o).Meets L := by
  unfold TriviaList.endingLine
  split
  · exact h
  · refine .ofList (fun item hitem => ?_)
    rcases List.mem_append.1 hitem with hx | hx
    · exact h item (List.mem_reverse.1 ((List.dropWhile_sublist _).subset (List.mem_reverse.1 hx)))
    · rw [List.mem_singleton.1 hx]
      exact hL.newLine

theorem commentLines (hL : L.Suits o) (h : t.Meets L) (column : Nat) : (t.commentLines column o).Meets L := by
  refine .ofList (fun item hitem => ?_)
  rcases List.mem_append.1 hitem with hx | hx
  · obtain ⟨comment, hcomment, hx⟩ := List.mem_flatMap.1 hx
    rcases List.mem_append.1 hx with hx | hx
    · exact hL.indentItems column item hx
    · rcases List.mem_cons.1 hx with rfl | hx
      · exact h _ (List.mem_filter.1 hcomment).1
      · rw [List.mem_singleton.1 hx]
        exact hL.newLine
  · exact hL.indentItems column item hx

theorem trailingCommentLine (hL : L.Suits o) (h : t.Meets L) : (t.trailingCommentLine o).Meets L := by
  refine .ofList (fun item hitem => ?_)
  rcases List.mem_append.1 hitem with hx | hx
  · obtain ⟨comment, hcomment, hx⟩ := List.mem_flatMap.1 hx
    rcases List.mem_cons.1 hx with rfl | hx
    · exact hL.blank _ (by simp)
    · rw [List.mem_singleton.1 hx]
      exact h _ (List.mem_filter.1 hcomment).1
  · rw [List.mem_singleton.1 hx]
    exact hL.newLine

end Demand.Suits

/-- Whole lines of trivia and the blanks behind them are what they were. -/
theorem TriviaList.Meets.splitLines {L : Demand} {t : TriviaList} (h : t.Meets L) :
    t.splitLines.1.Meets L ∧ t.splitLines.2.Meets L := by
  unfold TriviaList.splitLines
  split
  · refine ⟨.ofList (fun item hitem => h item (List.mem_of_mem_take hitem)), .ofList (fun item hitem => ?_)⟩
    exact h item (List.mem_reverse.1 ((List.takeWhile_sublist _).subset (List.mem_reverse.1 hitem)))
  · exact ⟨.empty, h⟩

end Downlevel
