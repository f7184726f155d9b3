import Downlevel.Lowering.Context
import Downlevel.Proofs.Outline.Follows
/-!
# Proofs.Lowering.Balance — computations that put the state back

A computation of the rules restores the state if it leaves it, whether it ends well or fails, as it was but for what can
be noted in the innermost scope and of the whole tree (`Lowering.Restores`).  Steps of which each restores the state
restore it; a part in a scope of its own, in an arrow function or at a line laid out elsewhere restores the state around
it, since what is put on a stack for the part is taken off behind it in either case.
-/
namespace Downlevel

/-- The state that a computation leaves, whether or not it fails. -/
def Work.leaves {ε σ α : Type} (w : Work ε σ α) (s : Supplied σ) : σ :=
  match w s with
  | .ok _ s' => s'.own
  | .error _ s' => s'.own

namespace LoweringState

@[simp] theorem lineLayouts_mapScope (s : LoweringState) (change : ThisScope → ThisScope) :
    (s.mapScope change).lineLayouts = s.lineLayouts := by
  unfold mapScope
  split <;> rfl

@[simp] theorem lineLayouts_marked (s : LoweringState) (m : Marks) : (s.marked m).lineLayouts = s.lineLayouts :=
  lineLayouts_mapScope _ _

/-- Behind a part that only notes something, scope for scope is what was there, the innermost one with the notes. -/
theorem scopes_marked_cases (s : LoweringState) (m : Marks) : (s.scopes = [] ∧ (s.marked m).scopes = []) ∨
    ∃ scope rest, s.scopes = scope :: rest ∧
      (s.marked m).scopes = { scope with captured := scope.captured || m.captured } :: rest := by
  cases hscopes : s.scopes with
  | nil => exact .inl ⟨rfl, by simp [marked, mapScope, hscopes]⟩
  | cons scope rest => exact .inr ⟨scope, rest, rfl, scopes_marked hscopes⟩

/-- A note of an inner scope is none of the state around it. -/
theorem tail_marked (s : LoweringState) (scope : ThisScope) (m : Marks) :
    let inner := { s with scopes := scope :: s.scopes }.marked m
    { inner with scopes := inner.scopes.tail } = s.marked ⟨false, m.derived⟩ := by
  obtain ⟨scopes, layouts, derived⟩ := s
  cases scopes <;> simp [marked, mapScope]

/-- An arrow function is left as it was entered. -/
theorem mapScope_marked_mapScope (s : LoweringState) (m : Marks) :
    ((s.mapScope fun scope => { scope with arrowDepth := scope.arrowDepth + 1 }).marked m).mapScope
      (fun scope => { scope with arrowDepth := scope.arrowDepth - 1 }) = s.marked m := by
  obtain ⟨scopes, layouts, derived⟩ := s
  cases scopes <;> simp [marked, mapScope]

/-- A line that is laid out elsewhere is laid out as before behind the part. -/
theorem lineLayouts_marked_tail (s : LoweringState) (layout : Nat × Nat) (m : Marks) :
    let inner := { s with lineLayouts := layout :: s.lineLayouts }.marked m
    { inner with lineLayouts := inner.lineLayouts.tail } = s.marked m := by
  obtain ⟨scopes, layouts, derived⟩ := s
  cases scopes <;> simp [marked, mapScope]

end LoweringState

namespace Lowering

variable {α β : Type}

/-- Whether the computation ends well or fails, the state is what it was but for what is noted. -/
def Restores (w : Lowering α) : Prop := ∀ s, ∃ m, w.leaves s = s.own.marked m

namespace Restores

/-! ## Steps -/

/-- What leaves the state alone restores it. -/
theorem of_eq {w : Lowering α} (h : ∀ s, w.leaves s = s.own) : Restores w := fun s =>
  ⟨.none, (h s).trans s.own.marked_none.symm⟩

theorem pure {a : α} : Restores (Pure.pure a : Lowering α) := of_eq fun _ => rfl

theorem fail {e : LoweringError} : Restores (Work.fail e : Lowering α) := of_eq fun _ => rfl

theorem faultOn {fault : LoweringFault} {tree : Node} : Restores (Lowering.faultOn fault tree : Lowering α) := fail

theorem lift {make : Fresh α} : Restores (liftM make : Lowering α) := of_eq fun _ => rfl

theorem own : Restores (Work.own : Lowering LoweringState) := of_eq fun _ => rfl

/-- **Steps that restore the state one after the other restore it.** -/
theorem bind {w : Lowering α} {f : α → Lowering β} (hw : Restores w) (hf : ∀ a, Restores (f a)) :
    Restores (w >>= f) := by
  intro s
  obtain ⟨m, hm⟩ := hw s
  unfold Work.leaves at hm ⊢
  cases hrun : w s with
  | error e s' =>
    rw [hrun] at hm
    rw [Work.bind_of_error hrun]
    exact ⟨m, hm⟩
  | ok a s' =>
    rw [hrun] at hm
    obtain ⟨m', hm'⟩ := hf a s'
    unfold Work.leaves at hm'
    rw [Work.bind_of_ok hrun]
    refine ⟨m.and m', hm'.trans ?_⟩
    rw [show s'.own = s.own.marked m from hm, LoweringState.marked_marked]

/-- Something is made first. -/
theorem make {make : Fresh α} {f : α → Lowering β} (hf : ∀ a, Restores (f a)) : Restores (liftM make >>= f) :=
  lift.bind hf

theorem map {w : Lowering α} {f : α → β} (hw : Restores w) : Restores (f <$> w) := by
  rw [map_eq_pure_bind]
  exact hw.bind fun _ => pure

theorem view {γ : Type} [NodeView γ] {n : Node} : Restores (Lowering.view γ n) := by
  unfold Lowering.view
  split
  · exact pure
  · exact fail

theorem viewOption {γ : Type} [NodeView γ] {o : Option Node} : Restores (Lowering.viewOption γ o) := by
  cases o with
  | none => exact pure
  | some n => exact view.map

theorem ofTransformed {part : Fresh (Except SlotError α)} : Restores (Lowering.ofTransformed part) := by
  refine make fun outcome => ?_
  cases outcome with
  | ok a => exact pure
  | error e => exact fail

theorem mapM {f : α → Lowering β} : ∀ {as : List α}, (∀ a ∈ as, Restores (f a)) → Restores (as.mapM f)
  | [], _ => pure
  | a :: as, h => by
    rw [List.mapM_cons]
    exact (h a List.mem_cons_self).bind fun _ =>
      (mapM fun a' ha' => h a' (List.mem_cons_of_mem _ ha')).bind fun _ => pure

theorem optionMapM {f : α → Lowering β} {o : Option α} (h : ∀ a ∈ o, Restores (f a)) : Restores (o.mapM f) := by
  cases o with
  | none => exact pure
  | some a =>
    rw [Option.mapM_some]
    exact (h a rfl).map

/-! ## Notes -/

theorem markDerived : Restores Lowering.markDerived := fun s =>
  ⟨⟨false, true⟩, by
    obtain ⟨next, scopes, layouts, derived⟩ := s
    cases scopes <;> simp [Work.leaves, Lowering.markDerived, Work.modifyOwn, LoweringState.marked,
      LoweringState.mapScope]⟩

/-- A scope that has to declare `_this` keeps having to. -/
theorem capture : Restores
    (Work.modifyOwn (LoweringState.mapScope fun scope => { scope with captured := true }) : Lowering Unit) := fun s =>
  ⟨⟨true, false⟩, by
    obtain ⟨next, scopes, layouts, derived⟩ := s
    cases scopes <;> simp [Work.leaves, Work.modifyOwn, LoweringState.marked, LoweringState.mapScope]⟩

theorem thisReference {keyword : Token} : Restores (Lowering.thisReference keyword) := by
  unfold Lowering.thisReference
  refine bind (own.bind fun _ => pure) fun inArrow => ?_
  split
  · exact capture.bind fun _ => make fun _ => make fun _ => lift
  · exact lift

/-! ## Parts within -/

/-- **A part with a `this` of its own restores the scopes around it.** -/
theorem inScope {part : Lowering α} (h : Restores part) : Restores (Lowering.inScope part) := by
  intro s
  obtain ⟨m, hm⟩ := h { s with own := { s.own with scopes := ⟨0, false⟩ :: s.own.scopes } }
  refine ⟨⟨false, m.derived⟩, ?_⟩
  rw [← LoweringState.tail_marked s.own ⟨0, false⟩ m]
  unfold Work.leaves at hm ⊢
  unfold Lowering.inScope
  cases hrun : part { s with own := { s.own with scopes := ⟨0, false⟩ :: s.own.scopes } } with
  | ok a s' =>
    rw [hrun] at hm
    exact congrArg (fun own : LoweringState => { own with scopes := own.scopes.tail }) hm
  | error e s' =>
    rw [hrun] at hm
    exact congrArg (fun own : LoweringState => { own with scopes := own.scopes.tail }) hm

/-- What is done to the state in front of a part and behind it. -/
theorem leaves_within (into outOf : LoweringState → LoweringState) (part : Lowering α) (s : Supplied LoweringState) :
    Work.leaves (do Work.modifyOwn into; part.andThen outOf) s = outOf (part.leaves { s with own := into s.own }) := by
  show Work.leaves (part.andThen outOf) { s with own := into s.own } = _
  unfold Work.leaves Work.andThen
  cases part { s with own := into s.own } <;> rfl

/-- **A part that lies in an arrow function leaves it again.** -/
theorem inArrow {part : Lowering α} (h : Restores part) : Restores (Lowering.inArrow part) := by
  intro s
  obtain ⟨m, hm⟩ := h { s with own := s.own.mapScope fun scope => { scope with arrowDepth := scope.arrowDepth + 1 } }
  refine ⟨m, (leaves_within _ _ part s).trans ?_⟩
  rw [hm]
  exact s.own.mapScope_marked_mapScope m

/-- **A line that is laid out elsewhere for a part is so for that part only.** -/
theorem atLine {line column : Nat} {part : Lowering α} (h : Restores part) :
    Restores (Lowering.atLine line column part) := by
  intro s
  obtain ⟨m, hm⟩ := h { s with own := { s.own with lineLayouts := (line, column) :: s.own.lineLayouts } }
  refine ⟨m, (leaves_within _ _ part s).trans ?_⟩
  rw [hm]
  exact s.own.lineLayouts_marked_tail (line, column) m

end Restores

end Lowering

end Downlevel
