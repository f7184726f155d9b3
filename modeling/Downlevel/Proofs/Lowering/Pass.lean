import Downlevel.Proofs.Lowering.BalancedRules
/-!
# Proofs.Lowering.Pass — a pass counts its visits, and a visit leaves its state balanced

A pass over a tree has one more thing to its state than the rules see: how many visits are open.  `visitNode` is a visit
that counts itself, and seen from the rules it is the visit that looks only so many levels down (`atDepth_visitNode`).
Whether a visit ends well or fails, it leaves the state of the pass as it was, but for what the innermost scope and the
whole tree note.
-/
namespace Downlevel

open Lowering (Restores)

/-- **Every visit restores the state of the rules**, however many levels it looks down. -/
theorem restores_visitUpTo (positions : Positions) (layout : LayoutOptions) :
    ∀ levels n, Restores (visitUpTo positions layout levels n)
  | 0, _ => .faultOn
  | levels + 1, n =>
    LoweringContext.Restoring.rule (c := ⟨positions, layout, visitUpTo positions layout levels⟩)
      (restores_visitUpTo positions layout levels) n

/-- Behind the rules there are no scopes and no lines laid out elsewhere. -/
theorem Node.leaves_lowerByRules (n : Node) (layout : LayoutOptions) (next : ObjectId) :
    ∃ derived, (n.lowerByRules layout).leaves ⟨next, .initial⟩ = ⟨[], [], derived⟩ := by
  have hcontext : (LoweringContext.ofTree n layout).Restoring := restores_visitUpTo _ layout _
  obtain ⟨m, hm⟩ := hcontext.lower n ⟨next, .initial⟩
  exact ⟨m.derived, hm.trans (by simp [LoweringState.marked, LoweringState.mapScope, LoweringState.initial])⟩

/-! ## Visits that are counted -/

/-- The state of a pass over a tree. -/
structure PassState where
  /-- The visits that are open. -/
  depth : Nat
  rules : LoweringState

abbrev Pass := Work LoweringError PassState

namespace Pass

variable {α : Type}

/-- A computation of the rules in a pass. -/
def ofRules (w : Lowering α) : Pass α := fun s =>
  match w ⟨s.next, s.own.rules⟩ with
  | .ok a s' => .ok a ⟨s'.next, { s.own with rules := s'.own }⟩
  | .error e s' => .error e ⟨s'.next, { s.own with rules := s'.own }⟩

/-- What the rules see of a computation of a pass in which so many visits are open. -/
def atDepth (depth : Nat) (w : Pass α) : Lowering α := fun s =>
  match w ⟨s.next, ⟨depth, s.own⟩⟩ with
  | .ok a s' => .ok a ⟨s'.next, s'.own.rules⟩
  | .error e s' => .error e ⟨s'.next, s'.own.rules⟩

/-- A part of a pass within one more visit. -/
def counted (part : Pass α) : Pass α := do
  Work.modifyOwn (fun s => { s with depth := s.depth + 1 })
  part.andThen (fun s => { s with depth := s.depth - 1 })

/-- **A visit that counts itself.** -/
def visitNode (positions : Positions) (layout : LayoutOptions) (n : Node) : Pass Replacement := do
  let depth := (← Work.own).depth
  if LoweringFault.maxTreeDepth ≤ depth then ofRules (Lowering.faultOn .tooDeep n)
  else
    let levels := LoweringFault.maxTreeDepth - (depth + 1)
    counted (ofRules (LoweringContext.rule ⟨positions, layout, visitUpTo positions layout levels⟩ n))

theorem leaves_ofRules (w : Lowering α) (next : ObjectId) (s : PassState) :
    (ofRules w).leaves ⟨next, s⟩ = { s with rules := w.leaves ⟨next, s.rules⟩ } := by
  unfold Work.leaves ofRules
  cases w ⟨next, s.rules⟩ <;> rfl

theorem counted_run (part : Pass α) (next : ObjectId) (s : PassState) : counted part ⟨next, s⟩ =
    part.andThen (fun s => { s with depth := s.depth - 1 }) ⟨next, { s with depth := s.depth + 1 }⟩ := rfl

/-- A part that is counted leaves the count as it was. -/
theorem leaves_counted_ofRules (w : Lowering α) (next : ObjectId) (s : PassState) :
    (counted (ofRules w)).leaves ⟨next, s⟩ = { s with rules := w.leaves ⟨next, s.rules⟩ } := by
  unfold Work.leaves
  rw [counted_run]
  unfold Work.andThen ofRules
  cases w ⟨next, s.rules⟩ <;> rfl

theorem atDepth_ofRules (depth : Nat) (w : Lowering α) : atDepth depth (ofRules w) = w := by
  funext s
  unfold atDepth ofRules
  cases w s <;> rfl

theorem atDepth_counted_ofRules (depth : Nat) (w : Lowering α) : atDepth depth (counted (ofRules w)) = w := by
  funext s
  unfold atDepth
  rw [counted_run]
  unfold Work.andThen ofRules
  cases w s <;> rfl

variable (positions : Positions) (layout : LayoutOptions)

theorem visitNode_run (n : Node) (s : Supplied PassState) : visitNode positions layout n s =
    (if LoweringFault.maxTreeDepth ≤ s.own.depth then ofRules (Lowering.faultOn .tooDeep n)
    else counted (ofRules (LoweringContext.rule
      ⟨positions, layout, visitUpTo positions layout (LoweringFault.maxTreeDepth - (s.own.depth + 1))⟩ n))) s := rfl

/-- **Seen from the rules, a visit that counts itself looks as many levels down as may still be opened.** -/
theorem atDepth_visitNode (depth : Nat) (n : Node) : atDepth depth (visitNode positions layout n) =
    visitUpTo positions layout (LoweringFault.maxTreeDepth - depth) n := by
  have hrun : atDepth depth (visitNode positions layout n) = atDepth depth
      (if LoweringFault.maxTreeDepth ≤ depth then ofRules (Lowering.faultOn .tooDeep n)
      else counted (ofRules (LoweringContext.rule
        ⟨positions, layout, visitUpTo positions layout (LoweringFault.maxTreeDepth - (depth + 1))⟩ n))) := by
    funext s
    unfold atDepth
    rw [visitNode_run]
  rw [hrun]
  by_cases hdepth : LoweringFault.maxTreeDepth ≤ depth
  · rw [if_pos hdepth, atDepth_ofRules, Nat.sub_eq_zero_of_le hdepth]
    rfl
  · have hlevels : LoweringFault.maxTreeDepth - depth = LoweringFault.maxTreeDepth - (depth + 1) + 1 := by omega
    rw [if_neg hdepth, atDepth_counted_ofRules, hlevels]
    rfl

/-- The rule of a visit lowers the parts of its node by visits that count themselves too. -/
theorem visitNode_eq (n : Node) : visitNode positions layout n = (do
    let depth := (← Work.own).depth
    if LoweringFault.maxTreeDepth ≤ depth then ofRules (Lowering.faultOn .tooDeep n)
    else counted (ofRules (LoweringContext.rule
      ⟨positions, layout, fun m => atDepth (depth + 1) (visitNode positions layout m)⟩ n))) := by
  simp only [atDepth_visitNode]
  rfl

/-- The visits of a tree that is lowered start with none open. -/
theorem ofTree_visit (tree : Node) : (LoweringContext.ofTree tree layout).visit =
    fun n => atDepth 0 (visitNode (Positions.ofTree tree layout) layout n) := by
  funext n
  exact (atDepth_visitNode _ layout 0 n).symm

/-- A visit leaves the count of the open ones, and restores the state of the rules. -/
theorem leaves_visitNode (n : Node) (next : ObjectId) (before : PassState) :
    ∃ m, (visitNode positions layout n).leaves ⟨next, before⟩ = { before with rules := before.rules.marked m } := by
  have hleaves : (visitNode positions layout n).leaves ⟨next, before⟩ = Work.leaves
      (if LoweringFault.maxTreeDepth ≤ before.depth then ofRules (Lowering.faultOn .tooDeep n)
      else counted (ofRules (LoweringContext.rule
        ⟨positions, layout, visitUpTo positions layout (LoweringFault.maxTreeDepth - (before.depth + 1))⟩ n)))
      ⟨next, before⟩ := by
    unfold Work.leaves
    rw [visitNode_run]
  rw [hleaves]
  split
  · have hfault : Restores (Lowering.faultOn .tooDeep n : Lowering Replacement) := .faultOn
    obtain ⟨m, hm⟩ := hfault ⟨next, before.rules⟩
    exact ⟨m, (leaves_ofRules _ next before).trans (by rw [hm])⟩
  · have hrule := LoweringContext.Restoring.rule
      (c := ⟨positions, layout, visitUpTo positions layout (LoweringFault.maxTreeDepth - (before.depth + 1))⟩)
      (restores_visitUpTo positions layout _) n
    obtain ⟨m, hm⟩ := hrule ⟨next, before.rules⟩
    exact ⟨m, (leaves_counted_ofRules _ next before).trans (by rw [hm])⟩

end Pass

end Downlevel
