import Downlevel.Proofs.Outline.Whole
import Downlevel.Proofs.Outline.Wrapped
/-!
# Proofs.Outline.Shaped — lowered code needs no parentheses that it does not have

The outline of a tree has its operators and operands (`Node.bound_outline`), so what is known of the draft of a parsed
tree holds of what the rules make of the tree.  The helper for derived classes is a parsed tree too, and telling tokens
apart changes no outline.
-/
namespace Downlevel

variable {text : List Char} {tree n u : Node} {i k next : ObjectId} {o : LoweringOptions}
  {s s' : Supplied LoweringState}

/-! ## Operators of outlines -/

namespace Node

theorem operator_outline (n : Node) : n.outline.operator = n.operator := by
  unfold operator
  rw [slots_outline, List.getElem?_map]
  cases n.slots[1]? with
  | none => rfl
  | some s => cases s <;> rfl

theorem tightness_outline (n : Node) : n.outline.tightness = n.tightness := by
  unfold tightness
  rw [kind_outline, operator_outline]

theorem demand_outline (n : Node) (index : Nat) : n.outline.demand index = n.demand index := by
  unfold demand
  rw [kind_outline, operator_outline]

theorem nodesAt_outline (n : Node) (index : Nat) : n.outline.nodesAt index = (n.nodesAt index).map outline := by
  unfold nodesAt
  rw [slots_outline, List.getElem?_map]
  cases n.slots[index]? with
  | none => rfl
  | some s => exact Slot.nodes_outline s

/-- **An outline has the operands of the tree.** -/
theorem bound_outline {n : Node} : n.outline.Bound ↔ n.Bound := by
  unfold Bound
  simp only [demand_outline, nodesAt_outline, List.forall_mem_map, tightness_outline]

theorem every_bound_outline {n : Node} : n.outline.Every Bound ↔ n.Every Bound := by
  rw [every_outline]
  exact ⟨fun h => h.mono (fun _ => bound_outline.1), fun h => h.mono (fun _ => bound_outline.2)⟩

/-- Trees that look alike have the same operands. -/
theorem every_bound_congr {m n : Node} (h : m.outline = n.outline) : m.Every Bound ↔ n.Every Bound := by
  rw [← every_bound_outline, h, every_bound_outline]

end Node

/-! ## What comes out -/

/-- What is done behind the rules: tokens are told apart, and the tree is checked. -/
def Node.finished (n : Node) : Lowering Node := do
  let unique ← Lowering.ofTransformed n.withUniqueTokens
  match unique.checkInvariants with
  | .error v => Work.fail (.onNothing (.invariants v))
  | .ok () =>
    if unique.isSpecific then Lowering.faultOn .dialectLeft unique
    return unique

/-- The rules, the helper where it is asked for, and the checks. -/
theorem Node.lowerSpecific_eq (n : Node) (o : LoweringOptions) : n.lowerSpecific o = (do
    let lowered ← n.lowerByRules o.layout
    let helped ← if o.emitHelpers && (← Work.own).derived then lowered.withExtendsHelper o.layout else pure lowered
    helped.finished) := rfl

/-- What the checks let pass looks as it did. -/
theorem Node.finished_eq_ok (h : n.finished s = .ok u s') : (n.withUniqueTokens s.next).1 = .ok u := by
  obtain ⟨unique, s₁, hunique, h⟩ := Work.bind_eq_ok h
  obtain ⟨r, s₂, hlift, hunique⟩ := Work.bind_eq_ok hunique
  obtain ⟨rfl, rfl⟩ := Work.lift_eq_ok hlift
  cases hr : (n.withUniqueTokens s.next).1 with
  | error e =>
    rw [hr] at hunique
    cases hunique
  | ok m =>
    rw [hr] at hunique
    obtain ⟨rfl, rfl⟩ := Work.pure_eq_ok hunique
    cases hchecked : unique.checkInvariants with
    | error v =>
      rw [hchecked] at h
      cases h
    | ok _ =>
      rw [hchecked] at h
      dsimp only at h
      split at h
      · cases h
      · obtain ⟨rfl, -⟩ := Work.pure_eq_ok h
        rfl

/-- What comes out of the rules, with the helper or without it, looks like the result. -/
theorem Node.lowerSpecific_eq_ok (h : tree.lowerSpecific o s = .ok u s') : ∃ lowered s₁ helped s₂,
    tree.lowerByRules o.layout s = .ok lowered s₁ ∧
      ((o.emitHelpers && s₁.own.derived) = false ∧ helped = lowered ∧ s₂ = s₁ ∨
        (o.emitHelpers && s₁.own.derived) = true ∧ lowered.withExtendsHelper o.layout s₁ = .ok helped s₂) ∧
        (helped.withUniqueTokens s₂.next).1 = .ok u := by
  rw [Node.lowerSpecific_eq] at h
  obtain ⟨lowered, s₁, hrules, h⟩ := Work.bind_eq_ok h
  obtain ⟨own, s₀, hown, h⟩ := Work.bind_eq_ok h
  cases hown
  dsimp only at h
  split at h
  · rename_i hderived
    obtain ⟨helped, s₂, hhelped, h⟩ := Work.bind_eq_ok h
    exact ⟨lowered, _, helped, s₂, hrules, .inr ⟨hderived, hhelped⟩, Node.finished_eq_ok h⟩
  · rename_i hderived
    exact ⟨lowered, _, lowered, _, hrules, .inl ⟨Bool.eq_false_iff.2 hderived, rfl, rfl⟩, Node.finished_eq_ok h⟩

/-! ## Shaped trees -/

/-- **What the draft makes of a parsed tree is tight.** -/
theorem gives_tight_ofTree (hparse : parseFrom text i = (.ok tree, k)) :
    (Draft.ofTree tree.outline).Gives (Node.Tight 0) := by
  have hformed := parseFrom_formed hparse
  have hfirm : tree.outline.Firm 1 :=
    ⟨Node.sound_outline (parseFrom_isProgram hparse).2.wellFormed (hformed.mono (fun _ hm => hm.opens)),
      Node.every_bound_outline.2 (hformed.mono (fun _ hm => hm.bound))⟩
  exact (Draft.tight_lower (Draft.keepsTight_visitUpTo _) hfirm).mono (fun _ hn => hn.loose)

theorem SourceUnit.bound_after {program helper : SourceUnit} {m : Node} (hn : n.Every Node.Bound)
    (hm : m.Every Node.Bound) (hv : n.view? SourceUnit = some program) (hw : m.view? SourceUnit = some helper) :
    (Node.mk k .sourceUnit (NodeView.toSlots (program.after helper))).Every Node.Bound := by
  have helements : ∀ {n : Node} {v : SourceUnit}, n.Every Node.Bound → n.view? SourceUnit = some v →
      ∀ e ∈ v.elements, e.Tight 0 := by
    intro n v hn hv e he
    refine ⟨?_, Nat.zero_le _⟩
    rcases Node.mem_slots_of_view? hv (.list v.elements) (List.mem_cons_self ..) with hnone | hs
    · cases hnone
    · exact hn.child (List.mem_flatMap.2 ⟨_, hs, he⟩)
  have hunit : (Node.mk k .sourceUnit (NodeView.toSlots (program.after helper))).Tight tightest :=
    Node.tight_mk (.cons (Slot.tight_list (List.forall_mem_append.2 ⟨helements hm hw, helements hn hv⟩)) <|
      .cons Slot.tight_token .nil) rfl
  exact hunit.bound

/-- Every operand is bound in what is made of a tree of the dialect. -/
theorem bound_lowerSpecific (hparse : parseFrom text i = (.ok tree, k)) (hnext : k ≤ next)
    (h : tree.lowerSpecific o ⟨next, .initial⟩ = .ok u s') : u.Every Node.Bound := by
  obtain ⟨lowered, s₁, helped, s₂, hrules, hhelped, hunique⟩ := Node.lowerSpecific_eq_ok h
  obtain ⟨hle, hprogram⟩ := parseFrom_isProgram hparse
  let W := Registry.empty.withTree tree next (Nat.zero_le _)
  have hheld : tree.Held W :=
    hprogram.held ((parseFrom_formed hparse).mono (fun _ hm => hm.opens)) (Nat.zero_le _) hnext (Nat.zero_le _)
  have hlowered : ∃ W₁, s₁.next = W₁.next ∧ lowered.Known W₁ ∧ lowered.Every Node.Bound := by
    have hfollows := hheld.follows_lowerByRules hprogram.kind o.layout .initial false
    rw [show W.next = next from rfl, hrules] at hfollows
    generalize hd : Draft.ofTree tree.outline false = d at hfollows
    cases hfollows with
    | ok hW hs hshows =>
      refine ⟨_, hs, hshows.known, (Node.every_bound_congr hshows.outline).2 ?_⟩
      exact (gives_tight_ofTree hparse false _ _ hd).bound
  obtain ⟨W₁, hs₁, hknown, hbound⟩ := hlowered
  have hdone : ∃ W₂, s₂.next = W₂.next ∧ helped.Known W₂ ∧ helped.Every Node.Bound := by
    rcases hhelped with ⟨-, rfl, rfl⟩ | ⟨-, hhelped⟩
    · exact ⟨W₁, hs₁, hknown, hbound⟩
    · rcases Node.withExtendsHelper_eq_ok hhelped with ⟨-, rfl, rfl⟩ | ⟨program, m, helper, j, hv, hread, hw, rfl, rfl⟩
      · exact ⟨W₁, hs₁, hknown, hbound⟩
      · rw [hs₁] at hread
        obtain ⟨W₂, h₂, rfl, hm⟩ := Registry.held_parse hread
        obtain ⟨W₃, h₃, hnext₃, hafter⟩ := SourceUnit.known_after (hknown.up (by order)) hm.known hv hw
        exact ⟨W₃, hnext₃.symm, hafter,
          SourceUnit.bound_after hbound ((parseFrom_formed hread).mono (fun _ hm => hm.bound)) hv hw⟩
  obtain ⟨W₂, hs₂, hknown₂, hbound₂⟩ := hdone
  obtain ⟨W₃, h₃, -, m, hm, hshows⟩ := records_uniqueTokens hknown₂
  rw [← hs₂, hunique] at hm
  cases hm
  exact (Node.every_bound_congr hshows.outline).2 hbound₂

/-- **Lowering keeps operator structure.**  Whatever a text reads as, no operand in what becomes of it needs parentheses
that it does not have: of erased casts, of bodies that are returned, of values that are assigned and of calls that are
built anew. -/
theorem lower_shaped (text : List Char) (o : LoweringOptions) (tree u : Node) (i k next : ObjectId)
    (hparse : parseFrom text i = (.ok tree, k)) (hnext : k ≤ next) (hlower : (tree.lower o next).1 = .ok u) :
    u.Every Node.Shaped := by
  refine Node.Every.mono (P := Node.Bound) ?_ (fun _ hm => hm.shaped)
  rcases Node.lower_eq_ok hlower with ⟨-, s, hrun⟩ | ⟨-, rfl⟩
  · exact bound_lowerSpecific hparse hnext hrun
  · exact (parseFrom_formed hparse).mono (fun _ hm => hm.bound)

/-- A cast below a prefix operator in the body of an arrow function. -/
theorem lower_shaped_cast : ∃ tree k u, parseFrom "f = y => -<any>y * 2;".toList 0 = (.ok tree, k) ∧
    (tree.lower .standard k).1 = .ok u ∧ u.Every Node.Shaped := by
  obtain ⟨tree, k, u, hparse, hlower, -⟩ :=
    exists_of_lowersInto .standard (fun _ _ => true) "f = y => -<any>y * 2;".toList (by decide +kernel)
  exact ⟨tree, k, u, hparse, hlower, lower_shaped _ _ tree u 0 k k hparse le_rfl hlower⟩

end Downlevel
