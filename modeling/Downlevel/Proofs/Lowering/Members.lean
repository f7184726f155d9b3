import Downlevel.Proofs.Lowering.Context
import Downlevel.Lowering.Members
/-!
# Proofs.Lowering.Members — members, names and the wrapper around a body

What is made of names here is plain code.  The name of a namespace or of a base class has parts, each of them a token of
the tree.
-/
namespace Downlevel

/-! ## Parts of names -/

namespace Node

variable {F : Node → Prop} {L : Demand} {c : NodeClass} {k : Nat} {n : Node}

theorem Stands.namePartsUpTo : ∀ (depth : Nat) {n : Node} {c : NodeClass}, n.Stands F L c k →
    ∀ t ∈ namePartsUpTo depth n, t.Meets L k
  | 0, _, _, _, _, ht => by cases ht
  | depth + 1, n, c, h, t, ht => by
    unfold Node.namePartsUpTo at ht
    split at ht
    · rename_i left dot right hk hs
      obtain ⟨_, _, hs', hleft, hrow⟩ := Slot.row_node.1 (h.rowOf hk)
      obtain ⟨_, _, rfl, -, hrow⟩ := Slot.row_token.1 hrow
      obtain ⟨_, _, rfl, hright, -⟩ := Slot.row_token.1 hrow
      rw [hs] at hs'
      cases hs'
      rcases List.mem_append.1 ht with ht | ht
      · exact hleft.namePartsUpTo depth t ht
      · exact List.mem_singleton.1 ht ▸ hright
    · rename_i name hk hs
      obtain ⟨_, _, hs', hname, -⟩ := Slot.row_token.1 (h.rowOf hk)
      rw [hs] at hs'
      cases hs'
      exact List.mem_singleton.1 ht ▸ hname
    · cases ht

/-- **The parts of a name are tokens of the tree.** -/
theorem Stands.nameParts (h : n.Stands F L c k) : ∀ t ∈ n.nameParts, t.Meets L k := h.namePartsUpTo _

/-- **A name has parts.** -/
theorem Stands.nameParts_ne_nil (h : n.Stands F L .name k) : n.nameParts ≠ [] := by
  have hk : n.kind = .identifierName ∨ n.kind = .qualifiedName := by
    have hkind : (n.kind == .identifierName || n.kind == .qualifiedName) = true := h.kind
    rcases Bool.or_eq_true_iff.1 hkind with hk | hk
    · exact .inl (eq_of_beq hk)
    · exact .inr (eq_of_beq hk)
  obtain ⟨depth, hdepth⟩ : ∃ depth, n.height = depth + 1 := by cases n; exact ⟨_, rfl⟩
  rw [Node.nameParts, hdepth]
  unfold Node.namePartsUpTo
  rcases hk with hk | hk
  · obtain ⟨name, _, hs, -, hrow⟩ := Slot.row_token.1 (h.rowOf hk)
    obtain rfl := Slot.row_nil_iff.1 hrow
    rw [hk, hs]
    exact List.cons_ne_nil _ _
  · obtain ⟨left, _, hs, hleft, hrow⟩ := Slot.row_node.1 (h.rowOf hk)
    obtain ⟨dot, _, rfl, -, hrow⟩ := Slot.row_token.1 hrow
    obtain ⟨right, _, rfl, -, hrow⟩ := Slot.row_token.1 hrow
    obtain rfl := Slot.row_nil_iff.1 hrow
    rw [hk, hs]
    exact List.append_ne_nil_of_right_ne_nil _ (List.cons_ne_nil _ _)

end Node

namespace LoweringContext

open Build

variable {c : LoweringContext} {L : Demand} {o : LayoutOptions} {i k : Nat} {n m : Node} {t : Token}

/-! ## Members -/

theorem makes_memberTarget (hL : L.Suits o) (hn : n.Plain L .expression k) (ht : t.Meets L k) :
    Makes k (memberTarget n t) (fun j m => m.Plain L .expression j) := by
  unfold memberTarget
  split
  · refine (makes_bareToken ht).bind (fun i₁ h₁ name hname => ?_)
    exact (makes_literal hname (by omega)).bind (fun i₂ h₂ index hindex => makes_elementAccess hL hn hindex (by omega)
      (by omega))
  · exact (makes_bareToken ht).bind (fun i₁ h₁ name hname => makes_memberAccess hL hn hname (by omega) (by omega))

theorem makes_assignmentStatement (hL : L.Suits o) (hn : n.Plain L .expression k) (hm : m.Plain L .expression i)
    (hi : i ≤ k) : Makes k (assignmentStatement n m) (fun j m => m.Plain L .statement j) :=
  (makes_assignment hL hn hm (by omega) (by omega)).bind (fun _ _ _ ha => makes_expressionStatement hL ha (by omega))

theorem makes_assignSameName (hL : L.Suits o) (hn : n.Plain L .expression k) (ht : t.Meets L k) :
    Makes k (assignSameName n t) (fun j m => m.Plain L .statement j) := by
  refine (makes_memberAccess hL hn ht (by omega) (by omega)).bind (fun i₁ h₁ target htarget => ?_)
  exact (makes_nameExpression ht (by omega)).bind (fun i₂ h₂ value hvalue => makes_assignmentStatement hL
    (htarget.up (by omega)) hvalue (by omega))

theorem makes_orCreate (hL : L.Suits o) (hn : n.Plain L .expression k) (hm : m.Plain L .expression k) :
    Makes k (orCreate n m) (fun j m => m.Plain L .expression j) := by
  refine (makes_emptyObject hL).bind (fun i₁ h₁ created hcreated => ?_)
  refine (makes_assignment hL hm hcreated (by omega) (by omega)).bind (fun i₂ h₂ assignment ha => ?_)
  exact (makes_parenthesized hL ha (by omega)).bind (fun i₃ h₃ p hp => makes_binary hL _ hn hp (by omega) (by omega))

/-! ## The wrapper around a body -/

/-- **A body is wrapped in a call.** -/
theorem makes_wrapperCall (hL : L.Suits o) {parameters arguments : List Node} {block : Node}
    (hparameters : ∀ m ∈ parameters, m.Plain L (.only .parameter) k) (hblock : block.Plain L (.only .block) k)
    (harguments : ∀ m ∈ arguments, m.Plain L .expression k) :
    Makes k (wrapperCall parameters block arguments) (fun j m => m.Plain L .expression j) := by
  refine (makes_parameterList hL hparameters (by omega)).bind (fun i₁ h₁ list hlist => ?_)
  refine (makes_functionExpression hL hlist hblock (by omega) (by omega)).bind (fun i₂ h₂ function hfunction => ?_)
  exact (makes_parenthesized hL hfunction (by omega)).bind (fun i₃ h₃ callee hcallee => makes_invocation hL hcallee
    harguments (by omega) (by omega))

theorem makes_bodyBlock (hL : L.Suits c.layout) {openBrace closeBrace : Token} {statements : List Node} (column : Nat)
    (hopen : openBrace.Meets L i) (hclose : closeBrace.Meets L i) (h : ∀ m ∈ statements, m.Plain L .statement k) :
    Makes k (c.bodyBlock openBrace closeBrace statements column) (fun j m => m.Plain L (.only .block) j) := by
  refine (makes_openBrace hL (hL.endingLine hopen.trailing)).bind (fun i₁ h₁ opened hopened => ?_)
  refine (makes_closeBrace hL (closingBraceLeading_meets hL hclose.leading column 0)).bind
    (fun i₂ h₂ closed hclosed => makes_block hopened h hclosed (by omega) (by omega) (by omega))

end LoweringContext

end Downlevel
