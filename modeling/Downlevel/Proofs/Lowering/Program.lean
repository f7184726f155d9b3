import Downlevel.Proofs.Lowering.Functions
import Downlevel.Proofs.Lowering.Classes
import Downlevel.Proofs.Lowering.Enums
import Downlevel.Proofs.Lowering.Erasure
import Downlevel.Proofs.Lowering.Namespaces
import Downlevel.Proofs.Lowering.Super
/-!
# Proofs.Lowering.Program — every node becomes what its rule says

A rule ends well exactly if its node is intact (`lowers_rule`), as long as the rules of fewer levels do; so the rules
together lower every tree that is intact, and no other (`lowers_byRules`).
-/
namespace Downlevel

namespace LoweringContext

variable {c : LoweringContext} {L : Demand} {i k levels : Nat} {cl : NodeClass} {n : Node}

/-- A tree that nothing is lowered in is intact if its required slots keep what they hold. -/
theorem Node.intact_of_noParts (h : n.FitsKind) (hk : n.kind.keepsRequired = true)
    (hname : n.kind ≠ .moduleDeclaration) (hparts : n.loweredParts = []) : n.Intact (levels + 1) := by
  rw [Node.intact_of_parts h hk hname, hparts]
  exact fun p hp => by cases hp

/-! ## Rules of their own -/

theorem makes_captureAtHead (hL : L.Suits c.layout) {ns : List Node} (h : ∀ m ∈ ns, m.Plain L .element k) :
    Makes k (c.captureAtHead ns) (fun j ms => ∀ m ∈ ms, m.Plain L .element j) := by
  cases ns with
  | nil =>
    refine (makes_captureStatement hL 0).bindPure (fun j hj capture hcapture m hm => ?_)
    exact List.mem_singleton.1 hm ▸ hcapture.widen NodeClass.statement_element
  | cons first rest =>
    have hfirst : first.Plain L .element k := h first (List.mem_cons_self ..)
    obtain ⟨hhead, htail⟩ := hfirst.leading.splitLines
    refine (makes_captureStatement hL 0).bind (fun i₁ h₁ capture hcapture => ?_)
    refine (makes_withLeading hcapture hhead (by omega)).bind (fun i₂ h₂ capture hcapture => ?_)
    refine (makes_withLeading hfirst htail (by omega)).bindPure (fun j hj first' hfirst' => ?_)
    refine List.forall_mem_cons.2 ⟨(hcapture.widen NodeClass.statement_element).up (by omega), List.forall_mem_cons.2
      ⟨hfirst', fun m hm => (h m (List.mem_cons_of_mem _ hm)).up (by omega)⟩⟩

/-- **A program is lowered if its elements are intact.** -/
theorem lowers_sourceUnit (h : c.Sound L levels) (hn : n.Given L cl k) (hk : n.kind = .sourceUnit) :
    LowersTo L k (levels + 1) n (c.sourceUnit n) := by
  obtain ⟨v, hv, hs, helements, hend⟩ := hn.sourceUnit hk
  have hrequired : n.kind.keepsRequired = true := by rw [hk]; rfl
  have hone : n.kind.isSpread = false := by rw [hk]; rfl
  have hleaves : n.leavesNothing = false := by simp [Node.leavesNothing, hk]
  have hchildren : n.children = v.elements := by simp [Node.children, hs, NodeView.toSlots]
  have hparts : n.loweredParts = v.elements := by
    rw [← hchildren]
    unfold Node.loweredParts
    rw [hk]
  have hintact : (∀ m ∈ v.elements, m.Intact levels) ↔ n.Intact (levels + 1) := by
    rw [Node.intact_of_parts hn.fits hrequired (by simp [hk]), hparts]
  have hsteady : SlotSort.Steady .lowering (.list .element) :=
    Treatment.lowering_steady (k := .sourceUnit) _ (List.mem_cons_self ..)
  have hkind : ∀ kind, (NodeClass.only .sourceUnit).includes kind = true → n.kind.Becomes kind :=
    fun kind hkind => hk ▸ .ofOnly hkind
  unfold sourceUnit
  rw [Lowering.view_eq hv, pure_bind]
  refine ((h.treats.walkList hsteady helements).iff hintact).inScope.thenSure (fun i₁ h₁ r hr => ?_)
  obtain ⟨elements, captured⟩ := r
  dsimp only
  split
  · rename_i hsame
    simp only [Bool.and_eq_true, Bool.not_eq_true'] at hsame
    refine .pure (fun j hj => .ofSame hleaves hone (Node.Stands.plain hn ?_ (fun m hm => ?_) (by omega)).sound)
    · simp [PlainForm, Node.isDialectForm, hk]
    · rw [hchildren] at hm
      exact (hr.old hsame.2 m hm).sound.up (by omega)
  -- The program is built anew of its statements, whether a captured `this` stands in front of them or not.
  · have hrest : ∀ j, i₁ ≤ j → ∀ statements : List Node, (∀ m ∈ statements, m.Plain L .element j) →
        Ends IsRefusal j (do return .one (← NodeView.toNode (SourceUnit.mk statements v.endOfFile)) :
          Lowering Replacement) True (fun l r => r.Suits .lowering L k n l) := by
      intro j hj statements hstatements
      have hnode : Slot.Row PlainForm L j NodeKind.sourceUnit.sorts
          (NodeView.toSlots (SourceUnit.mk statements v.endOfFile)) :=
        .cons (Slot.stands_list.2 hstatements) (.cons (hend.slot (by omega)) .nil)
      exact ends_one hleaves hone (makes_node hnode (fun _ => rfl) rfl) makes_new hkind (by omega)
    split
    · exact .make (makes_captureAtHead h.suits hr.value) hrest
    · exact .sureThen (.pure (fun l hl m hm => (hr.value m hm).up (by omega))) hrest

/-- **A signature loses the type of its result.** -/
theorem lowers_callSignature (hn : n.Given L cl k) (hk : n.kind = .callSignature) :
    LowersTo L k (levels + 1) n (callSignature n) := by
  obtain ⟨v, hv, hs, hparameters, htype⟩ := hn.callSignature hk
  have hone : n.kind.isSpread = false := by rw [hk]; rfl
  have hleaves : n.leavesNothing = false := by simp [Node.leavesNothing, hk]
  have hintact : n.Intact (levels + 1) :=
    Node.intact_of_noParts hn.fits (by rw [hk]; rfl) (by simp [hk]) (by unfold Node.loweredParts; rw [hk])
  unfold callSignature
  rw [Lowering.view_eq hv, pure_bind]
  refine Ends.iff ?_ (iff_true_intro hintact).symm
  refine (ends_parameterList hparameters htype).sureThen (fun i₁ h₁ r hr => ?_)
  obtain ⟨parameters, facts⟩ := r
  dsimp only
  split
  · rename_i hsame
    obtain ⟨hlist, hnone⟩ := hr.same hsame
    have hsound : v.parameters.Sound PlainForm L i₁ := hlist ▸ hr.plain.sound
    exact .pure (fun j hj => .ofSame hleaves hone (plain_signature hn hk hs hnone (hsound.up (by omega))
      (by omega)).sound)
  · exact ends_one hleaves hone (Build.makes_callSignature hr.plain (by omega)) makes_new
      (fun kind hkind => hk ▸ .ofOnly hkind) (by omega)

/-- A list of parameters that stands alone. -/
theorem lowers_parameterList (hn : n.Given L cl k) (hk : n.kind = .parameterList) :
    LowersTo L k (levels + 1) n (do return .one (← parameterList n none).1) := by
  have hleaves : n.leavesNothing = false := by simp [Node.leavesNothing, hk]
  have hintact : n.Intact (levels + 1) :=
    Node.intact_of_noParts hn.fits (by rw [hk]; rfl) (by simp [hk]) (by unfold Node.loweredParts; rw [hk])
  have hgiven : n.Given L (.only .parameterList) k := ⟨beq_iff_eq.2 hk, hn.sound⟩
  refine ((ends_parameterList hgiven (fun _ h => by cases h)).map (fun j hj r hr => ?_)).iff
    (iff_true_intro hintact).symm
  refine .ofOne hleaves (by rw [hk]; rfl) hr.plain.sound (hk ▸ .ofOnly hr.plain.kind) (hr.renews.imp_left ?_)
  exact fun h => h ▸ n.mem_all_self

/-- A parameter that stands alone. -/
theorem lowers_parameter (hn : n.Given L cl k) (hk : n.kind = .parameter) :
    LowersTo L k (levels + 1) n (do return .one (← eraseParameter n)) := by
  have hleaves : n.leavesNothing = false := by simp [Node.leavesNothing, hk]
  have hintact : n.Intact (levels + 1) :=
    Node.intact_of_noParts hn.fits (by rw [hk]; rfl) (by simp [hk]) (by unfold Node.loweredParts; rw [hk])
  have hgiven : n.Given L (.only .parameter) k := ⟨beq_iff_eq.2 hk, hn.sound⟩
  refine ((ends_eraseParameter hgiven).map (fun j hj m hm => ?_)).iff (iff_true_intro hintact).symm
  refine .ofOne hleaves (by rw [hk]; rfl) hm.1.sound (hk ▸ .ofOnly hm.1.kind) (hm.2.imp_left ?_)
  exact fun h => h ▸ n.mem_all_self

/-- A declaration for the type checker leaves nothing. -/
theorem lowers_removed (hn : n.Given L cl k)
    (hk : n.kind = .interfaceDeclaration ∨ n.kind = .typeClause) : LowersTo L k (levels + 1) n (return .removed) := by
  have hleaves : n.leavesNothing = true := by rcases hk with hk | hk <;> simp [Node.leavesNothing, hk]
  have hrequired : n.kind.keepsRequired = true := by rcases hk with hk | hk <;> (rw [hk]; rfl)
  have hname : n.kind ≠ .moduleDeclaration := by rcases hk with hk | hk <;> simp [hk]
  have hparts : n.loweredParts = [] := by rcases hk with hk | hk <;> (unfold Node.loweredParts; rw [hk])
  exact (Ends.pure (fun j hj => .ofRemoved hleaves)).iff
    (iff_true_intro (Node.intact_of_noParts hn.fits hrequired hname hparts)).symm

/-- **A node without a rule of its own is walked.** -/
theorem lowers_walked (h : c.Sound L levels) (hn : n.Given L cl k) (hparts : n.loweredParts = n.children)
    (hleaves : n.leavesNothing = false) (hone : n.kind.isSpread = false)
    (hform : ∀ m : Node, m.kind = n.kind → PlainForm m) : LowersTo L k (levels + 1) n (do return .one (← c.walk n)) :=
  have hname : n.kind ≠ .moduleDeclaration := fun hk => by rw [hk] at hone; cases hone
  ((h.walk hn).iff (Node.intact_of_children hparts hname)).map
    (fun _ _ m hm => .ofWalked hleaves hone hm (hform m hm.kind))

/-! ## All rules -/

/-- **Every rule ends well exactly if its node is intact.** -/
theorem lowers_rule (h : c.Sound L levels) (hn : n.Given L cl k) : LowersTo L k (levels + 1) n (c.rule n) := by
  unfold rule
  split
  · exact lowers_sourceUnit h hn ‹_›
  · exact lowers_removed hn (.inl ‹_›)
  · exact lowers_classDeclaration h hn ‹_›
  · exact lowers_moduleDeclaration h hn ‹_›
  · exact lowers_enumDeclaration h hn ‹_›
  · exact lowers_functionDeclaration h hn ‹_›
  · exact lowers_variableStatement h hn ‹_›
  · exact lowers_variableDeclarator h hn ‹_›
  · exact lowers_removed hn (.inr ‹_›)
  · exact lowers_callSignature hn ‹_›
  · exact lowers_parameterList hn ‹_›
  · exact lowers_parameter hn ‹_›
  · exact lowers_expressionStatement h hn ‹_›
  · exact lowers_thisExpression h hn ‹_›
  · exact lowers_castExpression h hn ‹_›
  · exact lowers_invocation h hn ‹_›
  · exact lowers_memberAccess h hn ‹_›
  · exact lowers_functionExpression h hn ‹_›
  · exact lowers_objectAccessor h hn (.inl ‹_›)
  · exact lowers_objectAccessor h hn (.inr ‹_›)
  · exact lowers_simpleArrow h hn ‹_›
  · exact lowers_parenthesizedArrow h hn ‹_›
  -- No rule is for any other kind, so what the definitions say by kind is their last case.
  · refine lowers_walked h hn ?_ ?_ ?_ (fun m hm => ?_)
    · unfold Node.loweredParts
      split <;> first | contradiction | rfl
    · unfold Node.leavesNothing
      split <;> first | contradiction | rfl
    · unfold NodeKind.isSpread
      split <;> first | contradiction | rfl
    · unfold PlainForm Node.isDialectForm
      rw [hm]
      split <;> first | contradiction | rfl

/-- A context is sound if what it does with nodes of so many levels is what their rules do. -/
theorem Sound.ofVisit (hL : L.Suits c.layout)
    (h : ∀ m cl k, m.Given L cl k → LowersTo L k levels m (c.visit m)) : c.Sound L levels := by
  refine ⟨hL, ⟨.removal, fun m cl k n hm hback hid => ?_, fun k t ht => .pure (fun j hj => ht.up (by omega)), h⟩⟩
  rcases hback with hback | hnew
  · exact hm.form.apart n hback hid
  · exact absurd (hid ▸ hm.id_lt) (Nat.not_lt.2 hnew)

/-- **Rules for trees of so many levels are sound**, by the rules for fewer. -/
theorem sound_visitUpTo {positions : Positions} {layout : LayoutOptions} (hL : L.Suits layout) : ∀ levels,
    Sound ⟨positions, layout, visitUpTo positions layout levels⟩ L levels
  | 0 => .ofVisit hL (fun m _ _ _ => .fail (.depth m))
  | levels + 1 => .ofVisit hL (fun _ _ _ hm => lowers_rule (sound_visitUpTo hL levels) hm)

end LoweringContext

end Downlevel
