import Downlevel.Proofs.Grammar.Forms
import Downlevel.Proofs.Lowering.Outcome
import Downlevel.Proofs.Outline.Program
/-!
# Proofs.Outline.Whole — the draft of a whole tree

The objects of a tree that was read are all different, so they can be registered (`Registry.ofTree`), and then the tree
is held: the rules make of it what the draft makes of its outline (`IsProgram.follows_lowerByRules`).
-/
namespace Downlevel

variable {text : List Char} {tree n m : Node} {i k : ObjectId} {t : Token}

/-! ## The objects of a tree -/

def Node.find? (tree : Node) (i : ObjectId) : Option Node :=
  tree.all.find? (fun m => m.id == i && m.matchesSchema)

theorem Node.find?_eq_some (h : tree.find? i = some m) : m ∈ tree.all ∧ m.id = i ∧ m.matchesSchema = true := by
  have hm := List.find?_some (p := fun m : Node => m.id == i && m.matchesSchema) h
  rw [Bool.and_eq_true, beq_iff_eq] at hm
  exact ⟨List.mem_of_find?_eq_some h, hm⟩

/-- **Each node of a well-formed tree of distinct nodes is found by its number.** -/
theorem Node.find?_id (hfits : tree.WellFormed) (hapart : (tree.all.map Node.id).Nodup) (hm : m ∈ tree.all) :
    tree.find? m.id = some m := by
  cases h : tree.find? m.id with
  | none => exact absurd (List.find?_eq_none.1 h m hm) (by simp [(hfits m hm).matchesSchema])
  | some x =>
    obtain ⟨hx, hid, -⟩ := Node.find?_eq_some h
    rw [List.inj_on_of_nodup_map hapart hx hm hid]

def Node.findToken? (tree : Node) (i : ObjectId) : Option Token := tree.tokens.find? (fun t => t.id == i)

theorem Node.findToken?_id (hdistinct : (tree.tokens.map Token.id).Nodup) (ht : t ∈ tree.tokens) :
    tree.findToken? t.id = some t := by
  cases h : tree.findToken? t.id with
  | none => exact absurd (List.find?_eq_none.1 h t ht) (by simp)
  | some x =>
    have hid := List.find?_some (p := fun x : Token => x.id == t.id) h
    rw [List.inj_on_of_nodup_map hdistinct (List.mem_of_find?_eq_some h) ht (beq_iff_eq.1 hid)]

/-- No object has a number yet. -/
def Registry.empty : Registry where
  next := 0
  node _ := .mk 0 .omittedExpression []
  token _ := ⟨0, .realized .error .empty [] .none .empty⟩
  fits _ := rfl
  mine _ := True
  mine_of_le _ _ := trivial

/-- The registry with the objects of a tree that took the numbers up to the next one. -/
def Registry.withTree (W : Registry) (tree : Node) (next : ObjectId) (hnext : W.next ≤ next) : Registry where
  next := next
  node i := if i < W.next then W.node i else ((tree.find? i).map Node.outline).getD (W.node i)
  token i := if i < W.next then W.token i else ((tree.findToken? i).map Token.outline).getD (W.token i)
  fits i := by
    split
    · exact W.fits i
    · cases h : tree.find? i with
      | none => exact W.fits i
      | some m => exact (Node.matchesSchema_outline m).trans (Node.find?_eq_some h).2.2
  mine := W.mine
  mine_of_le i hi := W.mine_of_le i (Nat.le_trans hnext hi)

theorem Registry.le_withTree {W : Registry} {next : ObjectId} (hnext : W.next ≤ next) : W ≤ W.withTree tree next hnext :=
  ⟨hnext, fun _ hi => ⟨if_pos hi, if_pos hi⟩, rfl⟩

/-- **A tree that was read from new numbers on is known**, and it can be given to the rules. -/
theorem IsProgram.held {W : Registry} {next : ObjectId} (h : IsProgram text i k tree) (hopens : tree.Every OpenForm)
    (hi : W.next ≤ i) (hk : k ≤ next) (hnext : W.next ≤ next) : tree.Held (W.withTree tree next hnext) where
  known := by
    refine ⟨fun m hm => ?_, fun t ht => ?_⟩
    · obtain ⟨hge, hlt⟩ := h.nodes m hm
      refine ⟨Nat.lt_of_lt_of_le hlt hk, ?_⟩
      simp only [Registry.withTree, if_neg (Nat.not_lt.2 (Nat.le_trans hi hge)), Node.find?_id h.wellFormed h.apart hm,
        Option.map_some, Option.getD_some]
    · obtain ⟨hge, hlt⟩ := h.tokens t ht
      refine ⟨Nat.lt_of_lt_of_le hlt hk, ?_, W.mine_of_le _ (Nat.le_trans hi hge)⟩
      simp only [Registry.withTree, if_neg (Nat.not_lt.2 (Nat.le_trans hi hge)), Node.findToken?_id h.distinct ht,
        Option.map_some, Option.getD_some]
  wellFormed := h.wellFormed
  opens := hopens

/-- What is read next is known. -/
theorem Registry.held_parse {W : Registry} (h : parseFrom text W.next = (.ok tree, k)) :
    ∃ W', W ≤ W' ∧ W'.next = k ∧ tree.Held W' :=
  have hprogram := parseFrom_isProgram h
  ⟨W.withTree tree k hprogram.1, Registry.le_withTree hprogram.1, rfl,
    hprogram.2.held ((parseFrom_formed h).mono (fun _ hm => hm.opens)) (Nat.le_refl _) (Nat.le_refl _) hprogram.1⟩

/-! ## The rules and the draft of a tree -/

/-- What the rules make of a whole tree, without layout. -/
def Draft.ofTree (n : Node) : Draft Node := lower (visitUpTo LoweringFault.maxTreeDepth) n

/-- **The rules make of a program what the draft makes of its outline.** -/
theorem Node.Held.follows_lowerByRules {W : Registry} (h : tree.Held W) (hk : tree.kind = .sourceUnit)
    (layout : LayoutOptions) :
    FollowsAlone W (tree.lowerByRules layout) (Draft.ofTree tree.outline) Node.Shows := by
  obtain ⟨levels, hlevels⟩ : ∃ levels, LoweringFault.maxTreeDepth = levels + 1 := ⟨_, rfl⟩
  have hrule : FollowsAlone W ((LoweringContext.ofTree tree layout).visit tree)
      (Draft.visitUpTo LoweringFault.maxTreeDepth tree.outline) Replacement.Shows := by
    unfold LoweringContext.ofTree
    dsimp only
    rw [hlevels]
    have halone := (drafted_visitUpTo (Positions.ofTree tree layout) layout levels).sourceUnit_alone h
    rw [visitUpTo, Draft.visitUpTo, LoweringContext.rule, Draft.rule, Node.kind_outline, hk]
    exact halone
  refine hrule.bind (fun W₁ h₁ r r' hr => ?_)
  have hfail : ∀ e : LoweringError, FollowsAlone W₁ (Work.fail e : Lowering Node) Draft.fail Node.Shows :=
    fun _ _ _ => .error
  cases hr with
  | removed => exact hfail _
  | one hm => exact .pure hm
  | many hms =>
    cases hms with
    | nil => exact hfail _
    | cons hm hrest =>
      cases hrest with
      | nil => exact .pure hm
      | cons => exact hfail _

/-! ## The helper and the checks -/

instance : OutlineView.Total SourceUnit where
  ofSlots?_outline slots := by
    rcases slots with _ | ⟨_ | _ | _ | _ | _, _ | ⟨_ | _ | _ | _ | _, _ | _⟩⟩
    all_goals try rfl
    simp [NodeView.ofSlots?, OutlineView.outline]

/-- The program with the statements of another one in front of its own. -/
def SourceUnit.after (program helper : SourceUnit) : SourceUnit :=
  { program with elements := helper.elements ++ program.elements }

theorem Node.Known.view {α : Type} [NodeView α] [SchemaView α] {W : Registry} {v : α}
    (h : n.Known W) (hv : n.view? α = some v) : ∀ s ∈ NodeView.toSlots v, s.Known W := fun s hs => by
  rcases Node.mem_slots_of_view? hv s hs with rfl | hs
  · exact Slot.known_absent
  · exact h.slots s hs

/-- **Two known programs make a known one.** -/
theorem SourceUnit.known_after {W : Registry} {program helper : SourceUnit} (hn : n.Known W) (hm : m.Known W)
    (hv : n.view? SourceUnit = some program) (hw : m.view? SourceUnit = some helper) :
    ∃ W', W ≤ W' ∧ W'.next = W.next + 1 ∧
      (Node.mk W.next .sourceUnit (NodeView.toSlots (program.after helper))).Known W' := by
  have hprogram := hn.view hv
  have hhelper := hm.view hw
  simp only [NodeView.toSlots, List.forall_mem_cons, Slot.known_list, Slot.known_token] at hprogram hhelper
  have hslots : ∀ s ∈ NodeView.toSlots (program.after helper), s.Known W := by
    simp only [NodeView.toSlots, SourceUnit.after, List.forall_mem_cons, Slot.known_list, Slot.known_token,
      List.forall_mem_append]
    exact ⟨⟨hhelper.1, hprogram.1⟩, hprogram.2.1, fun _ hs => by cases hs⟩
  have hrecords : Records W (Node.fresh .sourceUnit (NodeView.toSlots (program.after helper)))
      (fun W' n => n.Known W' ∧ _ ∧ _) := records_node hslots rfl
  obtain ⟨W', hle, hnext, hknown⟩ := hrecords
  exact ⟨W', hle, hnext.symm, hknown.1⟩

/-- **The helper that was read is put in front.** -/
theorem Node.withExtendsHelper_eq_ok {o : LayoutOptions} {n' : Node} {s s' : Supplied LoweringState}
    (h : n.withExtendsHelper o s = .ok n' s') :
    (n.view? SourceUnit = none ∧ n' = n ∧ s' = s) ∨ ∃ program tree helper k, n.view? SourceUnit = some program ∧
      parseFrom o.extendsHelper s.next = (.ok tree, k) ∧ tree.view? SourceUnit = some helper ∧
      n' = .mk k .sourceUnit (NodeView.toSlots (program.after helper)) ∧ s' = ⟨k + 1, s.own⟩ := by
  unfold Node.withExtendsHelper at h
  -- nothing may start to read the text here
  generalize o.extendsHelper = text at h ⊢
  cases hv : n.view? SourceUnit with
  | none =>
    rw [hv] at h
    cases h
    exact .inl ⟨rfl, rfl, rfl⟩
  | some program =>
    rw [hv] at h
    obtain ⟨r, s₁, hparse, h⟩ := Work.bind_eq_ok h
    obtain ⟨hr, rfl⟩ := Work.lift_eq_ok hparse
    cases r with
    | error e => cases h
    | ok tree =>
      dsimp only at h
      obtain ⟨helper, s₂, hview, hnode⟩ := Work.bind_eq_ok h
      unfold Lowering.view at hview
      cases hw : tree.view? SourceUnit with
      | none =>
        rw [hw] at hview
        cases hview
      | some v =>
        rw [hw] at hview
        obtain ⟨hv, rfl⟩ := Work.pure_eq_ok hview
        subst hv
        obtain ⟨rfl, rfl⟩ := Work.lift_eq_ok hnode
        exact .inr ⟨program, tree, helper, _, rfl, Prod.ext hr.symm rfl, hw, rfl, rfl⟩

end Downlevel
