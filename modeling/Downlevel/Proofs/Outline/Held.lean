import Downlevel.Proofs.Outline.Follows
/-!
# Proofs.Outline.Held — the tree that a rule is given

A rule is given a tree of which every object is known and every node fits its kind (`Node.Held`).  It reads the tree as
its draft reads the outline (`Follows.viewHeld`), and it holds the parts that it reads.  What a rule has made is only
known to look like what the draft has made; it is read as that too (`Follows.viewShown`).
-/
namespace Downlevel

/-- Every object of the tree is known, every node fits its kind, and what computes a value starts with characters. -/
structure Node.Held (W : Registry) (n : Node) : Prop where
  known : n.Known W
  wellFormed : n.WellFormed
  opens : n.Every OpenForm

/-- What the slot holds is known, and the trees in it are held. -/
structure Slot.Held (W : Registry) (s : Slot) : Prop where
  nodes : ∀ n ∈ s.nodes, n.Held W
  tokens : ∀ t ∈ s.ownTokens, t.Known W

variable {W W' : Registry} {n n' m : Node} {s : Slot} {t : Token} {ns : List Node} {ts : List Token}

theorem Node.Held.up (h : n.Held W) (hW : W ≤ W') : n.Held W' := ⟨h.known.up (by order), h.wellFormed, h.opens⟩

theorem Slot.Held.up (h : s.Held W) (hW : W ≤ W') : s.Held W' :=
  ⟨fun n hn => (h.nodes n hn).up (by order), fun t ht => (h.tokens t ht).up (by order)⟩

theorem Node.Held.slots (h : n.Held W) : ∀ s ∈ n.slots, s.Held W := fun s hs =>
  have hchild : ∀ m ∈ s.nodes, m ∈ n.children := fun _ hm => List.mem_flatMap.2 ⟨s, hs, hm⟩
  ⟨fun m hm => ⟨(h.known.slots s hs).nodes m hm, h.wellFormed.child (hchild m hm), h.opens.child (hchild m hm)⟩,
    (h.known.slots s hs).tokens⟩

/-! ## What a slot holds -/

namespace Slot

@[simp] theorem held_absent : Slot.absent.Held W := ⟨fun _ h => (by cases h), fun _ h => by cases h⟩

@[simp] theorem held_token : (Slot.token t).Held W ↔ t.Known W :=
  ⟨fun h => h.tokens t (List.mem_singleton.2 rfl),
    fun h => ⟨fun _ hm => (by cases hm), fun u hu => by rw [List.mem_singleton.1 hu]; exact h⟩⟩

@[simp] theorem held_ofToken? {o : Option Token} : (Slot.ofToken? o).Held W ↔ ∀ t ∈ o, t.Known W := by
  cases o <;> simp [Slot.ofToken?]

@[simp] theorem held_node : (Slot.node n).Held W ↔ n.Held W :=
  ⟨fun h => h.nodes n (List.mem_singleton.2 rfl),
    fun h => ⟨fun m hm => (by rw [List.mem_singleton.1 hm]; exact h), fun _ ht => by cases ht⟩⟩

@[simp] theorem held_ofNode? {o : Option Node} : (Slot.ofNode? o).Held W ↔ ∀ n ∈ o, n.Held W := by
  cases o <;> simp [Slot.ofNode?]

@[simp] theorem held_list : (Slot.list ns).Held W ↔ ∀ n ∈ ns, n.Held W :=
  ⟨fun h => h.nodes, fun h => ⟨h, fun _ ht => by cases ht⟩⟩

@[simp] theorem held_separated :
    (Slot.separated ns ts).Held W ↔ (∀ n ∈ ns, n.Held W) ∧ ∀ t ∈ ts, t.Known W :=
  ⟨fun h => ⟨h.nodes, h.tokens⟩, fun h => ⟨h.1, h.2⟩⟩

@[simp] theorem known_absent : Slot.absent.Known W := ⟨fun _ h => (by cases h), fun _ h => by cases h⟩

@[simp] theorem known_token : (Slot.token t).Known W ↔ t.Known W :=
  ⟨fun h => h.tokens t (List.mem_singleton.2 rfl),
    fun h => ⟨fun _ hm => (by cases hm), fun u hu => by rw [List.mem_singleton.1 hu]; exact h⟩⟩

@[simp] theorem known_ofToken? {o : Option Token} : (Slot.ofToken? o).Known W ↔ ∀ t ∈ o, t.Known W := by
  cases o <;> simp [Slot.ofToken?]

@[simp] theorem known_node : (Slot.node n).Known W ↔ n.Known W :=
  ⟨fun h => h.nodes n (List.mem_singleton.2 rfl),
    fun h => ⟨fun m hm => (by rw [List.mem_singleton.1 hm]; exact h), fun _ ht => by cases ht⟩⟩

@[simp] theorem known_ofNode? {o : Option Node} : (Slot.ofNode? o).Known W ↔ ∀ n ∈ o, n.Known W := by
  cases o <;> simp [Slot.ofNode?]

@[simp] theorem known_list : (Slot.list ns).Known W ↔ ∀ n ∈ ns, n.Known W :=
  ⟨fun h => h.nodes, fun h => ⟨h, fun _ ht => by cases ht⟩⟩

@[simp] theorem known_separated :
    (Slot.separated ns ts).Known W ↔ (∀ n ∈ ns, n.Known W) ∧ ∀ t ∈ ts, t.Known W :=
  ⟨fun h => ⟨h.nodes, h.tokens⟩, fun h => ⟨h.1, h.2⟩⟩

end Slot

/-! ## Reading a tree that is held -/

theorem Node.Held.stands (h : n.Held W) : n.Stands (fun _ => True) Demand.any (.only n.kind) W.next where
  kind := beq_self_eq_true _
  sound := Node.sound_of h.wellFormed (fun _ _ => trivial) (h.known.nodes.mono (fun _ hm => hm.1))
    (fun t ht => ⟨(h.known.tokens t ht).id_lt, fun _ _ => trivial, fun _ _ => trivial, trivial⟩)

/-- A view of every node of its kind that fits it. -/
class FittingView (α : Type) [NodeView α] : Prop where
  slots_eq : ∀ {F : Node → Prop} {L : Demand} {c : NodeClass} {k : Nat} {n : Node}, n.Stands F L c k →
    n.kind = NodeView.kind α → ∃ v : α, n.slots = NodeView.toSlots v

instance : FittingView SourceUnit := ⟨fun h hk => let ⟨v, _, hs, _⟩ := h.sourceUnit hk; ⟨v, hs⟩⟩

instance : FittingView FunctionDeclaration := ⟨fun h hk => let ⟨v, _, hs, _⟩ := h.functionDeclaration hk; ⟨v, hs⟩⟩

instance : FittingView ModuleDeclaration := ⟨fun h hk => let ⟨v, _, hs, _⟩ := h.moduleDeclaration hk; ⟨v, hs⟩⟩

instance : FittingView ClassDeclaration := ⟨fun h hk => let ⟨v, _, hs, _⟩ := h.classDeclaration hk; ⟨v, hs⟩⟩

instance : FittingView EnumDeclaration := ⟨fun h hk => let ⟨v, _, hs, _⟩ := h.enumDeclaration hk; ⟨v, hs⟩⟩

instance : FittingView EnumElement := ⟨fun h hk => let ⟨v, _, hs, _⟩ := h.enumElement hk; ⟨v, hs⟩⟩

instance : FittingView ExtendsClause := ⟨fun h hk => let ⟨v, _, hs, _⟩ := h.extendsClause hk; ⟨v, hs⟩⟩

instance : FittingView ConstructorDeclaration :=
  ⟨fun h hk => let ⟨v, _, hs, _⟩ := h.constructorDeclaration hk; ⟨v, hs⟩⟩

instance : FittingView MemberFunction := ⟨fun h hk => let ⟨v, _, hs, _⟩ := h.memberFunction hk; ⟨v, hs⟩⟩

instance : FittingView MemberVariable := ⟨fun h hk => let ⟨v, _, hs, _⟩ := h.memberVariable hk; ⟨v, hs⟩⟩

instance : FittingView MemberGetter := ⟨fun h hk => let ⟨v, _, hs, _⟩ := h.memberGetter hk; ⟨v, hs⟩⟩

instance : FittingView MemberSetter := ⟨fun h hk => let ⟨v, _, hs, _⟩ := h.memberSetter hk; ⟨v, hs⟩⟩

instance : FittingView CallSignature := ⟨fun h hk => let ⟨v, _, hs, _⟩ := h.callSignature hk; ⟨v, hs⟩⟩

instance : FittingView ParameterList := ⟨fun h hk => let ⟨v, _, hs, _⟩ := h.parameterList hk; ⟨v, hs⟩⟩

instance : FittingView Parameter := ⟨fun h hk => let ⟨v, _, hs, _⟩ := h.parameter hk; ⟨v, hs⟩⟩

instance : FittingView VariableStatement := ⟨fun h hk => let ⟨v, _, hs, _⟩ := h.variableStatement hk; ⟨v, hs⟩⟩

instance : FittingView VariableDeclaration := ⟨fun h hk => let ⟨v, _, hs, _⟩ := h.variableDeclaration hk; ⟨v, hs⟩⟩

instance : FittingView VariableDeclarator := ⟨fun h hk => let ⟨v, _, hs, _⟩ := h.variableDeclarator hk; ⟨v, hs⟩⟩

instance : FittingView EqualsValueClause := ⟨fun h hk => let ⟨v, _, hs, _⟩ := h.equalsValueClause hk; ⟨v, hs⟩⟩

instance : FittingView Block := ⟨fun h hk => let ⟨v, _, hs, _⟩ := h.block hk; ⟨v, hs⟩⟩

instance : FittingView ExpressionStatement := ⟨fun h hk => let ⟨v, _, hs, _⟩ := h.expressionStatement hk; ⟨v, hs⟩⟩

instance : FittingView ThisExpression := ⟨fun h hk => let ⟨v, _, hs, _⟩ := h.thisExpression hk; ⟨v, hs⟩⟩

instance : FittingView SuperExpression := ⟨fun h hk => let ⟨v, _, hs, _⟩ := h.superExpression hk; ⟨v, hs⟩⟩

instance : FittingView MemberAccess := ⟨fun h hk => let ⟨v, _, hs, _⟩ := h.memberAccess hk; ⟨v, hs⟩⟩

instance : FittingView Invocation := ⟨fun h hk => let ⟨v, _, hs, _⟩ := h.invocation hk; ⟨v, hs⟩⟩

instance : FittingView FunctionExpression := ⟨fun h hk => let ⟨v, _, hs, _⟩ := h.functionExpression hk; ⟨v, hs⟩⟩

instance : FittingView ObjectGetter := ⟨fun h hk => let ⟨v, _, hs, _⟩ := h.objectGetter hk; ⟨v, hs⟩⟩

instance : FittingView ObjectSetter := ⟨fun h hk => let ⟨v, _, hs, _⟩ := h.objectSetter hk; ⟨v, hs⟩⟩

instance : FittingView SimpleArrow := ⟨fun h hk => let ⟨v, _, hs, _⟩ := h.simpleArrow hk; ⟨v, hs⟩⟩

instance : FittingView ParenthesizedArrow := ⟨fun h hk => let ⟨v, _, hs, _⟩ := h.parenthesizedArrow hk; ⟨v, hs⟩⟩

instance : FittingView Cast := ⟨fun h hk => let ⟨v, _, hs, _⟩ := h.cast hk; ⟨v, hs⟩⟩

/-- What a tree that is held reads as, and what its outline reads as. -/
inductive Node.Reads {α : Type} [NodeView α] [OutlineView α] (W : Registry) (n : Node) : Option α → Option α → Prop
  | none (kind : n.kind ≠ NodeView.kind α) : Reads W n .none .none
  | some {v : α} (kind : n.kind = NodeView.kind α) (slots : n.slots = NodeView.toSlots v)
      (parts : ∀ s ∈ NodeView.toSlots v, s.Held W) : Reads W n (.some v) (.some (OutlineView.outline v))

/-- **A tree that is held is read as its outline is**, and its parts are held. -/
theorem Node.Held.reads {α : Type} [NodeView α] [OutlineView α] [FittingView α] (h : n.Held W) :
    Node.Reads W n (n.view? α) (n.outline.view? α) := by
  by_cases hk : n.kind = NodeView.kind α
  · obtain ⟨v, hs⟩ := FittingView.slots_eq (α := α) h.stands hk
    rw [Node.view?_eq hk hs, Node.view?_outline_of hk hs]
    exact .some hk hs (fun s hmem => h.slots s (by rw [hs]; exact hmem))
  · rw [Node.view?_eq_none hk, Node.view?_outline_none hk]
    exact .none hk

namespace Follows

variable {α γ δ : Type} [NodeView α] [OutlineView α] {Q : Registry → γ → δ → Prop}

/-- **A rule and its draft read the tree alike.** -/
theorem viewHeld [FittingView α] {f : α → Lowering γ} {f' : α → Draft δ} (h : n.Held W)
    (hf : ∀ v, n.kind = NodeView.kind α → n.slots = NodeView.toSlots v → (∀ s ∈ NodeView.toSlots v, s.Held W) →
      Follows W (f v) (f' (OutlineView.outline v)) Q) :
    Follows W (Lowering.view α n >>= f) (Draft.view α n.outline >>= f') Q := by
  have hreads := h.reads (α := α)
  unfold Lowering.view Draft.view
  generalize n.view? α = o at hreads
  generalize n.outline.view? α = o' at hreads
  cases hreads with
  | none => exact Follows.bind (R := fun _ _ _ => False) .fail (fun _ _ _ _ hfalse => hfalse.elim)
  | some hk hs hparts =>
    dsimp only
    rw [pure_bind, pure_bind]
    exact hf _ hk hs hparts

/-- What there may be of a tree is read as its outline is. -/
theorem viewOption [FittingView α] {o : Option Node} (h : ∀ n ∈ o, n.Held W) :
    Follows W (Lowering.viewOption α o) (Draft.viewOption α (o.map Node.outline)) (fun W' a b =>
      b = a.map OutlineView.outline ∧ ∀ v ∈ a, ∀ s ∈ NodeView.toSlots v, s.Held W') := by
  cases o with
  | none => exact .pure ⟨rfl, fun _ hv => by cases hv⟩
  | some n =>
    show Follows W (some <$> Lowering.view α n) (some <$> Draft.view α n.outline) _
    rw [map_eq_pure_bind, map_eq_pure_bind]
    exact viewHeld (h n rfl) (fun v _ _ hparts => .pure ⟨rfl, fun _ hv => by cases hv; exact hparts⟩)

/-- **What was made is read as what the draft has made.** -/
theorem viewShown [OutlineView.Total α] [SchemaView α] {f : α → Lowering γ} {g : α → Draft δ} (h : n.Shows W n')
    (hf : ∀ v v', n'.view? α = some v' → OutlineView.outline v = OutlineView.outline v' →
      (∀ s ∈ NodeView.toSlots v, s.Known W) → Follows W (f v) (g v') Q) :
    Follows W (Lowering.view α n >>= f) (Draft.view α n' >>= g) Q := by
  have hviews : (n.view? α).map OutlineView.outline = (n'.view? α).map OutlineView.outline := by
    rw [← Node.view?_outline, ← Node.view?_outline, h.outline]
  have hslots : ∀ v, n.view? α = some v → ∀ s ∈ NodeView.toSlots v, s.Known W := fun v hv s hs => by
    rcases Node.mem_slots_of_view? hv s hs with rfl | hs
    · exact Slot.known_absent
    · exact h.known.slots s hs
  unfold Lowering.view Draft.view
  generalize n.view? α = o at hviews hslots
  generalize n'.view? α = o' at hviews hf
  cases o with
  | none =>
    cases o' with
    | none => exact Follows.bind (R := fun _ _ _ => False) .fail (fun _ _ _ _ hfalse => hfalse.elim)
    | some v' => cases hviews
  | some v =>
    cases o' with
    | none => cases hviews
    | some v' =>
      dsimp only
      rw [pure_bind, pure_bind]
      exact hf v v' rfl (Option.some.inj hviews) (hslots v rfl)

end Follows

end Downlevel
