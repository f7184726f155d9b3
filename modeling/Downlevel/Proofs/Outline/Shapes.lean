import Downlevel.Proofs.Outline.Held
import Downlevel.Proofs.Outline.Opens
import Downlevel.Proofs.Tree.Shapes
/-!
# Proofs.Outline.Shapes — lowering keeps operands as tight as they were

What becomes of a node binds at least as tightly as the node did (`Draft.KeepsTight`), so it may stand wherever the node
stood; and every form that a rule builds is tight in itself.  A node that is walked through keeps its operator and its
demands (`Draft.tight_walk`); a cast leaves its operand, which was bound most tightly.
-/
namespace Downlevel

theorem Node.tightness_le (n : Node) : n.tightness ≤ tightest := by
  by_cases hb : n.kind = .binaryExpression
  · exact Nat.le_of_lt (Node.tightness_of_binary hb)
  · rw [Node.tightness_of_kind rfl hb]
    unfold NodeKind.tightness
    split <;> decide

/-- A tree that is to be lowered, with every operand as tight as its place asks for. -/
structure Node.Firm (k : Nat) (n : Node) : Prop where
  sound : n.Sound OpenForm Demand.any k
  bound : n.Every Node.Bound

def Slot.Firm (k : Nat) (s : Slot) : Prop := ∀ m ∈ s.nodes, m.Firm k

/-- What becomes of a node binds at least so tightly. -/
def Replacement.Tight (least : Nat) (r : Replacement) : Prop := ∀ m ∈ r.nodes, m.Tight least

section Firm

variable {k : Nat} {n : Node} {s : Slot} {t : Token} {ns : List Node} {ts : List Token}

theorem Node.Firm.slots (h : n.Firm k) : ∀ s ∈ n.slots, s.Firm k := fun _ hs m hm =>
  have hchild : m ∈ n.children := List.mem_flatMap.2 ⟨_, hs, hm⟩
  ⟨Node.Every.child h.sound hchild, h.bound.child hchild⟩

theorem Node.Firm.stands (h : n.Firm k) : n.Stands OpenForm Demand.any (.only n.kind) k :=
  ⟨beq_self_eq_true n.kind, h.sound⟩

namespace Slot

@[simp] theorem firm_absent : Slot.absent.Firm k := fun _ h => by cases h

@[simp] theorem firm_token : (Slot.token t).Firm k := fun _ h => by cases h

@[simp] theorem firm_ofToken? {o : Option Token} : (Slot.ofToken? o).Firm k := by cases o <;> simp [Slot.ofToken?]

@[simp] theorem firm_node : (Slot.node n).Firm k ↔ n.Firm k :=
  ⟨fun h => h n (List.mem_singleton.2 rfl), fun h _ hm => List.mem_singleton.1 hm ▸ h⟩

@[simp] theorem firm_ofNode? {o : Option Node} : (Slot.ofNode? o).Firm k ↔ ∀ n ∈ o, n.Firm k := by
  cases o <;> simp [Slot.ofNode?]

@[simp] theorem firm_list : (Slot.list ns).Firm k ↔ ∀ n ∈ ns, n.Firm k := Iff.rfl

@[simp] theorem firm_separated : (Slot.separated ns ts).Firm k ↔ ∀ n ∈ ns, n.Firm k := Iff.rfl

end Slot

end Firm

namespace Draft

variable {α β : Type} {Q : β → Prop} {k : Nat} {n : Node}

namespace Gives

/-- A tree that is to be lowered is read by its parts. -/
theorem viewFirm [NodeView α] [FittingView α] {f : α → Draft β} (h : n.Firm k)
    (hf : ∀ v, n.kind = NodeView.kind α → n.slots = NodeView.toSlots v → (∀ s ∈ NodeView.toSlots v, s.Firm k) →
      (f v).Gives Q) : (Draft.view α n >>= f).Gives Q := by
  by_cases hk : n.kind = NodeView.kind α
  · obtain ⟨v, hs⟩ := FittingView.slots_eq (α := α) h.stands hk
    refine (Gives.view (Node.view?_eq hk hs)).bind (fun v' hv => ?_)
    subst hv
    exact hf v' hk hs (fun s hmem => h.slots s (hs ▸ hmem))
  · unfold Draft.view
    rw [Node.view?_eq_none hk]
    exact Gives.bind (P := fun _ => False) .fail (fun _ hfalse => hfalse.elim)

/-- A tree that was made is read by its parts. -/
theorem viewTight [NodeView α] [SchemaView α] {f : α → Draft β} {least : Nat}
    (h : n.Tight least) (hf : ∀ v, (∀ s ∈ NodeView.toSlots v, s.Tight 0) → (f v).Gives Q) :
    (Draft.view α n >>= f).Gives Q := by
  cases hv : n.view? α with
  | none =>
    unfold Draft.view
    rw [hv]
    exact Gives.bind (P := fun _ => False) .fail (fun _ hfalse => hfalse.elim)
  | some v =>
    refine (Gives.view hv).bind (fun v' heq => ?_)
    subst heq
    refine hf v' (fun s hs m hm => ?_)
    rcases Node.mem_slots_of_view? hv s hs with rfl | hs
    · cases hm
    · exact ⟨h.bound.child (List.mem_flatMap.2 ⟨s, hs, hm⟩), Nat.zero_le _⟩

/-- What is drafted for each member of a list. -/
theorem mapM {P : β → Prop} {f : α → Draft β} : ∀ {as : List α}, (∀ a ∈ as, (f a).Gives P) →
    (as.mapM f).Gives (fun bs => ∀ b ∈ bs, P b)
  | [], _ => by
    rw [List.mapM_nil]
    exact .pure (fun _ hb => by cases hb)
  | a :: as, h => by
    rw [List.mapM_cons]
    refine (h a (List.mem_cons_self ..)).bind (fun b hb => ?_)
    refine (mapM (fun a' ha' => h a' (List.mem_cons_of_mem _ ha'))).bind (fun bs hbs => ?_)
    exact .pure (List.forall_mem_cons.2 ⟨hb, hbs⟩)

/-- What is given is put in. -/
theorem given {a : α} {f : α → Draft β} (h : (f a).Gives Q) : (Pure.pure a >>= f).Gives Q := by rwa [pure_bind]

theorem made {P : β → Prop} {w : Fresh β} (h : w.Gives P) : (Draft.make w).Gives P := .make (h 0)

/-- The value of a scope. -/
theorem inScope {P : α → Prop} {d : Draft α} (h : d.Gives P) : (Draft.inScope d).Gives (fun p => P p.1) := by
  intro inArrow p m heq
  obtain ⟨⟨a, m'⟩, ha, heq⟩ := Option.map_eq_some_iff.1 heq
  cases heq
  exact h false a m' ha

theorem ite {P : α → Prop} {c : Prop} [Decidable c] {d d' : Draft α} (h : d.Gives P) (h' : d'.Gives P) :
    (if c then d else d').Gives P := by
  split
  · exact h
  · exact h'

end Gives

/-- What becomes of a tree binds at least as tightly as the tree. -/
def KeepsTight (visit : Node → Draft Replacement) : Prop :=
  ∀ (n : Node) (k : Nat), n.Firm k → (visit n).Gives (Replacement.Tight n.tightness)

section Rules

variable {visit : Node → Draft Replacement} (h : KeepsTight visit)

/-! ## Walking -/

theorem gives_single (optional : Bool) (r : Replacement) : (single optional r).Gives (fun o => ∀ m ∈ o, m ∈ r.nodes) := by
  cases r with
  | one m => exact .pure (fun m' hm => List.mem_singleton.2 (Option.some.inj hm).symm)
  | removed => exact .ite (.pure (fun _ hm => by cases hm)) .fail
  | many ms =>
    rcases ms with _ | ⟨m, _ | _⟩
    · exact .fail
    · exact .pure (fun m' hm => List.mem_singleton.2 (Option.some.inj hm).symm)
    · exact .fail

/-- What becomes of what a slot holds: the same token, or trees each of which comes of one that was there. -/
structure Walked (s s' : Slot) : Prop where
  token : s'.token? = s.token?
  nodes : ∀ m' ∈ s'.nodes, ∃ m ∈ s.nodes, m'.Tight m.tightness

include h

theorem tight_walkList : ∀ {ns : List Node}, (∀ m ∈ ns, m.Firm k) →
    (walkList visit ns).Gives (fun ms => ∀ m' ∈ ms, ∃ m ∈ ns, m'.Tight m.tightness)
  | [], _ => .pure (fun _ hm => by cases hm)
  | n :: ns, hns => by
    refine (h n k (hns n (List.mem_cons_self ..))).bind (fun r hr => ?_)
    refine (tight_walkList (fun m hm => hns m (List.mem_cons_of_mem _ hm))).bind (fun ms hms => .pure ?_)
    intro m' hm'
    rcases List.mem_append.1 hm' with hm' | hm'
    · exact ⟨n, List.mem_cons_self .., hr m' hm'⟩
    · obtain ⟨m, hm, htight⟩ := hms m' hm'
      exact ⟨m, List.mem_cons_of_mem _ hm, htight⟩

theorem tight_walkMember (hn : n.Firm k) : (walkMember visit n).Gives (Node.Tight n.tightness) := by
  refine (h n k hn).bind (fun r hr => (gives_single false r).bind (fun o ho => ?_))
  cases o with
  | none => exact .fail
  | some m => exact .pure (hr m (ho m rfl))

theorem tight_walkSlot (optional : Bool) {s : Slot} (hs : s.Firm k) :
    (walkSlot visit optional s).Gives (Walked s) := by
  cases s with
  | absent => exact .pure ⟨rfl, fun _ hm => by cases hm⟩
  | token t => exact .pure ⟨rfl, fun _ hm => by cases hm⟩
  | node n =>
    refine (h n k (hs n (List.mem_singleton.2 rfl))).bind (fun r hr => (gives_single optional r).bind (fun o ho => ?_))
    refine .pure ⟨by cases o <;> rfl, fun m' hm' => ⟨n, List.mem_singleton.2 rfl, hr m' (ho m' ?_)⟩⟩
    rw [Slot.nodes_ofNode?] at hm'
    exact Option.mem_toList.1 hm'
  | list ns => exact (tight_walkList h hs).bind (fun ms hms => .pure ⟨rfl, hms⟩)
  | separated ns ts =>
    have hmembers : ∀ {ns : List Node}, (∀ m ∈ ns, m.Firm k) →
        (ns.mapM (walkMember visit)).Gives (fun ms => ∀ m' ∈ ms, ∃ m ∈ ns, m'.Tight m.tightness) := by
      intro ns hns
      induction ns with
      | nil =>
        rw [List.mapM_nil]
        exact .pure (fun _ hm => by cases hm)
      | cons n ns ih =>
        rw [List.mapM_cons]
        refine (tight_walkMember h (hns n (List.mem_cons_self ..))).bind (fun m hm => ?_)
        refine (ih (fun m hm => hns m (List.mem_cons_of_mem _ hm))).bind (fun ms hms => .pure ?_)
        intro m' hm'
        rcases List.mem_cons.1 hm' with rfl | hm'
        · exact ⟨n, List.mem_cons_self .., hm⟩
        · obtain ⟨m₁, hm₁, htight⟩ := hms m' hm'
          exact ⟨m₁, List.mem_cons_of_mem _ hm₁, htight⟩
    exact (hmembers hs).bind (fun ms hms => .pure ⟨rfl, hms⟩)

theorem tight_walkSlots (parent : NodeKind) : ∀ (index : Nat) {slots : List Slot}, (∀ s ∈ slots, s.Firm k) →
    (walkSlots visit parent index slots).Gives (List.Forall₂ Walked slots)
  | _, [], _ => .pure .nil
  | index, s :: slots, hs => by
    refine (tight_walkSlot h _ (hs s (List.mem_cons_self ..))).bind (fun s' hs' => ?_)
    exact (tight_walkSlots parent (index + 1) (fun s hmem => hs s (List.mem_cons_of_mem _ hmem))).bind
      (fun ss hss => .pure (.cons hs' hss))

omit h in
/-- **A node that was walked through has the same operator, so it asks for the same**, and each operand binds as tightly
as the one that it comes of. -/
theorem tight_walked {slots' : List Slot} (hn : n.Firm k) (hw : List.Forall₂ Walked n.slots slots') (id : ObjectId) :
    (Node.mk id n.kind slots').Tight n.tightness := by
  -- The operator is a token, and a walk leaves tokens where they are.
  have hoperator : (Node.mk id n.kind slots').operator = n.operator := by
    unfold Node.operator
    show ((slots'[1]?.bind Slot.token?).map Token.kind).getD .error = _
    rcases hs : n.slots[1]? with _ | s
    · rw [List.getElem?_eq_none_iff, hw.length_eq, ← List.getElem?_eq_none_iff] at hs
      rw [hs]
    · obtain ⟨hlt, rfl⟩ := List.getElem?_eq_some_iff.1 hs
      have hlt' : 1 < slots'.length := hw.length_eq ▸ hlt
      have htoken : slots'[1].token? = n.slots[1].token? := (hw.get hlt hlt').token
      rw [List.getElem?_eq_getElem hlt', Option.bind_some, Option.bind_some, htoken]
  have hdemand : ∀ index, (Node.mk id n.kind slots').demand index = n.demand index := fun index => by
    unfold Node.demand
    rw [hoperator]
    rfl
  have htightness : (Node.mk id n.kind slots').tightness = n.tightness := by
    unfold Node.tightness
    rw [hoperator]
    rfl
  refine ⟨Node.every_mk.2 ⟨fun index m' hm' => ?_, fun s' hs' m' hm' => ?_⟩, Nat.le_of_eq htightness.symm⟩
  · rw [hdemand]
    unfold Node.nodesAt at hm'
    rcases hs' : slots'[index]? with _ | s'
    · rw [show (Node.mk id n.kind slots').slots[index]? = none from hs'] at hm'
      cases hm'
    · rw [show (Node.mk id n.kind slots').slots[index]? = some s' from hs'] at hm'
      obtain ⟨hlt', rfl⟩ := List.getElem?_eq_some_iff.1 hs'
      have hlt : index < n.slots.length := hw.length_eq ▸ hlt'
      obtain ⟨m, hm, htight⟩ := (hw.get hlt hlt').nodes m' hm'
      refine Nat.le_trans (hn.bound.self index m ?_) htight.tight
      unfold Node.nodesAt
      rw [List.getElem?_eq_getElem hlt]
      exact hm
  · obtain ⟨index, hlt', rfl⟩ := List.getElem_of_mem hs'
    obtain ⟨m, -, htight⟩ := (hw.get (hw.length_eq ▸ hlt') hlt').nodes m' hm'
    exact htight.bound

theorem tight_walk (hn : n.Firm k) : (walk visit n).Gives (Node.Tight n.tightness) :=
  (tight_walkSlots h n.kind 0 hn.slots).bind (fun _ hw => .make (tight_walked hn hw 0))

theorem tight_lower (hn : n.Firm k) : (lower visit n).Gives (Node.Tight n.tightness) := by
  refine (h n k hn).bind (fun r hr => ?_)
  split
  · exact .pure (hr _ (List.mem_singleton.2 rfl))
  · exact .pure (hr _ (List.mem_singleton.2 rfl))
  · exact .fail

end Rules

end Draft

/-! ## Forms -/

namespace LoweringContext

variable {n m : Node} {t : Token} {least : Nat}

theorem tight_memberTarget (h : n.Tight tightest) : (memberTarget n t).Gives (Node.Tight tightest) := by
  unfold memberTarget
  split
  · exact .andThen (fun _ => Build.tight_literal.bind (fun _ hl => Build.tight_elementAccess h hl))
  · exact .andThen (fun _ => Build.tight_memberAccess h)

theorem tight_assignmentStatement (hn : n.Tight least) (hm : m.Tight 1) :
    (assignmentStatement n m).Gives (Node.Tight tightest) :=
  (Build.tight_assignment hn hm).bind (fun _ h => Build.tight_expressionStatement h)

theorem tight_assignSameName (h : n.Tight tightest) : (assignSameName n t).Gives (Node.Tight tightest) :=
  (Build.tight_memberAccess h).bind (fun _ ha => Build.tight_nameExpression.bind (fun _ hn =>
    tight_assignmentStatement ha (hn.weaken (by decide))))

/-- The form `target || (assignee = {})` may be an argument, or be assigned. -/
theorem tight_orCreate (hn : n.Tight tightest) (hm : m.Tight least) : (orCreate n m).Gives (Node.Tight 1) :=
  Build.tight_emptyObject.bind (fun _ ho => (Build.tight_assignment hm (ho.weaken (by decide))).bind (fun _ ha =>
    (Build.tight_parenthesized ha).bind (fun _ hp => (Build.tight_binary (.punctuation .barBar)
      (hn.weaken (by decide)) (hp.weaken (by decide))).mono (fun _ hb => hb.weaken (by decide)))))

theorem tight_numberExpression (x : Binary64) : (numberExpression x).Gives (Node.Tight tightest) := by
  unfold numberExpression
  split
  · exact (Build.tight_numericLiteral _).bind (fun _ hn => Build.tight_prefixUnary _ hn)
  · exact Build.tight_numericLiteral _

theorem tight_implicitValue {enumName memberName : Token} (previous : PreviousValue) :
    (implicitValue enumName memberName previous).Gives (fun p => p.1.Tight 1) := by
  cases previous with
  | ordinal next => exact (tight_numberExpression _).bind (fun _ hn => .pure (hn.weaken (by decide)))
  | known x => exact (tight_numberExpression _).bind (fun _ hn => .pure (hn.weaken (by decide)))
  | member previous =>
    refine Build.tight_nameExpression.bind (fun _ hn => (tight_memberTarget hn).bind (fun _ ht => ?_))
    refine (Build.tight_numericLiteral _).bind (fun _ hone => ?_)
    refine (Build.tight_binary (.punctuation .plus) (ht.weaken (by decide)) (hone.weaken (by decide))).bind
      (fun _ hb => .andThen (fun _ => .pure (hb.weaken (by decide))))

theorem tight_reverseMap : (reverseMap t).Gives (Node.Tight tightest) :=
  Build.tight_nameExpression.bind (fun _ hn => Build.tight_memberPath _ hn)

theorem tight_enumRecord {enumName memberName : Token} (h : n.Tight 1) :
    (enumRecord enumName memberName n).Gives (Node.Tight tightest) :=
  Build.tight_nameExpression.bind (fun _ hn => (tight_memberTarget hn).bind (fun _ ht =>
    tight_reverseMap.bind (fun _ hr => (Build.tight_assignment ht h).bind (fun _ ha =>
      (Build.tight_elementAccess hr ha).bind (fun _ he => (Build.tight_stringLiteral _).bind (fun _ hs =>
        tight_assignmentStatement he (hs.weaken (by decide))))))))

theorem tight_reverseMapStart : (reverseMapStart t).Gives (Node.Tight tightest) :=
  tight_reverseMap.bind (fun _ hr => Build.tight_emptyArray.bind (fun _ ha =>
    tight_assignmentStatement hr (ha.weaken (by decide))))

theorem tight_reopened : (reopened t).Gives (Node.Tight 1) :=
  Build.tight_nameExpression.bind (fun _ hn => Build.tight_nameExpression.bind (fun _ hm => tight_orCreate hn hm))

theorem tight_isUndefined : (isUndefined t).Gives (Node.Tight 0) :=
  Build.tight_nameExpression.bind (fun _ hn => (Build.tight_prefixUnary _ hn).bind (fun _ hp =>
    (Build.tight_stringLiteral _).bind (fun _ hs => (Build.tight_binary (.punctuation .equalsEqualsEquals)
      (hp.weaken (by decide)) (hs.weaken (by decide))).mono (fun _ hb => hb.loose))))

theorem tight_copyArgument (rest : RestParameter) : (copyArgument rest).Gives (Node.Tight tightest) := by
  have hcounter : argumentCounter.Gives (Node.Tight tightest) := Build.tight_name _
  have hrest : ∀ target : Node, target.Tight 0 → Fresh.Gives (do
      let left ← Build.elementAccess (← Build.nameExpression rest.name) target
      let right ← Build.elementAccess (← Build.name "arguments".toList) (← argumentCounter)
      Build.expressionStatement (← Build.assignment left right)) (Node.Tight tightest) := by
    intro target ht
    refine Build.tight_nameExpression.bind (fun _ hn => (Build.tight_elementAccess hn ht).bind (fun _ hleft => ?_))
    refine (Build.tight_name _).bind (fun _ ha => hcounter.bind (fun _ hc => ?_))
    exact (Build.tight_elementAccess ha hc).bind (fun _ hright =>
      (Build.tight_assignment hleft (hright.weaken (by decide))).bind (fun _ h => Build.tight_expressionStatement h))
  unfold copyArgument
  dsimp only
  split
  · exact hcounter.bind (fun _ h => hrest _ h.loose)
  · exact hcounter.bind (fun _ hn => (Build.tight_numericLiteral _).bind (fun _ hm =>
      (Build.tight_binary (.punctuation .minus) (hn.weaken (by decide)) (hm.weaken (by decide))).bind
        (fun _ hb => hrest _ hb.loose)))

theorem tight_argumentLoop (index : Nat) (h : n.Tight least) : (argumentLoop index n).Gives (Node.Tight tightest) := by
  have hcounter : argumentCounter.Gives (Node.Tight tightest) := Build.tight_name _
  refine (Build.tight_numericLiteral _).bind (fun _ hfirst => .andThen (fun _ => ?_))
  refine (Build.tight_variableDeclaration (fun _ hv => Option.some.inj hv ▸ hfirst.weaken (by decide))).bind
    (fun _ hd => (Build.tight_name _).bind (fun _ ha => (Build.tight_memberPath _ ha).bind (fun _ hcount => ?_)))
  refine hcounter.bind (fun _ hc => (Build.tight_binary (.punctuation .lessThan) (hc.weaken (by decide))
    (hcount.weaken (by decide))).bind (fun _ hcondition => hcounter.bind (fun _ hc => ?_)))
  refine (Build.tight_postfixUnary _ hc).bind (fun _ hstep => .andThen (fun _ => .andThen (fun _ => .andThen (fun _ =>
    .andThen (fun _ => .andThen (fun _ => ?_))))))
  exact tight_fresh (.cons Slot.tight_token <| .cons Slot.tight_token <| .cons hd.slot <| .cons Slot.tight_absent <|
    .cons Slot.tight_token <| .cons hcondition.slot <| .cons Slot.tight_token <| .cons hstep.slot <|
    .cons Slot.tight_token <| .cons h.loose.slot .nil) rfl

theorem tight_callMember (h : n.Tight tightest) : (callMember n).Gives (Node.Tight tightest) :=
  .andThen (fun _ => Build.tight_memberAccess h)

theorem tight_forwardToBase : forwardToBase.Gives (Node.Tight tightest) := by
  refine (Build.tight_name _).bind (fun _ hn => (Build.tight_memberPath _ hn).bind (fun _ ha => ?_))
  refine Build.tight_thisExpression.bind (fun _ ht => (Build.tight_name _).bind (fun _ hm => ?_))
  refine (Build.tight_invocation ha ?_).bind (fun _ hc => Build.tight_expressionStatement hc)
  simp only [List.forall_mem_cons]
  exact ⟨ht.weaken (by decide), hm.weaken (by decide), fun _ hnil => by cases hnil⟩

theorem tight_extendsCall : (extendsCall t).Gives (Node.Tight tightest) := by
  refine (Build.tight_name _).bind (fun _ hn => Build.tight_nameExpression.bind (fun _ hm => ?_))
  refine (Build.tight_name _).bind (fun _ hb => (Build.tight_invocation hn ?_).bind (fun _ hc => ?_))
  · simp only [List.forall_mem_cons]
    exact ⟨hm.weaken (by decide), hb.weaken (by decide), fun _ hnil => by cases hnil⟩
  · exact Build.tight_expressionStatement hc

theorem tight_classReceiver (isStatic : Bool) : (classReceiver t isStatic).Gives (Node.Tight tightest) := by
  refine Build.tight_nameExpression.bind (fun _ hn => ?_)
  cases isStatic with
  | true => exact .pure hn
  | false => exact .andThen (fun _ => Build.tight_memberAccess hn)

theorem tight_attachName {inner : Token} : (attachName inner t).Gives (Node.Tight tightest) :=
  Build.tight_nameExpression.bind (fun _ hn => tight_assignSameName hn)

theorem tight_wrapperArgument (parent : Option Token) : (wrapperArgument t parent).Gives (Node.Tight 1) := by
  have hmember : ∀ parent name : Token, (memberOf parent name).Gives (Node.Tight tightest) := fun _ _ =>
    Build.tight_nameExpression.bind (fun _ hn => Build.tight_memberAccess hn)
  cases parent with
  | none =>
    exact Build.tight_nameExpression.bind (fun _ hn => Build.tight_nameExpression.bind (fun _ hm => tight_orCreate hn hm))
  | some parent =>
    refine Build.tight_nameExpression.bind (fun _ hn => (hmember _ _).bind (fun _ ht => (hmember _ _).bind (fun _ ha => ?_)))
    exact (tight_orCreate ht ha).bind (fun _ ho => Build.tight_assignment hn ho)

end LoweringContext

namespace Draft

variable {n : Node} {ns : List Node} {t : Token} {least : Nat}

theorem tight_functionExpression {parameters block : Node} (hp : parameters.Tight least) (hb : block.Tight least) :
    (functionExpression parameters block).Gives (Node.Tight tightest) :=
  .andThen (fun _ => (Build.tight_callSignature hp).bind (fun _ hs => tight_fresh (.cons Slot.tight_token <|
    .cons Slot.tight_absent <| .cons hs.slot <| .cons hb.loose.slot .nil) rfl))

theorem tight_functionDeclaration {parameters block : Node} (hp : parameters.Tight least) (hb : block.Tight least) :
    (functionDeclaration t parameters block).Gives (Node.Tight tightest) :=
  .andThen (fun _ => (Build.tight_callSignature hp).bind (fun _ hs => tight_fresh (.cons Slot.tight_absent <|
    .cons Slot.tight_absent <| .cons Slot.tight_token <| .cons Slot.tight_token <| .cons hs.slot <|
    .cons hb.loose.slot <| .cons Slot.tight_absent .nil) rfl))

theorem tight_braced (h : ∀ m ∈ ns, m.Tight least) : (braced ns).Gives (Node.Tight tightest) :=
  .andThen (fun _ => .andThen (fun _ => Build.tight_block (fun m hm => (h m hm).loose)))

/-- The call of a function around a body has arguments without commas. -/
theorem tight_wrapperCall {parameters arguments : List Node} {block : Node} (hp : ∀ m ∈ parameters, m.Tight least)
    (hb : block.Tight tightest) (ha : ∀ m ∈ arguments, m.Tight 1) :
    (wrapperCall parameters block arguments).Gives (Node.Tight tightest) :=
  (Build.tight_parameterList hp).bind (fun _ hl => (tight_functionExpression hl hb).bind (fun _ hf =>
    (Build.tight_parenthesized hf).bind (fun _ hc => Build.tight_invocation hc ha)))

theorem tight_captureStatement : captureStatement.Gives (Node.Tight tightest) :=
  .andThen (fun _ => Build.tight_thisExpression.bind (fun _ ht =>
    Build.tight_variableStatement (fun _ hv => Option.some.inj hv ▸ ht.weaken (by decide))))

theorem tight_withCapture (captured : Bool) (h : ∀ m ∈ ns, m.Tight 0) :
    (withCapture captured ns).Gives (fun ms => ∀ m ∈ ms, m.Tight 0) := by
  cases captured with
  | true => exact tight_captureStatement.bind (fun _ hc => .pure (List.forall_mem_cons.2 ⟨hc.loose, h⟩))
  | false => exact .pure h

theorem tight_assembleBlock {prologue : List Node} (hn : n.Tight least) (h : ∀ m ∈ prologue, m.Tight 0) :
    (assembleBlock n prologue).Gives (Node.Tight 0) := by
  refine .ite (.pure hn.loose) (.viewTight hn (fun v hv => .make ((Build.tight_block (fun m hm => ?_)) 0).loose))
  simp only [NodeView.toSlots, List.forall_mem_cons] at hv
  rcases List.mem_append.1 hm with hm | hm
  · exact h m hm
  · exact hv.2.1 m hm

theorem tight_setDefault (h : n.Tight 1) : (setDefault t n).Gives (Node.Tight tightest) := by
  refine LoweringContext.tight_isUndefined.bind (fun _ hc => Build.tight_nameExpression.bind (fun _ hn => ?_))
  refine (Build.tight_assignment hn h).bind (fun _ ha => (Build.tight_expressionStatement ha).bind (fun _ hs => ?_))
  refine .andThen (fun _ => .andThen (fun _ => (Build.tight_block ?_).bind (fun _ hb => Build.tight_ifStatement hc hb)))
  exact List.forall_mem_singleton.2 hs.loose

theorem tight_restStatements (rest : RestParameter) : (restStatements rest).Gives (fun ms => ∀ m ∈ ms, m.Tight 0) := by
  refine Build.tight_emptyArray.bind (fun _ ha => ?_)
  refine (Build.tight_variableStatement (fun _ hv => Option.some.inj hv ▸ ha.weaken (by decide))).bind (fun _ hd => ?_)
  refine (LoweringContext.tight_copyArgument rest).bind (fun _ hc =>
    (tight_braced (List.forall_mem_singleton.2 hc)).bind (fun _ hb => ?_))
  refine (LoweringContext.tight_argumentLoop _ hb).bind (fun _ hl => .pure ?_)
  exact List.forall_mem_cons.2 ⟨hd.loose, List.forall_mem_singleton.2 hl.loose⟩

theorem tight_superPrototype : superPrototype.Gives (Node.Tight tightest) :=
  (Build.tight_name _).bind (fun _ hn => .andThen (fun _ => Build.tight_memberAccess hn))

theorem tight_superCallee? (callee : Node) : (superCallee? callee).Gives (fun o => ∀ m ∈ o, m.Tight tightest) := by
  unfold superCallee?
  split
  · exact (Build.tight_name _).bind (fun _ hn => (LoweringContext.tight_callMember hn).bind (fun _ hc =>
      .pure (fun _ hm => Option.some.inj hm ▸ hc)))
  · split
    · exact tight_superPrototype.bind (fun _ hp => (Build.tight_memberAccess hp).bind (fun _ ha =>
        (LoweringContext.tight_callMember ha).bind (fun _ hc => .pure (fun _ hm => Option.some.inj hm ▸ hc))))
    · exact .pure (fun _ hm => by cases hm)
  · exact .pure (fun _ hm => by cases hm)

theorem tight_namespaceWrapper (parent : Option Token) (h : n.Tight tightest) :
    (namespaceWrapper t parent n).Gives (fun ms => ∀ m ∈ ms, m.Tight tightest) := by
  refine (Build.tight_variableStatement (fun _ hv => by cases hv)).bind (fun _ hd => ?_)
  refine Build.tight_parameter.bind (fun _ hp => (LoweringContext.tight_wrapperArgument parent).bind (fun _ ha => ?_))
  refine (tight_wrapperCall (List.forall_mem_singleton.2 hp) h (List.forall_mem_singleton.2 ha)).bind (fun _ hc => ?_)
  refine (Build.tight_expressionStatement hc).bind (fun _ hs => ?_)
  cases parent with
  | none => exact .pure (List.forall_mem_cons.2 ⟨hd, List.forall_mem_singleton.2 hs⟩)
  | some parent =>
    exact LoweringContext.tight_attachName.bind (fun _ hn => .pure (List.forall_mem_cons.2 ⟨hd,
      List.forall_mem_cons.2 ⟨hs, List.forall_mem_singleton.2 hn⟩⟩))

/-- A namespace with a name is wrapped in statements of its own. -/
theorem tight_wrapLevels : ∀ (part : Token) (parts : List Token) (parent : Option Token) {ns : List Node},
    (∀ m ∈ ns, m.Tight 0) → (wrapLevels ns parent (part :: parts)).Gives (fun ms => ∀ m ∈ ms, m.Tight tightest)
  | _, [], _, _, h => (tight_braced h).bind (fun _ hb => tight_namespaceWrapper _ hb)
  | part, part' :: parts, _, _, h => (tight_wrapLevels part' parts (some part) h).bind (fun _ hms =>
      (tight_braced hms).bind (fun _ hb => tight_namespaceWrapper _ hb))

end Draft

end Downlevel
