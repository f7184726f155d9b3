import Downlevel.Proofs.Lowering.Reach
import Downlevel.Proofs.Tree.Builds
/-!
# Proofs.Lowering.Context — what rules do with the parts of a node

A rule is given nodes of the tree that is lowered (`Node.Given`) and makes plain ones.  It may lower parts, which looks
one level less down (`LoweringContext.Sound`); whatever else it does cannot fail, and a part that is lowered fails
(`IsRefusal`) only if it is not intact.
-/
namespace Downlevel

/-- The form of a node that is given: no other node below is the same object. -/
structure GivenForm (n : Node) : Prop where
  apart : ∀ m ∈ n.all, m.id = n.id → m = n

/-- A node of the tree that is lowered. -/
abbrev Node.Given := Node.Stands GivenForm

/-- The ways in which lowering fails: a slot that must hold a node loses it, a tree has too many levels, or a name has
too many parts. -/
inductive IsRefusal : LoweringError → Prop
  | removal (parent : NodeKind) (slot : Nat) : IsRefusal (.ofSlotError (.requiredSlotRemoved parent slot))
  | depth (n : Node) : IsRefusal (.onTree .tooDeep n)
  | name (n : Node) : IsRefusal (.onTree .tooManyNameParts n)

/-- In the context nodes are lowered as the treatment says, exactly those that are intact for so many levels. -/
structure LoweringContext.Sound (c : LoweringContext) (L : Demand) (levels : Nat) : Prop where
  suits : L.Suits c.layout
  treats : c.transformer.Treats .lowering (Node.Intact levels) IsRefusal GivenForm L

/-- A node of the class stays one node, which may be another one. -/
def NodeClass.staysOne (c : NodeClass) : Bool := c.isSettled && !c.mayLeaveNothing && !c.maySpread

section Steps

variable {α β : Type} {E : LoweringError → Prop} {C D : Prop} {P : Nat → α → Prop} {Q : Nat → β → Prop} {i k : Nat}
  {L : Demand} {o : LayoutOptions} {n : Node} {cl : NodeClass} {t : Token}

namespace Lowering

theorem view_eq [NodeView α] {v : α} (h : n.view? α = some v) : Lowering.view α n = pure v := by
  unfold Lowering.view
  rw [h]

theorem viewOption_eq [NodeView α] {o : Option Node} (h : ∀ n, o = some n → ∃ v, n.view? α = some v) :
    Lowering.viewOption α o = pure (o.bind (·.view? α)) := by
  cases o with
  | none => rfl
  | some n =>
    obtain ⟨v, hv⟩ := h n rfl
    show some <$> Lowering.view α n = _
    rw [view_eq hv, map_pure, Option.bind_some, hv]

end Lowering

namespace Ends

theorem ofTransformed {part : Fresh (Except SlotError α)} (h : Makes k part (fun j r => ∃ a, r = .ok a ∧ P j a)) :
    Ends E k (Lowering.ofTransformed part) True P := by
  intro s hs
  obtain ⟨hle, a, hr, ha⟩ := h s.next hs
  have hlift : (liftM part : Lowering _) s = .ok (.ok a) { s with next := (part s.next).2 } :=
    (show _ = EStateM.Result.ok (part s.next).1 _ from rfl).trans (by rw [hr])
  unfold Lowering.ofTransformed
  rw [Work.bind_of_ok hlift]
  exact ⟨trivial, hle, ha⟩

theorem inScope {part : Lowering α} (h : Ends E k part C P) :
    Ends E k (Lowering.inScope part) C (fun j p => P j p.1) := by
  intro s hs
  have hpart := h { s with own := { s.own with scopes := ⟨0, false⟩ :: s.own.scopes } } hs
  unfold Lowering.inScope
  dsimp only
  cases hrun : part { s with own := { s.own with scopes := ⟨0, false⟩ :: s.own.scopes } } with
  | error e s' => rw [hrun] at hpart; exact hpart
  | ok a s' => rw [hrun] at hpart; exact hpart

theorem inArrow {part : Lowering α} (h : Ends E k part C P) : Ends E k (Lowering.inArrow part) C P :=
  .modifyOwn (h.andThen _)

theorem atLine {part : Lowering α} (line column : Nat) (h : Ends E k part C P) :
    Ends E k (Lowering.atLine line column part) C P := .modifyOwn (h.andThen _)

/-- A reference to `this` is a new expression. -/
theorem thisReference (hL : L.Suits o) (ht : t.Meets L k) :
    Ends E k (Lowering.thisReference t) True (fun j n => n.Plain L .expression j ∧ k ≤ n.id) := by
  have harrow : Ends E k Lowering.isInArrow True (fun _ _ => True) := .own (fun s => .pure (fun _ _ => trivial))
  refine harrow.sureThen (fun j hj inArrow _ => ?_)
  split
  · refine .modifyOwn (.make (Build.makes_identifier hL (by decide)) (fun j' hj' name hname => ?_))
    refine .make (makes_tokenWithTrivia hname ht.leading ht.trailing) (fun j'' hj'' name' hname' => ?_)
    exact .lift ((Build.makes_nameExpression hname' (by omega)).and (makes_new.mono (fun _ _ _ h => by omega)))
  · exact .lift ((makes_node (.cons (ht.slot (by omega)) .nil) (fun _ => rfl) rfl).and
      (makes_new.mono (fun _ _ _ h => by omega)))

end Ends

end Steps

namespace LoweringContext

variable {c : LoweringContext} {L : Demand} {i k levels : Nat} {cl : NodeClass} {n : Node}

/-! ## Trivia and lines -/

/-- **A tree that is moved stands where it stood.** -/
theorem ends_reindent (hL : L.Suits c.layout) (h : n.Plain L cl i) (first : Bool) (delta : Int)
    (hi : i ≤ k) :
    Ends IsRefusal k (c.reindent n first delta) True (fun j m => m.Plain L cl j ∧ m.Renews k n) :=
  .ofTransformed (makes_reindented hL rfl h first (by omega))

theorem makes_statementAt (hL : L.Suits c.layout) (column : Nat) (h : n.Plain L cl i) (hi : i ≤ k) :
    Makes k (c.statementAt column n) (fun j m => m.Plain L cl j) :=
  makes_withTrivia h (hL.indentation column) hL.lineBreak (by omega)

theorem makes_placeStatement (hL : L.Suits c.layout) (column : Nat) (h : n.Plain L cl i) (hi : i ≤ k) :
    Makes k (c.placeStatement column n) (fun j m => m.Plain L cl j) :=
  makes_withTrivia h (hL.relocated h.leading column) (hL.endingLine h.trailing) (by omega)

theorem makes_placeStatements (hL : L.Suits c.layout) (column : Nat) {ns : List Node} (h : ∀ n ∈ ns, n.Plain L cl i)
    (hi : i ≤ k) :
    Makes k (c.placeStatements column ns) (fun j ms => ∀ m ∈ ms, m.Plain L cl j) :=
  .mapM Node.Stands.lasts (fun n hn j hj => makes_placeStatement hL column (h n hn) (by omega))

theorem makes_captureStatement (hL : L.Suits c.layout) (column : Nat) :
    Makes k (c.captureStatement column) (fun j m => m.Plain L .statement j) := by
  refine (Build.makes_identifier hL (by decide)).bind (fun j hj name hname => ?_)
  refine (Build.makes_thisExpression hL).bind (fun j' hj' this hthis => ?_)
  have hvalue : ∀ m, some this = some m → m.Plain L .expression j' := fun m hm => by cases hm; exact hthis
  exact (Build.makes_variableStatement hL hname hvalue (by omega) (by omega)).bind (fun j'' hj'' statement hs =>
    makes_statementAt hL column hs (by omega))

theorem makes_relocateFirst (hL : L.Suits c.layout) (column : Nat) : ∀ {ns : List Node},
    (∀ n ∈ ns, n.Plain L cl k) → Makes k (c.relocateFirst column ns) (fun j ms => ∀ m ∈ ms, m.Plain L cl j)
  | [], _ => .pure (fun _ _ m hm => by cases hm)
  | n :: ns, h => by
    have hn : n.Plain L cl k := h n (List.mem_cons_self ..)
    refine (makes_withLeading hn (hL.relocated hn.leading column) (by omega)).bindPure (fun j hj m hm => ?_)
    exact List.forall_mem_cons.2 ⟨hm, fun m' hm' => (h m' (List.mem_cons_of_mem _ hm')).up (by omega)⟩

theorem makes_endLastLine (hL : L.Suits c.layout) : ∀ {ns : List Node} {k : Nat}, (∀ n ∈ ns, n.Plain L cl k) →
    Makes k (c.endLastLine ns) (fun j ms => ∀ m ∈ ms, m.Plain L cl j)
  | [], _, _ => .pure (fun _ _ m hm => by cases hm)
  | [n], k, h => by
    have hn : n.Plain L cl k := h n (List.mem_singleton.2 rfl)
    refine (makes_withTrailing hn (hL.endingLine hn.trailing) (by omega)).bindPure (fun j hj m hm m' hm' => ?_)
    exact List.mem_singleton.1 hm' ▸ hm
  | n :: n' :: ns, k, h => by
    have hn : n.Plain L cl k := h n (List.mem_cons_self ..)
    refine (makes_endLastLine hL (fun m hm => h m (List.mem_cons_of_mem _ hm))).bindPure (fun j hj ms hms => ?_)
    exact List.forall_mem_cons.2 ⟨hn.up (by omega), hms⟩

theorem closingBraceLeading_meets (hL : L.Suits c.layout) {t : Token} (ht : t.leading.Meets L) (column : Nat)
    (shift : Int) : (c.closingBraceLeading t column shift).Meets L := by
  unfold closingBraceLeading
  split
  · exact hL.shifted ht shift
  · exact hL.indentation column

/-- **A block with statements at its top is a block.** -/
theorem ends_assembleBlock (hL : L.Suits c.layout) {block : Node} {prologue : List Node} (bodyColumn closeColumn : Nat)
    (hblock : block.Plain L (.only .block) k) (hprologue : ∀ n ∈ prologue, n.Plain L .statement k) :
    Ends IsRefusal k (c.assembleBlock block prologue bodyColumn closeColumn) True
      (fun j m => m.Plain L (.only .block) j ∧ m.Renews k block) := by
  obtain ⟨v, hv, -, hopen, hstatements, hclose⟩ := hblock.block hblock.kind_eq
  unfold assembleBlock
  split
  · exact .pure (fun j hj => ⟨hblock.up (by omega), .inl rfl⟩)
  · rw [Lowering.view_eq hv, pure_bind]
    refine .make (makes_placeStatements hL bodyColumn hprologue (by omega)) (fun i₁ h₁ placed hplaced => ?_)
    refine .make (makes_relocateFirst hL bodyColumn (fun n hn => (hstatements n hn).up (by omega)))
      (fun i₂ h₂ rest hrest => ?_)
    have hall : ∀ n ∈ placed ++ rest, n.Plain L .statement i₂ := fun n hn => by
      rcases List.mem_append.1 hn with hn | hn
      · exact (hplaced n hn).up (by omega)
      · exact hrest n hn
    refine .make (makes_endLastLine hL hall) (fun i₃ h₃ statements hs => ?_)
    refine .make (makes_tokenWithTrailing hopen (hL.endingLine hopen.trailing)) (fun i₄ h₄ openBrace ho => ?_)
    refine .make (makes_tokenWithLeading hclose (closingBraceLeading_meets hL hclose.leading _ _))
      (fun i₅ h₅ closeBrace hc => ?_)
    exact .lift (((Build.makes_block ho hs hc (by omega) (by omega) (by omega)).and makes_new).mono
      (fun _ _ m hm => ⟨hm.1, .inr (by omega)⟩))

/-! ## Lowering parts -/

namespace Sound

/-- What a part becomes is a node that stands in it, or a new one. -/
theorem lowerBack (h : c.Sound L levels) (hn : n.Given L cl k) (hc : cl.staysOne = true) :
    Ends IsRefusal k (c.lower n) (n.Intact levels) (fun j m => m.Plain L cl j ∧ (m ∈ n.all ∨ k ≤ m.id)) := by
  simp only [NodeClass.staysOne, Bool.and_eq_true, Bool.not_eq_true'] at hc
  obtain ⟨⟨hsettled, hstays⟩, hone⟩ := hc
  have hroot := h.treats.root hn (NodeClass.leavesNothing_eq_false hstays hn.kind)
    (NodeClass.isSpread_eq_false hone hn.kind)
  exact hroot.mono (fun j hj m hm =>
    ⟨⟨NodeClass.includes_of_becomes hsettled hn.kind hm.2.1, hm.1⟩, hm.2.2⟩)

/-- **A part that stays one node is lowered if it is intact.** -/
theorem lower (h : c.Sound L levels) (hn : n.Given L cl k) (hc : cl.staysOne = true) :
    Ends IsRefusal k (c.lower n) (n.Intact levels) (fun j m => m.Plain L cl j) :=
  (h.lowerBack hn hc).mono (fun _ _ _ hm => hm.1)

theorem lowerAtLine (h : c.Sound L levels) (column : Nat) (hn : n.Given L cl k)
    (hc : cl.staysOne = true) :
    Ends IsRefusal k (c.lowerAtLine n column) (n.Intact levels) (fun j m => m.Plain L cl j) := by
  unfold LoweringContext.lowerAtLine
  split
  · exact .atLine _ _ (h.lower hn hc)
  · exact h.lower hn hc

/-- **A node is walked if its parts are intact and none that must stay is dropped.** -/
theorem walk (h : c.Sound L levels) (hn : n.Given L cl k) :
    Ends IsRefusal k (c.walk n) ((∀ m ∈ n.children, m.Intact levels) ∧ ∀ m ∈ n.required, m.leavesNothing = false)
      (fun j n' => n.WalkedTo .lowering L k j n') :=
  h.treats.walk Treatment.lowering_steady hn

end Sound

end LoweringContext

/-! ## What takes the place of a node -/

/-- The rule of a node ends well if the node is intact, with what the treatment says. -/
abbrev LowersTo (L : Demand) (k levels : Nat) (n : Node) (w : Lowering Replacement) : Prop :=
  Ends IsRefusal k w (n.Intact levels) (fun j r => r.Suits .lowering L k n j)

namespace Replacement.Suits

variable {L : Demand} {k j : Nat} {n m : Node} {r : Replacement}

theorem ofRemoved (h : n.leavesNothing = true) : Replacement.Suits .lowering L k n j .removed where
  back := fun _ hr => by cases hr
  removed := fun _ => rfl
  spread := fun hstays => by rw [show Treatment.lowering.removes n = true from h] at hstays; cases hstays
  one := fun hstays => by rw [show Treatment.lowering.removes n = true from h] at hstays; cases hstays

theorem ofOne (hstays : n.leavesNothing = false) (hone : n.kind.isSpread = false) (hm : m.Sound PlainForm L j)
    (hkind : n.kind.Becomes m.kind) (hback : m ∈ n.all ∨ k ≤ m.id) :
    Replacement.Suits .lowering L k n j (.one m) where
  back := fun _ hr => by cases hr; exact hback
  removed := fun hremoves => by rw [show Treatment.lowering.removes n = false from hstays] at hremoves; cases hremoves
  spread := fun _ hspreads => by rw [show Treatment.lowering.spreads n.kind = false from hone] at hspreads; cases hspreads
  one := fun _ _ => ⟨m, rfl, hm, hkind⟩

theorem ofSpread (hspread : n.kind.isSpread = true) (hstays : n.leavesNothing = false)
    (h : ∀ m ∈ r.nodes, m.Plain L .statement j) (hnew : ∀ m, r = .one m → k ≤ m.id) :
    Replacement.Suits .lowering L k n j r where
  back := fun m hr => .inr (hnew m hr)
  removed := fun hremoves => by rw [show Treatment.lowering.removes n = false from hstays] at hremoves; cases hremoves
  spread := fun _ _ => h
  one := fun _ hone => by rw [show Treatment.lowering.spreads n.kind = true from hspread] at hone; cases hone

/-- The node stays what it is. -/
theorem ofSame (hstays : n.leavesNothing = false) (hone : n.kind.isSpread = false) (hn : n.Sound PlainForm L j) :
    Replacement.Suits .lowering L k n j (.one n) := .ofOne hstays hone hn (.refl _) (.inl n.mem_all_self)

/-- A walk made the node. -/
theorem ofWalked (hstays : n.leavesNothing = false) (hone : n.kind.isSpread = false)
    (hm : n.WalkedTo .lowering L k j m) (hform : PlainForm m) : Replacement.Suits .lowering L k n j (.one m) := by
  refine .ofOne hstays hone (hm.plain hform).sound (.inl hm.kind) ?_
  rcases hm.renews with rfl | hnew
  · exact .inl m.mem_all_self
  · exact .inr hnew

end Replacement.Suits

/-- A rule ends with a new node. -/
theorem ends_one {L : Demand} {i k : Nat} {n : Node} {make : Fresh Node} {d : NodeClass}
    (hstays : n.leavesNothing = false) (hone : n.kind.isSpread = false) (h : Makes i make (fun j m => m.Plain L d j))
    (hnew : Makes i make (fun _ m => i ≤ m.id)) (hkind : ∀ kind, d.includes kind = true → n.kind.Becomes kind)
    (hi : k ≤ i) :
    Ends IsRefusal i (do return .one (← make) : Lowering Replacement) True
      (fun j r => r.Suits .lowering L k n j) :=
  .make (h.and hnew) (fun j hj m hm => .pure (fun l hl =>
    .ofOne hstays hone (hm.1.sound.up (by omega)) (hkind _ hm.1.kind) (.inr (Nat.le_trans hi hm.2))))

/-- A node that is walked is intact if its children are and none that must stay is dropped. -/
theorem Node.intact_of_children {n : Node} {levels : Nat} (h : n.loweredParts = n.children)
    (hname : n.kind ≠ .moduleDeclaration) :
    (∀ m ∈ n.children, m.Intact levels) ∧ (∀ m ∈ n.required, m.leavesNothing = false) ↔ n.Intact (levels + 1) := by
  rw [Node.Intact, h, and_iff_left (Node.nameFits_of_kind hname), and_comm]

theorem Node.partsAs_eq {α : Type} [NodeView α] {n : Node} {v : α} (h : n.view? α = some v) (parts : α → List Node) :
    n.partsAs α parts = parts v := by
  unfold Node.partsAs
  rw [h]
  rfl

theorem Node.mem_partsAs {α : Type} [NodeView α] {n p : Node} {parts : α → List Node} :
    p ∈ n.partsAs α parts ↔ ∃ v, n.view? α = some v ∧ p ∈ parts v := by
  unfold Node.partsAs
  cases n.view? α with
  | none => simp
  | some v => simp

end Downlevel
