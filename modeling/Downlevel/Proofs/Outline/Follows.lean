import Downlevel.Proofs.Outline.Builds
import Downlevel.Proofs.Outline.Gives
import Downlevel.Proofs.Tree.Runs
/-!
# Proofs.Outline.Follows — a computation follows its draft

`Follows W w d R` says that the computation `w` and the draft `d` fail together or end well together: then the objects
that `w` made can be registered, its value is related to that of the draft, and the state is what it was but for what
the draft notes.  Columns, lines and trivia are no part of a draft; what only lays out is a step of `w` alone
(`Follows.lay`).
-/
namespace Downlevel

/-! ## What a run notes -/

/-- The state with what a draft notes. -/
def LoweringState.marked (m : Marks) (s : LoweringState) : LoweringState :=
  { s.mapScope (fun scope => { scope with captured := scope.captured || m.captured }) with
    derived := s.derived || m.derived }

namespace LoweringState

variable {s : LoweringState} {scope : ThisScope} {rest : List ThisScope} {m m' : Marks}

theorem scopes_marked (h : s.scopes = scope :: rest) :
    (s.marked m).scopes = { scope with captured := scope.captured || m.captured } :: rest := by
  simp [marked, mapScope, h]

theorem marked_none (s : LoweringState) : s.marked .none = s := by
  obtain ⟨scopes, layouts, derived⟩ := s
  cases scopes <;> simp [marked, mapScope, Marks.none]

theorem marked_marked (s : LoweringState) (m m' : Marks) : (s.marked m).marked m' = s.marked (m.and m') := by
  obtain ⟨scopes, layouts, derived⟩ := s
  cases scopes <;> simp [marked, mapScope, Marks.and, Bool.or_assoc]

end LoweringState

/-! ## Runs and drafts -/

variable {α β γ δ : Type}

/-- How a run that was started from a registry and a state ends, and what its draft says. -/
inductive FollowsTo (W : Registry) (own : LoweringState) (R : Registry → α → β → Prop) :
    EStateM.Result LoweringError (Supplied LoweringState) α → Option (β × Marks) → Prop
  | ok {W' : Registry} {a : α} {b : β} {m : Marks} {s : Supplied LoweringState} (le : W ≤ W')
      (next : s.next = W'.next) (related : R W' a b) (marks : s.own = own.marked m) :
      FollowsTo W own R (.ok a s) (some (b, m))
  | error {e : LoweringError} {s : Supplied LoweringState} : FollowsTo W own R (.error e s) none

/-- Started in some scope, the computation ends as its draft says. -/
def Follows (W : Registry) (w : Lowering α) (d : Draft β) (R : Registry → α → β → Prop) : Prop :=
  ∀ own scope rest, own.scopes = scope :: rest →
    FollowsTo W own R (w ⟨W.next, own⟩) (d (decide (0 < scope.arrowDepth)))

/-- What a part that looks at no scope around it ends as: the scopes are as they were. -/
inductive AloneTo (W : Registry) (own : LoweringState) (R : Registry → α → β → Prop) :
    EStateM.Result LoweringError (Supplied LoweringState) α → Option (β × Marks) → Prop
  | ok {W' : Registry} {a : α} {b : β} {derived : Bool} {s : Supplied LoweringState} (le : W ≤ W')
      (next : s.next = W'.next) (related : R W' a b)
      (state : s.own = { own with derived := own.derived || derived }) :
      AloneTo W own R (.ok a s) (some (b, ⟨false, derived⟩))
  | error {e : LoweringError} {s : Supplied LoweringState} : AloneTo W own R (.error e s) none

/-- Started in whatever scope, or in none, the part ends as its draft says. -/
def FollowsAlone (W : Registry) (w : Lowering α) (d : Draft β) (R : Registry → α → β → Prop) : Prop :=
  ∀ own inArrow, AloneTo W own R (w ⟨W.next, own⟩) (d inArrow)

theorem FollowsAlone.follows {W : Registry} {R : Registry → α → β → Prop} {w : Lowering α} {d : Draft β}
    (h : FollowsAlone W w d R) : Follows W w d R := by
  intro own scope rest hscopes
  have halone := h own (decide (0 < scope.arrowDepth))
  generalize w ⟨W.next, own⟩ = r at halone
  generalize d (decide (0 < scope.arrowDepth)) = o at halone
  cases halone with
  | error => exact .error
  | ok hle hnext hR hown =>
    refine .ok hle hnext hR ?_
    rw [hown]
    simp [LoweringState.marked, LoweringState.mapScope, hscopes]

namespace Follows

variable {W : Registry} {R R' : Registry → α → β → Prop} {Q : Registry → γ → δ → Prop} {P : Registry → α → Prop}
  {w : Lowering α} {d : Draft β}

theorem pure {a : α} {b : β} (h : R W a b) : Follows W (pure a) (pure b) R := fun own _ _ _ =>
  .ok le_rfl rfl h own.marked_none.symm

theorem fail {e : LoweringError} : Follows W (Work.fail e : Lowering α) (Draft.fail : Draft β) R :=
  fun _ _ _ _ => .error

/-- **Two steps follow the drafts of both.** -/
theorem bind {f : α → Lowering γ} {f' : β → Draft δ} (hw : Follows W w d R)
    (hf : ∀ W', W ≤ W' → ∀ a b, R W' a b → Follows W' (f a) (f' b) Q) : Follows W (w >>= f) (d >>= f') Q := by
  intro own scope rest hscopes
  rw [Draft.bind_apply]
  have hfirst := hw own scope rest hscopes
  generalize hrun : w ⟨W.next, own⟩ = r at hfirst
  generalize d (decide (0 < scope.arrowDepth)) = o at hfirst
  cases hfirst with
  | error =>
    rw [Work.bind_of_error hrun]
    exact .error
  | @ok W₁ a b m s hle hnext hR hown =>
    obtain ⟨next, own₁⟩ := s
    obtain rfl : next = W₁.next := hnext
    rw [Work.bind_of_ok hrun, Option.bind_some]
    have hscopes₁ : own₁.scopes = { scope with captured := scope.captured || m.captured } :: rest := by
      rw [show own₁ = own.marked m from hown, LoweringState.scopes_marked hscopes]
    have hsecond := hf W₁ hle a b hR own₁ _ rest hscopes₁
    change FollowsTo W₁ own₁ Q (f a ⟨W₁.next, own₁⟩) (f' b (decide (0 < scope.arrowDepth))) at hsecond
    generalize f a ⟨W₁.next, own₁⟩ = r' at hsecond
    dsimp only
    generalize f' b (decide (0 < scope.arrowDepth)) = o' at hsecond
    cases hsecond with
    | error => exact .error
    | ok hle' hnext' hQ hown' =>
      refine .ok (hle.trans hle') hnext' hQ ?_
      rw [hown', show own₁ = own.marked m from hown, LoweringState.marked_marked]

theorem mono (hw : Follows W w d R) (h : ∀ W', W ≤ W' → ∀ a b, R W' a b → R' W' a b) : Follows W w d R' := by
  intro own scope rest hscopes
  have hfirst := hw own scope rest hscopes
  generalize w ⟨W.next, own⟩ = r at hfirst
  generalize d (decide (0 < scope.arrowDepth)) = o at hfirst
  cases hfirst with
  | error => exact .error
  | ok hle hnext hR hown => exact .ok hle hnext (h _ hle _ _ hR) hown

/-- What is known of the value of the draft may be used of what follows it. -/
theorem withDraft {P : β → Prop} (hw : Follows W w d R) (h : d.Gives P) :
    Follows W w d (fun W' a b => R W' a b ∧ P b) := by
  intro own scope rest hscopes
  have hfirst := hw own scope rest hscopes
  generalize w ⟨W.next, own⟩ = r at hfirst
  generalize ho : d (decide (0 < scope.arrowDepth)) = o at hfirst
  cases hfirst with
  | error => exact .error
  | ok hle hnext hR hown => exact .ok hle hnext ⟨hR, h _ _ _ ho⟩ hown

/-- A last step that only changes what came out. -/
theorem map {f : α → γ} {f' : β → δ} (hw : Follows W w d R)
    (h : ∀ W', W ≤ W' → ∀ a b, R W' a b → Q W' (f a) (f' b)) :
    Follows W (w >>= fun a => Pure.pure (f a)) (d >>= fun b => Pure.pure (f' b)) Q :=
  hw.bind (fun W' hle a b hR => .pure (h W' hle a b hR))

/-- **Objects are made on both sides.** -/
theorem lift {make : Fresh α} {make' : Fresh β} (h : Draws W make make' R) :
    Follows W (liftM make) (Draft.make make') R := fun own _ _ _ =>
  let ⟨_, hle, hnext, hR⟩ := h 0
  .ok hle hnext hR own.marked_none.symm

theorem make {make : Fresh α} {make' : Fresh β} {f : α → Lowering γ} {f' : β → Draft δ} (h : Draws W make make' R)
    (hf : ∀ W', W ≤ W' → ∀ a b, R W' a b → Follows W' (f a) (f' b) Q) :
    Follows W (liftM make >>= f) (Draft.make make' >>= f') Q := (lift h).bind hf

/-- What is made is laid out at once. -/
theorem layLast {make : Fresh α} {b : β} (h : Records W make (fun W' a => R W' a b)) :
    Follows W (liftM make : Lowering α) (Pure.pure b) R := fun own _ _ _ =>
  let ⟨_, hle, hnext, hP⟩ := h
  .ok hle hnext hP own.marked_none.symm

/-- **What is laid out is no part of the draft.** -/
theorem lay {make : Fresh α} {f : α → Lowering γ} {d : Draft δ} (h : Records W make P)
    (hf : ∀ W', W ≤ W' → ∀ a, P W' a → Follows W' (f a) d Q) : Follows W (liftM make >>= f) d Q := by
  have hlift : Follows W (liftM make : Lowering α) (Pure.pure ()) (fun W' a _ => P W' a) := layLast h
  have hbind : Follows W (liftM make >>= f) (Pure.pure () >>= fun _ => d) Q :=
    hlift.bind (fun W' hle a _ hP => hf W' hle a hP)
  rwa [pure_bind] at hbind

/-- A step that only lays out, though it may look at the state. -/
theorem aside {b : β} {f : α → Lowering γ} {d : Draft δ} (hw : Follows W w (Pure.pure b) R)
    (hf : ∀ W', W ≤ W' → ∀ a, R W' a b → Follows W' (f a) d Q) : Follows W (w >>= f) d Q := by
  have hbind : Follows W (w >>= f) (Pure.pure b >>= fun _ => d) Q :=
    (hw.withDraft (P := fun b' => b' = b) (fun _ _ _ h => by cases h; rfl)).bind
      (fun W' hle a b' hR => hf W' hle a (hR.2 ▸ hR.1))
  rwa [pure_bind] at hbind

/-- What is made on both sides and laid out then. -/
theorem makeThenLay {R : Registry → α → δ → Prop} {Q : Registry → γ → δ → Prop} {make : Fresh α} {make' : Fresh δ}
    {lay : α → Fresh γ} (h : Draws W make make' R)
    (hlay : ∀ W', W ≤ W' → ∀ a b, R W' a b → Records W' (lay a) (fun W'' c => Q W'' c b)) :
    Follows W (liftM make >>= fun a => liftM (lay a) : Lowering γ) (Draft.make make') Q := by
  have hbind : Follows W (liftM make >>= fun a => liftM (lay a) : Lowering γ) (Draft.make make' >>= Pure.pure) Q :=
    Follows.make h (fun W' hle a b hR => .layLast (hlay W' hle a b hR))
  rwa [bind_pure] at hbind

/-- The state of one's own is looked at for the sake of the layout. -/
theorem own {f : LoweringState → Lowering γ} {d : Draft δ} (hf : ∀ x, Follows W (f x) d Q) :
    Follows W (Work.own >>= f) d Q := fun x scope rest hscopes => hf x x scope rest hscopes

theorem view {α : Type} [NodeView α] {n n' : Node} {v v' : α} {f : α → Lowering γ} {f' : α → Draft δ}
    (hv : n.view? α = some v) (hv' : n'.view? α = some v') (hf : Follows W (f v) (f' v') Q) :
    Follows W (Lowering.view α n >>= f) (Draft.view α n' >>= f') Q := by
  unfold Lowering.view Draft.view
  rw [hv, hv', pure_bind, pure_bind]
  exact hf

/-- Lists are lowered member by member. -/
theorem mapM {ε ζ : Type} {S : ε → ζ → Prop} {f : ε → Lowering α} {f' : ζ → Draft β}
    (hR : ∀ W W', W ≤ W' → ∀ a b, R W a b → R W' a b) {as : List ε} {bs : List ζ} (has : List.Forall₂ S as bs)
    (h : ∀ a b, S a b → ∀ W', W ≤ W' → Follows W' (f a) (f' b) R) :
    Follows W (as.mapM f) (bs.mapM f') (fun W' => List.Forall₂ (R W')) := by
  induction has generalizing W with
  | nil =>
    rw [List.mapM_nil, List.mapM_nil]
    exact .pure .nil
  | cons hab _ ih =>
    rw [List.mapM_cons, List.mapM_cons]
    refine (h _ _ hab W le_rfl).bind (fun W₁ h₁ a b hR₁ => ?_)
    refine (ih (fun a b hS W' hle => h a b hS W' (h₁.trans hle))).map (fun W₂ h₂ as bs hRs => ?_)
    exact .cons (hR _ _ h₂ _ _ hR₁) hRs

theorem optionMapM {ε ζ : Type} {S : ε → ζ → Prop} {f : ε → Lowering α} {f' : ζ → Draft β}
    {o : Option ε} {o' : Option ζ} (ho : Option.Rel S o o') (h : ∀ a b, S a b → Follows W (f a) (f' b) R) :
    Follows W (o.mapM f) (o'.mapM f') (fun W' => Option.Rel (R W')) := by
  cases ho with
  | none => exact .pure .none
  | some hab => exact (h _ _ hab).map (fun _ _ _ _ hR => .some hR)

/-- A tree whose lines are moved. -/
theorem ofTransformed {part : Fresh (Except SlotError α)} {b : β}
    (h : Records W part (fun W' r => ∃ a, r = .ok a ∧ R W' a b)) :
    Follows W (Lowering.ofTransformed part) (Pure.pure b) R := by
  unfold Lowering.ofTransformed
  refine .lay h (fun W' _ r hr => ?_)
  obtain ⟨a, rfl, hR⟩ := hr
  exact .pure hR

/-! ## Scopes -/

/-- What came out of a part in a scope of its own, and whether the scope was captured. -/
abbrev InScope (R : Registry → α → β → Prop) : Registry → α × Bool → β × Bool → Prop :=
  fun W p q => R W p.1 q.1 ∧ p.2 = q.2

/-- **A part in a scope of its own follows its draft**, in whatever scope it stands, and in none. -/
theorem inScope_alone (h : Follows W w d R) :
    FollowsAlone W (Lowering.inScope w) (Draft.inScope d) (InScope R) := by
  intro own inArrow
  have hpart := h { own with scopes := ⟨0, false⟩ :: own.scopes } ⟨0, false⟩ own.scopes rfl
  rw [show decide (0 < (⟨0, false⟩ : ThisScope).arrowDepth) = false from rfl] at hpart
  unfold Lowering.inScope Draft.inScope
  dsimp only
  generalize w ⟨W.next, { own with scopes := ⟨0, false⟩ :: own.scopes }⟩ = r at hpart
  generalize d false = o at hpart
  cases hpart with
  | error => exact .error
  | @ok W' a b m s hle hnext hR hown =>
    have hmarked : s.own = ⟨⟨0, m.captured⟩ :: own.scopes, own.lineLayouts, own.derived || m.derived⟩ := by
      rw [hown]
      simp [LoweringState.marked, LoweringState.mapScope]
    refine .ok hle hnext ⟨hR, ?_⟩ ?_
    · rw [hmarked]
      rfl
    · dsimp only
      rw [hmarked]
      rfl

theorem inScope (h : Follows W w d R) : Follows W (Lowering.inScope w) (Draft.inScope d) (InScope R) :=
  (inScope_alone h).follows

/-- A part that changes the state on its way in and takes that back on its way out. -/
theorem within {into outOf : LoweringState → LoweringState} {d' : Draft β}
    (h : Follows W w d R)
    (hinto : ∀ own scope rest, own.scopes = scope :: rest → ∃ scope', (into own).scopes = scope' :: rest ∧
      d' (decide (0 < scope.arrowDepth)) = d (decide (0 < scope'.arrowDepth)) ∧
      ∀ m, outOf ((into own).marked m) = own.marked m) :
    Follows W (do Work.modifyOwn into; w.andThen outOf) d' R := by
  intro own scope rest hscopes
  obtain ⟨scope', hscopes', hd, hout⟩ := hinto own scope rest hscopes
  have hpart := h (into own) scope' rest hscopes'
  have hrun : (do Work.modifyOwn into; w.andThen outOf : Lowering α) ⟨W.next, own⟩ =
      w.andThen outOf ⟨W.next, into own⟩ := rfl
  rw [hrun, hd]
  unfold Work.andThen
  generalize w ⟨W.next, into own⟩ = r at hpart
  generalize d (decide (0 < scope'.arrowDepth)) = o at hpart
  cases hpart with
  | error => exact .error
  | ok hle hnext hR hown => exact .ok hle hnext hR (by rw [← hout, ← hown])

theorem inArrow (h : Follows W w d R) : Follows W (Lowering.inArrow w) (Draft.inArrow d) R :=
  within h (fun own scope rest hscopes => by
    obtain ⟨scopes, layouts, derived⟩ := own
    cases hscopes
    refine ⟨{ scope with arrowDepth := scope.arrowDepth + 1 }, rfl, ?_, fun m => ?_⟩
    · rw [show decide (0 < scope.arrowDepth + 1) = true from decide_eq_true (Nat.succ_pos _)]
      rfl
    · simp [LoweringState.marked, LoweringState.mapScope])

theorem atLine (line column : Nat) (h : Follows W w d R) : Follows W (Lowering.atLine line column w) d R :=
  within h (fun own scope rest hscopes => by
    obtain ⟨scopes, layouts, derived⟩ := own
    cases hscopes
    exact ⟨scope, rfl, rfl, fun m => by simp [LoweringState.marked, LoweringState.mapScope]⟩)

theorem markDerived : Follows W Lowering.markDerived Draft.markDerived (fun _ _ _ => True) := by
  intro own scope rest hscopes
  refine .ok le_rfl rfl trivial ?_
  obtain ⟨scopes, layouts, derived⟩ := own
  cases hscopes
  simp [LoweringState.marked, LoweringState.mapScope]

/-- What a reference to `this` looks like: the name `_this`, or the keyword. -/
theorem draws_captured (t : Token) : Draws W (do
    let name ← Build.identifier "_this".toList
    Build.nameExpression (← name.withTrivia t.leading t.trailing)) (Build.name "_this".toList) Node.Shows :=
  (Build.draws_identifier _).bind (fun _ _ _ _ hname => .left records_tokenWithTrivia (fun _ _ _ hu =>
    Build.draws_nameExpression (hu.trans hname.outline)))

/-- **A reference to `this` looks like the one of the draft**, and the scope is captured as the draft notes. -/
theorem thisReference {t t' : Token} (h : t.Shows W t') :
    Follows W (Lowering.thisReference t) (Draft.thisReference t') (fun W' n n' => n.Shows W' n' ∧
      (n.kind = .thisExpression → n'.outline = .mk 0 .thisExpression [.token t'.outline])) := by
  intro own scope rest hscopes
  have hrun : Lowering.thisReference t ⟨W.next, own⟩ =
      (if own.scopes.head?.any (fun scope => decide (0 < scope.arrowDepth)) then (do
        Work.modifyOwn (LoweringState.mapScope (fun scope => { scope with captured := true }))
        let name ← Build.identifier "_this".toList
        Build.nameExpression (← name.withTrivia t.leading t.trailing) : Lowering Node)
      else NodeView.toNode (ThisExpression.mk t)) ⟨W.next, own⟩ := rfl
  rw [hrun, hscopes]
  unfold Draft.thisReference
  by_cases hdepth : 0 < scope.arrowDepth
  · rw [if_pos (by simpa using hdepth), if_pos (by simpa using hdepth)]
    obtain ⟨W', hle, hnext, hshows⟩ := draws_captured (W := W) t 0
    refine .ok hle hnext ⟨hshows, fun hkind => ?_⟩ ?_
    · cases hkind
    · show LoweringState.mapScope _ own = own.marked ⟨true, false⟩
      simp [LoweringState.marked, LoweringState.mapScope, hscopes]
  · rw [if_neg (by simpa using hdepth), if_neg (by simpa using hdepth)]
    have hdraws : Draws W (NodeView.toNode (ThisExpression.mk t)) (NodeView.toNode (ThisExpression.mk t')) Node.Shows :=
      draws_node (.cons h.slot .nil) rfl
    obtain ⟨W', hle, hnext, hshows⟩ := hdraws 0
    exact .ok hle hnext ⟨hshows, fun _ => Node.outline_mk ..⟩ own.marked_none.symm

end Follows

/-! ## Parts that stand alone -/

namespace FollowsAlone

variable {W : Registry} {R : Registry → α → β → Prop} {Q : Registry → γ → δ → Prop} {w : Lowering α} {d : Draft β}

theorem lift {make : Fresh α} {make' : Fresh β} (h : Draws W make make' R) :
    FollowsAlone W (liftM make) (Draft.make make') R := fun own _ =>
  let ⟨_, hle, hnext, hR⟩ := h 0
  .ok hle hnext hR (by simp)

theorem pure {a : α} {b : β} (h : R W a b) : FollowsAlone W (pure a) (pure b) R := fun own _ =>
  .ok le_rfl rfl h (by simp)

theorem bind {f : α → Lowering γ} {f' : β → Draft δ} (hw : FollowsAlone W w d R)
    (hf : ∀ W', W ≤ W' → ∀ a b, R W' a b → FollowsAlone W' (f a) (f' b) Q) :
    FollowsAlone W (w >>= f) (d >>= f') Q := by
  intro own inArrow
  rw [Draft.bind_apply]
  have hfirst := hw own inArrow
  generalize hrun : w ⟨W.next, own⟩ = r at hfirst
  generalize d inArrow = o at hfirst
  cases hfirst with
  | error =>
    rw [Work.bind_of_error hrun]
    exact .error
  | @ok W₁ a b derived s hle hnext hR hown =>
    obtain ⟨next, own₁⟩ := s
    obtain rfl : next = W₁.next := hnext
    rw [Work.bind_of_ok hrun, Option.bind_some]
    have hsecond := hf W₁ hle a b hR own₁ inArrow
    generalize f a ⟨W₁.next, own₁⟩ = r' at hsecond
    dsimp only
    generalize f' b inArrow = o' at hsecond
    cases hsecond with
    | error => exact .error
    | ok hle' hnext' hQ hown' =>
      refine .ok (hle.trans hle') hnext' hQ ?_
      rw [hown', show own₁ = _ from hown]
      simp [Bool.or_assoc]

end FollowsAlone

end Downlevel
