import Downlevel.Tree.Supply
/-!
# Proofs.Tree.Runs — computations with errors, one step at a time

A run of two steps is a run of the first and, if that ends well, a run of the second.  The equations say so from the
outcome of the first step on; the inversions say what a run of both was made of.  `Gives` says what holds of whatever a
computation gives, if it gives something.
-/
namespace Downlevel

/-! ## Making objects -/

/-- Whatever number comes next, what is made has the property. -/
def Fresh.Gives {α : Type} (w : Fresh α) (P : α → Prop) : Prop := ∀ j, P (w j).1

namespace Fresh.Gives

variable {α β : Type} {P : α → Prop} {Q : β → Prop} {w : Fresh α}

theorem pure {a : α} (h : P a) : Gives (Pure.pure a) P := fun _ => h

theorem bind {f : α → Fresh β} (hw : Gives w P) (hf : ∀ a, P a → Gives (f a) Q) : Gives (w >>= f) Q :=
  fun j => hf _ (hw j) (w j).2

/-- What is made first does not matter. -/
theorem andThen {f : α → Fresh β} (hf : ∀ a, Gives (f a) Q) : Gives (w >>= f) Q := fun j => hf _ (w j).2

theorem mono {P' : α → Prop} (hw : Gives w P) (h : ∀ a, P a → P' a) : Gives w P' := fun j => h _ (hw j)

/-- What is made of the result afterwards. -/
theorem bindPure {f : α → β} (hw : Gives w P) (h : ∀ a, P a → Q (f a)) : Gives (w >>= fun a => Pure.pure (f a)) Q :=
  fun j => h _ (hw j)

theorem mapM {f : α → Fresh β} : ∀ {as : List α}, (∀ a ∈ as, Gives (f a) Q) → Gives (as.mapM f) (fun bs => ∀ b ∈ bs, Q b)
  | [], _ => pure (fun _ hb => nomatch hb)
  | a :: as, h => by
    rw [List.mapM_cons]
    refine (h a List.mem_cons_self).bind (fun b hb => ?_)
    exact (mapM (fun a ha => h a (List.mem_cons_of_mem _ ha))).bindPure (fun bs hbs => List.forall_mem_cons.2 ⟨hb, hbs⟩)

end Fresh.Gives

/-! ## Computations that may fail -/

namespace Work

variable {ε σ α β : Type} {w : Work ε σ α} {f : α → Work ε σ β} {s s' : Supplied σ}

theorem bind_of_ok {a : α} (h : w s = .ok a s') : (w >>= f) s = f a s' := by
  show EStateM.bind w f s = _
  rw [EStateM.bind, h]

theorem bind_of_error {e : ε} (h : w s = .error e s') : (w >>= f) s = .error e s' := by
  show EStateM.bind w f s = _
  rw [EStateM.bind, h]

theorem bind_eq_ok {b : β} (h : (w >>= f) s = .ok b s') : ∃ a s₁, w s = .ok a s₁ ∧ f a s₁ = .ok b s' := by
  cases hw : w s with
  | ok a s₁ => exact ⟨a, s₁, rfl, (bind_of_ok hw).symm.trans h⟩
  | error e s₁ => cases (bind_of_error hw).symm.trans h

theorem bind_eq_error {e : ε} (h : (w >>= f) s = .error e s') :
    w s = .error e s' ∨ ∃ a s₁, w s = .ok a s₁ ∧ f a s₁ = .error e s' := by
  cases hw : w s with
  | ok a s₁ => exact .inr ⟨a, s₁, rfl, (bind_of_ok hw).symm.trans h⟩
  | error e' s₁ =>
    cases (bind_of_error hw).symm.trans h
    exact .inl rfl

theorem andThen_eq_ok {a : α} {after : σ → σ} (h : w.andThen after s = .ok a s') :
    ∃ s₁, w s = .ok a s₁ ∧ s' = { s₁ with own := after s₁.own } := by
  unfold andThen at h
  cases hw : w s with
  | ok b s₁ =>
    rw [hw] at h
    cases h
    exact ⟨s₁, rfl, rfl⟩
  | error e s₁ =>
    rw [hw] at h
    cases h

theorem andThen_eq_error {e : ε} {after : σ → σ} (h : w.andThen after s = .error e s') :
    ∃ s₁, w s = .error e s₁ ∧ s' = { s₁ with own := after s₁.own } := by
  unfold andThen at h
  cases hw : w s with
  | ok b s₁ =>
    rw [hw] at h
    cases h
  | error e' s₁ =>
    rw [hw] at h
    cases h
    exact ⟨s₁, rfl, rfl⟩

theorem pure_eq_ok {a b : α} (h : (pure a : Work ε σ α) s = .ok b s') : b = a ∧ s' = s := by
  cases h
  exact ⟨rfl, rfl⟩

theorem lift_eq_ok {make : Fresh α} {a : α} (h : (liftM make : Work ε σ α) s = .ok a s') :
    a = (make s.next).1 ∧ s' = { s with next := (make s.next).2 } := by
  cases h
  exact ⟨rfl, rfl⟩

end Work

/-- Whatever the computation gives has the property. -/
def Work.Gives {ε σ α : Type} (w : Work ε σ α) (P : α → Prop) : Prop := ∀ s a s', w s = .ok a s' → P a

namespace Work.Gives

variable {ε σ α β : Type} {P : α → Prop} {Q : β → Prop} {w : Work ε σ α} {m : Fresh α} {f : α → Work ε σ β}

theorem pure {a : α} (h : P a) : Gives (Pure.pure a : Work ε σ α) P := fun _ _ _ hrun => by cases hrun; exact h

theorem fail {e : ε} : Gives (Work.fail e : Work ε σ α) P := fun _ _ _ hrun => nomatch hrun

theorem bind (hw : w.Gives P) (hf : ∀ a, P a → (f a).Gives Q) : (w >>= f).Gives Q := fun s b s' hrun => by
  obtain ⟨a, s₁, ha, hb⟩ := bind_eq_ok hrun
  exact hf a (hw s a s₁ ha) s₁ b s' hb

/-- What comes first does not matter. -/
theorem andThen (hf : ∀ a, (f a).Gives Q) : (w >>= f).Gives Q :=
  bind (P := fun _ => True) (fun _ _ _ _ => trivial) (fun a _ => hf a)

theorem mono {P' : α → Prop} (hw : w.Gives P) (h : ∀ a, P a → P' a) : w.Gives P' :=
  fun s a s' hrun => h a (hw s a s' hrun)

/-- What is made of the result afterwards. -/
theorem bindPure {g : α → β} (hw : w.Gives P) (h : ∀ a, P a → Q (g a)) : (w >>= fun a => Pure.pure (g a)).Gives Q :=
  hw.bind (fun a ha => pure (h a ha))

theorem lift (h : m.Gives P) : (liftM m : Work ε σ α).Gives P := fun s a s' hrun => by
  obtain ⟨rfl, -⟩ := lift_eq_ok hrun
  exact h s.next

/-- Something is made first. -/
theorem make (h : m.Gives P) (hf : ∀ a, P a → (f a).Gives Q) : (liftM m >>= f).Gives Q := (lift h).bind hf

theorem mapM {f : α → Work ε σ β} : ∀ {as : List α}, (∀ a ∈ as, (f a).Gives Q) →
    Work.Gives (as.mapM f) (fun bs => ∀ b ∈ bs, Q b)
  | [], _ => pure (fun _ hb => nomatch hb)
  | a :: as, h => by
    rw [List.mapM_cons]
    refine (h a List.mem_cons_self).bind (fun b hb => ?_)
    exact (mapM (fun a ha => h a (List.mem_cons_of_mem _ ha))).bindPure (fun bs hbs => List.forall_mem_cons.2 ⟨hb, hbs⟩)

theorem optionMapM {f : α → Work ε σ β} {o : Option α} (h : ∀ a ∈ o, (f a).Gives Q) :
    Work.Gives (o.mapM f) (fun o' => ∀ b ∈ o', Q b) := by
  cases o with
  | none => exact pure (fun _ hb => nomatch hb)
  | some a =>
    rw [Option.mapM_some, map_eq_pure_bind]
    exact (h a rfl).bindPure (fun b hb b' hb' => Option.some.inj hb' ▸ hb)

/-- A change of the state of one's own behind a computation is no part of what it gives. -/
theorem followed (h : w.Gives P) (after : σ → σ) : (w.andThen after).Gives P := fun s a s' hrun => by
  obtain ⟨s₁, hw, -⟩ := andThen_eq_ok hrun
  exact h s a s₁ hw

end Work.Gives

end Downlevel
