import Downlevel.Proofs.Tree.Runs
import Downlevel.Proofs.Tree.Views
import Downlevel.Tree.Build
/-!
# Proofs.Tree.Ends — what is made from a supply, and when a computation with errors ends well

`Makes k w P` says that whatever number from `k` on comes next, `w` makes something with the property `P` and never gives
a number back.  The property is told of the number that is left, so that a token can be said to be older than it; what
is known of tokens and nodes stays true as the supply moves on (`up`).  A computation is reasoned about one step at a
time (`Makes.bind`), and a node is made of slots that stand where its kind has them (`makes_node`).

`Ends E k w C P` says exactly when `w` fails: started with a number from `k` on, it ends well if and only if `C` holds,
then with something that has the property `P`, and otherwise with an error of the sort `E`.  Conditions add up along the
steps of a computation (`Ends.bind`), and a step that cannot fail adds none (`Ends.sureThen`, `Ends.thenSure`).
-/
namespace Downlevel

/-! ## What is made -/

section Makes

/-- Whatever number from `k` on comes next, the computation makes something with the property. -/
def Makes {α : Type} (k : Nat) (w : Fresh α) (P : Nat → α → Prop) : Prop :=
  ∀ j, k ≤ j → j ≤ (w j).2 ∧ P (w j).2 (w j).1

/-- A property of what was made is kept as the supply moves on. -/
def Lasts {α : Type} (P : Nat → α → Prop) : Prop := ∀ i k a, i ≤ k → P i a → P k a

variable {α β : Type} {i k : Nat} {P : Nat → α → Prop} {Q : Nat → β → Prop} {L : Demand} {c : NodeClass}

namespace Makes

theorem pure {a : α} (h : ∀ j, k ≤ j → P j a) : Makes k (pure a) P := fun j hj => ⟨Nat.le_refl j, h j hj⟩

theorem bind {w : Fresh α} {f : α → Fresh β} (hw : Makes k w P)
    (hf : ∀ j, k ≤ j → ∀ a, P j a → Makes j (f a) Q) : Makes k (w >>= f) Q := by
  intro j hj
  obtain ⟨hle, hp⟩ := hw j hj
  obtain ⟨hle', hq⟩ := hf (w j).2 (Nat.le_trans hj hle) (w j).1 hp (w j).2 (Nat.le_refl _)
  exact ⟨Nat.le_trans hle hle', hq⟩

theorem mono {w : Fresh α} {P' : Nat → α → Prop} (hw : Makes k w P) (h : ∀ j, k ≤ j → ∀ a, P j a → P' j a) :
    Makes k w P' := fun j hj => ⟨(hw j hj).1, h _ (Nat.le_trans hj (hw j hj).1) _ (hw j hj).2⟩

theorem up {w : Fresh α} (hw : Makes i w P) (hi : i ≤ k) : Makes k w P :=
  fun j hj => hw j (Nat.le_trans hi hj)

/-- Two facts about what is made hold at once. -/
theorem and {w : Fresh α} {P' : Nat → α → Prop} (hw : Makes k w P) (hw' : Makes k w P') :
    Makes k w (fun j a => P j a ∧ P' j a) := fun j hj => ⟨(hw j hj).1, (hw j hj).2, (hw' j hj).2⟩

/-- What is made is changed by a function. -/
theorem map {w : Fresh α} {f : α → β} (hw : Makes k w P) (h : ∀ j, k ≤ j → ∀ a, P j a → Q j (f a)) :
    Makes k (f <$> w) Q := fun j hj => ⟨(hw j hj).1, h _ (Nat.le_trans hj (hw j hj).1) _ (hw j hj).2⟩

/-- What is made is changed by a function, told as two steps. -/
theorem bindPure {w : Fresh α} {f : α → β} (hw : Makes k w P) (h : ∀ j, k ≤ j → ∀ a, P j a → Q j (f a)) :
    Makes k (w >>= fun a => Pure.pure (f a)) Q := hw.map h

/-- Something is made for each member of a list. -/
theorem mapM {f : α → Fresh β} (hQ : Lasts Q) : ∀ {as : List α},
    (∀ a ∈ as, ∀ j, k ≤ j → Makes j (f a) Q) → Makes k (as.mapM f) (fun j bs => ∀ b ∈ bs, Q j b)
  | [], _ => by
    rw [List.mapM_nil]
    exact .pure (fun _ _ b hb => by cases hb)
  | a :: as, h => by
    rw [List.mapM_cons]
    refine (h a (List.mem_cons_self ..) k (Nat.le_refl k)).bind (fun j hj b hb => ?_)
    have hrest := mapM hQ (fun a' ha' => h a' (List.mem_cons_of_mem _ ha'))
    refine (hrest.up (by omega)).bind (fun i hi bs hbs => ?_)
    refine .pure (fun l hl b' hb' => ?_)
    rcases List.mem_cons.1 hb' with rfl | hb'
    · exact hQ j l _ (by omega) hb
    · exact hQ i l _ hl (hbs b' hb')

end Makes

/-! ## Tokens -/

theorem makes_fresh {x : Lexeme} (hl : x.leading.Meets L) (ht : x.trailing.Meets L) (hx : L.text x.kind x.text) :
    Makes k (Token.fresh x) (fun j t => t.Meets L j) := fun j _ => ⟨Nat.le_succ j, Nat.lt_succ_self j, hl, ht, hx⟩

section Token

variable {t : Token} {leading trailing : TriviaList} {o : LayoutOptions}

theorem makes_tokenWithLeading (h : t.Meets L i) (hl : leading.Meets L) :
    Makes k (t.withLeading leading) (fun j t => t.Meets L j) := makes_fresh hl h.trailing h.text

theorem makes_tokenWithTrailing (h : t.Meets L i) (ht : trailing.Meets L) :
    Makes k (t.withTrailing trailing) (fun j t => t.Meets L j) := makes_fresh h.leading ht h.text

theorem makes_tokenWithTrivia (h : t.Meets L i) (hl : leading.Meets L) (ht : trailing.Meets L) :
    Makes k (t.withTrivia leading trailing) (fun j t => t.Meets L j) :=
  (makes_tokenWithLeading h hl).bind (fun _ _ _ hu => makes_tokenWithTrailing hu ht)

theorem makes_bareToken (h : t.Meets L i) : Makes k t.bare (fun j t => t.Meets L j) :=
  makes_tokenWithTrivia h .empty .empty

theorem makes_copy (h : t.Meets L i) : Makes k t.copy (fun j t => t.Meets L j) :=
  makes_fresh h.leading h.trailing h.text

theorem makes_toName (hL : L.Suits o) (h : t.Meets L i) (hi : i ≤ k) :
    Makes k t.toName (fun j t => t.Meets L j) := by
  unfold Token.toName
  split
  · rename_i hkeyword
    have hk : ∃ w, t.kind = .keyword w := by
      cases hkind : t.kind with
      | keyword w => exact ⟨w, rfl⟩
      | _ => rw [hkind] at hkeyword; cases hkeyword
    obtain ⟨w, hw⟩ := hk
    exact makes_fresh h.leading h.trailing (hL.asName w _ (hw ▸ h.text))
  · exact .pure (fun _ _ => h.up (by omega))

theorem makes_ofKind (hL : L.Suits o) (kind : TokenKind) :
    Makes k (Token.fresh (.ofKind kind)) (fun j t => t.Meets L j) := makes_fresh .empty .empty (hL.fixed kind)

end Token

/-! ## Nodes -/

/-- **Slots that stand where a kind has them are made a node of that kind**, if its form is allowed. -/
theorem makes_node {F : Node → Prop} {kind : NodeKind} {slots : List Slot} (h : Slot.Row F L k kind.sorts slots)
    (hform : ∀ id, F (.mk id kind slots)) (hc : c.includes kind = true) :
    Makes k (Node.fresh kind slots) (fun j n => n.Stands F L c j) := fun j hj =>
  ⟨Nat.le_succ j, (h.up (by show k ≤ j + 1; omega)).node (Nat.lt_succ_self j) (hform j) hc⟩

theorem makes_new {kind : NodeKind} {slots : List Slot} : Makes k (Node.fresh kind slots) (fun _ n => k ≤ n.id) :=
  fun j hj => ⟨Nat.le_succ j, hj⟩

/-- The node is one that was there, or it is new. -/
def Node.Renews (m : Node) (k : Nat) (n : Node) : Prop := m = n ∨ k ≤ m.id

theorem Node.Renews.trans {m n n' : Node} {j : Nat} (h : m.Renews j n') (h' : n'.Renews k n) (hk : k ≤ j) :
    m.Renews k n := by
  rcases h with rfl | h
  · exact h'
  · exact .inr (Nat.le_trans hk h)

theorem Node.Stands.lasts {F : Node → Prop} : Lasts (fun j (n : Node) => n.Stands F L c j) := fun _ _ _ hi h => h.up hi

theorem Token.Meets.lasts : Lasts (fun j t => Token.Meets t L j) := fun _ _ _ hi h => h.up hi

end Makes

/-! ## What ends well -/

section Ends

variable {ε σ α β : Type}

/-- What came out of a computation that was started with the number `k`. -/
def EndsAs (E : ε → Prop) (k : Nat) (C : Prop) (P : Nat → α → Prop) : EStateM.Result ε (Supplied σ) α → Prop
  | .ok a s => C ∧ k ≤ s.next ∧ P s.next a
  | .error e _ => ¬ C ∧ E e

/-- Whatever number from `k` on comes next, the computation ends well exactly if the condition holds. -/
def Ends (E : ε → Prop) (k : Nat) (w : Work ε σ α) (C : Prop) (P : Nat → α → Prop) : Prop :=
  ∀ s, k ≤ s.next → EndsAs E s.next C P (w s)

namespace Ends

variable {E : ε → Prop} {i k : Nat} {C D : Prop} {P : Nat → α → Prop} {Q : Nat → β → Prop} {w : Work ε σ α}
  {f : α → Work ε σ β}

theorem pure {a : α} (h : ∀ j, k ≤ j → P j a) : Ends E k (pure a : Work ε σ α) True P :=
  fun s hs => ⟨trivial, Nat.le_refl _, h s.next hs⟩

theorem fail {e : ε} (h : E e) : Ends E k (Work.fail e : Work ε σ α) False P := fun _ _ => ⟨not_false, h⟩

theorem iff (h : Ends E k w C P) (hC : C ↔ D) : Ends E k w D P := propext hC ▸ h

/-- **The conditions of two steps add up.** -/
theorem bind (hw : Ends E k w C P) (hf : ∀ j, k ≤ j → ∀ a, P j a → Ends E j (f a) D Q) :
    Ends E k (w >>= f) (C ∧ D) Q := by
  intro s hs
  have hfirst := hw s hs
  cases h : w s with
  | error e s' =>
    rw [h] at hfirst
    rw [Work.bind_of_error h]
    exact ⟨fun hCD => hfirst.1 hCD.1, hfirst.2⟩
  | ok a s' =>
    rw [h] at hfirst
    rw [Work.bind_of_ok h]
    obtain ⟨hC, hle, hP⟩ := hfirst
    have hsecond := hf s'.next (Nat.le_trans hs hle) a hP s' (Nat.le_refl _)
    cases h' : f a s' with
    | error e s'' =>
      rw [h'] at hsecond
      exact ⟨fun hCD => hsecond.1 hCD.2, hsecond.2⟩
    | ok b s'' =>
      rw [h'] at hsecond
      exact ⟨⟨hC, hsecond.1⟩, Nat.le_trans hle hsecond.2.1, hsecond.2.2⟩

theorem thenSure (hw : Ends E k w C P) (hf : ∀ j, k ≤ j → ∀ a, P j a → Ends E j (f a) True Q) :
    Ends E k (w >>= f) C Q := (hw.bind hf).iff (iff_of_eq (and_true C))

theorem sureThen (hw : Ends E k w True P) (hf : ∀ j, k ≤ j → ∀ a, P j a → Ends E j (f a) D Q) :
    Ends E k (w >>= f) D Q := (hw.bind hf).iff (iff_of_eq (true_and D))

/-- A last step that only changes what came out. -/
theorem map {f : α → β} (hw : Ends E k w C P) (hf : ∀ j, k ≤ j → ∀ a, P j a → Q j (f a)) :
    Ends E k (w >>= fun a => Pure.pure (f a)) C Q := by
  intro s hs
  have hfirst := hw s hs
  cases h : w s with
  | error e s' =>
    rw [h] at hfirst
    rw [Work.bind_of_error h]
    exact hfirst
  | ok a s' =>
    rw [h] at hfirst
    rw [Work.bind_of_ok h]
    exact ⟨hfirst.1, hfirst.2.1, hf _ (Nat.le_trans hs hfirst.2.1) a hfirst.2.2⟩

theorem mono {P' : Nat → α → Prop} (hw : Ends E k w C P) (h : ∀ j, k ≤ j → ∀ a, P j a → P' j a) :
    Ends E k w C P' := by
  have hmap := hw.map (f := fun a => a) h
  rwa [bind_pure] at hmap

theorem up (hw : Ends E i w C P) (hi : i ≤ k) : Ends E k w C P := fun s hs => hw s (Nat.le_trans hi hs)

/-- Making objects never fails. -/
theorem lift {make : Fresh α} (h : Makes k make P) : Ends E k (liftM make : Work ε σ α) True P :=
  fun s hs => ⟨trivial, (h s.next hs).1, (h s.next hs).2⟩

theorem make {make : Fresh α} (h : Makes k make P) (hf : ∀ j, k ≤ j → ∀ a, P j a → Ends E j (f a) D Q) :
    Ends E k ((liftM make : Work ε σ α) >>= f) D Q := (lift h).sureThen hf

/-- The state of one's own has no part in how a computation ends. -/
theorem own {f : σ → Work ε σ β} (hf : ∀ x, Ends E k (f x) D Q) : Ends E k (Work.own >>= f) D Q :=
  fun s hs => hf s.own s hs

theorem setOwn {x : σ} {f : Unit → Work ε σ β} (hf : Ends E k (f ()) D Q) : Ends E k (Work.setOwn x >>= f) D Q :=
  fun s hs => hf { s with own := x } hs

theorem modifyOwn {change : σ → σ} {f : Unit → Work ε σ β} (hf : Ends E k (f ()) D Q) :
    Ends E k (Work.modifyOwn change >>= f) D Q := fun s hs => hf { s with own := change s.own } hs

theorem andThen (hw : Ends E k w C P) (after : σ → σ) : Ends E k (w.andThen after) C P := by
  intro s hs
  have hfirst := hw s hs
  unfold Work.andThen
  cases h : w s with
  | error e s' => rw [h] at hfirst; exact hfirst
  | ok a s' => rw [h] at hfirst; exact hfirst

/-- The conditions of all members of a list add up. -/
theorem mapM {f : α → Work ε σ β} {C : α → Prop} (hQ : Lasts Q) : ∀ {l : List α},
    (∀ a ∈ l, ∀ j, k ≤ j → Ends E j (f a) (C a) Q) →
    Ends E k (l.mapM f) (∀ a ∈ l, C a) (fun j bs => ∀ b ∈ bs, Q j b)
  | [], _ => by
    rw [List.mapM_nil]
    exact (Ends.pure (fun _ _ b hb => by cases hb)).iff (by simp)
  | a :: as, h => by
    rw [List.mapM_cons]
    have hrest := mapM hQ (fun a' ha' => h a' (List.mem_cons_of_mem _ ha'))
    refine ((h a (List.mem_cons_self ..) k (Nat.le_refl k)).bind (fun j hj b hb =>
      (hrest.up (k := j) (by omega)).thenSure (fun i hi bs hbs => .pure (fun l hl b' hb' => ?_)))).iff
        List.forall_mem_cons.symm
    rcases List.mem_cons.1 hb' with rfl | hb'
    · exact hQ j l _ (by omega) hb
    · exact hQ i l _ hl (hbs b' hb')

/-- Objects are made for each member of a list. -/
theorem mapMake {f : α → Fresh β} {as : List α} (hQ : Lasts Q) (h : ∀ a ∈ as, ∀ j, k ≤ j → Makes j (f a) Q) :
    Ends E k (as.mapM (fun a => (Work.lift (f a) : Work ε σ β))) True (fun j bs => ∀ b ∈ bs, Q j b) :=
  (mapM (C := fun _ => True) hQ (fun a ha j hj => .lift (h a ha j hj))).iff (iff_true_intro (fun _ _ => trivial))

theorem optionMapM {f : α → Work ε σ β} {C : α → Prop} {o : Option α}
    (h : ∀ a, o = some a → Ends E k (f a) (C a) Q) :
    Ends E k (o.mapM f) (∀ a, o = some a → C a) (fun j r => r.isSome = o.isSome ∧ ∀ b, r = some b → Q j b) := by
  cases o with
  | none => exact (Ends.pure (fun _ _ => ⟨rfl, fun b hb => by cases hb⟩)).iff (by simp)
  | some a =>
    refine ((h a rfl).map (fun j _ b hb => ⟨rfl, fun b' hb' => ?_⟩)).iff (by simp)
    cases hb'
    exact hb

/-- A computation that ends well does so from any state. -/
theorem run (hw : Ends E k w True P) {s : Supplied σ} (hs : k ≤ s.next) :
    ∃ a s', w s = .ok a s' ∧ s.next ≤ s'.next ∧ P s'.next a := by
  have h := hw s hs
  cases hrun : w s with
  | error e s' => rw [hrun] at h; exact absurd trivial h.1
  | ok a s' => rw [hrun] at h; exact ⟨a, s', rfl, h.2⟩

end Ends

end Ends

end Downlevel
