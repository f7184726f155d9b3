import Downlevel.Proofs.Lowering.Members
import Downlevel.Proofs.Lowering.Parameters
import Downlevel.Lowering.Enums
/-!
# Proofs.Lowering.Enums — an enum becomes statements

An enum that is not ambient becomes its variable and the call that fills it in, if the values of its members are intact.
-/
namespace Downlevel

/-- A number below zero has a sign in front of a number that is not. -/
theorem Binary64.isNegative_neg {x : Binary64} (h : x.isNegative = true) : x.neg.isNegative = false := by
  cases x with
  | nan => cases h
  | infinity negative => rw [show negative = true from h]; rfl
  | finite negative mantissa exponent =>
    have hnegative : negative = true := (Bool.and_eq_true_iff.1 h).1
    rw [hnegative]
    rfl

/-- The name of the member in front is a token that is met. -/
def PreviousValue.Meets (p : PreviousValue) (L : Demand) (k : Nat) : Prop := ∀ name, p = .member name → name.Meets L k

namespace LoweringContext

open Build

variable {c : LoweringContext} {L : Demand} {o : LayoutOptions} {i k levels : Nat} {n m : Node} {t name : Token}
  {previous : PreviousValue} {cl : NodeClass}

theorem makes_numberExpression (hL : L.Suits o) (x : Binary64) :
    Makes k (numberExpression x) (fun j m => m.Plain L .expression j) := by
  unfold numberExpression
  by_cases hx : x.isNegative = true
  · rw [if_pos hx]
    exact (makes_numericLiteral (hL.number _ (Binary64.isNegative_neg hx))).bind
      (fun j hj m hm => makes_prefixUnary hL _ hm (by omega))
  · rw [if_neg hx]
    exact makes_numericLiteral (hL.number _ (by simpa using hx))

/-- A member without a value has a plain one all the same. -/
theorem makes_implicitValue (hL : L.Suits o) (hname : name.Meets L k) (ht : t.Meets L k)
    (hprevious : previous.Meets L k) :
    Makes k (implicitValue name t previous) (fun j r => r.1.Plain L .expression j ∧ r.2.Meets L j) := by
  cases previous with
  | ordinal index =>
    exact (makes_numberExpression hL _).bindPure (fun j hj m hm => ⟨hm, fun _ h => by cases h⟩)
  | known x =>
    exact (makes_numberExpression hL _).bindPure (fun j hj m hm => ⟨hm, fun _ h => by cases h⟩)
  | member last =>
    have hlast : last.Meets L k := hprevious last rfl
    refine (makes_nameExpression hname (by omega)).bind (fun i₁ h₁ object hobject => ?_)
    refine (makes_memberTarget hL hobject (hlast.up (by omega))).bind (fun i₂ h₂ before hbefore => ?_)
    refine (makes_numericLiteral (hL.natural 1)).bind (fun i₃ h₃ one hone => ?_)
    refine (makes_binary hL _ hbefore hone (by omega) (by omega)).bind (fun i₄ h₄ value hvalue => ?_)
    refine (makes_bareToken ht).bindPure (fun i₅ h₅ u hu => ⟨hvalue.up (by omega), fun name' hname' => ?_⟩)
    cases hname'
    exact hu

/-- **A member has a value if the value that it is given is intact.** -/
theorem ends_enumValue (h : c.Sound L levels) {e : EnumElement} (hname : name.Meets L k) (ht : e.name.Meets L k)
    (hprevious : previous.Meets L k)
    (hclause : ∀ m, e.value = some m → m.Given L (.only .equalsValueClause) k) :
    Ends IsRefusal k (c.enumValue name e previous) (∀ p ∈ Node.clauseValue e.value, p.Intact levels)
      (fun j r => r.1.Plain L .expression j ∧ r.2.Meets L j) := by
  obtain ⟨clause, hview, hvalue, hgiven⟩ := viewOption_clause hclause
  unfold enumValue
  rw [hview, pure_bind, ← hvalue]
  cases clause with
  | none => exact (Ends.lift (makes_implicitValue h.suits hname ht hprevious)).iff (by simp)
  | some v =>
    refine ((h.lower (hgiven v rfl) rfl).thenSure (fun i₁ h₁ value hplain => ?_)).iff (by simp)
    refine .make (makes_bare hplain (by omega)) (fun i₂ h₂ value hplain => ?_)
    cases value.constant? with
    | some x => exact .pure (fun j hj => ⟨hplain.up (by omega), fun _ h => by cases h⟩)
    | none =>
      refine .make (makes_bareToken ht) (fun i₃ h₃ u hu =>
        .pure (fun j hj => ⟨hplain.up (by omega), fun name' hname' => ?_⟩))
      cases hname'
      exact hu.up (by omega)

theorem makes_reverseMap (hL : L.Suits o) (hname : name.Meets L k) :
    Makes k (reverseMap name) (fun j m => m.Plain L .expression j) := by
  refine (makes_nameExpression hname (by omega)).bind (fun j hj object hobject => ?_)
  have hmap : ∀ text ∈ ["_map".toList], IsWord text := by decide
  exact makes_memberPath hL _ hmap hobject (Nat.le_refl j)

theorem makes_enumRecord (hL : L.Suits o) (hname : name.Meets L k) (ht : t.Meets L k)
    (hn : n.Plain L .expression k) : Makes k (enumRecord name t n) (fun j m => m.Plain L .statement j) := by
  refine (makes_nameExpression hname (by omega)).bind (fun i₁ h₁ object hobject => ?_)
  refine (makes_memberTarget hL hobject (ht.up (by omega))).bind (fun i₂ h₂ target htarget => ?_)
  refine (makes_reverseMap hL (hname.up (by omega))).bind (fun i₃ h₃ map hmap => ?_)
  refine (makes_assignment hL htarget hn (by omega) (by omega)).bind (fun i₄ h₄ value hvalue => ?_)
  refine (makes_elementAccess hL hmap hvalue (by omega) (by omega)).bind (fun i₅ h₅ entry hentry => ?_)
  exact (makes_stringLiteral hL _).bind (fun i₆ h₆ literal hliteral => makes_assignmentStatement hL
    (hentry.up (by omega)) hliteral (by omega))

/-- **Members become records if their values are intact.** -/
theorem ends_enumRecords (h : c.Sound L levels) (column : Nat) : ∀ {members : List Node} {separators : List Token}
    {previous : PreviousValue} {k : Nat}, (∀ m ∈ members, m.Given L .enumMember k) →
    (∀ t ∈ separators, t.Meets L k) → name.Meets L k → previous.Meets L k →
    Ends IsRefusal k (c.enumRecords name column members separators previous)
      (∀ p ∈ Node.enumParts members, p.Intact levels)
      (fun j ms => ∀ m ∈ ms, m.Plain L .statement j)
  | [], _, _, _, _, _, _, _ => (Ends.pure (fun _ _ m hm => by cases hm)).iff (by simp [Node.enumParts])
  | n :: ns, separators, previous, k, hmembers, hseparators, hname, hprevious => by
    have hn : n.Given L .enumMember k := hmembers n (List.mem_cons_self ..)
    have hrest : ∀ m ∈ ns, m.Given L .enumMember k := fun m hm => hmembers m (List.mem_cons_of_mem _ hm)
    have hdrop : ∀ t ∈ separators.drop 1, t.Meets L k := fun t ht => hseparators t (List.mem_of_mem_drop ht)
    have hparts : ∀ values : List Node, n.partsAs EnumElement (fun e => Node.clauseValue e.value) = values →
        ((∀ p ∈ values, p.Intact levels) ∧ (∀ p ∈ Node.enumParts ns, p.Intact levels) ↔
          ∀ p ∈ Node.enumParts (n :: ns), p.Intact levels) := by
      rintro _ rfl
      simp only [Node.enumParts, List.flatMap_cons, List.forall_mem_append]
    unfold enumRecords
    dsimp only
    cases he : n.view? EnumElement with
    -- What is no member of an enum has no value, and is skipped.
    | none =>
      refine (ends_enumRecords h column hrest hdrop hname hprevious).iff (.trans ?_ (hparts [] ?_))
      · simp
      · simp [Node.partsAs, he]
    | some e =>
      obtain ⟨e', he', hs, ht, hvalue⟩ := hn.enumElement (Node.kind_of_view? he)
      obtain rfl : e = e' := Option.some.inj (he.symm.trans he')
      refine ((ends_enumValue h hname ht hprevious hvalue).bind (fun i₁ h₁ r hr => ?_)).iff
        (hparts _ (Node.partsAs_eq he _))
      refine .make (makes_enumRecord h.suits (hname.up (by omega)) (ht.up (by omega)) hr.1)
        (fun i₂ h₂ record hrecord => ?_)
      -- The comment of a member may stand behind the separator that follows it, and moves with the record.
      have hbehind : ((separators.head?.map Token.trailing).getD .empty).Meets L := by
        cases separators with
        | nil => exact .empty
        | cons u us => exact (hseparators u (List.mem_cons_self ..)).trailing
      refine .make (makes_withTrivia hrecord (h.suits.relocated hn.leading column)
        (h.suits.trailingCommentLine (hn.trailing.append hbehind)) (by omega)) (fun i₃ h₃ record hrecord => ?_)
      refine (ends_enumRecords h column (fun m hm => (hrest m hm).up (by omega))
        (fun t ht => (hdrop t ht).up (by omega)) (hname.up (by omega))
        (fun u hu => (hr.2 u hu).up (by omega))).map (fun j hj records hrecords m hm => ?_)
      rcases List.mem_cons.1 hm with rfl | hm
      · exact hrecord.up (by omega)
      · exact hrecords m hm

theorem makes_reverseMapStart (hL : L.Suits o) (hname : name.Meets L k) :
    Makes k (reverseMapStart name) (fun j m => m.Plain L .statement j) := by
  refine (makes_reverseMap hL hname).bind (fun i₁ h₁ map hmap => ?_)
  exact (makes_emptyArray hL).bind (fun i₂ h₂ array harray => makes_assignmentStatement hL (hmap.up (by omega)) harray
    (by omega))

theorem makes_reopened (hL : L.Suits o) (hname : name.Meets L k) :
    Makes k (reopened name) (fun j m => m.Plain L .expression j) := by
  refine (makes_nameExpression hname (by omega)).bind (fun i₁ h₁ object hobject => ?_)
  exact (makes_nameExpression hname (by omega)).bind (fun i₂ h₂ target htarget =>
    makes_orCreate hL (hobject.up (by omega)) htarget)

/-- **An enum that is not ambient becomes statements if the values of its members are intact.** -/
theorem lowers_enumDeclaration (h : c.Sound L levels) (hn : n.Given L cl k)
    (hk : n.kind = .enumDeclaration) : LowersTo L k (levels + 1) n (c.enumDeclaration n) := by
  obtain ⟨v, hv, hs, hexported, -, hkeyword, hname, hopen, hmembers, hclose⟩ := hn.enumDeclaration hk
  have hrequired : n.kind.keepsRequired = true := by rw [hk]; rfl
  have hspread : n.kind.isSpread = true := by rw [hk]; rfl
  have hleaves : n.leavesNothing = false := by simp [Node.leavesNothing, hk]
  have hparts : n.loweredParts = if v.declared.isSome then [] else Node.enumParts v.members.members := by
    unfold Node.loweredParts
    rw [hk]
    exact Node.partsAs_eq hv _
  have hintact : (∀ p ∈ n.loweredParts, p.Intact levels) ↔ n.Intact (levels + 1) :=
    (Node.intact_of_parts hn.fits hrequired (by simp [hk])).symm
  rw [hparts] at hintact
  unfold enumDeclaration
  rw [Lowering.view_eq hv, pure_bind]
  by_cases hdeclared : v.declared.isSome = true
  · rw [if_pos hdeclared] at hintact ⊢
    refine (Ends.pure (fun j hj => .ofSpread hspread hleaves (fun m hm => (by cases hm)) (fun m hm => by cases hm))).iff ?_
    exact (iff_true_intro (fun p hp => by cases hp)).symm.trans hintact
  · rw [if_neg hdeclared] at hintact ⊢
    refine Ends.iff ?_ hintact
    -- The variable comes first, then the call that fills in its object; only the values of members can be refused.
    refine .make (makes_bareToken hname) (fun i₁ h₁ name hname => ?_)
    refine .make (makes_reverseMapStart h.suits hname) (fun i₂ h₂ start hstart => ?_)
    refine .make (makes_statementAt h.suits _ hstart (by omega)) (fun i₃ h₃ start hstart => ?_)
    refine (ends_enumRecords h _ (fun m hm => (hmembers.members m hm).up (by omega))
      (fun t ht => (hmembers.separators t ht).up (by omega)) (hname.up (by omega))
      (fun _ hu => by cases hu)).thenSure (fun i₄ h₄ records hrecords => ?_)
    have hstatements : ∀ m ∈ start :: records, m.Plain L .statement i₄ :=
      List.forall_mem_cons.2 ⟨hstart.up (by omega), hrecords⟩
    refine .make (makes_bodyBlock h.suits _ hopen hclose hstatements) (fun i₅ h₅ block hblock => ?_)
    refine .make (makes_parameter hname (by omega)) (fun i₆ h₆ parameter hparameter => ?_)
    refine .make (makes_reopened h.suits (hname.up (by omega))) (fun i₇ h₇ object hobject => ?_)
    refine .make (makes_wrapperCall h.suits (fun m hm => List.mem_singleton.1 hm ▸ hparameter.up (by omega))
      (hblock.up (by omega))
      (fun m hm => List.mem_singleton.1 hm ▸ hobject)) (fun i₈ h₈ call hcall => ?_)
    refine .make (makes_variableStatement h.suits hname (plain_noValue i₈) (by omega) (by omega))
      (fun i₉ h₉ binding hbinding => ?_)
    refine .make (makes_withTrivia hbinding (Token.leadingWithoutExport_meets hkeyword hexported) h.suits.lineBreak
      (by omega))
      (fun i₁₀ h₁₀ binding hbinding => ?_)
    refine .make (makes_expressionStatement h.suits hcall (by omega)) (fun i₁₁ h₁₁ filled hfilled => ?_)
    refine .make (makes_withTrivia hfilled (h.suits.indentation _) (h.suits.endingLine hclose.trailing) (by omega))
      (fun i₁₂ h₁₂ filled hfilled => .pure (fun j hj => ?_))
    refine .ofSpread hspread hleaves (List.forall_mem_cons.2 ⟨hbinding.up (by omega), fun m hm => ?_⟩)
      (fun m hm => by cases hm)
    exact List.mem_singleton.1 hm ▸ hfilled.up (by omega)

end LoweringContext

end Downlevel
