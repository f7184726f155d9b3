import Downlevel.Lowering.Enums
import Downlevel.Lowering.Members
import Downlevel.Proofs.Outline.Super
/-!
# Proofs.Outline.Enums — members of objects and wrappers, enums, and their draft

The forms that classes, enums and namespaces are made of look the same if their parts do.  A function that stands around
a body looks like one that is built without regard to the space behind its parameters.

The number that a value denotes is read off its kinds and characters (`Node.constant?_outline`), so the member behind it
gets the same value in both ways of lowering.
-/
namespace Downlevel

/-! ## Members and wrappers -/

section Members

variable {W : Registry} {n n' m m' : Node} {ns ns' ms ms' : List Node} {t t' u u' : Token}

/-- **Steps that make objects are one.** -/
theorem Follows.joined {α β ε γ δ : Type} {Q : Registry → γ → δ → Prop} {make : Fresh α} {next : α → Fresh β}
    {last : α → β → Fresh ε} {f : ε → Lowering γ} {d : Draft δ}
    (h : Follows W (liftM (make >>= fun a => next a >>= last a) >>= f) d Q) :
    Follows W (liftM make >>= fun a => liftM (next a) >>= fun b => liftM (last a b) >>= f) d Q := h

namespace LoweringContext

variable {c : LoweringContext} {column : Nat}

theorem draws_memberTarget (hn : n.Shows W n') (ht : t.Shows W t') :
    Draws W (memberTarget n t) (memberTarget n' t') Node.Shows := by
  unfold memberTarget
  rw [ht.kind]
  split
  · exact (draws_bareToken ht).bind (fun _ _ _ _ hbare => (Build.draws_literal hbare).bind (fun _ _ _ _ hliteral =>
      Build.draws_elementAccess (hn.up (by order)) hliteral))
  · exact (draws_bareToken ht).bind (fun _ _ _ _ hbare => Build.draws_memberAccess (hn.up (by order)) hbare)

theorem draws_assignmentStatement (hn : n.Shows W n') (hm : m.Shows W m') :
    Draws W (assignmentStatement n m) (assignmentStatement n' m') Node.Shows :=
  (Build.draws_assignment hn hm).bind (fun _ _ _ _ hassignment => Build.draws_expressionStatement hassignment)

theorem draws_assignSameName (hn : n.Shows W n') (ht : t.Shows W t') :
    Draws W (assignSameName n t) (assignSameName n' t') Node.Shows :=
  (Build.draws_memberAccess hn ht).bind (fun _ _ _ _ htarget =>
    (Build.draws_nameExpression (ht.up (by order))).bind (fun _ _ _ _ hname => draws_assignmentStatement
      (htarget.up (by order)) hname))

theorem draws_orCreate (hn : n.Shows W n') (hm : m.Shows W m') :
    Draws W (orCreate n m) (orCreate n' m') Node.Shows :=
  Build.draws_emptyObject.bind (fun _ _ _ _ hobject => (Build.draws_assignment (hm.up (by order)) hobject).bind
    (fun _ _ _ _ ha =>
    (Build.draws_parenthesized ha).bind (fun _ _ _ _ hcreated => Build.draws_binary _ (hn.up (by order)) hcreated)))

theorem draws_functionExpression (hn : n.Shows W n') (hm : m.Shows W m') :
    Draws W (Build.functionExpression n m) (Draft.functionExpression n' m') Node.Shows :=
  (Build.draws_wordThenSpace _).bind (fun _ _ _ _ hkeyword => .left (Build.records_spaceAfter (hn.up (by order)))
    (fun _ _ _ hlist =>
    (Build.draws_callSignature hlist).bind (fun _ _ _ _ hsignature =>
      draws_node (.cons (hkeyword.up (by order)).slot <| .cons Slot.shows_absent <| .cons hsignature.slot <|
        .cons (hm.up (by order)).slot .nil) rfl)))

theorem draws_functionDeclaration (ht : t.Shows W t') (hn : n.Shows W n') (hm : m.Shows W m') :
    Draws W (Build.functionDeclaration t n m) (Draft.functionDeclaration t' n' m') Node.Shows :=
  (Build.draws_wordThenSpace _).bind (fun _ _ _ _ hkeyword => .left (Build.records_spaceAfter (hn.up (by order)))
    (fun _ _ _ hlist =>
    (Build.draws_callSignature hlist).bind (fun _ _ _ _ hsignature =>
      draws_node (.cons Slot.shows_absent <| .cons Slot.shows_absent <| .cons (hkeyword.up (by order)).slot <|
        .cons (ht.up (by order)).slot <|
        .cons hsignature.slot <| .cons (hm.up (by order)).slot <| .cons Slot.shows_absent .nil) rfl)))

/-- **The call of a function that stands around a body looks like its draft.** -/
theorem draws_wrapperCall (hparameters : Node.AllShow W ns ns') (hblock : n.Shows W n')
    (harguments : Node.AllShow W ms ms') :
    Draws W (wrapperCall ns n ms) (Draft.wrapperCall ns' n' ms') Node.Shows :=
  (Build.draws_parameterList hparameters).bind (fun _ _ _ _ hlist =>
    (draws_functionExpression hlist (hblock.up (by order))).bind (fun _ _ _ _ hfunction =>
      (Build.draws_parenthesized hfunction).bind (fun _ _ _ _ hcallee => Build.draws_invocation hcallee
        (harguments.up (by order)))))

/-- Statements between braces, whatever trivia stands around them. -/
theorem draws_bracedBlock (trailing leading : TriviaList) (h : Node.AllShow W ns ns') :
    Draws W (do Build.block (← Build.openBrace trailing) ns (← Build.closeBrace leading)) (Draft.braced ns')
      Node.Shows :=
  (Build.draws_openBrace _ _).bind (fun _ _ _ _ hopen => (Build.draws_closeBrace _ _).bind (fun _ _ _ _ hclose =>
    Build.draws_block (hopen.up (by order)) (h.up (by order)) hclose))

theorem draws_bodyBlock (h : Node.AllShow W ns ns') :
    Draws W (c.bodyBlock t u ns column) (Draft.braced ns') Node.Shows := draws_bracedBlock _ _ h

end LoweringContext

end Members

/-! ## Enums -/

section Enums

variable {W W' : Registry} {n n' : Node} {ns ns' : List Node} {ts : List Token} {t t' name name' : Token}

theorem Node.constantUpTo?_outline : ∀ (levels : Nat) (n : Node), n.outline.constantUpTo? levels = n.constantUpTo? levels
  | 0, _ => rfl
  | levels + 1, n => by
    unfold Node.constantUpTo?
    rw [Node.view?_outline, Node.view?_outline, Node.view?_outline]
    generalize n.view? LiteralExpression = literal
    generalize n.view? PrefixUnaryExpression = unary
    generalize n.view? ParenthesizedExpression = parenthesized
    rcases literal with _ | literal
    · rcases unary with _ | unary
      · rcases parenthesized with _ | parenthesized
        · rfl
        · exact Node.constantUpTo?_outline levels parenthesized.expression
      · have hoperand := Node.constantUpTo?_outline levels unary.operand
        dsimp only [Option.map_none, Option.map_some]
        rw [show (OutlineView.outline unary).operand = unary.operand.outline from rfl, hoperand]
        rfl
    · rfl

/-- **The number that an expression denotes is read off its outline.** -/
theorem Node.constant?_outline (n : Node) : n.outline.constant? = n.constant? := by
  unfold Node.constant?
  rw [Node.height_outline, Node.constantUpTo?_outline]

theorem Node.Shows.constant? (h : n.Shows W n') : n.constant? = n'.constant? := by
  rw [← Node.constant?_outline n, h.outline, Node.constant?_outline]

/-- What is known of the value of the member in front, and of the draft of that member. -/
inductive PreviousValue.Shows (W : Registry) : PreviousValue → PreviousValue → Prop
  | ordinal (next : Nat) : Shows W (.ordinal next) (.ordinal next)
  | known (x : Binary64) : Shows W (.known x) (.known x)
  | member {t t' : Token} (h : t.Shows W t') : Shows W (.member t) (.member t')

theorem PreviousValue.Shows.up {p p' : PreviousValue} (h : p.Shows W p') (hW : W ≤ W') : p.Shows W' p' := by
  cases h with
  | ordinal next => exact .ordinal next
  | known x => exact .known x
  | member ht => exact .member (ht.up (by order))

namespace LoweringContext

variable {c : LoweringContext} {previous previous' : PreviousValue}

theorem draws_numberExpression (x : Binary64) : Draws W (numberExpression x) (numberExpression x) Node.Shows := by
  unfold numberExpression
  split
  · exact (Build.draws_numericLiteral _).bind (fun _ _ _ _ hliteral => Build.draws_prefixUnary _ hliteral)
  · exact Build.draws_numericLiteral _

/-- The value of a member, and what the next member follows, look like their draft. -/
abbrev ValueShows (W : Registry) (p q : Node × PreviousValue) : Prop := p.1.Shows W q.1 ∧ p.2.Shows W q.2

theorem draws_implicitValue (hname : name.Shows W name') (ht : t.Shows W t') (h : previous.Shows W previous') :
    Draws W (implicitValue name t previous) (implicitValue name' t' previous') ValueShows := by
  cases h with
  | ordinal next => exact (draws_numberExpression _).map (fun _ _ _ _ hn => ⟨hn, .ordinal _⟩)
  | known x => exact (draws_numberExpression _).map (fun _ _ _ _ hn => ⟨hn, .known _⟩)
  | member hlast =>
    refine (Build.draws_nameExpression hname).bind (fun W₁ h₁ object object' hobject => ?_)
    refine (draws_memberTarget hobject (hlast.up (by order))).bind (fun W₂ h₂ before before' hbefore => ?_)
    refine (Build.draws_numericLiteral _).bind (fun W₃ h₃ one one' hone => ?_)
    refine (Build.draws_binary _ (hbefore.up (by order)) hone).bind (fun W₄ h₄ value value' hvalue => ?_)
    exact (draws_bareToken (ht.up (by order))).map (fun W₅ h₅ u u' hu => ⟨hvalue.up (by order), .member hu⟩)

theorem draws_reverseMap (hname : name.Shows W name') : Draws W (reverseMap name) (reverseMap name') Node.Shows :=
  (Build.draws_nameExpression hname).bind (fun _ _ _ _ hobject => Build.draws_memberPath _ hobject)

theorem draws_enumRecord (hname : name.Shows W name') (ht : t.Shows W t') (hn : n.Shows W n') :
    Draws W (enumRecord name t n) (enumRecord name' t' n') Node.Shows := by
  unfold enumRecord
  rw [ht.valueText]
  refine (Build.draws_nameExpression hname).bind (fun W₁ h₁ object object' hobject => ?_)
  refine (draws_memberTarget hobject (ht.up (by order))).bind (fun W₂ h₂ target target' htarget => ?_)
  refine (draws_reverseMap (hname.up (by order))).bind (fun W₃ h₃ map map' hmap => ?_)
  refine (Build.draws_assignment (htarget.up (by order)) (hn.up (by order))).bind
    (fun W₄ h₄ assigned assigned' hassigned => ?_)
  refine (Build.draws_elementAccess (hmap.up (by order)) hassigned).bind (fun W₅ h₅ entry entry' hentry => ?_)
  exact (Build.draws_stringLiteral _).bind (fun W₆ h₆ text text' htext => draws_assignmentStatement
    (hentry.up (by order)) htext)

theorem draws_reverseMapStart (hname : name.Shows W name') :
    Draws W (reverseMapStart name) (reverseMapStart name') Node.Shows :=
  (draws_reverseMap hname).bind (fun _ _ _ _ hmap => (Build.draws_arrayLiteral .nil).bind (fun _ _ _ _ hempty =>
    draws_assignmentStatement (hmap.up (by order)) hempty))

theorem draws_reopened (hname : name.Shows W name') : Draws W (reopened name) (reopened name') Node.Shows :=
  (Build.draws_nameExpression hname).bind (fun _ _ _ _ hn => (Build.draws_nameExpression (hname.up (by order))).bind
    (fun _ _ _ _ hm => draws_orCreate (hn.up (by order)) hm))

namespace Drafted

variable {visit : Node → Draft Replacement} (h : c.Drafted visit)

include h

theorem enumValue {e : EnumElement} (hname : name.Shows W name') (he : e.name.Known W) (hvalue : ∀ m ∈ e.value, m.Held W)
    (hprevious : previous.Shows W previous') :
    Follows W (c.enumValue name e previous) (Draft.enumValue visit name' (OutlineView.outline e) previous')
      ValueShows := by
  unfold LoweringContext.enumValue Draft.enumValue
  refine (Follows.viewOption hvalue).bind (fun W₁ h₁ clause clause' hclause => ?_)
  obtain ⟨rfl, hparts⟩ := hclause
  cases clause with
  | none => exact .lift (draws_implicitValue (hname.up (by order)) (he.up (by order)).shows (hprevious.up (by order)))
  | some clause =>
    have hclause := hparts clause rfl
    simp only [NodeView.toSlots, List.forall_mem_cons, Slot.held_node] at hclause
    obtain ⟨-, hexpression, -⟩ := hclause
    refine (h.lower hexpression).bind (fun W₂ h₂ lowered lowered' hlowered => ?_)
    refine .lay (records_bare hlowered) (fun W₃ h₃ value hvalue => ?_)
    rw [hvalue.constant?]
    cases lowered'.constant? with
    | some x => exact .pure ⟨hvalue, .known x⟩
    | none => exact .lay records_bareToken (fun W₄ h₄ u hu => .pure ⟨hvalue.up (by order), .member hu.bare⟩)

theorem enumRecords (bodyColumn : Nat) : ∀ {ns : List Node} {ts : List Token} {previous previous' : PreviousValue}
    {name : Token} {W : Registry}, name.Shows W name' → (∀ n ∈ ns, n.Held W) → previous.Shows W previous' →
    Follows W (c.enumRecords name bodyColumn ns ts previous) (Draft.enumRecords visit name' (ns.map Node.outline) previous')
      Node.AllShow
  | [], _, _, _, _, _, _, _, _ => .pure .nil
  | n :: ns, ts, previous, previous', name, W, hname, hns, hprevious => by
    obtain ⟨hn, hrest⟩ := List.forall_mem_cons.1 hns
    have hreads := hn.reads (α := EnumElement)
    unfold LoweringContext.enumRecords
    rw [List.map_cons, Draft.enumRecords]
    generalize n.view? EnumElement = element at hreads
    generalize n.outline.view? EnumElement = element' at hreads
    cases hreads with
    | none => exact enumRecords bodyColumn hname hrest hprevious
    | @some e hk hs hparts =>
      simp only [NodeView.toSlots, List.forall_mem_cons, Slot.held_token, Slot.held_ofNode?] at hparts
      obtain ⟨he, hvalue, -⟩ := hparts
      refine (h.enumValue hname he hvalue hprevious).bind (fun W₁ h₁ p q hp => ?_)
      obtain ⟨hvalue, hnext⟩ := hp
      refine .make (draws_enumRecord (hname.up (by order)) (he.up (by order)).shows hvalue)
        (fun W₂ h₂ record record' hrecord => ?_)
      refine .lay (records_withTrivia hrecord) (fun W₃ h₃ laid hlaid => ?_)
      exact (enumRecords bodyColumn (hname.up (by order)) (fun m hm => (hrest m hm).up (by order))
        (hnext.up (by order))).map (fun W₄ h₄ rest rest' hr =>
        .cons (hlaid.up (by order)) hr)

/-- **An enum looks like its draft.** -/
theorem enumDeclaration (hn : n.Held W) :
    Follows W (c.enumDeclaration n) (Draft.enumDeclaration visit n.outline) Replacement.Shows := by
  unfold LoweringContext.enumDeclaration Draft.enumDeclaration
  refine .viewHeld hn (fun v hk hs hparts => ?_)
  simp only [NodeView.toSlots, List.forall_mem_cons, Slot.held_token, Slot.held_ofToken?,
    Slot.held_separated] at hparts
  obtain ⟨hexported, hdeclared, hkeyword, hname, hopen, ⟨hmembers, -⟩, hclose, -⟩ := hparts
  rw [show (OutlineView.outline v).declared.isSome = v.declared.isSome from Option.isSome_map]
  split
  · exact .pure .removed
  refine .lay records_bareToken (fun W₁ h₁ name hbare => ?_)
  have hname : name.Shows W₁ (OutlineView.outline v).name := hbare.bare
  refine .make (draws_reverseMapStart hname) (fun W₂ h₂ start start' hstart => ?_)
  refine .lay (records_statementAt hstart) (fun W₃ h₃ placed hplaced => ?_)
  refine (h.enumRecords _ (hname.up (by order)) (fun m hm => (hmembers m hm).up (by order)) (.ordinal 0)).bind
    (fun W₄ h₄ records records' hrecords => ?_)
  refine .make (draws_bodyBlock (.cons (hplaced.up (by order)) hrecords)) (fun W₅ h₅ block block' hblock => ?_)
  have hcall : Draws W₅ (do wrapperCall [← Build.parameter name] block [← reopened name]) (do
      Draft.wrapperCall [← Build.parameter (OutlineView.outline v).name] block'
        [← reopened (OutlineView.outline v).name]) Node.Shows :=
    (Build.draws_parameter (hname.up (by order))).bind (fun _ _ _ _ hparameter =>
      (draws_reopened (hname.up (by order))).bind
      (fun _ _ _ _ hargument => draws_wrapperCall (.cons (hparameter.up (by order)) .nil) (hblock.up (by order))
        (.cons hargument .nil)))
  refine .joined (.make hcall (fun W₆ h₆ call call' hcall => ?_))
  refine .make (Build.draws_variableStatement (hname.up (by order)) .none) (fun W₇ h₇ binding binding' hbinding => ?_)
  refine .lay (records_withTrivia hbinding) (fun W₈ h₈ bound hbound => ?_)
  refine .make (Build.draws_expressionStatement (hcall.up (by order))) (fun W₉ h₉ filled filled' hfilled => ?_)
  exact .lay (records_withTrivia hfilled) (fun W₁₀ h₁₀ laid hlaid =>
    .pure (.many (.cons (hbound.up (by order)) <| .cons hlaid .nil)))

end Drafted

end LoweringContext

end Enums

end Downlevel
