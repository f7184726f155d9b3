import Downlevel.Grammar.Program
import Downlevel.Proofs.Grammar.Fidelity
import Downlevel.Proofs.Grammar.Yields
/-!
# Proofs.Grammar.Forms — every node of a parsed tree is formed

One fact for each rule of the grammar.  `Goal.Meets` says how tightly a goal binds; for the operands of binary operators
it also says which operator cannot stand behind them, since that is what makes the left operand of the next operator
tight enough.  The facts hold at every depth of recursion (`yields_goalUpTo`), so every tree that comes of a text is
formed throughout (`parseFrom_formed`).
-/
namespace Downlevel

/-- What is read for a goal from a token of a kind on, and the place behind it. -/
def Goal.Meets (k : TokenKind) (n : Node) (behind : Reading) : Goal → Prop
  | .type => n.Every Node.Formed
  | .assignment _ => n.Value k 1
  | .unary => n.Value k tightest
  | .binary above allowIn => n.Value k (min (above + 2) tightest) ∧ behind.kind.precedence allowIn ≤ above
  | .creation => n.Value k tightest
  | .statement => n.Every Node.Formed
  | .moduleElement => n.Every Node.Formed

namespace Parser

/-- Every goal is read as what it is to be; the form that starts with `new` is asked for in front of that word only. -/
def Forming (d : Descent) : Prop :=
  ∀ g (r : Reading), r.current.Proper → (g = .creation → r.kind = .keyword .newKw) →
    YieldsAt r (d.parse g) (fun n r' => g.Meets r.kind n r')

namespace Forming

variable {d : Descent}

theorem type (hd : Forming d) : YieldsNode (d.parse .type) := fun r hr => hd .type r hr (fun h => by cases h)

theorem statement (hd : Forming d) : YieldsNode (d.parse .statement) := fun r hr =>
  hd .statement r hr (fun h => by cases h)

theorem moduleElement (hd : Forming d) : YieldsNode (d.parse .moduleElement) := fun r hr =>
  hd .moduleElement r hr (fun h => by cases h)

theorem assignment (hd : Forming d) (allowIn : Bool) : YieldsValue (d.parse (.assignment allowIn)) 1 :=
  fun r hr => hd (.assignment allowIn) r hr (fun h => by cases h)

theorem unary (hd : Forming d) : YieldsValue (d.parse .unary) tightest := fun r hr =>
  hd .unary r hr (fun h => by cases h)

theorem binary (hd : Forming d) (above : Nat) (allowIn : Bool) {r : Reading} (hr : r.current.Proper) :
    YieldsAt r (d.parse (.binary above allowIn)) (fun n r' => Goal.Meets r.kind n r' (.binary above allowIn)) :=
  hd (.binary above allowIn) r hr (fun h => by cases h)

end Forming

variable {d : Descent} {n : Node} {r : Reading} {k : TokenKind} {modifiers : List Slot} {slot : Slot}

/-! ## Names and signatures -/

theorem yields_qualifiedName : YieldsNode (qualifiedName d) := by
  intro r hr
  refine (yieldsAt_headed hr (opening_name hr) .nil rfl : YieldsAt r _ (fun n _ => n.Value r.kind tightest)).bind
    (fun n r' hr' hn => ?_)
  refine yieldsAt_grow (P := Node.Every Node.Formed) hr' hn.formed (fun m r₂ hr₂ hm => ?_)
  refine .look (a := r₂.kind == .punctuation .dot) (fun _ => rfl)
    (.ite (fun _ => ?_) (fun _ => yieldsAt_noLarger hr₂ hm))
  exact yieldsAt_larger (Yields.here (yields_nodeAfter (.cons (Slot.bears_node hm (Nat.zero_le _)) .nil)
    (.cons (yields_mark _) <| .cons yields_member .nil) rfl) hr₂)

theorem yields_typeClause (hd : Forming d) : YieldsSlot 0 (typeClause d) :=
  yields_innerIf _ (yields_node (.cons (yields_mark _) <| .cons (yields_inner hd.type) .nil) rfl)

/-- The value behind an equals sign has no comma. -/
theorem yields_initializer (hd : Forming d) (allowIn : Bool) : YieldsSlot 0 (initializer d allowIn) :=
  yields_innerIf _ (yields_node (.cons (yields_mark _) <| .cons (yields_operand (hd.assignment allowIn)) .nil) rfl)

theorem yields_access (test : Reading → Bool) : YieldsSlot 0 (access test) :=
  .look (fun _ => .ite yields_current yields_nothing)

theorem yields_parameter (hd : Forming d) : YieldsNode (parameter d) :=
  yields_node (.cons (yields_optional _) <| .cons (yields_access _) <| .cons yields_name <|
    .cons (yields_optional _) <| .cons (yields_typeClause hd) <| .cons (yields_initializer hd true) .nil) rfl

theorem yieldsValue_parameterList (hd : Forming d) : YieldsValue (parameterList d) tightest := fun _ hr =>
  yieldsAt_headed hr (opening_mark hr (by decide))
    (.cons (yields_delimited _ _ (yields_parameter hd).loose (by decide)) <| .cons (yields_mark _) .nil) rfl

theorem yields_parameterList (hd : Forming d) : YieldsNode (parameterList d) := (yieldsValue_parameterList hd).node

/-- A signature starts with its parenthesis. -/
theorem yieldsValue_callSignature (hd : Forming d) : YieldsValue (callSignature d) tightest := by
  intro r hr
  refine (yieldsAt_twoParts (yieldsValue_parameterList hd r hr) (yields_typeClause hd)).bind (fun slots r' hr' hslots => ?_)
  obtain ⟨m, s, rfl, hm, hs⟩ := hslots
  refine Yields.lift (fun next => ?_) r' hr'
  have hall : List.Forall₂ Slot.Bears [tightest, 0] [.node m, s] := .cons hm.slot <| .cons hs .nil
  have hbound : (Node.mk next .callSignature [.node m, s]).Bound := Node.bound_of_bears hall (by decide) rfl
  exact Node.value_mk hall hbound (Node.startsAt_of_node hm.starts) (by decide)

theorem yields_callSignature (hd : Forming d) : YieldsNode (callSignature d) := (yieldsValue_callSignature hd).node

/-! ## Types -/

theorem yields_memberSeparator : YieldsSlot 0 memberSeparator :=
  .look (fun _ => .ite yields_current (.ite yields_nothing .expected))

theorem yields_namedTypeMember (hd : Forming d) : YieldsNode (namedTypeMember d) := by
  refine (yields_parts (.cons yields_property <| .cons (yields_optional _) .nil)).bind (fun slots hslots => ?_)
  refine .look (fun method => .ite ?_ ?_)
  · exact yields_nodeAfter hslots (.cons (yields_inner (yields_callSignature hd)) <| .cons yields_memberSeparator .nil) rfl
  · exact yields_nodeAfter hslots (.cons (yields_typeClause hd) <| .cons yields_memberSeparator .nil) rfl

theorem yields_typeMember (hd : Forming d) : YieldsNode (typeMember d) := by
  refine .look (fun r => ?_)
  split
  · exact yields_node (.cons (yields_inner (yields_callSignature hd)) <| .cons yields_memberSeparator .nil) rfl
  · exact yields_node (.cons (yields_mark _) <| .cons (yields_inner (yields_parameter hd)) <| .cons (yields_mark _) <|
      .cons (yields_typeClause hd) <| .cons yields_memberSeparator .nil) rfl
  · refine .ite ?_ (yields_namedTypeMember hd)
    exact yields_node (.cons (yields_word _) <| .cons (yields_inner (yields_callSignature hd)) <|
      .cons yields_memberSeparator .nil) rfl
  · exact yields_namedTypeMember hd

theorem yields_objectType (hd : Forming d) : YieldsNode (objectType d) :=
  yields_node (.cons (yields_mark _) <| .cons (yields_members (yields_typeMember hd)) <| .cons (yields_mark _) .nil) rfl

theorem yields_nonArrayType (hd : Forming d) : YieldsNode (nonArrayType d) := by
  refine .look (fun r => ?_)
  split
  · exact yields_objectType hd
  · exact yields_node (.cons (yields_inner (yields_parameterList hd)) <| .cons (yields_mark _) <|
      .cons (yields_inner hd.type) .nil) rfl
  · exact yields_node (.cons (yields_word _) <| .cons (yields_inner (yields_parameterList hd)) <|
      .cons (yields_mark _) <| .cons (yields_inner hd.type) .nil) rfl
  · exact yields_node (.cons yields_current .nil) rfl
  · exact .ite (yields_node (.cons yields_current .nil) rfl) yields_qualifiedName
  · exact .expected

theorem yields_typeNode (hd : Forming d) : YieldsNode (typeNode d) := by
  refine (yields_nonArrayType hd).nested.bind (fun n hn r hr => ?_)
  refine yieldsAt_grow (P := Node.Every Node.Formed) hr hn (fun m r' hr' hm => .look (a := r') (fun _ => rfl) ?_)
  refine .ite (fun _ => ?_) (fun _ => yieldsAt_noLarger hr' hm)
  exact yieldsAt_larger (Yields.here (yields_nodeAfter (.cons (Slot.bears_node hm (Nat.zero_le _)) .nil)
    (.cons (yields_mark _) <| .cons (yields_mark _) .nil) rfl) hr')

/-! ## Functions and literals -/

theorem yields_block (hd : Forming d) : YieldsNode (block d) :=
  yields_node (.cons (yields_mark _) <| .cons (yields_members hd.statement) <| .cons (yields_mark _) .nil) rfl

theorem yields_arrowBody (hd : Forming d) (allowIn : Bool) : YieldsSlot 0 (arrowBody d allowIn) :=
  .look (fun _ => .ite (yields_inner (yields_block hd)) (yields_inner (hd.assignment allowIn).node))

/-- An arrow function binds least but for a comma; what is no arrow function is left where it stands. -/
theorem yieldsAt_arrowFunction? (hd : Forming d) (allowIn : Bool) (hr : r.current.Proper) :
    YieldsAt r (arrowFunction? d allowIn)
      (fun o r' => (∀ n ∈ o, n.Value r.kind 1) ∧ (o = none → r'.kind = r.kind)) := by
  have hnone : YieldsAt r (return none : Parser (Option Node))
      (fun o r' => (∀ n ∈ o, n.Value r.kind 1) ∧ (o = none → r'.kind = r.kind)) :=
    .pure hr ⟨fun _ hn => (by cases hn), fun _ => rfl⟩
  have hsome : ∀ {p : Parser Node} {r' : Reading}, YieldsAt r' p (fun n _ => n.Value r.kind 1) →
      YieldsAt r' (some <$> p) (fun o r'' => (∀ n ∈ o, n.Value r.kind 1) ∧ (o = none → r''.kind = r.kind)) :=
    fun hp => hp.map (fun n _ hn => ⟨fun m hm => Option.some.inj hm ▸ hn, fun h => by cases h⟩)
  refine .look (a := r) (fun _ => rfl) ?_
  split
  · refine .ite (fun _ => hsome ?_) (fun _ => hnone)
    exact yieldsAt_headed hr (opening_name hr) (.cons (yields_mark _) <| .cons (yields_arrowBody hd allowIn) .nil) rfl
  · refine (YieldsAt.attempt hr (yieldsValue_callSignature hd r hr) atArrow).bind (fun o r' hr' ho => ?_)
    cases o with
    | none => exact .pure hr' ⟨fun _ hn => (by cases hn), fun _ => ho.2 rfl⟩
    | some signature =>
      exact hsome (yieldsAt_grown hr' (ho.1 signature rfl)
        (.cons (yields_mark _) <| .cons (yields_arrowBody hd allowIn) .nil) rfl)
  · exact hnone

theorem yields_arrayElementsUpTo (hd : Forming d) :
    ∀ turns behindComma, Yields (arrayElementsUpTo d turns behindComma) (AreMembers 0)
  | 0, _ => .fault
  | turns + 1, behindComma => by
    have homitted : YieldsNode omitted := yields_omitted.mono (fun _ hn => hn.1)
    have hbehind : ∀ n : Node, n.Every Node.Formed →
        Yields (behindMember n (arrayElementsUpTo d turns true)) (AreMembers 0) :=
      fun n hn => yields_behindMember hn (yields_arrayElementsUpTo hd turns true)
    refine .look (fun closes => .ite (.ite ?_ ?_) (.look (fun comma => .ite ?_ ?_)))
    · exact homitted.bind (fun _ hn => .pure (.one ⟨hn, Nat.zero_le _⟩))
    · exact .pure .nil
    · exact homitted.bind hbehind
    · exact (hd.assignment true).node.bind hbehind

theorem yields_arrayElements (hd : Forming d) : YieldsSlot 0 (arrayElements d) :=
  (yields_arrayElementsUpTo hd _ _).map (fun _ hlist => hlist.slot)

theorem yields_propertyAssignment (hd : Forming d) : YieldsNode (propertyAssignment d) := by
  refine .look (fun r => .ite ?_ (.ite ?_ ?_))
  · exact yields_node (.cons yields_current <| .cons yields_property <| .cons (yields_mark _) <|
      .cons (yields_mark _) <| .cons (yields_typeClause hd) <| .cons (yields_inner (yields_block hd)) .nil) rfl
  · exact yields_node (.cons yields_current <| .cons yields_property <| .cons (yields_mark _) <|
      .cons (yields_inner (yields_parameter hd)) <| .cons (yields_mark _) <|
      .cons (yields_inner (yields_block hd)) .nil) rfl
  · exact yields_node (.cons yields_property <| .cons (yields_mark _) <|
      .cons (yields_inner (hd.assignment true).node) .nil) rfl

/-! ## Binary operators -/

/-- An expression with a binary operator, of operands that bind as tightly as the operator asks for. -/
theorem value_binary {left right : Node} {t : Token} {id : ObjectId} {l : Nat} (hleft : left.Value k l)
    (ht : t.lexeme.Proper) (hright : right.Every Node.Formed) (hl : t.kind.leftDemand ≤ left.tightness)
    (hr : t.kind.rightDemand ≤ right.tightness) :
    (Node.mk id .binaryExpression [.node left, .token t, .node right]).Value k t.kind.tightness := by
  have hall : List.Forall₂ Slot.Bears [0, 0, 0] [.node left, .token t, .node right] :=
    .cons (Slot.bears_node hleft.formed (Nat.zero_le _)) <| .cons (Slot.bears_token ht) <|
      .cons (Slot.bears_node hright (Nat.zero_le _)) .nil
  have hstatement : NodeKind.binaryExpression ≠ .expressionStatement := by decide
  refine Node.value_mk hall (fun index m hm => ?_) (Node.startsAt_of_node hleft.starts) hstatement
  match index, hm with
  | 0, hm =>
    rw [List.mem_singleton.1 (show m ∈ [left] from hm)]
    exact hl
  | 2, hm =>
    rw [List.mem_singleton.1 (show m ∈ [right] from hm)]
    exact hr

/-- **A binary operator and its right operand are read behind the left one.** -/
theorem yieldsAt_binaryNode {first : Part} {operand : Parser Node} {l : Nat} {R : Reading → Prop}
    (hr : r.current.Proper) (hn : n.Value k l) (hfirst : YieldsAt r first (fun s _ => Heads r s))
    (hl : r.kind.leftDemand ≤ n.tightness) (hoperand : ∀ r' : Reading, r'.current.Proper → YieldsAt r' operand
      (fun m r'' => (m.Every Node.Formed ∧ r.kind.rightDemand ≤ m.tightness) ∧ R r'')) :
    YieldsAt r (nodeAfter .binaryExpression [.node n] [first, inner operand])
      (fun m r' => m.Value k r.kind.tightness ∧ R r') := by
  have hparts : YieldsAt r (parts [first, inner operand]) (fun slots r' => ∃ t m, slots = [.token t, .node m] ∧
      t.lexeme = r.current ∧ (m.Every Node.Formed ∧ r.kind.rightDemand ≤ m.tightness) ∧ R r') := by
    refine hfirst.bind (fun s r₁ hr₁ hs => ?_)
    obtain ⟨t, rfl, ht⟩ := hs
    refine YieldsAt.bind (P := fun slots r' => ∃ m, slots = [.node m] ∧
      (m.Every Node.Formed ∧ r.kind.rightDemand ≤ m.tightness) ∧ R r') ?_ (fun slots r₂ hr₂ hslots => ?_)
    · exact ((hoperand r₁ hr₁).map (Q := fun s r' => ∃ m, s = Slot.node m ∧
        (m.Every Node.Formed ∧ r.kind.rightDemand ≤ m.tightness) ∧ R r') (fun m _ hm => ⟨m, rfl, hm⟩)).bind
        (fun s r₂ hr₂ hs => let ⟨m, hs, hm⟩ := hs; .pure hr₂ ⟨m, hs ▸ rfl, hm⟩)
    · obtain ⟨m, rfl, hm⟩ := hslots
      exact .pure hr₂ ⟨t, m, rfl, ht, hm⟩
  refine hparts.bind (fun slots r' hr' hslots => ?_)
  obtain ⟨t, m, rfl, ht, ⟨hm, hright⟩, hR⟩ := hslots
  have hkind : t.kind = r.kind := congrArg Lexeme.kind ht
  rw [← hkind] at hl hright ⊢
  intro next made s' hs
  obtain ⟨rfl, rfl⟩ := Work.lift_eq_ok hs
  exact ⟨hr', value_binary hn (ht ▸ hr) hm hl hright, hR⟩

theorem yieldsAt_commaStep (hd : Forming d) (allowIn : Bool) (hr : r.current.Proper) (hn : n.Value k 0) :
    YieldsAt r (commaStep d allowIn n) (fun o _ => match o with | some m => m.Value k 0 | none => n.Value k 0) := by
  refine .look (a := r.kind == .punctuation .comma) (fun _ => rfl)
    (.ite (fun hcomma => ?_) (fun _ => yieldsAt_noLarger hr hn))
  have hkind : r.kind = .punctuation .comma := beq_iff_eq.1 hcomma
  refine yieldsAt_larger ((yieldsAt_binaryNode (R := fun _ => True) hr hn ?_ ?_ (fun r' hr' => ?_)).mono
    (fun m _ hm => hm.1.weaken (Nat.zero_le _)))
  · exact (yieldsAt_token _).map (fun t _ ht => ⟨t, rfl, ht⟩)
  · rw [hkind]
    exact Nat.zero_le _
  · rw [hkind]
    exact (hd.assignment allowIn r' hr').mono (fun m _ hm => ⟨⟨hm.formed, Nat.zero_le _⟩, trivial⟩)

/-- An expression, with commas or without. -/
theorem yieldsValue_expression (hd : Forming d) (allowIn : Bool) : YieldsValue (expression d allowIn) 0 := fun r hr =>
  (hd.assignment allowIn r hr).bind (fun _ _ hr' hn => yieldsAt_grow (P := fun m => m.Value r.kind 0) hr'
    (hn.weaken (Nat.zero_le _)) (fun _ _ hr₂ hm => yieldsAt_commaStep hd allowIn hr₂ hm))

/-! ## Operands -/

theorem yields_rescan : YieldsAt r rescan (fun _ r' => r'.kind = .regularExpression) := by
  intro next a s' h
  obtain ⟨after, s₁, h₁, h₂⟩ := Work.bind_eq_ok (w := Work.ofExcept r.asRegularExpression) (s := ⟨next, r⟩) h
  cases hnext : r.asRegularExpression with
  | error e => rw [hnext] at h₁; cases h₁
  | ok r' =>
    rw [hnext] at h₁
    cases h₁
    cases h₂
    exact Reading.asRegularExpression_proper hnext

theorem yieldsAt_regularExpression : YieldsAt r regularExpression (fun n _ => n.Value r.kind tightest) := by
  refine yields_rescan.bind (fun _ r' hr' hk => ?_)
  have hopens := opening_current hr' (by rw [hk]; decide) (by rw [hk]; decide)
  refine (yieldsAt_headed hr' hopens .nil rfl : YieldsAt r' _ (fun n _ => n.Value r'.kind tightest)).mono
    (fun n _ hn => ⟨hn.formed, hn.tight, ?_⟩)
  obtain ⟨t, ts, htokens, ht, hf⟩ := hn.starts
  refine ⟨t, ts, htokens, ht, fun hfunction => ?_⟩
  rw [hk] at hf
  cases hf hfunction

/-- A form that no operator takes apart. -/
theorem yieldsValue_primary (hd : Forming d) : YieldsValue (primary d) tightest := by
  intro r hr
  have hcurrent : ∀ {k : TokenKind}, r.kind = k → k ≠ .endOfFile → k ≠ .punctuation .semicolon →
      Opening r current := fun hk hend hsemicolon => opening_current hr (hk ▸ hend) (hk ▸ hsemicolon)
  refine .look (a := r) (fun _ => rfl) ?_
  split
  · exact yieldsAt_headed hr (hcurrent ‹_› (by decide) (by decide)) .nil rfl
  · exact yieldsAt_headed hr (hcurrent ‹_› (by decide) (by decide)) .nil rfl
  · exact yieldsAt_headed hr (hcurrent ‹_› (by decide) (by decide)) .nil rfl
  · exact yieldsAt_headed hr (hcurrent ‹_› (by decide) (by decide)) .nil rfl
  · exact yieldsAt_headed hr (hcurrent ‹_› (by decide) (by decide)) .nil rfl
  · exact yieldsAt_headed hr (hcurrent ‹_› (by decide) (by decide)) .nil rfl
  · exact yieldsAt_headed hr (hcurrent ‹_› (by decide) (by decide)) .nil rfl
  · exact yieldsAt_headed hr (hcurrent ‹_› (by decide) (by decide)) .nil rfl
  · exact yieldsAt_regularExpression
  · exact yieldsAt_regularExpression
  · exact yieldsAt_headed hr (opening_mark hr (by decide))
      (.cons (yields_inner (yieldsValue_expression hd true).node) <| .cons (yields_mark _) .nil) rfl
  · exact yieldsAt_headed hr (opening_mark hr (by decide))
      (.cons (yields_arrayElements hd) <| .cons (yields_mark _) .nil) rfl
  · exact yieldsAt_headed hr (opening_mark hr (by decide))
      (.cons (yields_delimited _ _ (yields_propertyAssignment hd).loose (by decide)) <| .cons (yields_mark _) .nil) rfl
  · exact yieldsAt_headed hr (opening_word hr _) (.cons (yields_optional _) <|
      .cons (yields_inner (yields_callSignature hd)) <| .cons (yields_inner (yields_block hd)) .nil) rfl
  · exact .expected

/-- No argument has a comma. -/
theorem yields_argumentList (hd : Forming d) : YieldsNode (argumentList d) := by
  have hargument : Yields (d.parse (.assignment true)) (fun n => n.Every Node.Formed ∧ 1 ≤ n.tightness) :=
    fun r hr => (hd.assignment true r hr).mono (fun n _ hn => ⟨hn.formed, hn.tight⟩)
  exact yields_node (.cons (yields_mark _) <| .cons (yields_delimited _ _ hargument (by decide)) <|
    .cons (yields_mark _) .nil) rfl

theorem yieldsAt_suffixStep (hd : Forming d) (allowCalls : Bool) (hr : r.current.Proper) (hn : n.Value k tightest) :
    YieldsAt r (suffixStep d allowCalls n)
      (fun o _ => match o with | some m => m.Value k tightest | none => n.Value k tightest) := by
  refine .look (a := r) (fun _ => rfl) ?_
  split
  · exact yieldsAt_larger (yieldsAt_grown hr hn (.cons (yields_mark _) <| .cons yields_member .nil) rfl)
  · exact yieldsAt_larger (yieldsAt_grown hr hn (.cons (yields_mark _) <|
      .cons (yields_inner (yieldsValue_expression hd true).node) <| .cons (yields_mark _) .nil) rfl)
  · refine .ite (fun _ => ?_) (fun _ => yieldsAt_noLarger hr hn)
    exact yieldsAt_larger (yieldsAt_grown hr hn (.cons (yields_inner (yields_argumentList hd)) .nil) rfl)
  · exact yieldsAt_noLarger hr hn

theorem yieldsAt_suffixes (hd : Forming d) (allowCalls : Bool) (hr : r.current.Proper) (hn : n.Value k tightest) :
    YieldsAt r (suffixes d allowCalls n) (fun m _ => m.Value k tightest) :=
  yieldsAt_grow (P := fun m => m.Value k tightest) hr hn (fun _ _ hr' hm => yieldsAt_suffixStep hd allowCalls hr' hm)

theorem yieldsValue_callee (hd : Forming d) : YieldsValue (callee d) tightest := fun r hr =>
  .look (a := r.kind == .keyword .newKw) (fun _ => rfl) (.ite
    (fun hnew => hd .creation r hr (fun _ => beq_iff_eq.1 hnew)) (fun _ => yieldsValue_primary hd r hr))

/-- The form that starts with `new`. -/
theorem yieldsAt_creation (hd : Forming d) (hr : r.current.Proper) (hk : r.kind = .keyword .newKw) :
    YieldsAt r (creation d) (fun n _ => n.Value r.kind tightest) := by
  refine (yieldsAt_enter hr).bind (fun _ r₁ hr₁ hk₁ => ?_)
  have hend : r₁.kind ≠ .endOfFile := by rw [hk₁, hk]; decide
  have hsemicolon : r₁.kind ≠ .punctuation .semicolon := by rw [hk₁, hk]; decide
  refine (opening_current hr₁ hend hsemicolon).bind (fun keyword r₂ hr₂ hkeyword => ?_)
  obtain ⟨⟨t, rfl, ht⟩, htext⟩ := hkeyword
  refine (yieldsValue_callee hd r₂ hr₂).leaving.bind (fun target r₃ hr₃ htarget => ?_)
  refine (yieldsAt_suffixes hd false hr₃ htarget).bind (fun target r₄ hr₄ htarget => ?_)
  have hkind : t.kind = r.kind := (congrArg Lexeme.kind ht).trans hk₁
  exact yieldsAt_nodeAfter hr₄ (.cons (Slot.bears_token (ht ▸ hr₁)) <| .cons htarget.slot .nil)
    (.cons (yields_innerIf _ (yields_argumentList hd)) .nil)
    (fun _ _ => Node.startsAt_of_token (show t.lexeme.text ≠ [] from ht ▸ htext) (fun hf => hkind ▸ hf)) rfl

theorem yieldsAt_postfixed (hr : r.current.Proper) (hn : n.Value k tightest) :
    YieldsAt r (postfixed n) (fun m _ => m.Value k tightest) :=
  .look (a := r) (fun _ => rfl)
    (.ite (fun _ => yieldsAt_grown hr hn (.cons yields_current .nil) rfl) (fun _ => .pure hr hn))

/-- **An operand with its prefix and postfix operators binds most tightly.** -/
theorem yieldsValue_unary (hd : Forming d) : YieldsValue (unary d) tightest := by
  intro r hr
  refine YieldsAt.nested hr (fun r hr hk => ?_)
  rw [← hk]
  refine .look (a := r) (fun _ => rfl) (.ite (fun hprefix => ?_) (fun _ => .ite (fun _ => ?_) (fun _ => ?_)))
  · have hopening : Opening r current :=
      opening_current hr (fun h => by rw [atPrefixOperator, h] at hprefix; cases hprefix)
        (fun h => by rw [atPrefixOperator, h] at hprefix; cases hprefix)
    exact yieldsAt_headed hr hopening (.cons (yields_operand hd.unary) .nil) rfl
  · exact yieldsAt_headed hr (opening_mark hr (by decide)) (.cons (yields_inner hd.type) <| .cons (yields_mark _) <|
      .cons (yields_operand hd.unary) .nil) rfl
  · refine (yieldsValue_callee hd r hr).bind (fun n r₁ hr₁ hn => ?_)
    exact (yieldsAt_suffixes hd true hr₁ hn).bind (fun m r₂ hr₂ hm => yieldsAt_postfixed hr₂ hm)

/-! ## Operators -/

/-- How an operand stands in front of an operator: it binds more tightly than what was asked for, and as tightly as the
operator asks for if it is taken in. -/
def BeforeOperator (k : TokenKind) (above : Nat) (allowIn : Bool) (n : Node) (r : Reading) : Prop :=
  n.Value k (min (above + 2) tightest) ∧
    (above < r.kind.precedence allowIn → r.kind.precedence allowIn + 1 ≤ n.tightness)

theorem yieldsAt_binaryStep (hd : Forming d) (above : Nat) (allowIn : Bool) (hr : r.current.Proper)
    (hn : BeforeOperator k above allowIn n r) :
    YieldsAt r (binaryStep d above allowIn n) (fun o r' => match o with
      | some m => BeforeOperator k above allowIn m r'
      | none => n.Value k (min (above + 2) tightest) ∧ r'.kind.precedence allowIn ≤ above) := by
  refine .look (a := r.kind) (fun _ => rfl) (.ite (fun hlt => ?_) (fun hle => .pure hr ⟨hn.1, Nat.le_of_not_lt hle⟩))
  have hpos : 0 < r.kind.precedence allowIn := Nat.lt_of_le_of_lt (Nat.zero_le _) hlt
  have hprecedence := TokenKind.precedence_eq_of_pos hpos
  have hten := r.kind.precedence_lt allowIn
  have hleft : r.kind.leftDemand ≤ n.tightness := by
    unfold TokenKind.leftDemand
    rw [hprecedence, if_pos hpos]
    exact hn.2 hlt
  have hright : r.kind.rightDemand = min (r.kind.precedence allowIn + 2) tightest := by
    unfold TokenKind.rightDemand tightest
    rw [hprecedence, if_pos hpos]
    omega
  have htightness : r.kind.tightness = r.kind.precedence allowIn + 1 := by
    unfold TokenKind.tightness
    rw [hprecedence, if_pos hpos]
  refine ((yieldsAt_binaryNode (R := fun r' => r'.kind.precedence allowIn ≤ r.kind.precedence allowIn) hr hn.1
    (yieldsAt_take.map (fun t _ ht => ⟨t, rfl, ht⟩)) hleft (fun r' hr' => ?_)).map (fun m r' hm => ?_))
  · exact (hd.binary _ allowIn hr').mono (fun m _ hm => ⟨⟨hm.1.formed, hright ▸ hm.1.tight⟩, hm.2⟩)
  · obtain ⟨hm, hbehind⟩ := hm
    refine ⟨hm.weaken (by rw [htightness]; unfold tightest; omega), fun _ => ?_⟩
    have htight := hm.tight
    rw [htightness] at htight
    omega

/-- **Operands of binary operators bind more tightly than the operator in front**, and no operator behind them does. -/
theorem yieldsAt_binary (hd : Forming d) (above : Nat) (allowIn : Bool) (hr : r.current.Proper) :
    YieldsAt r (binary d above allowIn) (fun n r' => Goal.Meets r.kind n r' (.binary above allowIn)) := by
  refine (hd.unary r hr).bind (fun n r₁ hr₁ hn => ?_)
  have hbefore : BeforeOperator r.kind above allowIn n r₁ := by
    refine ⟨hn.weaken (Nat.min_le_right _ _), fun _ => Nat.le_trans ?_ hn.tight⟩
    have hten := r₁.kind.precedence_lt allowIn
    unfold tightest
    omega
  exact yieldsAt_growUpTo (I := BeforeOperator r.kind above allowIn)
    (J := fun n r' => n.Value r.kind (min (above + 2) tightest) ∧ r'.kind.precedence allowIn ≤ above)
    (fun m r' hr' hm => yieldsAt_binaryStep hd above allowIn hr' hm) _ hr₁ hbefore

theorem yieldsValue_conditional (hd : Forming d) (allowIn : Bool) : YieldsValue (conditional d allowIn) 1 := by
  intro r hr
  refine (hd.binary 0 allowIn hr).bind (fun n r₁ hr₁ hn => ?_)
  refine .look (a := r₁.kind == .punctuation .question) (fun _ => rfl) (.ite (fun _ => ?_) (fun _ => .pure hr₁ ?_))
  · exact yieldsAt_grown hr₁ hn.1 (.cons (yields_mark _) <| .cons (yields_inner (hd.assignment true).node) <|
      .cons (yields_mark _) <| .cons (yields_inner (hd.assignment allowIn).node) .nil) rfl
  · exact hn.1.weaken (by decide)

theorem TokenKind.tightness_of_isAssignment {op : TokenKind} (h : op.isAssignment = true) :
    op.leftDemand = 0 ∧ op.rightDemand = 1 ∧ op.tightness = 1 := by
  unfold TokenKind.leftDemand TokenKind.rightDemand TokenKind.tightness
  have hzero := TokenKind.isAssignment_precedence h
  have hcomma : op ≠ .punctuation .comma := by
    rintro rfl
    cases h
  rw [hzero, if_neg (Nat.lt_irrefl 0), if_neg (Nat.lt_irrefl 0), if_neg (Nat.lt_irrefl 0), if_pos h, if_neg hcomma]
  exact ⟨rfl, rfl, rfl⟩

/-- **An expression without commas binds more tightly than one with them.** -/
theorem yieldsValue_assignment (hd : Forming d) (allowIn : Bool) : YieldsValue (assignment d allowIn) 1 := by
  intro r hr
  refine YieldsAt.nested hr (fun r hr hk => ?_)
  rw [← hk]
  refine (yieldsAt_arrowFunction? hd allowIn hr).bind (fun arrow? r₁ hr₁ harrow => ?_)
  cases arrow? with
  | some arrow => exact .pure hr₁ (harrow.1 arrow rfl)
  | none =>
    rw [← harrow.2 rfl]
    refine (yieldsValue_conditional hd allowIn r₁ hr₁).bind (fun n r₂ hr₂ hn => .look (a := r₂.kind) (fun _ => rfl) ?_)
    refine .ite (fun hassign => ?_) (fun _ => .pure hr₂ hn)
    obtain ⟨hleft, hright, htightness⟩ := TokenKind.tightness_of_isAssignment hassign
    refine (yieldsAt_binaryNode (R := fun _ => True) hr₂ hn (yieldsAt_take.map (fun t _ ht => ⟨t, rfl, ht⟩))
      (hleft ▸ Nat.zero_le _) (fun r' hr' => ?_)).mono (fun m _ hm => htightness ▸ hm.1)
    exact (hd.assignment allowIn r' hr').mono (fun m _ hm => ⟨⟨hm.formed, hright ▸ hm.tight⟩, trivial⟩)

/-! ## Variables and functions -/

theorem yields_declaratorAfter (hd : Forming d) (h : slot.Bears 0) (allowIn : Bool) :
    YieldsNode (declaratorAfter d slot allowIn) :=
  yields_nodeAfter (.cons h .nil) (.cons (yields_typeClause hd) <| .cons (yields_initializer hd allowIn) .nil) rfl

theorem yields_declarator (hd : Forming d) (allowIn : Bool) : YieldsNode (declarator d allowIn) :=
  yields_name.bind (fun _ hname => yields_declaratorAfter hd hname allowIn)

theorem yields_variableDeclaration (hd : Forming d) (allowIn : Bool) : YieldsNode (variableDeclaration d allowIn) :=
  yields_node (.cons (yields_word _) <| .cons (yields_commaList (yields_declarator hd allowIn)) .nil) rfl

/-- The words in front of a declaration. -/
abbrev BearModifiers (slots : List Slot) : Prop := List.Forall₂ Slot.Bears [0, 0] slots

theorem bearModifiers_none : BearModifiers noModifiers := .cons Slot.bears_absent <| .cons Slot.bears_absent .nil

theorem yields_variableStatement (hd : Forming d) (h : BearModifiers modifiers) :
    YieldsNode (variableStatement d modifiers) :=
  yields_nodeAfter h (.cons (yields_inner (yields_variableDeclaration hd true)) <| .cons yields_statementEnd .nil) rfl

theorem yields_bodyOrEnd (hd : Forming d) :
    Yields (bodyOrEnd d) (fun slots => List.Forall₂ Slot.Bears [0, 0] slots) :=
  .look (fun _ => .ite (yields_parts (.cons (yields_inner (yields_block hd)) <| .cons yields_nothing .nil))
    (yields_parts (.cons yields_nothing <| .cons yields_statementEnd .nil)))

theorem yields_nodeWithBody (hd : Forming d) {kind : NodeKind} {before : List Slot} {rest : List Part}
    {front behind : List Nat} (hbefore : List.Forall₂ Slot.Bears front before)
    (hrest : List.Forall₂ YieldsSlot behind rest) (hkind : isInert kind (front ++ behind ++ [0, 0]) = true) :
    YieldsNode (nodeWithBody d kind before rest) :=
  (yields_parts hrest).bind (fun _ hslots => (yields_bodyOrEnd hd).bind (fun _ hbody =>
    yields_fresh (List.rel_append (List.rel_append hbefore hslots) hbody) hkind))

theorem yields_functionDeclaration (hd : Forming d) (h : BearModifiers modifiers) :
    YieldsNode (functionDeclaration d modifiers) :=
  yields_nodeWithBody hd h (.cons (yields_word _) <| .cons yields_name <|
    .cons (yields_inner (yields_callSignature hd)) .nil) rfl

/-! ## Statements -/

theorem yields_substatement (hd : Forming d) : YieldsSlot 0 (substatement d) := yields_inner hd.statement

theorem yields_expression (hd : Forming d) (allowIn : Bool) : YieldsNode (expression d allowIn) :=
  (yieldsValue_expression hd allowIn).node

theorem yields_whole (hd : Forming d) : YieldsSlot 0 (whole d) := yields_inner (yields_expression hd true)

theorem yields_jumpLabel : YieldsSlot 0 jumpLabel := .look (fun _ => .ite yields_current yields_nothing)

theorem yields_looseEnd : YieldsSlot 0 looseEnd :=
  .look (fun _ => .ite yields_current (yields_tokenSlot yields_emptySemicolon))

theorem yields_elseClause (hd : Forming d) : YieldsNode (elseClause d) :=
  yields_node (.cons (yields_word _) <| .cons (yields_substatement hd) .nil) rfl

theorem yields_loopStart (hd : Forming d) :
    Yields (loopStart d) (fun slots => List.Forall₂ Slot.Bears [0, 0] slots) := by
  refine .look (fun r => .ite ?_ (.ite ?_ ?_))
  · exact yields_parts (.cons (yields_inner (yields_variableDeclaration hd false)) <| .cons yields_nothing .nil)
  · exact yields_parts (.cons yields_nothing <| .cons yields_nothing .nil)
  · exact yields_parts (.cons yields_nothing <| .cons (yields_inner (yields_expression hd false)) .nil)

theorem yields_forStatement (hd : Forming d) : YieldsNode (forStatement d) := by
  refine (yields_parts (.cons (yields_word _) <| .cons (yields_mark _) .nil)).bind (fun head hhead => ?_)
  refine (yields_loopStart hd).bind (fun start hstart => .look (fun inLoop => .ite ?_ ?_))
  · have hin : YieldsNode (nodeAfter .forInStatement (head ++ start)
        [word .inKw, whole d, mark .closeParen, substatement d]) :=
      yields_nodeAfter (List.rel_append hhead hstart) (.cons (yields_word _) <| .cons (yields_whole hd) <|
        .cons (yields_mark _) <| .cons (yields_substatement hd) .nil) rfl
    exact .ite (Yields.bind (P := fun _ => False) .fault (fun _ h => h.elim)) hin
  · exact yields_nodeAfter (List.rel_append hhead hstart) (.cons (yields_mark _) <|
      .cons (yields_innerIf _ (yields_expression hd true)) <| .cons (yields_mark _) <|
      .cons (yields_innerIf _ (yields_expression hd true)) <| .cons (yields_mark _) <|
      .cons (yields_substatement hd) .nil) rfl

theorem yields_returned (hd : Forming d) : YieldsSlot 0 (returned d) := yields_innerIf _ (yields_expression hd true)

theorem yields_onSameLine (hd : Forming d) : YieldsSlot 0 (onSameLine d) :=
  .look (fun _ => .ite .fault (yields_whole hd))

theorem yields_catchClause (hd : Forming d) : YieldsNode (catchClause d) :=
  yields_node (.cons (yields_word _) <| .cons (yields_mark _) <| .cons yields_name <| .cons (yields_mark _) <|
    .cons (yields_inner (yields_block hd)) .nil) rfl

theorem yields_finallyClause (hd : Forming d) : YieldsNode (finallyClause d) :=
  yields_node (.cons (yields_word _) <| .cons (yields_inner (yields_block hd)) .nil) rfl

theorem yields_tryStatement (hd : Forming d) : YieldsNode (tryStatement d) := by
  have hhandlers : Yields (handlers d) (fun slots => List.Forall₂ Slot.Bears [0, 0] slots) :=
    (yields_parts (.cons (yields_innerIf _ (yields_catchClause hd)) <|
      .cons (yields_innerIf _ (yields_finallyClause hd)) .nil)).bind (fun slots hslots => .ite .expected (.pure hslots))
  refine (yields_parts (.cons (yields_word _) <| .cons (yields_inner (yields_block hd)) .nil)).bind
    (fun slots hslots => hhandlers.bind (fun handled hhandled => ?_))
  exact yields_fresh (List.rel_append hslots hhandled) rfl

theorem yields_clauseStatements (hd : Forming d) : YieldsSlot 0 (clauseStatements d) :=
  (yields_membersUntil _ hd.statement _).map (fun _ hns => Slot.bears_list hns)

theorem yields_switchClause (hd : Forming d) : YieldsNode (switchClause d) := by
  refine .look (fun k => ?_)
  split
  · exact yields_node (.cons (yields_word _) <| .cons (yields_whole hd) <| .cons (yields_mark _) <|
      .cons (yields_clauseStatements hd) .nil) rfl
  · exact yields_node (.cons (yields_word _) <| .cons (yields_mark _) <| .cons (yields_clauseStatements hd) .nil) rfl
  · exact .expected

theorem yields_switchClauses (hd : Forming d) : YieldsSlot 0 (switchClauses d) :=
  (yields_membersUntil _ (yields_switchClause hd) _).map (fun _ hns => Slot.bears_list hns)

theorem yields_wordStatement (hd : Forming d) {k : Keyword} {p : Parser Node} (h : wordStatement d k = some p) :
    YieldsNode p := by
  unfold wordStatement at h
  split at h <;> cases h
  · exact yields_variableStatement hd bearModifiers_none
  · exact yields_functionDeclaration hd bearModifiers_none
  · exact yields_node (.cons (yields_word _) <| .cons (yields_mark _) <| .cons (yields_whole hd) <|
      .cons (yields_mark _) <| .cons (yields_substatement hd) <| .cons (yields_innerIf _ (yields_elseClause hd)) .nil) rfl
  · exact yields_node (.cons (yields_word _) <| .cons (yields_substatement hd) <| .cons (yields_word _) <|
      .cons (yields_mark _) <| .cons (yields_whole hd) <| .cons (yields_mark _) <| .cons yields_looseEnd .nil) rfl
  · exact yields_node (.cons (yields_word _) <| .cons (yields_mark _) <| .cons (yields_whole hd) <|
      .cons (yields_mark _) <| .cons (yields_substatement hd) .nil) rfl
  · exact yields_forStatement hd
  · exact yields_node (.cons (yields_word _) <| .cons yields_jumpLabel <| .cons yields_statementEnd .nil) rfl
  · exact yields_node (.cons (yields_word _) <| .cons yields_jumpLabel <| .cons yields_statementEnd .nil) rfl
  · exact yields_node (.cons (yields_word _) <| .cons (yields_returned hd) <| .cons yields_statementEnd .nil) rfl
  · exact yields_node (.cons (yields_word _) <| .cons (yields_onSameLine hd) <| .cons yields_statementEnd .nil) rfl
  · exact yields_tryStatement hd
  · exact yields_node (.cons (yields_word _) <| .cons (yields_mark _) <| .cons (yields_whole hd) <|
      .cons (yields_mark _) <| .cons (yields_mark _) <| .cons (yields_switchClauses hd) <| .cons (yields_mark _) .nil) rfl
  · exact yields_node (.cons (yields_word _) <| .cons (yields_mark _) <| .cons (yields_whole hd) <|
      .cons (yields_mark _) <| .cons (yields_substatement hd) .nil) rfl
  · exact yields_node (.cons (yields_word _) <| .cons yields_statementEnd .nil) rfl

/-- **An expression that is a statement does not start with `function`**, since what does is a declaration. -/
theorem yieldsAt_expressionStatement (hd : Forming d) (hr : r.current.Proper) (hk : r.kind ≠ .keyword .functionKw) :
    YieldsAt r (expressionStatement d) (fun n _ => n.Every Node.Formed) := by
  refine (yieldsAt_twoParts (yieldsValue_expression hd true r hr) yields_statementEnd).bind (fun slots r' hr' hslots => ?_)
  obtain ⟨m, s, rfl, hm, hs⟩ := hslots
  refine Yields.lift (fun next => ?_) r' hr'
  have hall : List.Forall₂ Slot.Bears [0, 0] [.node m, s] := .cons hm.slot <| .cons hs .nil
  refine Node.formed_mk hall (Node.bound_of_bears hall (by decide) rfl)
    (fun h => by cases h) (fun _ t ht => ?_)
  have hstarts : (Node.mk next .expressionStatement [.node m, s]).StartsAt r.kind := Node.startsAt_of_node hm.starts
  obtain ⟨u, us, htokens, -, hf⟩ := hstarts
  rw [List.nil_append, htokens] at ht
  cases ht
  exact fun hfunction => hk (hf hfunction)

theorem yields_statement (hd : Forming d) : YieldsNode (statement d) := by
  intro r hr
  refine YieldsAt.nested hr (fun r hr _ => .look (a := r) (fun _ => rfl) ?_)
  have hnot : ∀ {k : TokenKind}, r.kind = k → k ≠ .keyword .functionKw →
      YieldsAt r (expressionStatement d) (fun n _ => n.Every Node.Formed) :=
    fun hk h => yieldsAt_expressionStatement hd hr (hk ▸ h)
  split
  · exact yields_block hd r hr
  · exact Yields.here (yields_node (.cons yields_current .nil) rfl) hr
  · rename_i k hk
    cases h : wordStatement d k with
    | some p => exact yields_wordStatement hd h r hr
    | none => exact hnot hk (fun hf => by cases hf; cases h)
  · rename_i hk
    refine .ite (fun _ => ?_) (fun _ => hnot hk (by decide))
    exact Yields.here (yields_node (.cons yields_name <| .cons (yields_mark _) <|
      .cons (yields_substatement hd) .nil) rfl) hr
  · rename_i hnokeyword _
    exact yieldsAt_expressionStatement hd hr (hnokeyword _)

/-! ## Classes -/

theorem yields_memberAccessor (hd : Forming d) (h : BearModifiers modifiers) :
    YieldsNode (memberAccessor d modifiers) := by
  refine .look (fun r => .ite ?_ ?_)
  · exact yields_nodeAfter h (.cons yields_current <| .cons yields_property <|
      .cons (yields_inner (yields_parameterList hd)) <| .cons (yields_typeClause hd) <|
      .cons (yields_inner (yields_block hd)) .nil) rfl
  · exact yields_nodeAfter h (.cons yields_current <| .cons yields_property <|
      .cons (yields_inner (yields_parameterList hd)) <| .cons (yields_inner (yields_block hd)) .nil) rfl

theorem yields_methodOrField (hd : Forming d) (h : BearModifiers modifiers) :
    YieldsNode (methodOrField d modifiers) := by
  refine yields_property.bind (fun name hname => .look (fun method => .ite ?_ ?_))
  · exact yields_nodeWithBody hd (List.rel_append h (.cons hname .nil))
      (.cons (yields_inner (yields_callSignature hd)) .nil) rfl
  · exact yields_nodeAfter h (.cons (yields_inner (yields_declaratorAfter hd hname true)) <|
      .cons yields_statementEnd .nil) rfl

theorem yields_staticWord : YieldsSlot 0 staticWord := .look (fun _ => .ite yields_current yields_nothing)

theorem yields_classElement (hd : Forming d) : YieldsNode (classElement d) := by
  refine .look (fun r => .ite ?_ ?_)
  · exact yields_nodeWithBody hd .nil (.cons yields_current <| .cons (yields_inner (yields_parameterList hd)) .nil) rfl
  · refine (yields_parts (.cons (yields_access _) <| .cons yields_staticWord .nil)).bind (fun slots hslots => ?_)
    exact .look (fun r => .ite (yields_memberAccessor hd hslots) (yields_methodOrField hd hslots))

theorem yields_baseClause : YieldsNode (baseClause d) :=
  yields_node (.cons (yields_word _) <|
    .cons (yields_qualifiedName.map (fun n hn => (AreMembers.one ⟨hn, Nat.zero_le _⟩ : AreMembers 0 ([n], [])).slot)) .nil) rfl

theorem yields_implementsClause : YieldsNode (implementsClause d) :=
  yields_node (.cons (yields_word _) <| .cons (yields_commaList yields_qualifiedName) .nil) rfl

theorem yields_classDeclaration (hd : Forming d) (h : BearModifiers modifiers) :
    YieldsNode (classDeclaration d modifiers) :=
  yields_nodeAfter h (.cons (yields_word _) <| .cons yields_name <| .cons (yields_innerIf _ yields_baseClause) <|
    .cons (yields_innerIf _ yields_implementsClause) <| .cons (yields_mark _) <|
    .cons (yields_members (yields_classElement hd)) <| .cons (yields_mark _) .nil) rfl

/-! ## Interfaces, enums and namespaces -/

theorem yields_extendedInterfaces : YieldsNode (extendedInterfaces d) :=
  yields_node (.cons (yields_word _) <| .cons (yields_commaList yields_qualifiedName) .nil) rfl

theorem yields_interfaceDeclaration (hd : Forming d) (h : slot.Bears 0) : YieldsNode (interfaceDeclaration d slot) :=
  yields_nodeAfter (.cons h .nil) (.cons (yields_word _) <| .cons yields_name <|
    .cons (yields_innerIf _ yields_extendedInterfaces) <| .cons (yields_inner (yields_objectType hd)) .nil) rfl

theorem yields_enumElement (hd : Forming d) : YieldsNode (enumElement d) :=
  yields_node (.cons yields_property <| .cons (yields_initializer hd true) .nil) rfl

theorem yields_enumDeclaration (hd : Forming d) (h : BearModifiers modifiers) :
    YieldsNode (enumDeclaration d modifiers) :=
  yields_nodeAfter h (.cons (yields_word _) <| .cons yields_name <| .cons (yields_mark _) <|
    .cons (yields_delimited _ _ (yields_enumElement hd).loose (by decide)) <| .cons (yields_mark _) .nil) rfl

theorem yields_moduleName : YieldsNode (moduleName d) := fun r hr =>
  .look (a := r.kind == .string) (fun _ => rfl) (.ite (fun hstring => by
    have hkind : r.kind = .string := beq_iff_eq.1 hstring
    have hopens := opening_current hr (by rw [hkind]; decide) (by rw [hkind]; decide)
    exact (yieldsAt_headed hr hopens .nil rfl : YieldsAt r _ (fun n _ => n.Value r.kind tightest)).mono
      (fun _ _ hn => hn.formed))
    (fun _ => yields_qualifiedName.here hr))

theorem yields_moduleDeclaration (hd : Forming d) (h : BearModifiers modifiers) :
    YieldsNode (moduleDeclaration d modifiers) :=
  yields_nodeAfter h (.cons yields_current <| .cons (yields_inner yields_moduleName) <| .cons (yields_mark _) <|
    .cons (yields_members hd.moduleElement) <| .cons (yields_mark _) .nil) rfl

/-! ## Module elements and programs -/

theorem yields_declareWord : YieldsSlot 0 declareWord := .look (fun _ => .ite yields_current yields_nothing)

theorem yields_moduleElement (hd : Forming d) : YieldsNode (moduleElement d) := by
  refine (yields_optional _).bind (fun exported hexported => ?_)
  refine yields_declareWord.bind (fun declared hdeclared => .look (fun r => ?_))
  have hmodifiers : BearModifiers [exported, declared] := .cons hexported <| .cons hdeclared .nil
  split
  · exact yields_classDeclaration hd hmodifiers
  · exact .ite .fault (yields_interfaceDeclaration hd hexported)
  · exact yields_enumDeclaration hd hmodifiers
  · exact yields_functionDeclaration hd hmodifiers
  · exact yields_variableStatement hd hmodifiers
  · exact .ite (yields_moduleDeclaration hd hmodifiers) (.ite .expected hd.statement)

theorem yieldsAt_goal (hd : Forming d) (hr : r.current.Proper) :
    ∀ g : Goal, (g = .creation → r.kind = .keyword .newKw) → YieldsAt r (goal d g) (fun n r' => g.Meets r.kind n r')
  | .type, _ => yields_typeNode hd r hr
  | .assignment allowIn, _ => yieldsValue_assignment hd allowIn r hr
  | .unary, _ => yieldsValue_unary hd r hr
  | .binary above allowIn, _ => yieldsAt_binary hd above allowIn hr
  | .creation, hnew => yieldsAt_creation hd hr (hnew rfl)
  | .statement, _ => yields_statement hd r hr
  | .moduleElement, _ => yields_moduleElement hd r hr

/-- **Every level of recursion reads formed nodes if the one below it does**, and the lowest reads nothing. -/
theorem forming_goalUpTo (loop : Nat) : ∀ levels, Forming ⟨loop, goalUpTo loop levels⟩
  | 0 => fun _ _ _ _ => .fault
  | levels + 1 => fun g _ hr hnew => yieldsAt_goal (d := ⟨loop, goalUpTo loop levels⟩) (forming_goalUpTo loop levels) hr g hnew

theorem yields_program (hd : Forming d) : YieldsNode (program d) := by
  have hend : YieldsSlot 0 program.endOfFile := fun r hr => .look (a := r) (fun _ => rfl)
    ((Yields.here (.lift (P := fun t : Token => t.lexeme.Proper) (fun _ => hr)) hr).map
      (fun _ _ ht => Slot.bears_token ht))
  exact yields_node (.cons ((yields_membersUntil _ hd.moduleElement _).map (fun _ hns => Slot.bears_list hns)) <|
    .cons hend .nil) rfl

end Parser

/-- **Every node of a parsed tree is formed**: its tokens denote what their characters say, no operand in it needs
parentheses, and what computes a value starts with characters. -/
theorem parseFrom_formed {text : List Char} {tree : Node} {i k : ObjectId} (h : parseFrom text i = (.ok tree, k)) :
    tree.Every Node.Formed := by
  obtain ⟨r, s', hr, -, hprogram⟩ := parseFrom_eq_ok h
  exact (Parser.yields_program (Parser.forming_goalUpTo _ _) r (Reading.ofText_proper hr) i tree s' hprogram).2

/-- What is read from a text has proper tokens. -/
theorem parseFrom_proper {text : List Char} {tree : Node} {i k : ObjectId} (h : parseFrom text i = (.ok tree, k)) :
    tree.Every (fun n => ∀ t ∈ n.tokens, t.lexeme.Proper) := fun n hn =>
  (Node.every_tokens n).2 (((parseFrom_formed h).below hn).mono (fun _ hm => hm.proper))

end Downlevel
