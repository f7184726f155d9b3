import Downlevel.Proofs.Outline.NamespaceRows
/-!
# Proofs.Outline.EnumValues — the values of the members of an enum

An enum becomes a variable and the call of a wrapper in which each member is recorded with its value.  What the value is
is said here by the members in front and their own values, as a row (`EnumMember.IsValue`); lowering goes through the
members once and keeps what is known of the one in front, which says as much of the members so far as the next value
needs (`PreviousValue.After`).
-/
namespace Downlevel

/-! ## Constants -/

/-- **The number that an expression denotes**, if it is a numeric literal, with signs and parentheses around it or none. -/
inductive Node.Denotes : Node → Binary64 → Prop
  | literal {n : Node} {v : LiteralExpression} {x : Binary64} (view : n.view? LiteralExpression = some v)
    (value : v.literal.value.number? = some x) : Denotes n x
  | negative {n : Node} {v : PrefixUnaryExpression} {x : Binary64} (view : n.view? PrefixUnaryExpression = some v)
    (sign : v.operator.kind = .punctuation .minus) (operand : Denotes v.operand x) : Denotes n x.neg
  | positive {n : Node} {v : PrefixUnaryExpression} {x : Binary64} (view : n.view? PrefixUnaryExpression = some v)
    (sign : v.operator.kind = .punctuation .plus) (operand : Denotes v.operand x) : Denotes n x
  | parenthesized {n : Node} {v : ParenthesizedExpression} {x : Binary64} (view : n.view? ParenthesizedExpression = some v)
    (expression : Denotes v.expression x) : Denotes n x

section

variable {n : Node} {x : Binary64} {levels : Nat}

theorem Node.denotes_of_constantUpTo? : ∀ {levels : Nat} {n : Node} {x : Binary64},
    n.constantUpTo? levels = some x → n.Denotes x
  | 0, _, _, h => by cases h
  | levels + 1, n, x, h => by
    unfold constantUpTo? at h
    split at h
    · exact .literal ‹_› h
    · rename_i unary hview _
      obtain ⟨operand, hoperand, h⟩ := Option.bind_eq_some_iff.1 h
      split at h
      · cases h
        exact .negative hview ‹_› (denotes_of_constantUpTo? hoperand)
      · cases h
        exact .positive hview ‹_› (denotes_of_constantUpTo? hoperand)
      · cases h
    · exact .parenthesized ‹_› (denotes_of_constantUpTo? h)
    · cases h

theorem Node.height_pos (n : Node) : 0 < n.height := by
  cases n
  exact Nat.succ_pos _

/-- What stands in a slot of a node has a level less. -/
theorem Node.exists_levels_of_view? {α : Type} [NodeView α] [SchemaView α] {v : α} {m : Node} (hv : n.view? α = some v)
    (hm : .node m ∈ NodeView.toSlots v) (hn : n.height ≤ levels + 1) : ∃ k, levels = k + 1 ∧ m.height ≤ k + 1 := by
  have hlt : m.height < n.height := by
    rcases Node.mem_slots_of_view? hv _ hm with hs | hs
    · cases hs
    · exact Node.height_lt_of_mem_children (List.mem_flatMap.2 ⟨_, hs, List.mem_singleton_self m⟩)
  have hpos := m.height_pos
  exact ⟨levels - 1, by omega, by omega⟩

theorem Node.constantUpTo?_literal {v : LiteralExpression} (hv : n.view? LiteralExpression = some v) :
    n.constantUpTo? (levels + 1) = v.literal.value.number? := by
  rw [Node.constantUpTo?, hv]

theorem Node.constantUpTo?_prefixUnary {v : PrefixUnaryExpression} (hv : n.view? PrefixUnaryExpression = some v)
    (hoperand : v.operand.constantUpTo? levels = some x) : n.constantUpTo? (levels + 1) =
      match v.operator.kind with
      | .punctuation .minus => some x.neg
      | .punctuation .plus => some x
      | _ => none := by
  rw [Node.constantUpTo?, Node.view?_eq_none (α := LiteralExpression) (by rw [Node.kind_of_view? hv]; decide), hv]
  dsimp only
  rw [hoperand]
  rfl

theorem Node.constantUpTo?_parenthesized {v : ParenthesizedExpression} (hv : n.view? ParenthesizedExpression = some v) :
    n.constantUpTo? (levels + 1) = v.expression.constantUpTo? levels := by
  rw [Node.constantUpTo?, Node.view?_eq_none (α := LiteralExpression) (by rw [Node.kind_of_view? hv]; decide),
    Node.view?_eq_none (α := PrefixUnaryExpression) (by rw [Node.kind_of_view? hv]; decide), hv]

/-- As many levels as the expression is high are enough. -/
theorem Node.Denotes.constantUpTo? (h : n.Denotes x) : ∀ {levels : Nat}, n.height ≤ levels + 1 →
    n.constantUpTo? (levels + 1) = some x := by
  -- Each sign and each pair of parentheses takes a level, and the operand is that much lower.
  induction h with
  | literal hv hx => exact fun _ => (constantUpTo?_literal hv).trans hx
  | @negative n v x hv hsign _ ih =>
    intro levels hlevels
    obtain ⟨k, rfl, hk⟩ := Node.exists_levels_of_view? (m := v.operand) hv (by simp [NodeView.toSlots]) hlevels
    rw [constantUpTo?_prefixUnary hv (ih hk), hsign]
  | @positive n v x hv hsign _ ih =>
    intro levels hlevels
    obtain ⟨k, rfl, hk⟩ := Node.exists_levels_of_view? (m := v.operand) hv (by simp [NodeView.toSlots]) hlevels
    rw [constantUpTo?_prefixUnary hv (ih hk), hsign]
  | @parenthesized n v x hv _ ih =>
    intro levels hlevels
    obtain ⟨k, rfl, hk⟩ := Node.exists_levels_of_view? (m := v.expression) hv (by simp [NodeView.toSlots]) hlevels
    rw [constantUpTo?_parenthesized hv, ih hk]

/-- **The number that is read off an expression is the one that it denotes.** -/
theorem Node.constant?_eq_some_iff : n.constant? = some x ↔ n.Denotes x :=
  ⟨denotes_of_constantUpTo?, fun h => by
    obtain ⟨levels, hlevels⟩ := Nat.exists_eq_succ_of_ne_zero n.height_pos.ne'
    rw [Node.constant?, hlevels]
    exact h.constantUpTo? (by omega)⟩

end

/-! ## Members -/

namespace Code

variable {E t name : Token} {n : Node} {j : ObjectId}

/-- The expression `E._map`. -/
def reverseMap (E : Token) : Node := member (Code.name E) (spelled "_map")

/-- The statement `E._map = [];`. -/
def reverseMapStart (E : Token) : Node := assignment (reverseMap E) emptyArray

/-- The statement `E._map[E.t = value] = "t";`. -/
def record (E t : Token) (value : Node) : Node :=
  assignment (element (reverseMap E) (assign (memberNamed (Code.name E) t) value)) (string t.valueText)

theorem memberNamed_congr {t t' : Token} (h : t.outline = t'.outline) : memberNamed n t = memberNamed n t' := by
  show memberNamed n t.outline = memberNamed n t'.outline
  rw [h]

theorem outline_reverseMap : (LoweringContext.reverseMap E j).1.outline = reverseMap E := by
  simp only [LoweringContext.reverseMap, Build.memberPath, Fresh.bind_apply, Fresh.pure_apply, outline_memberAccess,
    outline_nameExpression]
  rfl

theorem outline_reverseMapStart : (LoweringContext.reverseMapStart E j).1.outline = reverseMapStart E := by
  simp only [LoweringContext.reverseMapStart, Fresh.bind_apply, outline_assignmentStatement, outline_reverseMap,
    outline_emptyArray]
  rfl

theorem outline_enumRecord : (LoweringContext.enumRecord E t n j).1.outline = record E t n.outline := by
  simp only [LoweringContext.enumRecord, Fresh.bind_apply, outline_assignmentStatement, outline_elementAccess,
    outline_reverseMap, outline_assignment, outline_memberTarget, outline_nameExpression, outline_stringLiteral]
  rfl

end Code

/-- A member of an enum: its name, and what became of the value that it is given. -/
structure EnumMember where
  name : Token
  given : Option Node

/-- **The value of a member** of the enum `E`, by the members in front and the value that it is given: that value; its
index, if no member so far is given a value; and else what the last member with a value says, which is the number that is
one more for each member since, if that value is a constant, and one more than the member right in front if it is not. -/
inductive EnumMember.IsValue (E : Token) : List EnumMember → Option Node → Node → Prop
  | given {before : List EnumMember} (value : Node) : IsValue E before (some value) value
  | ordinal {before : List EnumMember} (implicit : ∀ m ∈ before, m.given = none) :
    IsValue E before none (Code.number (.ofNat before.length))
  | counted {front rest : List EnumMember} {last : EnumMember} {value : Node} {x : Binary64} (given : last.given = some value)
    (constant : value.Denotes x) (implicit : ∀ m ∈ rest, m.given = none) :
    IsValue E (front ++ last :: rest) none (Code.number ((fun y => y.add (.ofNat 1))^[rest.length + 1] x))
  | computed {front rest : List EnumMember} {last : EnumMember} {value : Node} (given : last.given = some value)
    (computed : ∀ x, ¬ value.Denotes x) (implicit : ∀ m ∈ rest, m.given = none) :
    IsValue E (front ++ last :: rest) none (Code.binary
      (Code.memberNamed (Code.name E) (rest.getLastD last).name) .plus (Code.numeral ['1']))

/-- **What is known behind some members says what the next value needs of them.** -/
inductive PreviousValue.After : List EnumMember → PreviousValue → Prop
  | ordinal {before : List EnumMember} (implicit : ∀ m ∈ before, m.given = none) : After before (.ordinal before.length)
  | known {front rest : List EnumMember} {last : EnumMember} {value : Node} {x : Binary64} (given : last.given = some value)
    (constant : value.Denotes x) (implicit : ∀ m ∈ rest, m.given = none) :
    After (front ++ last :: rest) (.known ((fun y => y.add (.ofNat 1))^[rest.length] x))
  | member {front rest : List EnumMember} {last : EnumMember} {value : Node} {t : Token} (given : last.given = some value)
    (computed : ∀ x, ¬ value.Denotes x) (implicit : ∀ m ∈ rest, m.given = none)
    (name : t.outline = (rest.getLastD last).name.outline) : After (front ++ last :: rest) (.member t)

namespace PreviousValue.After

variable {before : List EnumMember} {previous : PreviousValue} {E t name : Token} {value : Node} {j : ObjectId}

theorem constant {x : Binary64} (h : value.constant? = some x) : After (before ++ [⟨t, some value⟩]) (.known x) :=
  .known rfl (Node.constant?_eq_some_iff.1 h) (fun _ hm => by cases hm)

theorem computed (h : value.constant? = none) (ht : name.outline = t.outline) :
    After (before ++ [⟨t, some value⟩]) (.member name) :=
  .member rfl (fun x hx => by rw [Node.constant?_eq_some_iff.2 hx] at h; cases h) (fun _ hm => by cases hm) ht

theorem forall_given_append {rest : List EnumMember} (h : ∀ m ∈ rest, m.given = none) :
    ∀ m ∈ rest ++ [⟨t, none⟩], m.given = none :=
  List.forall_mem_append.2 ⟨h, fun m hm => by rw [List.mem_singleton.1 hm]⟩

/-- **A member that is given no value** has the value that the members in front say, and what is known behind it says what
the next value needs. -/
theorem implicit (h : previous.After before) (ht : name.outline = t.outline) :
    EnumMember.IsValue E before none (LoweringContext.implicitValue E.outline name previous j).1.1.outline ∧
      (LoweringContext.implicitValue E.outline name previous j).1.2.After (before ++ [⟨t, none⟩]) := by
  cases h with
  | ordinal hnone =>
    refine ⟨?_, ?_⟩
    · show EnumMember.IsValue E before none (LoweringContext.numberExpression _ j).1.outline
      rw [Code.outline_numberExpression]
      exact .ordinal hnone
    · have hafter := After.ordinal (forall_given_append (t := t) hnone)
      rwa [List.length_append] at hafter
  | @known front rest last value x hgiven hx hnone =>
    -- The number behind a member is one more than the one in front of it, and the row of members without a value is longer.
    refine ⟨?_, ?_⟩
    · show EnumMember.IsValue E _ none (LoweringContext.numberExpression _ j).1.outline
      rw [Code.outline_numberExpression, ← Function.iterate_succ_apply' (fun y : Binary64 => y.add (.ofNat 1))]
      exact .counted hgiven hx hnone
    · have hafter : After (front ++ last :: (rest ++ [⟨t, none⟩])) _ := .known hgiven hx (forall_given_append hnone)
      rw [List.length_append, List.length_singleton, Function.iterate_succ_apply'] at hafter
      rwa [List.append_assoc, List.cons_append]
  | @member front rest last value u hgiven hx hnone hlast =>
    refine ⟨?_, ?_⟩
    · have hvalue : EnumMember.IsValue E (front ++ last :: rest) none _ := .computed hgiven hx hnone
      rw [← Code.memberNamed_congr hlast] at hvalue
      simp only [LoweringContext.implicitValue, Fresh.bind_apply, Fresh.pure_apply, Code.outline_binary,
        Code.outline_memberTarget, Code.outline_nameExpression, Code.outline_numericLiteral, Code.name_outline]
      exact hvalue
    · rw [List.append_assoc, List.cons_append]
      refine After.member hgiven hx (forall_given_append hnone) ?_
      rw [List.getLastD_concat]
      exact ht

end PreviousValue.After

/-! ## Records -/

/-- What a member of an enum becomes: it keeps its name, and the value that it is given is lowered. -/
inductive Translation.MakesMember (T : Translation) : Node → EnumMember → Prop
  | mk {n : Node} {e : EnumElement} {given : Option Node} (view : n.view? EnumElement = some e)
    (lowers : List.Forall₂ (fun value lowered => ∃ marks, T.LowersTo value [lowered] marks) (Node.clauseValue e.value)
      given.toList) : MakesMember T n ⟨e.name, given⟩

/-- The members of an enum, without what the list has for a member behind its last comma. -/
def EnumDeclaration.elements (v : EnumDeclaration) : List Node := v.members.members.filter (fun n => n.kind == .enumElement)

/-- **Each member has its value.** -/
abbrev EnumMember.AreValues (E : Token) : List EnumMember → List EnumMember → List Node → Prop :=
  InTurn (fun before m value => EnumMember.IsValue E before m.given value)

section

variable {W : Registry} {T : Translation} {n : Node} {levels : Nat} {E : Token} {before : List EnumMember}
  {previous : PreviousValue} {e : EnumElement}

namespace Draft

/-- A member of an enum has the value that the members in front say. -/
theorem notes_enumValue_isValue (hheld : T.tree.Held W) (hn : n ∈ T.tree.all) (hview : n.view? EnumElement = some e)
    (hprevious : previous.After before) :
    (enumValue (visitUpTo levels) E.outline (OutlineView.outline e) previous).Notes false (fun p _ => ∃ m,
      T.MakesMember n m ∧ m.name = e.name ∧ EnumMember.IsValue E before m.given p.1.outline ∧
        p.2.After (before ++ [m])) := by
  have hvalue : ∀ c ∈ e.value, c ∈ T.tree.all := fun c hc =>
    hheld.part_mem hn hview (s := .ofNode? e.value) (by simp [NodeView.toSlots]) (by simpa using hc)
  refine .viewClause hheld hvalue (fun hnone => ?_) (fun clause value hgiven hmem hclause => ?_)
  · obtain ⟨hvalue, hafter⟩ := hprevious.implicit (E := E) (j := 0) (show e.name.outline.outline = e.name.outline from rfl)
    exact .make ⟨⟨e.name, none⟩, .mk hview (by rw [hnone]; exact .nil), rfl, hvalue, hafter⟩
  · dsimp only
    rw [hclause]
    refine (notes_lower_lowersTo hmem).bind (fun lowered marks hlowers => ?_)
    have hmakes : T.MakesMember n ⟨e.name, some lowered.outline⟩ :=
      .mk hview (by rw [hgiven]; exact .cons ⟨marks, hlowers⟩ .nil)
    rw [← Node.constant?_outline]
    cases hconstant : lowered.outline.constant? with
    | some x => exact .pure ⟨_, hmakes, rfl, .given _, .constant hconstant⟩
    | none => exact .pure ⟨_, hmakes, rfl, .given _, .computed hconstant rfl⟩

/-- **The records of an enum**: one for each member, with the value that the members in front say. -/
theorem notes_enumRecords_areValues (hheld : T.tree.Held W) : ∀ {ns : List Node}
    {before : List EnumMember} {previous : PreviousValue}, (∀ n ∈ ns, n ∈ T.tree.all) → previous.After before →
    (enumRecords (visitUpTo levels) E.outline (ns.map Node.outline) previous).Notes false (fun records _ => ∃ members values,
      List.Forall₂ T.MakesMember (ns.filter (fun n => n.kind == .enumElement)) members ∧
      EnumMember.AreValues E before members values ∧
      records.map Node.outline = List.zipWith (fun m value => Code.record E m.name value) members values)
  | [], _, _, _, _ => .pure ⟨[], [], .nil, .nil, rfl⟩
  | n :: ns, before, previous, hns, hprevious => by
    obtain ⟨hn, hns⟩ := List.forall_mem_cons.1 hns
    have hreads := (hheld.below hn).reads (α := EnumElement)
    rw [List.map_cons, enumRecords, List.filter_cons]
    generalize helement : n.view? EnumElement = element at hreads
    generalize n.outline.view? EnumElement = element' at hreads
    cases hreads with
    | none hother =>
      have hskipped : ¬ (n.kind == .enumElement) = true := fun h => hother (eq_of_beq h)
      rw [if_neg hskipped]
      exact notes_enumRecords_areValues hheld hns hprevious
    | @some e hkind =>
      have htaken : (n.kind == .enumElement) = true := beq_iff_eq.2 hkind
      rw [if_pos htaken]
      refine (notes_enumValue_isValue hheld hn helement hprevious).bind (fun p marks hp => .made ?_)
      obtain ⟨m, hmakes, hname, hvalue, hafter⟩ := hp
      refine (notes_enumRecords_areValues hheld hns hafter).andThen (fun records marks' hrecords => .pure ⟨rfl, ?_⟩)
      obtain ⟨members, values, hmembers, hvalues, hrow⟩ := hrecords
      refine ⟨m :: members, p.1.outline :: values, .cons hmakes hmembers, .cons hvalue hvalues, ?_⟩
      rw [List.map_cons, hrow, Code.outline_enumRecord, List.zipWith_cons_cons, hname]
      rfl

/-- **What becomes of an enum**: a variable, and the call of a wrapper with the records of its members in it. -/
theorem notes_enumDeclaration_records {v : EnumDeclaration} (hheld : T.tree.Held W)
    (hn : n ∈ T.tree.all) (hv : n.view? EnumDeclaration = some v) (hdeclared : v.declared = none) :
    (enumDeclaration (visitUpTo levels) n.outline).Notes false (fun r _ => ∃ members values,
      List.Forall₂ T.MakesMember v.elements members ∧
      EnumMember.AreValues v.name [] members values ∧
      r.nodes.map Node.outline = [Code.var v.name none, Code.statement (Code.wrapper [v.name]
        (Code.reverseMapStart v.name :: List.zipWith (fun m value => Code.record v.name m.name value) members values)
        [Code.orCreate (Code.name v.name) (Code.name v.name)])]) := by
  obtain ⟨hslots, hview⟩ := (hheld.below hn).slots_view hv
  have hmembers : ∀ m ∈ v.members.members, m ∈ T.tree.all := fun m hm =>
    hheld.part_mem hn hv (s := .separated v.members.members v.members.separators) (by simp [NodeView.toSlots]) hm
  have hkept : (OutlineView.outline v).declared.isSome = false := by
    rw [show (OutlineView.outline v).declared = v.declared.map Token.outline from rfl, hdeclared]
    rfl
  refine .view hview (.ite (fun h => absurd h (by rw [hkept]; decide)) (fun _ => .made ?_))
  have hstart : PreviousValue.After [] (.ordinal 0) := .ordinal (fun _ h => by cases h)
  refine (notes_enumRecords_areValues hheld hmembers hstart).andThen
    (fun records marks hrecords => .made (.made (.made (.made (.pure ⟨rfl, ?_⟩)))))
  obtain ⟨members, values, hmembers, hvalues, hrow⟩ := hrecords
  refine ⟨members, values, hmembers, hvalues, ?_⟩
  have hblock : (braced ((LoweringContext.reverseMapStart v.name.outline 0).1 :: records) 0).1.outline = Code.block
      (Code.reverseMapStart v.name :: List.zipWith (fun m value => Code.record v.name m.name value) members values) := by
    rw [Code.outline_braced, List.map_cons, Code.outline_reverseMapStart, hrow]
    rfl
  show [(Build.variableStatement v.name.outline none 0).1.outline, (Build.expressionStatement _ 0).1.outline] = _
  rw [Code.outline_variableStatement, Code.outline_expressionStatement]
  refine congrArg (fun call => [Code.var v.name none, Code.statement call]) ?_
  exact Code.outline_wrapper hblock

end Draft

/-- **The values of an enum.**  Of a program that is lowered, an enum becomes a variable and the call of a wrapper, if it is
not declared to be elsewhere and stands in no namespace that is.  In the wrapper stand the start of the map, one record for
each member in the order of the members, and nothing else; the value that a member is recorded with is the one that the
members in front and its own value, lowered, say. -/
theorem enum_values (T : Translation) (u n : Node) (v : EnumDeclaration) (hlower : T.outcome = .ok u)
    (hn : n ∈ T.tree.all) (hshown : ¬ T.tree.Hides n) (hv : n.view? EnumDeclaration = some v)
    (hdeclared : v.declared = none) :
    ∃ ms marks members values, T.LowersTo n ms marks ∧ u.HoldsRow ms ∧
      List.Forall₂ T.MakesMember v.elements members ∧
      EnumMember.AreValues v.name [] members values ∧
      ms = [Code.var v.name none, Code.statement (Code.wrapper [v.name]
        (Code.reverseMapStart v.name :: List.zipWith (fun m value => Code.record v.name m.name value) members values)
        [Code.orCreate (Code.name v.name) (Code.name v.name)])] := by
  have hk : n.kind = .enumDeclaration := Node.kind_of_view? hv
  obtain ⟨W, levels, r, marks, hheld, hd, hlowers, hrow⟩ := T.rule_of_shown hlower hn hshown (by rw [hk]; rfl)
  rw [Draft.rule, Node.kind_outline, hk] at hd
  obtain ⟨members, values, hmembers, hvalues, hr⟩ :=
    Draft.notes_enumDeclaration_records hheld hn hv hdeclared _ _ hd
  exact ⟨_, marks, members, values, hlowers, hrow, hmembers, hvalues, hr⟩

/-- Members without a value in front of the first value, behind a constant with a sign, behind a call, and behind a constant
in parentheses. -/
theorem enum_values_mixed : ∃ (T : Translation) (u n : Node) (v : EnumDeclaration) (ms : List Node) (marks : Marks)
    (members : List EnumMember) (values : List Node),
    T.text = "enum E \x7b A, B, C = -2, D, 'e f' = g(), H, 7 = (+1), J, \x7d".toList ∧ T.outcome = .ok u ∧
    n.view? EnumDeclaration = some v ∧ T.LowersTo n ms marks ∧ u.HoldsRow ms ∧ members.length = 8 ∧
    List.Forall₂ T.MakesMember v.elements members ∧
    EnumMember.AreValues v.name [] members values ∧
    ms = [Code.var v.name none, Code.statement (Code.wrapper [v.name]
      (Code.reverseMapStart v.name :: List.zipWith (fun m value => Code.record v.name m.name value) members values)
      [Code.orCreate (Code.name v.name) (Code.name v.name)])] := by
  generalize htext : "enum E \x7b A, B, C = -2, D, 'e f' = g(), H, 7 = (+1), J, \x7d".toList = text
  have hok : lowersFirst EnumDeclaration (fun _ v => v.declared.isNone && v.elements.length == 8) text .standard = true := by
    rw [← htext]
    simp only [String.reduceToList]
    decide +kernel
  obtain ⟨T, u, n, v, hread, hlower, hn, hshown, hv, hcheck⟩ := Translation.exists_of_lowersFirst hok
  simp only [Bool.and_eq_true, Option.isNone_iff_eq_none, beq_iff_eq] at hcheck
  obtain ⟨hdeclared, hlength⟩ := hcheck
  obtain ⟨ms, marks, members, values, hlowers, hrow, hmembers, hvalues, hms⟩ :=
    enum_values T u n v hlower hn (hshown n) hv hdeclared
  exact ⟨T, u, n, v, ms, marks, members, values, hread, hlower, hv, hlowers, hrow, hmembers.length_eq ▸ hlength, hmembers,
    hvalues, hms⟩

end

end Downlevel
