import Downlevel.Proofs.Grammar.Forms
import Downlevel.Proofs.Tree.Grouping
/-!
# Proofs.Grammar.Groups — operators in a parsed tree stand where they need no parentheses

One fact for each rule of the grammar: what it reads is settled, and quiet where the word `in` is no operator.  An
operand without binary operators is quiet anywhere, since what it holds stands between marks; expressions are quiet
where `allowIn` is false.  That the left operands of assignments and conditions bind tightly enough is known from
`Proofs.Grammar.Forms`.
-/
namespace Downlevel

/-- What is read for the goal exposes no operator `in`. -/
def Goal.quiet : Goal → Bool
  | .type => true
  | .assignment allowIn => !allowIn
  | .unary => true
  | .binary _ allowIn => !allowIn
  | .creation => true
  | .statement => false
  | .moduleElement => false

namespace Parser

/-- What is read is a settled tree. -/
abbrev GroupsNode (quiet : Bool) (p : Parser Node) : Prop := Yields p (Node.Settled quiet)

/-- What is read is a slot with settled trees. -/
abbrev GroupsSlot (quiet : Bool) (p : Part) : Prop := Yields p (Slot.Settled quiet)

/-- Every goal is read as a settled tree. -/
def Grouping (d : Descent) : Prop := ∀ g : Goal, GroupsNode g.quiet (d.parse g)

variable {d : Descent} {element : Parser Node} {p : Part} {quiet : Bool} {n : Node} {r : Reading}

theorem GroupsNode.weaken (h : GroupsNode true element) : GroupsNode quiet element := h.mono (fun _ hn => hn.weaken)

theorem GroupsSlot.weaken (h : GroupsSlot true p) : GroupsSlot quiet p := h.mono (fun _ hs m hm => (hs m hm).weaken)

/-- What is known of the outcome in two ways. -/
theorem YieldsAt.and {α : Type} {p : Parser α} {P Q : α → Reading → Prop} (h : YieldsAt r p P) (h' : YieldsAt r p Q) :
    YieldsAt r p (fun a r' => P a r' ∧ Q a r') :=
  fun next a s' hp => ⟨(h next a s' hp).1, (h next a s' hp).2, (h' next a s' hp).2⟩

namespace Grouping

theorem type (hg : Grouping d) : GroupsNode true (d.parse .type) := hg .type

theorem assignment (hg : Grouping d) (allowIn : Bool) : GroupsNode (!allowIn) (d.parse (.assignment allowIn)) :=
  hg (.assignment allowIn)

theorem unary (hg : Grouping d) : GroupsNode true (d.parse .unary) := hg .unary

theorem binary (hg : Grouping d) (above : Nat) (allowIn : Bool) :
    GroupsNode (!allowIn) (d.parse (.binary above allowIn)) := hg (.binary above allowIn)

theorem statement (hg : Grouping d) : GroupsNode false (d.parse .statement) := hg .statement

theorem moduleElement (hg : Grouping d) : GroupsNode false (d.parse .moduleElement) := hg .moduleElement

end Grouping

/-! ## Parts -/

theorem groups_tokenSlot {p : Parser Token} {P : Token → Prop} (h : Yields p P) : GroupsSlot true (Slot.token <$> p) :=
  h.map (fun t _ => Node.settled_token t)

theorem groups_word (k : Keyword) : GroupsSlot true (word k) := groups_tokenSlot (yields_token _)

theorem groups_mark (p : Punctuation) : GroupsSlot true (mark p) := groups_tokenSlot (yields_token _)

theorem groups_current : GroupsSlot true current := groups_tokenSlot yields_take

theorem groups_name : GroupsSlot true name := groups_tokenSlot yields_identifier

theorem groups_member : GroupsSlot true member := groups_tokenSlot yields_memberName

theorem groups_property : GroupsSlot true property := groups_tokenSlot yields_propertyName

theorem groups_statementEnd : GroupsSlot true statementEnd := groups_tokenSlot yields_semicolon

theorem groups_optional (kind : TokenKind) : GroupsSlot true (optional kind) :=
  (yields_token? kind).map (fun o _ m hm => by cases o <;> cases hm)

theorem groups_nothing : GroupsSlot true nothing := .pure (fun _ hm => by cases hm)

theorem groups_inner (h : GroupsNode quiet element) : GroupsSlot quiet (inner element) := h.map (fun _ hn => hn.slot)

theorem groups_innerIf (test : Reading → Bool) (h : GroupsNode quiet element) :
    GroupsSlot quiet (innerIf test element) := .look (fun _ => .ite (groups_inner h) (GroupsSlot.weaken groups_nothing))

/-! ## Nodes -/

variable {kind : NodeKind} {before : List Slot} {ps : List Part} {front behind : List Bool}

theorem groups_parts (h : List.Forall₂ GroupsSlot behind ps) :
    Yields (parts ps) (fun slots => List.Forall₂ Slot.Settled behind slots) := by
  induction h with
  | nil => exact .pure .nil
  | cons hp _ ih => exact hp.bind (fun _ hs => ih.bind (fun _ hslots => .pure (.cons hs hslots)))

theorem groups_fresh {slots : List Slot} (h : List.Forall₂ Slot.Settled behind slots)
    (hkind : kind.settlesPlainly behind quiet = true) :
    GroupsNode quiet (liftM (Node.fresh kind slots) : Parser Node) :=
  .lift (fun _ => Node.settled_plain h hkind)

/-- **A node without an operator is read by reading its slots.** -/
theorem groups_nodeAfter (hbefore : List.Forall₂ Slot.Settled front before)
    (hrest : List.Forall₂ GroupsSlot behind ps) (hkind : kind.settlesPlainly (front ++ behind) quiet = true) :
    GroupsNode quiet (nodeAfter kind before ps) :=
  (groups_parts hrest).bind (fun _ hslots => groups_fresh (List.rel_append hbefore hslots) hkind)

theorem groups_node (h : List.Forall₂ GroupsSlot behind ps) (hkind : kind.settlesPlainly behind quiet = true) :
    GroupsNode quiet (node kind ps) := groups_nodeAfter .nil h hkind

/-! ## Lists -/

theorem groups_omitted : GroupsNode quiet omitted := groups_fresh .nil (by cases quiet <;> rfl)

theorem groups_membersUntil (stop : Reading → Bool) (h : GroupsNode quiet element) :
    ∀ turns, Yields (membersUntil stop element turns) (fun ns => ∀ n ∈ ns, n.Settled quiet)
  | 0 => .fault
  | turns + 1 => .look (fun _ => .ite (.pure (fun _ hn => by cases hn)) (h.bind (fun _ hn =>
      (groups_membersUntil stop h turns).bind (fun _ hns => .pure (List.forall_mem_cons.2 ⟨hn, hns⟩)))))

theorem groups_members (h : GroupsNode quiet element) : GroupsSlot quiet (members d element) :=
  (groups_membersUntil _ h _).map (fun _ hns => hns)

/-- The members of a list with separators are settled. -/
abbrev AreSettled (quiet : Bool) (list : List Node × List Token) : Prop := ∀ n ∈ list.1, n.Settled quiet

theorem groups_behindMember {more : Parser (List Node × List Token)} (hn : n.Settled quiet)
    (h : Yields more (AreSettled quiet)) : Yields (behindMember n more) (AreSettled quiet) := by
  refine (yields_token? _).bind (fun o _ => ?_)
  cases o with
  | none => exact .pure (List.forall_mem_singleton.2 hn)
  | some t => exact h.map (fun _ hlist => List.forall_mem_cons.2 ⟨hn, hlist⟩)

theorem groups_commaListUpTo (h : GroupsNode quiet element) :
    ∀ turns, Yields (commaListUpTo element turns) (AreSettled quiet)
  | 0 => .fault
  | turns + 1 => h.bind (fun _ hn => groups_behindMember hn (groups_commaListUpTo h turns))

theorem groups_commaList (h : GroupsNode quiet element) : GroupsSlot quiet (commaList d element) :=
  (groups_commaListUpTo h _).map (fun _ hlist => hlist)

theorem groups_delimitedUpTo (close : Punctuation) (trailing : Bool) (h : GroupsNode quiet element) :
    ∀ turns, Yields (delimitedUpTo close trailing element turns) (AreSettled quiet)
  | 0 => .fault
  | turns + 1 => h.bind (fun _ hn => (yields_token? _).bind (fun o _ => by
      cases o with
      | none => exact .pure (List.forall_mem_singleton.2 hn)
      | some t =>
        refine .look (fun _ => .ite (.ite ?_ .expected) ?_)
        · exact groups_omitted.bind (fun _ hm => .pure (List.forall_mem_cons.2 ⟨hn, List.forall_mem_singleton.2 hm⟩))
        · exact (groups_delimitedUpTo close trailing h turns).map (fun _ hlist => List.forall_mem_cons.2 ⟨hn, hlist⟩)))

theorem groups_delimited (close : Punctuation) (trailing : Bool) (h : GroupsNode quiet element) :
    GroupsSlot quiet (delimited d close trailing element) :=
  .look (fun _ => .ite (.pure (fun _ hm => by cases hm)) ((groups_delimitedUpTo close trailing h _).map
    (fun _ hlist => hlist)))

/-! ## Growth -/

theorem groups_larger (h : GroupsNode quiet element) :
    Yields (some <$> element) (fun o => ∀ m ∈ o, Node.Settled quiet m) :=
  h.map (fun _ hm _ hn => Option.some.inj hn ▸ hm)

theorem groups_noLarger : Yields (return none : Parser (Option Node)) (fun o => ∀ m ∈ o, Node.Settled quiet m) :=
  .pure (fun _ hm => by cases hm)

/-- **What grows to the left stays settled.** -/
theorem groups_growUpTo {step : Node → Parser (Option Node)}
    (hstep : ∀ n : Node, n.Settled quiet → Yields (step n) (fun o => ∀ m ∈ o, Node.Settled quiet m)) :
    ∀ turns {n : Node}, n.Settled quiet → GroupsNode quiet (growUpTo step turns n)
  | 0, _, _ => .fault
  | turns + 1, n, hn => (hstep n hn).bind (fun o ho => by
      cases o with
      | none => exact .pure hn
      | some m => exact groups_growUpTo hstep turns (ho m rfl))

theorem groups_grow {step : Node → Parser (Option Node)} (hn : n.Settled quiet)
    (hstep : ∀ n : Node, n.Settled quiet → Yields (step n) (fun o => ∀ m ∈ o, Node.Settled quiet m)) :
    GroupsNode quiet (grow d step n) := groups_growUpTo hstep _ hn

/-! ## Names, signatures and types -/

theorem groups_qualifiedName : GroupsNode true (qualifiedName d) := by
  refine Yields.bind (groups_node (.cons groups_name .nil) rfl) (fun n hn => groups_grow hn (fun m hm => ?_))
  refine .look (fun _ => .ite (groups_larger ?_) groups_noLarger)
  exact groups_nodeAfter (.cons hm.slot .nil) (.cons (groups_mark _) <| .cons groups_member .nil) rfl

theorem groups_typeClause (hg : Grouping d) : GroupsSlot true (typeClause d) :=
  groups_innerIf _ (groups_node (.cons (groups_mark _) <| .cons (groups_inner hg.type) .nil) rfl)

theorem groups_initializer (hg : Grouping d) (allowIn : Bool) : GroupsSlot (!allowIn) (initializer d allowIn) :=
  groups_innerIf _ (groups_node (.cons (groups_mark _) <| .cons (groups_inner (hg.assignment allowIn)) .nil)
    (by cases allowIn <;> rfl))

theorem groups_access (test : Reading → Bool) : GroupsSlot true (access test) :=
  .look (fun _ => .ite groups_current groups_nothing)

theorem groups_parameter (hg : Grouping d) : GroupsNode false (parameter d) :=
  groups_node (.cons (groups_optional _) <| .cons (groups_access _) <| .cons groups_name <|
    .cons (groups_optional _) <| .cons (groups_typeClause hg) <| .cons (groups_initializer hg true) .nil) rfl

theorem groups_parameterList (hg : Grouping d) : GroupsNode true (parameterList d) :=
  groups_node (.cons (groups_mark _) <| .cons (groups_delimited _ _ (groups_parameter hg)) <|
    .cons (groups_mark _) .nil) rfl

theorem groups_callSignature (hg : Grouping d) : GroupsNode true (callSignature d) :=
  groups_node (.cons (groups_inner (groups_parameterList hg)) <| .cons (groups_typeClause hg) .nil) rfl

theorem groups_memberSeparator : GroupsSlot true memberSeparator :=
  .look (fun _ => .ite groups_current (.ite groups_nothing .expected))

theorem groups_namedTypeMember (hg : Grouping d) : GroupsNode true (namedTypeMember d) := by
  refine (groups_parts (.cons groups_property <| .cons (groups_optional _) .nil)).bind (fun slots hslots => ?_)
  refine .look (fun method => .ite ?_ ?_)
  · exact groups_nodeAfter hslots (.cons (groups_inner (groups_callSignature hg)) <|
      .cons groups_memberSeparator .nil) rfl
  · exact groups_nodeAfter hslots (.cons (groups_typeClause hg) <| .cons groups_memberSeparator .nil) rfl

theorem groups_typeMember (hg : Grouping d) : GroupsNode true (typeMember d) := by
  refine .look (fun r => ?_)
  split
  · exact groups_node (.cons (groups_inner (groups_callSignature hg)) <| .cons groups_memberSeparator .nil) rfl
  · exact groups_node (.cons (groups_mark _) <| .cons (groups_inner (groups_parameter hg)) <| .cons (groups_mark _) <|
      .cons (groups_typeClause hg) <| .cons groups_memberSeparator .nil) rfl
  · refine .ite ?_ (groups_namedTypeMember hg)
    exact groups_node (.cons (groups_word _) <| .cons (groups_inner (groups_callSignature hg)) <|
      .cons groups_memberSeparator .nil) rfl
  · exact groups_namedTypeMember hg

theorem groups_objectType (hg : Grouping d) : GroupsNode true (objectType d) :=
  groups_node (.cons (groups_mark _) <| .cons (groups_members (groups_typeMember hg)) <| .cons (groups_mark _) .nil) rfl

theorem groups_nonArrayType (hg : Grouping d) : GroupsNode true (nonArrayType d) := by
  refine .look (fun r => ?_)
  split
  · exact groups_objectType hg
  · exact groups_node (.cons (groups_inner (groups_parameterList hg)) <| .cons (groups_mark _) <|
      .cons (groups_inner hg.type) .nil) rfl
  · exact groups_node (.cons (groups_word _) <| .cons (groups_inner (groups_parameterList hg)) <|
      .cons (groups_mark _) <| .cons (groups_inner hg.type) .nil) rfl
  · exact groups_node (.cons groups_current .nil) rfl
  · exact .ite (groups_node (.cons groups_current .nil) rfl) groups_qualifiedName
  · exact .expected

/-- **A type exposes no operator at all**: expressions stand in it as the values of parameters only. -/
theorem groups_typeNode (hg : Grouping d) : GroupsNode true (typeNode d) := by
  refine (groups_nonArrayType hg).nested.bind (fun n hn => groups_grow hn (fun m hm => .look (fun r => ?_)))
  refine .ite (groups_larger ?_) groups_noLarger
  exact groups_nodeAfter (.cons hm.slot .nil) (.cons (groups_mark _) <| .cons (groups_mark _) .nil) rfl

/-! ## Functions and literals -/

theorem groups_block (hg : Grouping d) : GroupsNode true (block d) :=
  groups_node (.cons (groups_mark _) <| .cons (groups_members hg.statement) <| .cons (groups_mark _) .nil) rfl

theorem groups_arrowBody (hg : Grouping d) (allowIn : Bool) : GroupsSlot (!allowIn) (arrowBody d allowIn) :=
  .look (fun _ => .ite (groups_inner (GroupsNode.weaken (groups_block hg))) (groups_inner (hg.assignment allowIn)))

theorem groups_arrowFunction? (hg : Grouping d) (allowIn : Bool) :
    Yields (arrowFunction? d allowIn) (fun o => ∀ n ∈ o, Node.Settled (!allowIn) n) := by
  refine .look (fun r => ?_)
  split
  · refine .ite (groups_larger ?_) groups_noLarger
    exact groups_node (.cons groups_name <| .cons (groups_mark _) <| .cons (groups_arrowBody hg allowIn) .nil)
      (by cases allowIn <;> rfl)
  · refine Yields.bind (P := fun o => ∀ n ∈ o, Node.Settled true n) (fun r hr => ?_) (fun o ho => ?_)
    · exact (YieldsAt.attempt hr (groups_callSignature hg r hr) atArrow).mono (fun _ _ ho => ho.1)
    · cases o with
      | none => exact groups_noLarger
      | some signature =>
        exact groups_larger (groups_nodeAfter (.cons (ho signature rfl).slot .nil)
          (.cons (groups_mark _) <| .cons (groups_arrowBody hg allowIn) .nil) (by cases allowIn <;> rfl))
  · exact groups_noLarger

theorem groups_arrayElementsUpTo (hg : Grouping d) :
    ∀ turns behindComma, Yields (arrayElementsUpTo d turns behindComma) (AreSettled false)
  | 0, _ => .fault
  | turns + 1, behindComma => by
    have hbehind : ∀ n : Node, n.Settled false →
        Yields (behindMember n (arrayElementsUpTo d turns true)) (AreSettled false) :=
      fun n hn => groups_behindMember hn (groups_arrayElementsUpTo hg turns true)
    refine .look (fun closes => .ite (.ite ?_ ?_) (.look (fun comma => .ite ?_ ?_)))
    · exact groups_omitted.bind (fun _ hn => .pure (List.forall_mem_singleton.2 hn))
    · exact .pure (fun _ hn => by cases hn)
    · exact groups_omitted.bind hbehind
    · exact (hg.assignment true).bind hbehind

theorem groups_arrayElements (hg : Grouping d) : GroupsSlot false (arrayElements d) :=
  (groups_arrayElementsUpTo hg _ _).map (fun _ hlist => hlist)

theorem groups_propertyAssignment (hg : Grouping d) : GroupsNode false (propertyAssignment d) := by
  refine .look (fun r => .ite ?_ (.ite ?_ ?_))
  · exact groups_node (.cons groups_current <| .cons groups_property <| .cons (groups_mark _) <|
      .cons (groups_mark _) <| .cons (groups_typeClause hg) <| .cons (groups_inner (groups_block hg)) .nil) rfl
  · exact groups_node (.cons groups_current <| .cons groups_property <| .cons (groups_mark _) <|
      .cons (groups_inner (groups_parameter hg)) <| .cons (groups_mark _) <|
      .cons (groups_inner (groups_block hg)) .nil) rfl
  · exact groups_node (.cons groups_property <| .cons (groups_mark _) <|
      .cons (groups_inner (hg.assignment true)) .nil) rfl

/-! ## Binary operators -/

/-- **A binary operator and its right operand are read behind the left one.** -/
theorem yieldsAt_binaryGroup {first : Part} {operand : Parser Node} (hn : n.Settled quiet)
    (hfirst : YieldsAt r first (fun s _ => Heads r s)) (hoperand : GroupsNode quiet operand)
    (hin : quiet = true → r.kind ≠ .keyword .inKw)
    (hassigned : r.kind.isAssignment = true → ¬ n.IsAssignment ∧ ¬ n.IsComma ∧ ¬ n.IsArrow) :
    YieldsAt r (nodeAfter .binaryExpression [.node n] [first, inner operand]) (fun m _ => m.Settled quiet) := by
  have hparts : YieldsAt r (parts [first, inner operand]) (fun slots _ => ∃ t m, slots = [.token t, .node m] ∧
      t.lexeme = r.current ∧ Node.Settled quiet m) := by
    refine hfirst.bind (fun s r₁ hr₁ hs => ?_)
    obtain ⟨t, rfl, ht⟩ := hs
    have hright : Yields (parts [inner operand]) (fun slots => ∃ m, slots = [.node m] ∧ Node.Settled quiet m) :=
      (hoperand.map (Q := fun s => ∃ m, s = Slot.node m ∧ Node.Settled quiet m) (fun m hm => ⟨m, rfl, hm⟩)).bind
        (fun s hs => let ⟨m, hs, hm⟩ := hs; .pure ⟨m, hs ▸ rfl, hm⟩)
    refine (hright r₁ hr₁).bind (fun slots r₂ hr₂ hslots => ?_)
    obtain ⟨m, rfl, hm⟩ := hslots
    exact .pure hr₂ ⟨t, m, rfl, ht, hm⟩
  refine hparts.bind (fun slots r' hr' hslots => ?_)
  obtain ⟨t, m, rfl, ht, hm⟩ := hslots
  have hkind : t.kind = r.kind := congrArg Lexeme.kind ht
  rw [← hkind] at hin hassigned
  exact Yields.lift (fun next => Node.settled_binary hn hm hin hassigned) r' hr'

theorem groups_commaStep (hg : Grouping d) (allowIn : Bool) (hn : n.Settled (!allowIn)) :
    Yields (commaStep d allowIn n) (fun o => ∀ m ∈ o, Node.Settled (!allowIn) m) := by
  refine fun r hr => .look (a := r.kind == .punctuation .comma) (fun _ => rfl)
    (.ite (fun hcomma => ?_) (fun _ => groups_noLarger.here hr))
  have hkind : r.kind = .punctuation .comma := beq_iff_eq.1 hcomma
  refine (yieldsAt_binaryGroup hn ?_ (hg.assignment allowIn) (fun _ => by rw [hkind]; decide)
    (fun h => by rw [hkind] at h; cases h)).map (fun m _ hm _ hm' => Option.some.inj hm' ▸ hm)
  exact (yieldsAt_token _).map (fun t _ ht => ⟨t, rfl, ht⟩)

theorem groups_expression (hg : Grouping d) (allowIn : Bool) : GroupsNode (!allowIn) (expression d allowIn) :=
  (hg.assignment allowIn).bind (fun _ hn => groups_grow hn (fun _ hm => groups_commaStep hg allowIn hm))

/-! ## Operands -/

theorem groups_regularExpression : GroupsNode true regularExpression := fun _ _ =>
  yields_rescan.bind (fun _ _ hr' _ => (groups_node (.cons groups_current .nil) rfl).here hr')

/-- **A form that no operator takes apart exposes no operator**: what it holds stands between marks. -/
theorem groups_primary (hg : Grouping d) : GroupsNode true (primary d) := by
  refine .look (fun r => ?_)
  split
  · exact groups_node (.cons groups_current .nil) rfl
  · exact groups_node (.cons groups_current .nil) rfl
  · exact groups_node (.cons groups_current .nil) rfl
  · exact groups_node (.cons groups_current .nil) rfl
  · exact groups_node (.cons groups_current .nil) rfl
  · exact groups_node (.cons groups_current .nil) rfl
  · exact groups_node (.cons groups_current .nil) rfl
  · exact groups_node (.cons groups_current .nil) rfl
  · exact groups_regularExpression
  · exact groups_regularExpression
  · exact groups_node (.cons (groups_mark _) <| .cons (groups_inner (groups_expression hg true)) <|
      .cons (groups_mark _) .nil) rfl
  · exact groups_node (.cons (groups_mark _) <| .cons (groups_arrayElements hg) <| .cons (groups_mark _) .nil) rfl
  · exact groups_node (.cons (groups_mark _) <| .cons (groups_delimited _ _ (groups_propertyAssignment hg)) <|
      .cons (groups_mark _) .nil) rfl
  · exact groups_node (.cons (groups_word _) <| .cons (groups_optional _) <|
      .cons (groups_inner (groups_callSignature hg)) <| .cons (groups_inner (groups_block hg)) .nil) rfl
  · exact .expected

theorem groups_argumentList (hg : Grouping d) : GroupsNode true (argumentList d) :=
  groups_node (.cons (groups_mark _) <| .cons (groups_delimited _ _ (hg.assignment true)) <|
    .cons (groups_mark _) .nil) rfl

theorem groups_suffixStep (hg : Grouping d) (allowCalls : Bool) (hn : n.Settled true) :
    Yields (suffixStep d allowCalls n) (fun o => ∀ m ∈ o, Node.Settled true m) := by
  refine .look (fun r => ?_)
  split
  · exact groups_larger (groups_nodeAfter (.cons hn.slot .nil) (.cons (groups_mark _) <| .cons groups_member .nil) rfl)
  · exact groups_larger (groups_nodeAfter (.cons hn.slot .nil) (.cons (groups_mark _) <|
      .cons (groups_inner (groups_expression hg true)) <| .cons (groups_mark _) .nil) rfl)
  · refine .ite (groups_larger ?_) groups_noLarger
    exact groups_nodeAfter (.cons hn.slot .nil) (.cons (groups_inner (groups_argumentList hg)) .nil) rfl
  · exact groups_noLarger

theorem groups_suffixes (hg : Grouping d) (allowCalls : Bool) (hn : n.Settled true) :
    GroupsNode true (suffixes d allowCalls n) := groups_grow hn (fun _ hm => groups_suffixStep hg allowCalls hm)

theorem groups_callee (hg : Grouping d) : GroupsNode true (callee d) :=
  .look (fun _ => .ite (hg .creation) (groups_primary hg))

theorem groups_creation (hg : Grouping d) : GroupsNode true (creation d) := by
  refine fun r hr => (yieldsAt_enter hr).bind (fun _ r₁ hr₁ _ => ?_)
  refine (groups_current r₁ hr₁).bind (fun keyword r₂ hr₂ hkeyword => ?_)
  refine (groups_callee hg r₂ hr₂).leaving.bind (fun target r₃ hr₃ htarget => ?_)
  refine (groups_suffixes hg false htarget r₃ hr₃).bind (fun target r₄ hr₄ htarget => ?_)
  exact (groups_nodeAfter (.cons hkeyword <| .cons htarget.slot .nil)
    (.cons (groups_innerIf _ (groups_argumentList hg)) .nil) rfl).here hr₄

/-- **An operand with its prefix and postfix operators exposes no binary operator.** -/
theorem groups_unary (hg : Grouping d) : GroupsNode true (unary d) := by
  refine Yields.nested (.look (fun r => .ite ?_ (.ite ?_ ?_)))
  · exact groups_node (.cons groups_current <| .cons (groups_inner hg.unary) .nil) rfl
  · exact groups_node (.cons (groups_mark _) <| .cons (groups_inner hg.type) <| .cons (groups_mark _) <|
      .cons (groups_inner hg.unary) .nil) rfl
  · refine (groups_callee hg).bind (fun n hn => (groups_suffixes hg true hn).bind (fun m hm => ?_))
    exact .look (fun _ => .ite (groups_nodeAfter (.cons hm.slot .nil) (.cons groups_current .nil) rfl) (.pure hm))

/-! ## Operators -/

/-- Where `in` is no operator, none is read. -/
theorem groups_binaryStep (hg : Grouping d) (above : Nat) (allowIn : Bool) (hn : n.Settled (!allowIn)) :
    Yields (binaryStep d above allowIn n) (fun o => ∀ m ∈ o, Node.Settled (!allowIn) m) := by
  refine fun r hr => .look (a := r.kind) (fun _ => rfl)
    (.ite (fun hlt => ?_) (fun _ => groups_noLarger.here hr))
  have hpos : 0 < r.kind.precedence allowIn := Nat.lt_of_le_of_lt (Nat.zero_le _) hlt
  refine (yieldsAt_binaryGroup hn (yieldsAt_take.map (fun t _ ht => ⟨t, rfl, ht⟩)) (hg.binary _ allowIn)
    (fun hquiet hin => ?_) (fun hassigned => ?_)).map (fun m _ hm _ hm' => Option.some.inj hm' ▸ hm)
  · have hallow : allowIn = false := by simpa using hquiet
    rw [hin, hallow] at hpos
    exact absurd hpos (by decide)
  · rw [← TokenKind.precedence_eq_of_pos hpos, TokenKind.isAssignment_precedence hassigned] at hpos
    exact absurd hpos (Nat.lt_irrefl 0)

theorem groups_binary (hg : Grouping d) (above : Nat) (allowIn : Bool) :
    GroupsNode (!allowIn) (binary d above allowIn) :=
  (GroupsNode.weaken hg.unary).bind (fun _ hn => groups_grow hn (fun _ hm => groups_binaryStep hg above allowIn hm))

/-- **What stands in front of a question mark binds more tightly than a condition**, and what comes of it is a condition
or binds so tightly itself. -/
theorem groups_conditional (hf : Forming d) (hg : Grouping d) (allowIn : Bool) :
    Yields (conditional d allowIn) (fun n => n.Settled (!allowIn) ∧ (n.IsConditional ∨ 2 ≤ n.tightness)) := by
  intro r hr
  refine ((hf.binary 0 allowIn hr).and (hg.binary 0 allowIn r hr)).bind (fun n r₁ hr₁ hn => ?_)
  obtain ⟨⟨hvalue, -⟩, hsettled⟩ := hn
  have htight : 2 ≤ n.tightness := hvalue.tight
  refine .look (a := r₁.kind == .punctuation .question) (fun _ => rfl)
    (.ite (fun _ => ?_) (fun _ => .pure hr₁ ⟨hsettled, .inr htight⟩))
  have hrest : Yields (parts [mark .question, inner (d.parse (.assignment true)), mark .colon,
      inner (d.parse (.assignment allowIn))])
        (fun slots => List.Forall₂ Slot.Settled [true, false, true, !allowIn] slots) :=
    groups_parts (.cons (groups_mark _) <| .cons (groups_inner (hg.assignment true)) <| .cons (groups_mark _) <|
      .cons (groups_inner (hg.assignment allowIn)) .nil)
  refine (hrest r₁ hr₁).bind (fun slots r₂ hr₂ hslots => Yields.lift (fun next => ⟨?_, .inl rfl⟩) r₂ hr₂)
  refine Node.settled_mk (.cons hsettled.slot hslots) (fun ha => by cases ha.1) (fun _ m hm => ?_)
    (fun _ hi => by cases hi.1) (by cases allowIn <;> rfl)
  rw [List.mem_singleton.1 (show m ∈ [n] from hm)]
  obtain ⟨harrow, hconditional, hassignment, hcomma⟩ := Node.not_loose htight
  exact ⟨harrow, hassignment, hcomma, hconditional⟩

theorem groups_assignment (hf : Forming d) (hg : Grouping d) (allowIn : Bool) :
    GroupsNode (!allowIn) (assignment d allowIn) := by
  refine Yields.nested ((groups_arrowFunction? hg allowIn).bind (fun arrow? harrow => ?_))
  cases arrow? with
  | some arrow => exact .pure (harrow arrow rfl)
  | none =>
    refine (groups_conditional hf hg allowIn).bind (fun n hn r hr => .look (a := r.kind) (fun _ => rfl) ?_)
    refine .ite (fun hassign => ?_) (fun _ => .pure hr hn.1)
    refine yieldsAt_binaryGroup hn.1 (yieldsAt_take.map (fun t _ ht => ⟨t, rfl, ht⟩)) (hg.assignment allowIn)
      (fun _ hin => ?_) (fun _ => Node.not_assigned hn.2)
    rw [hin] at hassign
    cases hassign

/-! ## Variables and functions -/

variable {modifiers : List Slot} {slot : Slot}

theorem groups_declaratorAfter (hg : Grouping d) (h : slot.Settled true) (allowIn : Bool) :
    GroupsNode (!allowIn) (declaratorAfter d slot allowIn) :=
  groups_nodeAfter (.cons h .nil) (.cons (groups_typeClause hg) <| .cons (groups_initializer hg allowIn) .nil)
    (by cases allowIn <;> rfl)

theorem groups_declarator (hg : Grouping d) (allowIn : Bool) : GroupsNode (!allowIn) (declarator d allowIn) :=
  groups_name.bind (fun _ hname => groups_declaratorAfter hg hname allowIn)

/-- **Variables that are declared where `in` is no operator expose none.** -/
theorem groups_variableDeclaration (hg : Grouping d) (allowIn : Bool) :
    GroupsNode (!allowIn) (variableDeclaration d allowIn) :=
  groups_node (.cons (groups_word _) <| .cons (groups_commaList (groups_declarator hg allowIn)) .nil)
    (by cases allowIn <;> rfl)

/-- The words in front of a declaration. -/
abbrev SettledModifiers (slots : List Slot) : Prop := List.Forall₂ Slot.Settled [true, true] slots

theorem settledModifiers_none : SettledModifiers noModifiers :=
  .cons (fun _ hm => by cases hm) <| .cons (fun _ hm => by cases hm) .nil

theorem groups_variableStatement (hg : Grouping d) (h : SettledModifiers modifiers) :
    GroupsNode false (variableStatement d modifiers) :=
  groups_nodeAfter h (.cons (groups_inner (groups_variableDeclaration hg true)) <| .cons groups_statementEnd .nil) rfl

theorem groups_bodyOrEnd (hg : Grouping d) :
    Yields (bodyOrEnd d) (fun slots => List.Forall₂ Slot.Settled [true, true] slots) :=
  .look (fun _ => .ite (groups_parts (.cons (groups_inner (groups_block hg)) <| .cons groups_nothing .nil))
    (groups_parts (.cons groups_nothing <| .cons groups_statementEnd .nil)))

theorem groups_nodeWithBody (hg : Grouping d) (hbefore : List.Forall₂ Slot.Settled front before)
    (hrest : List.Forall₂ GroupsSlot behind ps)
    (hkind : kind.settlesPlainly (front ++ behind ++ [true, true]) false = true) :
    GroupsNode false (nodeWithBody d kind before ps) :=
  (groups_parts hrest).bind (fun _ hslots => (groups_bodyOrEnd hg).bind (fun _ hbody =>
    groups_fresh (List.rel_append (List.rel_append hbefore hslots) hbody) hkind))

theorem groups_functionDeclaration (hg : Grouping d) (h : SettledModifiers modifiers) :
    GroupsNode false (functionDeclaration d modifiers) :=
  groups_nodeWithBody hg h (.cons (groups_word _) <| .cons groups_name <|
    .cons (groups_inner (groups_callSignature hg)) .nil) rfl

/-! ## Statements -/

theorem groups_substatement (hg : Grouping d) : GroupsSlot false (substatement d) := groups_inner hg.statement

theorem groups_whole (hg : Grouping d) : GroupsSlot false (whole d) := groups_inner (groups_expression hg true)

theorem groups_jumpLabel : GroupsSlot true jumpLabel := .look (fun _ => .ite groups_current groups_nothing)

theorem groups_looseEnd : GroupsSlot true looseEnd :=
  .look (fun _ => .ite groups_current (groups_tokenSlot yields_emptySemicolon))

theorem groups_elseClause (hg : Grouping d) : GroupsNode false (elseClause d) :=
  groups_node (.cons (groups_word _) <| .cons (groups_substatement hg) .nil) rfl

/-- **What stands in front of the first semicolon, or of `in`, in the head of a loop exposes no operator `in`.** -/
theorem groups_loopStart (hg : Grouping d) :
    Yields (loopStart d) (fun slots => List.Forall₂ Slot.Settled [true, true] slots) := by
  refine .look (fun r => .ite ?_ (.ite ?_ ?_))
  · exact groups_parts (.cons (groups_inner (groups_variableDeclaration hg false)) <| .cons groups_nothing .nil)
  · exact groups_parts (.cons groups_nothing <| .cons groups_nothing .nil)
  · exact groups_parts (.cons groups_nothing <| .cons (groups_inner (groups_expression hg false)) .nil)

theorem groups_forStatement (hg : Grouping d) : GroupsNode false (forStatement d) := by
  refine (groups_parts (.cons (groups_word _) <| .cons (groups_mark _) .nil)).bind (fun head hhead => ?_)
  refine (groups_loopStart hg).bind (fun start hstart => .look (fun inLoop => .ite ?_ ?_))
  · have hin : GroupsNode false (nodeAfter .forInStatement (head ++ start)
        [word .inKw, whole d, mark .closeParen, substatement d]) :=
      groups_nodeAfter (List.rel_append hhead hstart) (.cons (groups_word _) <| .cons (groups_whole hg) <|
        .cons (groups_mark _) <| .cons (groups_substatement hg) .nil) rfl
    exact .ite (Yields.bind (P := fun _ => False) .fault (fun _ h => h.elim)) hin
  · exact groups_nodeAfter (List.rel_append hhead hstart) (.cons (groups_mark _) <|
      .cons (groups_innerIf _ (groups_expression hg true)) <| .cons (groups_mark _) <|
      .cons (groups_innerIf _ (groups_expression hg true)) <| .cons (groups_mark _) <|
      .cons (groups_substatement hg) .nil) rfl

theorem groups_returned (hg : Grouping d) : GroupsSlot false (returned d) :=
  groups_innerIf _ (groups_expression hg true)

theorem groups_onSameLine (hg : Grouping d) : GroupsSlot false (onSameLine d) :=
  .look (fun _ => .ite .fault (groups_whole hg))

theorem groups_catchClause (hg : Grouping d) : GroupsNode false (catchClause d) :=
  groups_node (.cons (groups_word _) <| .cons (groups_mark _) <| .cons groups_name <| .cons (groups_mark _) <|
    .cons (groups_inner (groups_block hg)) .nil) rfl

theorem groups_finallyClause (hg : Grouping d) : GroupsNode false (finallyClause d) :=
  groups_node (.cons (groups_word _) <| .cons (groups_inner (groups_block hg)) .nil) rfl

theorem groups_tryStatement (hg : Grouping d) : GroupsNode false (tryStatement d) := by
  have hhandlers : Yields (handlers d) (fun slots => List.Forall₂ Slot.Settled [false, false] slots) :=
    (groups_parts (.cons (groups_innerIf _ (groups_catchClause hg)) <|
      .cons (groups_innerIf _ (groups_finallyClause hg)) .nil)).bind (fun slots hslots => .ite .expected (.pure hslots))
  refine (groups_parts (.cons (groups_word _) <| .cons (groups_inner (groups_block hg)) .nil)).bind
    (fun slots hslots => hhandlers.bind (fun handled hhandled => ?_))
  exact groups_fresh (List.rel_append hslots hhandled) rfl

theorem groups_clauseStatements (hg : Grouping d) : GroupsSlot false (clauseStatements d) :=
  (groups_membersUntil _ hg.statement _).map (fun _ hns => hns)

theorem groups_switchClause (hg : Grouping d) : GroupsNode false (switchClause d) := by
  refine .look (fun k => ?_)
  split
  · exact groups_node (.cons (groups_word _) <| .cons (groups_whole hg) <| .cons (groups_mark _) <|
      .cons (groups_clauseStatements hg) .nil) rfl
  · exact groups_node (.cons (groups_word _) <| .cons (groups_mark _) <| .cons (groups_clauseStatements hg) .nil) rfl
  · exact .expected

theorem groups_switchClauses (hg : Grouping d) : GroupsSlot false (switchClauses d) :=
  (groups_membersUntil _ (groups_switchClause hg) _).map (fun _ hns => hns)

theorem groups_wordStatement (hg : Grouping d) {k : Keyword} {p : Parser Node} (h : wordStatement d k = some p) :
    GroupsNode false p := by
  unfold wordStatement at h
  split at h <;> cases h
  · exact groups_variableStatement hg settledModifiers_none
  · exact groups_functionDeclaration hg settledModifiers_none
  · exact groups_node (.cons (groups_word _) <| .cons (groups_mark _) <| .cons (groups_whole hg) <|
      .cons (groups_mark _) <| .cons (groups_substatement hg) <|
      .cons (groups_innerIf _ (groups_elseClause hg)) .nil) rfl
  · exact groups_node (.cons (groups_word _) <| .cons (groups_substatement hg) <| .cons (groups_word _) <|
      .cons (groups_mark _) <| .cons (groups_whole hg) <| .cons (groups_mark _) <| .cons groups_looseEnd .nil) rfl
  · exact groups_node (.cons (groups_word _) <| .cons (groups_mark _) <| .cons (groups_whole hg) <|
      .cons (groups_mark _) <| .cons (groups_substatement hg) .nil) rfl
  · exact groups_forStatement hg
  · exact groups_node (.cons (groups_word _) <| .cons groups_jumpLabel <| .cons groups_statementEnd .nil) rfl
  · exact groups_node (.cons (groups_word _) <| .cons groups_jumpLabel <| .cons groups_statementEnd .nil) rfl
  · exact groups_node (.cons (groups_word _) <| .cons (groups_returned hg) <| .cons groups_statementEnd .nil) rfl
  · exact groups_node (.cons (groups_word _) <| .cons (groups_onSameLine hg) <| .cons groups_statementEnd .nil) rfl
  · exact groups_tryStatement hg
  · exact groups_node (.cons (groups_word _) <| .cons (groups_mark _) <| .cons (groups_whole hg) <|
      .cons (groups_mark _) <| .cons (groups_mark _) <| .cons (groups_switchClauses hg) <|
      .cons (groups_mark _) .nil) rfl
  · exact groups_node (.cons (groups_word _) <| .cons (groups_mark _) <| .cons (groups_whole hg) <|
      .cons (groups_mark _) <| .cons (groups_substatement hg) .nil) rfl
  · exact groups_node (.cons (groups_word _) <| .cons groups_statementEnd .nil) rfl

theorem groups_expressionStatement (hg : Grouping d) : GroupsNode false (expressionStatement d) :=
  groups_node (.cons (groups_whole hg) <| .cons groups_statementEnd .nil) rfl

theorem groups_statement (hg : Grouping d) : GroupsNode false (statement d) := by
  refine Yields.nested (.look (fun r => ?_))
  split
  · exact GroupsNode.weaken (groups_block hg)
  · exact groups_node (.cons groups_current .nil) rfl
  · rename_i k _
    cases h : wordStatement d k with
    | some p => exact groups_wordStatement hg h
    | none => exact groups_expressionStatement hg
  · refine .ite ?_ (groups_expressionStatement hg)
    exact groups_node (.cons groups_name <| .cons (groups_mark _) <| .cons (groups_substatement hg) .nil) rfl
  · exact groups_expressionStatement hg

/-! ## Classes -/

theorem groups_memberAccessor (hg : Grouping d) (h : SettledModifiers modifiers) :
    GroupsNode false (memberAccessor d modifiers) := by
  refine .look (fun r => .ite ?_ ?_)
  · exact groups_nodeAfter h (.cons groups_current <| .cons groups_property <|
      .cons (groups_inner (groups_parameterList hg)) <| .cons (groups_typeClause hg) <|
      .cons (groups_inner (groups_block hg)) .nil) rfl
  · exact groups_nodeAfter h (.cons groups_current <| .cons groups_property <|
      .cons (groups_inner (groups_parameterList hg)) <| .cons (groups_inner (groups_block hg)) .nil) rfl

theorem groups_methodOrField (hg : Grouping d) (h : SettledModifiers modifiers) :
    GroupsNode false (methodOrField d modifiers) := by
  refine groups_property.bind (fun name hname => .look (fun method => .ite ?_ ?_))
  · exact groups_nodeWithBody hg (List.rel_append h (.cons hname .nil))
      (.cons (groups_inner (groups_callSignature hg)) .nil) rfl
  · exact groups_nodeAfter h (.cons (groups_inner (groups_declaratorAfter hg hname true)) <|
      .cons groups_statementEnd .nil) rfl

theorem groups_staticWord : GroupsSlot true staticWord := .look (fun _ => .ite groups_current groups_nothing)

theorem groups_classElement (hg : Grouping d) : GroupsNode false (classElement d) := by
  refine .look (fun r => .ite ?_ ?_)
  · exact groups_nodeWithBody hg .nil (.cons groups_current <| .cons (groups_inner (groups_parameterList hg)) .nil) rfl
  · refine (groups_parts (.cons (groups_access _) <| .cons groups_staticWord .nil)).bind (fun slots hslots => ?_)
    exact .look (fun r => .ite (groups_memberAccessor hg hslots) (groups_methodOrField hg hslots))

theorem groups_baseClause : GroupsNode false (baseClause d) :=
  groups_node (.cons (groups_word _) <|
    .cons (groups_qualifiedName.map (Q := Slot.Settled true) (fun _ hn _ hm => List.mem_singleton.1 hm ▸ hn)) .nil) rfl

theorem groups_implementsClause : GroupsNode false (implementsClause d) :=
  groups_node (.cons (groups_word _) <| .cons (groups_commaList groups_qualifiedName) .nil) rfl

theorem groups_classDeclaration (hg : Grouping d) (h : SettledModifiers modifiers) :
    GroupsNode false (classDeclaration d modifiers) :=
  groups_nodeAfter h (.cons (groups_word _) <| .cons groups_name <| .cons (groups_innerIf _ groups_baseClause) <|
    .cons (groups_innerIf _ groups_implementsClause) <| .cons (groups_mark _) <|
    .cons (groups_members (groups_classElement hg)) <| .cons (groups_mark _) .nil) rfl

/-! ## Interfaces, enums and namespaces -/

theorem groups_extendedInterfaces : GroupsNode false (extendedInterfaces d) :=
  groups_node (.cons (groups_word _) <| .cons (groups_commaList groups_qualifiedName) .nil) rfl

theorem groups_interfaceDeclaration (hg : Grouping d) (h : slot.Settled true) :
    GroupsNode false (interfaceDeclaration d slot) :=
  groups_nodeAfter (.cons h .nil) (.cons (groups_word _) <| .cons groups_name <|
    .cons (groups_innerIf _ groups_extendedInterfaces) <| .cons (groups_inner (groups_objectType hg)) .nil) rfl

theorem groups_enumElement (hg : Grouping d) : GroupsNode false (enumElement d) :=
  groups_node (.cons groups_property <| .cons (groups_initializer hg true) .nil) rfl

theorem groups_enumDeclaration (hg : Grouping d) (h : SettledModifiers modifiers) :
    GroupsNode false (enumDeclaration d modifiers) :=
  groups_nodeAfter h (.cons (groups_word _) <| .cons groups_name <| .cons (groups_mark _) <|
    .cons (groups_delimited _ _ (groups_enumElement hg)) <| .cons (groups_mark _) .nil) rfl

theorem groups_moduleName : GroupsNode true (moduleName d) :=
  .look (fun _ => .ite (groups_node (.cons groups_current .nil) rfl) groups_qualifiedName)

theorem groups_moduleDeclaration (hg : Grouping d) (h : SettledModifiers modifiers) :
    GroupsNode false (moduleDeclaration d modifiers) :=
  groups_nodeAfter h (.cons groups_current <| .cons (groups_inner groups_moduleName) <| .cons (groups_mark _) <|
    .cons (groups_members hg.moduleElement) <| .cons (groups_mark _) .nil) rfl

/-! ## Module elements and programs -/

theorem groups_declareWord : GroupsSlot true declareWord := .look (fun _ => .ite groups_current groups_nothing)

theorem groups_moduleElement (hg : Grouping d) : GroupsNode false (moduleElement d) := by
  refine (groups_optional _).bind (fun exported hexported => ?_)
  refine groups_declareWord.bind (fun declared hdeclared => .look (fun r => ?_))
  have hmodifiers : SettledModifiers [exported, declared] := .cons hexported <| .cons hdeclared .nil
  split
  · exact groups_classDeclaration hg hmodifiers
  · exact .ite .fault (groups_interfaceDeclaration hg hexported)
  · exact groups_enumDeclaration hg hmodifiers
  · exact groups_functionDeclaration hg hmodifiers
  · exact groups_variableStatement hg hmodifiers
  · exact .ite (groups_moduleDeclaration hg hmodifiers) (.ite .expected hg.statement)

theorem groups_goal (hf : Forming d) (hg : Grouping d) : ∀ g : Goal, GroupsNode g.quiet (goal d g)
  | .type => groups_typeNode hg
  | .assignment allowIn => groups_assignment hf hg allowIn
  | .unary => groups_unary hg
  | .binary above allowIn => groups_binary hg above allowIn
  | .creation => groups_creation hg
  | .statement => groups_statement hg
  | .moduleElement => groups_moduleElement hg

/-- **Every level of recursion reads settled trees if the one below it does**, and the lowest reads nothing. -/
theorem grouping_goalUpTo (loop : Nat) : ∀ levels, Grouping ⟨loop, goalUpTo loop levels⟩
  | 0 => fun _ => .fault
  | levels + 1 => groups_goal (d := ⟨loop, goalUpTo loop levels⟩) (forming_goalUpTo loop levels)
      (grouping_goalUpTo loop levels)

theorem groups_program (hg : Grouping d) : GroupsNode false (program d) := by
  have hend : GroupsSlot true program.endOfFile := fun r hr => .look (a := r) (fun _ => rfl)
    ((groups_tokenSlot (Yields.lift (P := fun _ : Token => True) (fun _ => trivial))).here hr)
  have helements : GroupsSlot false
      (Slot.list <$> membersUntil (fun r => r.kind == .endOfFile) (d.parse .moduleElement) d.loop) :=
    (groups_membersUntil _ hg.moduleElement _).map (fun _ hns => hns)
  exact groups_node (.cons helements <| .cons hend .nil) rfl

end Parser

theorem parseFrom_settled {text : List Char} {tree : Node} {i k : ObjectId} (h : parseFrom text i = (.ok tree, k)) :
    tree.Settled false := by
  obtain ⟨r, s', hr, -, hprogram⟩ := parseFrom_eq_ok h
  exact (Parser.groups_program (Parser.grouping_goalUpTo _ _) r (Reading.ofText_proper hr) i tree s' hprogram).2

/-- **Parsed expressions obey precedence and associativity.**  At every node of a tree that was parsed, the operands
need no parentheses that they do not have (`Node.Shaped`), and neither do the left side of an assignment, the condition
of a conditional and what the head of a loop starts with (`Node.Grouped`). -/
theorem parse_obeysPrecedence (text : List Char) (tree : Node) (h : parse text = .ok tree) :
    tree.Every (fun n => n.Shaped ∧ n.Grouped) := by
  have hfrom : parseFrom text 0 = (.ok tree, (parseFrom text 0).2) := Prod.ext h rfl
  have hformed := parseFrom_formed hfrom
  have hgrouped := (parseFrom_settled hfrom).grouped
  exact fun n hn => ⟨(hformed n hn).bound.shaped, hgrouped n hn⟩

/-- A loop that starts with an `in` between parentheses and one between the marks of a condition. -/
theorem parse_obeysPrecedence_loop : ∃ tree, parse "for(x=(a in b)?c in d:1-2-3*-4;;)x=y=z||1;".toList = .ok tree ∧
    tree.Every (fun n => n.Shaped ∧ n.Grouped) := by
  have hok : (parse "for(x=(a in b)?c in d:1-2-3*-4;;)x=y=z||1;".toList).isOk = true := by decide +kernel
  cases h : parse "for(x=(a in b)?c in d:1-2-3*-4;;)x=y=z||1;".toList with
  | error e => rw [h] at hok; cases hok
  | ok tree => exact ⟨tree, rfl, parse_obeysPrecedence _ tree h⟩

end Downlevel
