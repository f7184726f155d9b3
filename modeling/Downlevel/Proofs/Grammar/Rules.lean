import Downlevel.Grammar.Declarations
import Downlevel.Proofs.Grammar.Slots
/-!
# Proofs.Grammar.Rules — every rule of the grammar puts its tokens in their places

One fact for each rule, read off its parts.  `Goal.among` says what a goal is to be; that the goals one level down are
read so is what a rule takes for granted, and `Proofs.Grammar.Fidelity` ties the levels together.
-/
namespace Downlevel

/-- What a goal of the grammar is to be. -/
def Goal.among : Goal → NodeClass
  | .type => .type
  | .assignment _ => .expression
  | .unary => .expression
  | .binary _ _ => .expression
  | .creation => .expression
  | .statement => .statement
  | .moduleElement => .element

namespace Parser

/-- Every goal is read as what it is to be. -/
def Sound (d : Descent) : Prop := ∀ g, ReadsNode (d.parse g) g.among

variable {d : Descent} {c : NodeClass} {n : Node} {ts : List Made}

theorem Sound.part (hd : Sound d) (g : Goal) : ReadsSlot (inner (d.parse g)) (.node g.among) := reads_inner (hd g)

/-- A name is a type, and it is the name of a namespace. -/
theorem Reads.widen {p : Parser Node} {c' : NodeClass} (h : ReadsNode p c)
    (hc : ∀ k, c.includes k = true → c'.includes k = true) : ReadsNode p c' :=
  h.weaken (fun _ _ hn => hn.widen hc)

/-! ## Names and signatures -/

theorem reads_qualifiedName : ReadsNode (qualifiedName d) .name := by
  refine reads_grow (reads_node (.cons reads_name .nil) rfl) (fun n ts hn => .look (fun dot => .ite ?_ reads_noLarger))
  exact reads_larger (reads_nodeAfter (.one hn.slot) (.cons (reads_mark _) <| .cons reads_member .nil) rfl rfl)

theorem reads_typeClause (hd : Sound d) : ReadsSlot (typeClause d) (.optionalNode (.only .typeClause)) :=
  reads_innerIf _ (reads_node (.cons (reads_mark _) <| .cons (hd.part .type) .nil) rfl)

theorem reads_initializer (hd : Sound d) (allowIn : Bool) :
    ReadsSlot (initializer d allowIn) (.optionalNode (.only .equalsValueClause)) :=
  reads_innerIf _ (reads_node (.cons (reads_mark _) <| .cons (hd.part (.assignment allowIn)) .nil) rfl)

theorem reads_access (test : Reading → Bool) : ReadsSlot (access test) .optionalToken :=
  .look (fun _ => .ite reads_current.optionalToken reads_noToken)

theorem reads_parameter (hd : Sound d) : ReadsNode (parameter d) (.only .parameter) :=
  reads_node (.cons (reads_optional _) <| .cons (reads_access _) <| .cons reads_name <| .cons (reads_optional _) <|
    .cons (reads_typeClause hd) <| .cons (reads_initializer hd true) .nil) rfl

theorem reads_parameterList (hd : Sound d) : ReadsNode (parameterList d) (.only .parameterList) :=
  reads_node (.cons (reads_mark _) <| .cons (reads_delimited _ _ (reads_parameter hd) nofun) <|
    .cons (reads_mark _) .nil) rfl

theorem reads_callSignature (hd : Sound d) : ReadsNode (callSignature d) (.only .callSignature) :=
  reads_node (.cons (reads_inner (reads_parameterList hd)) <| .cons (reads_typeClause hd) .nil) rfl

/-! ## Types -/

theorem reads_memberSeparator : ReadsSlot memberSeparator .optionalToken :=
  .look (fun _ => .ite reads_current.optionalToken (.ite reads_noToken (reads_expected _)))

theorem reads_namedTypeMember (hd : Sound d) : ReadsNode (namedTypeMember d) .typeMember := by
  refine (reads_parts (.cons reads_property <| .cons (reads_optional _) .nil)).bind (fun slots ts hslots => ?_)
  refine .look (fun method => .ite ?_ ?_)
  · exact reads_nodeAfter hslots (.cons (reads_inner (reads_callSignature hd)) <| .cons reads_memberSeparator .nil)
      rfl rfl
  · exact reads_nodeAfter hslots (.cons (reads_typeClause hd) <| .cons reads_memberSeparator .nil) rfl rfl

theorem reads_typeMember (hd : Sound d) : ReadsNode (typeMember d) .typeMember := by
  refine .look (fun r => ?_)
  split
  · exact reads_node (.cons (reads_inner (reads_callSignature hd)) <| .cons reads_memberSeparator .nil) rfl
  · exact reads_node (.cons (reads_mark _) <| .cons (reads_inner (reads_parameter hd)) <| .cons (reads_mark _) <|
      .cons (reads_typeClause hd) <| .cons reads_memberSeparator .nil) rfl
  · refine .ite ?_ (reads_namedTypeMember hd)
    exact reads_node (.cons (reads_word _) <| .cons (reads_inner (reads_callSignature hd)) <|
      .cons reads_memberSeparator .nil) rfl
  · exact reads_namedTypeMember hd

theorem reads_objectType (hd : Sound d) (hc : c.includes .objectType = true) : ReadsNode (objectType d) c :=
  reads_node (.cons (reads_mark _) <| .cons (reads_members (reads_typeMember hd)) <| .cons (reads_mark _) .nil) hc

theorem reads_nonArrayType (hd : Sound d) : ReadsNode (nonArrayType d) .type := by
  refine .look (fun r => ?_)
  split
  · exact reads_objectType hd rfl
  · exact reads_node (.cons (reads_inner (reads_parameterList hd)) <| .cons (reads_mark _) <|
      .cons (hd.part .type) .nil) rfl
  · exact reads_node (.cons (reads_word _) <| .cons (reads_inner (reads_parameterList hd)) <| .cons (reads_mark _) <|
      .cons (hd.part .type) .nil) rfl
  · exact reads_node (.cons reads_current .nil) rfl
  · exact .ite (reads_node (.cons reads_current .nil) rfl)
      (reads_qualifiedName.widen NodeClass.name_type)
  · exact reads_expected _

/-- **A type is read as a type.** -/
theorem reads_typeNode (hd : Sound d) : ReadsNode (typeNode d) .type := by
  refine reads_grow (reads_nonArrayType hd).nested (fun n ts hn => .look (fun r => .ite ?_ reads_noLarger))
  exact reads_larger (reads_nodeAfter (.one hn.slot) (.cons (reads_mark _) <| .cons (reads_mark _) .nil) rfl rfl)

/-! ## Functions and literals -/

theorem reads_block (hd : Sound d) (hc : c.includes .block = true) : ReadsNode (block d) c :=
  reads_node (.cons (reads_mark _) <| .cons (reads_members (hd .statement)) <| .cons (reads_mark _) .nil) hc

theorem reads_blockPart (hd : Sound d) : ReadsSlot (inner (block d)) (.node (.only .block)) :=
  reads_inner (reads_block hd rfl)

theorem reads_arrowBody (hd : Sound d) (allowIn : Bool) : ReadsSlot (arrowBody d allowIn) (.node .body) :=
  .look (fun _ => .ite (reads_inner (reads_block hd rfl))
    (reads_inner ((hd (.assignment allowIn)).widen NodeClass.expression_body)))

/-- **An arrow function is read from where its signature starts**: an attempt that found none has moved over nothing. -/
theorem reads_arrowFunction? (hd : Sound d) (allowIn : Bool) :
    Reads (arrowFunction? d allowIn) (GrowsTo .expression []) := by
  refine .look (fun r => ?_)
  split
  · refine .ite (reads_larger ?_) reads_noLarger
    exact reads_node (.cons reads_name <| .cons (reads_mark _) <| .cons (reads_arrowBody hd allowIn) .nil) rfl
  · refine ((reads_callSignature hd).attempt atArrow).bind (fun signature? ts hsig => ?_)
    cases signature? with
    | none => cases hsig; exact reads_noLarger
    | some signature =>
      have hs : IsNode (.only .callSignature) signature ts := hsig
      exact (reads_nodeAfter (.one hs.slot) (.cons (reads_mark _) <|
        .cons (reads_arrowBody hd allowIn) .nil) rfl rfl).map (fun n us hn => hn)
  · exact reads_noLarger

/-- An array may end in an omitted element behind a comma, and is empty only where no comma was read. -/
theorem reads_arrayElementsUpTo (hd : Sound d) : ∀ turns behindComma, Reads (arrayElementsUpTo d turns behindComma)
    (fun r ts => IsSlot (if behindComma then .nonempty .listed else .separated .listed) (.separated r.1 r.2) ts)
  | 0, _ => reads_fault _
  | turns + 1, behindComma => by
    have hbehind : ∀ n ts, IsNode .listed n ts → Reads (behindMember n (arrayElementsUpTo d turns true))
        (fun r us => IsSlot (.nonempty .listed) (.separated r.1 r.2) (ts ++ us)) :=
      fun n ts hn => reads_behindMember hn (reads_arrayElementsUpTo hd turns true)
    have hmore : ∀ (r : List Node × List Token) ts, IsSlot (.nonempty .listed) (.separated r.1 r.2) ts →
        IsSlot (if behindComma then .nonempty .listed else .separated .listed) (.separated r.1 r.2) ts := by
      intro r ts hr
      cases behindComma with
      | false => exact hr.separated
      | true => exact hr
    refine .look (fun closes => .ite ?_ (.weaken ?_ hmore))
    · cases behindComma with
      | false => exact .pure (.emptySeparated _)
      | true => exact (reads_omitted rfl).bind (fun n ts hn => .pure (by simpa using IsSlot.single hn))
    · exact .look (fun comma => .ite ((reads_omitted rfl).bind hbehind)
        (((hd (.assignment true)).widen NodeClass.expression_listed).bind hbehind))

theorem reads_arrayElements (hd : Sound d) : ReadsSlot (arrayElements d) (.separated .listed) :=
  (reads_arrayElementsUpTo hd _ false).map (fun _ _ hr => hr)

theorem reads_expression (hd : Sound d) (allowIn : Bool) : ReadsNode (expression d allowIn) .expression := by
  refine reads_grow (hd (.assignment allowIn)) (fun n ts hn => .look (fun comma => .ite ?_ reads_noLarger))
  exact reads_larger (reads_nodeAfter (.one hn.slot) (.cons (reads_mark _) <|
    .cons (hd.part (.assignment allowIn)) .nil) rfl rfl)

theorem reads_propertyAssignment (hd : Sound d) : ReadsNode (propertyAssignment d) .objectMember := by
  refine .look (fun r => .ite ?_ (.ite ?_ ?_))
  · exact reads_node (.cons reads_current <| .cons reads_property <| .cons (reads_mark _) <| .cons (reads_mark _) <|
      .cons (reads_typeClause hd) <| .cons (reads_blockPart hd) .nil) rfl
  · exact reads_node (.cons reads_current <| .cons reads_property <| .cons (reads_mark _) <|
      .cons (reads_inner (reads_parameter hd)) <| .cons (reads_mark _) <| .cons (reads_blockPart hd) .nil) rfl
  · exact reads_node (.cons reads_property <| .cons (reads_mark _) <| .cons (hd.part (.assignment true)) .nil) rfl

/-- A slash that is cut anew as a regular expression is read like any other literal. -/
theorem reads_regularExpression : ReadsNode regularExpression .expression :=
  reads_rescan.bind (fun _ ts hts => by subst hts; exact reads_node (.cons reads_current .nil) rfl)

theorem reads_primary (hd : Sound d) : ReadsNode (primary d) .expression := by
  refine .look (fun r => ?_)
  split
  · exact reads_node (.cons reads_current .nil) rfl
  · exact reads_node (.cons reads_current .nil) rfl
  · exact reads_node (.cons reads_current .nil) rfl
  · exact reads_node (.cons reads_current .nil) rfl
  · exact reads_node (.cons reads_current .nil) rfl
  · exact reads_node (.cons reads_current .nil) rfl
  · exact reads_node (.cons reads_current .nil) rfl
  · exact reads_node (.cons reads_current .nil) rfl
  · exact reads_regularExpression
  · exact reads_regularExpression
  · exact reads_node (.cons (reads_mark _) <| .cons (reads_inner (reads_expression hd true)) <|
      .cons (reads_mark _) .nil) rfl
  · exact reads_node (.cons (reads_mark _) <| .cons (reads_arrayElements hd) <| .cons (reads_mark _) .nil) rfl
  · exact reads_node (.cons (reads_mark _) <| .cons (reads_delimited _ _ (reads_propertyAssignment hd) (fun _ => rfl)) <|
      .cons (reads_mark _) .nil) rfl
  · exact reads_node (.cons (reads_word _) <| .cons (reads_optional _) <|
      .cons (reads_inner (reads_callSignature hd)) <| .cons (reads_blockPart hd) .nil) rfl
  · exact reads_expected _

/-! ## Members, calls and operators -/

theorem reads_argumentList (hd : Sound d) : ReadsNode (argumentList d) (.only .argumentList) :=
  reads_node (.cons (reads_mark _) <| .cons (reads_delimited _ _ (hd (.assignment true)) nofun) <|
    .cons (reads_mark _) .nil) rfl

theorem reads_suffixStep (hd : Sound d) (allowCalls : Bool) (hn : IsNode .expression n ts) :
    Reads (suffixStep d allowCalls n) (GrowsTo .expression ts) := by
  refine .look (fun r => ?_)
  split
  · exact reads_larger (reads_nodeAfter (.one hn.slot) (.cons (reads_mark _) <| .cons reads_member .nil) rfl rfl)
  · exact reads_larger (reads_nodeAfter (.one hn.slot) (.cons (reads_mark _) <|
      .cons (reads_inner (reads_expression hd true)) <| .cons (reads_mark _) .nil) rfl rfl)
  · refine .ite (reads_larger ?_) reads_noLarger
    exact reads_nodeAfter (.one hn.slot) (.cons (reads_inner (reads_argumentList hd)) .nil) rfl rfl
  · exact reads_noLarger

theorem reads_suffixes (hd : Sound d) (allowCalls : Bool) (hn : IsNode .expression n ts) :
    Reads (suffixes d allowCalls n) (fun m us => IsNode .expression m (ts ++ us)) :=
  reads_growUpTo (fun _ _ hm => reads_suffixStep hd allowCalls hm) _ hn

theorem reads_callee (hd : Sound d) : ReadsNode (callee d) .expression :=
  .look (fun _ => .ite (hd .creation) (reads_primary hd))

theorem reads_creation (hd : Sound d) : ReadsNode (creation d) .expression := by
  refine reads_enter.bind (fun _ none hnone => ?_)
  subst hnone
  refine reads_current.bind (fun keyword ts hkeyword => ?_)
  refine (reads_callee hd).leaving.bind (fun target us htarget => ?_)
  refine (reads_suffixes hd false htarget).bind (fun target vs htarget => ?_)
  have hslots := AreSlots.cons hkeyword (.one htarget.slot)
  have harguments : List.Forall₂ ReadsSlot [innerIfMark .openParen (argumentList d)] _ :=
    .cons (reads_innerIf _ (reads_argumentList hd)) .nil
  refine (reads_nodeAfter (c := .expression) hslots harguments (rfl : _ = NodeKind.sorts .objectCreationExpression)
    rfl).weaken (fun n ws hn => ?_)
  simpa using hn

theorem reads_postfixed (hn : IsNode .expression n ts) :
    Reads (postfixed n) (fun m us => IsNode .expression m (ts ++ us)) := by
  refine .look (fun r => .ite ?_ (.pure ((List.append_nil ts).symm ▸ hn)))
  exact reads_nodeAfter (.one hn.slot) (.cons reads_current .nil) rfl rfl

theorem reads_unary (hd : Sound d) : ReadsNode (unary d) .expression := by
  refine Reads.nested (.look (fun r => .ite ?_ (.ite ?_ ?_)))
  · exact reads_node (.cons reads_current <| .cons (hd.part .unary) .nil) rfl
  · exact reads_node (.cons (reads_mark _) <| .cons (hd.part .type) <| .cons (reads_mark _) <|
      .cons (hd.part .unary) .nil) rfl
  · exact (reads_callee hd).bind (fun n ts hn => (reads_suffixes hd true hn).bind (fun m us hm =>
      (reads_postfixed hm).assoc))

theorem reads_binaryStep (hd : Sound d) (above : Nat) (allowIn : Bool) (hn : IsNode .expression n ts) :
    Reads (binaryStep d above allowIn n) (GrowsTo .expression ts) := by
  refine .look (fun r => .ite (reads_larger ?_) reads_noLarger)
  exact reads_nodeAfter (.one hn.slot) (.cons reads_current <| .cons (hd.part (.binary _ allowIn)) .nil) rfl rfl

theorem reads_binary (hd : Sound d) (above : Nat) (allowIn : Bool) : ReadsNode (binary d above allowIn) .expression :=
  reads_grow (hd .unary) (fun _ _ hn => reads_binaryStep hd above allowIn hn)

theorem reads_conditional (hd : Sound d) (allowIn : Bool) : ReadsNode (conditional d allowIn) .expression := by
  refine (hd (.binary 0 allowIn)).bind (fun n ts hn => .look (fun question => .ite ?_ (.pure ?_)))
  · exact reads_nodeAfter (.one (IsNode.slot hn)) (.cons (reads_mark _) <| .cons (hd.part (.assignment true)) <|
      .cons (reads_mark _) <| .cons (hd.part (.assignment allowIn)) .nil) rfl rfl
  · rw [List.append_nil]; exact hn

/-- **An assignment is read whether or not an arrow function was tried for first.** -/
theorem reads_assignment (hd : Sound d) (allowIn : Bool) : ReadsNode (assignment d allowIn) .expression := by
  refine Reads.nested ((reads_arrowFunction? hd allowIn).bind (fun arrow? ts harrow => ?_))
  cases arrow? with
  | some arrow => exact .pure ((List.append_nil ts).symm ▸ harrow)
  | none =>
    cases harrow
    refine (reads_conditional hd allowIn).bind (fun n ts hn => .look (fun k => .ite ?_ (.pure ?_)))
    · exact reads_nodeAfter (.one hn.slot) (.cons reads_current <| .cons (hd.part (.assignment allowIn)) .nil) rfl rfl
    · rw [List.append_nil]; exact hn

/-! ## Variables and functions -/

theorem reads_declaratorAfter (hd : Sound d) {slot : Slot} (h : IsSlot .token slot ts) (allowIn : Bool) :
    Reads (declaratorAfter d slot allowIn) (fun n us => IsNode (.only .variableDeclarator) n (ts ++ us)) :=
  reads_nodeAfter (.one h) (.cons (reads_typeClause hd) <| .cons (reads_initializer hd allowIn) .nil) rfl rfl

theorem reads_declarator (hd : Sound d) (allowIn : Bool) :
    ReadsNode (declarator d allowIn) (.only .variableDeclarator) :=
  reads_name.bind (fun _ _ hname => reads_declaratorAfter hd hname allowIn)

theorem reads_variableDeclaration (hd : Sound d) (allowIn : Bool) :
    ReadsNode (variableDeclaration d allowIn) (.only .variableDeclaration) :=
  reads_node (.cons (reads_word _) <| .cons (reads_commaList (reads_declarator hd allowIn)) .nil) rfl

/-- The words in front of a declaration. -/
abbrev AreModifiers (slots : List Slot) (ts : List Made) : Prop :=
  AreSlots [.optionalToken, .optionalToken] slots ts

theorem areModifiers_none : AreModifiers noModifiers [] := .cons .absentToken (.one .absentToken)

theorem reads_variableStatement (hd : Sound d) {slots : List Slot} (h : AreModifiers slots ts)
    (hc : c.includes .variableStatement = true) :
    Reads (variableStatement d slots) (fun n us => IsNode c n (ts ++ us)) :=
  reads_nodeAfter h (.cons (reads_inner (reads_variableDeclaration hd true)) <| .cons reads_statementEnd .nil) rfl hc

theorem reads_bodyOrEnd (hd : Sound d) : ReadsSlots (bodyOrEnd d) [.optionalNode (.only .block), .optionalToken] :=
  .look (fun _ => .ite
    (reads_parts (.cons (reads_blockPart hd).mayBeLeftOut <| .cons reads_noToken .nil))
    (reads_parts (.cons (reads_noNode _) <| .cons reads_statementEnd.optionalToken .nil)))

/-- **A node with a body that may be left out is read with it or without it.** -/
theorem reads_nodeWithBody (hd : Sound d) {kind : NodeKind} {before : List Slot} {rest : List Part}
    {front behind : List SlotSort} (hbefore : AreSlots front before ts) (hrest : List.Forall₂ ReadsSlot rest behind)
    (hsorts : front ++ (behind ++ [.optionalNode (.only .block), .optionalToken]) = kind.sorts)
    (hc : c.includes kind = true) :
    Reads (nodeWithBody d kind before rest) (fun n us => IsNode c n (ts ++ us)) := by
  refine (reads_parts hrest).bind (fun slots us hslots => (reads_bodyOrEnd hd).bind (fun body vs hbody => ?_))
  have hall := hbefore.append (hslots.append hbody)
  rw [hsorts] at hall
  rw [List.append_assoc]
  refine (reads_fresh hall hc).weaken (fun n ws hn => ?_)
  simpa using hn

theorem reads_functionDeclaration (hd : Sound d) {slots : List Slot} (h : AreModifiers slots ts)
    (hc : c.includes .functionDeclaration = true) :
    Reads (functionDeclaration d slots) (fun n us => IsNode c n (ts ++ us)) :=
  reads_nodeWithBody hd h (.cons (reads_word _) <| .cons reads_name <|
    .cons (reads_inner (reads_callSignature hd)) .nil) rfl hc

/-! ## Statements -/

theorem reads_substatement (hd : Sound d) : ReadsSlot (substatement d) (.node .statement) := hd.part .statement

theorem reads_whole (hd : Sound d) : ReadsSlot (whole d) (.node .expression) := reads_inner (reads_expression hd true)

theorem reads_jumpLabel : ReadsSlot jumpLabel .optionalToken :=
  .look (fun _ => .ite reads_current.optionalToken reads_noToken)

theorem reads_looseEnd : ReadsSlot looseEnd .token :=
  .look (fun _ => .ite reads_current (reads_tokenSlot reads_emptySemicolon))

theorem reads_elseClause (hd : Sound d) : ReadsNode (elseClause d) (.only .elseClause) :=
  reads_node (.cons (reads_word _) <| .cons (reads_substatement hd) .nil) rfl

theorem reads_loopStart (hd : Sound d) :
    ReadsSlots (loopStart d) [.optionalNode (.only .variableDeclaration), .optionalNode .expression] := by
  refine .look (fun r => .ite ?_ (.ite ?_ ?_))
  · exact reads_parts (.cons (reads_inner (reads_variableDeclaration hd false)).mayBeLeftOut <|
      .cons (reads_noNode _) .nil)
  · exact reads_parts (.cons (reads_noNode _) <| .cons (reads_noNode _) .nil)
  · exact reads_parts (.cons (reads_noNode _) <| .cons (reads_inner (reads_expression hd false)).mayBeLeftOut .nil)

theorem reads_forStatement (hd : Sound d) : ReadsNode (forStatement d) .statement := by
  refine (reads_parts (.cons (reads_word _) <| .cons (reads_mark _) .nil)).bind (fun head ts hhead => ?_)
  refine (reads_loopStart hd).bind (fun start us hstart => .look (fun inLoop => ?_))
  have hslots := hhead.append hstart
  refine .ite ?_ ?_
  · have hin : Reads (nodeAfter .forInStatement (head ++ start)
        [word .inKw, whole d, mark .closeParen, substatement d]) (fun n vs => IsNode .statement n (ts ++ (us ++ vs))) :=
      (reads_nodeAfter hslots (.cons (reads_word _) <| .cons (reads_whole hd) <| .cons (reads_mark _) <|
        .cons (reads_substatement hd) .nil) rfl rfl).assoc
    exact .ite ((reads_fault (P := fun _ _ => False) _).bind (fun _ _ hfalse => hfalse.elim)) hin
  · exact (reads_nodeAfter hslots (.cons (reads_mark _) <| .cons (reads_innerIf _ (reads_expression hd true)) <|
      .cons (reads_mark _) <| .cons (reads_innerIf _ (reads_expression hd true)) <| .cons (reads_mark _) <|
      .cons (reads_substatement hd) .nil) rfl rfl).assoc

theorem reads_returned (hd : Sound d) : ReadsSlot (returned d) (.optionalNode .expression) :=
  reads_innerIf _ (reads_expression hd true)

theorem reads_onSameLine (hd : Sound d) : ReadsSlot (onSameLine d) (.node .expression) :=
  .look (fun _ => .ite (reads_fault _) (reads_whole hd))

theorem reads_catchClause (hd : Sound d) : ReadsNode (catchClause d) (.only .catchClause) :=
  reads_node (.cons (reads_word _) <| .cons (reads_mark _) <| .cons reads_name <| .cons (reads_mark _) <|
    .cons (reads_blockPart hd) .nil) rfl

theorem reads_finallyClause (hd : Sound d) : ReadsNode (finallyClause d) (.only .finallyClause) :=
  reads_node (.cons (reads_word _) <| .cons (reads_blockPart hd) .nil) rfl

theorem reads_handlers (hd : Sound d) :
    ReadsSlots (handlers d) [.optionalNode (.only .catchClause), .optionalNode (.only .finallyClause)] := by
  refine (reads_parts (.cons (reads_innerIf _ (reads_catchClause hd)) <|
    .cons (reads_innerIf _ (reads_finallyClause hd)) .nil)).bind (fun slots ts hslots => .ite (reads_expected _) ?_)
  exact .pure ((List.append_nil ts).symm ▸ hslots)

theorem reads_tryStatement (hd : Sound d) : ReadsNode (tryStatement d) .statement := by
  refine (reads_parts (.cons (reads_word _) <| .cons (reads_blockPart hd) .nil)).bind (fun slots ts hslots => ?_)
  refine (reads_handlers hd).bind (fun handled us hhandled => ?_)
  have hall : AreSlots (NodeKind.sorts .tryStatement) (slots ++ handled) (ts ++ us) := hslots.append hhandled
  exact (reads_fresh hall rfl).assoc

theorem reads_clauseStatements (hd : Sound d) : ReadsSlot (clauseStatements d) (.list .statement) :=
  (reads_membersUntil _ (hd .statement) _).map (fun _ _ hns => hns)

theorem reads_switchClause (hd : Sound d) : ReadsNode (switchClause d) .switchClause := by
  refine .look (fun k => ?_)
  split
  · exact reads_node (.cons (reads_word _) <| .cons (reads_whole hd) <| .cons (reads_mark _) <|
      .cons (reads_clauseStatements hd) .nil) rfl
  · exact reads_node (.cons (reads_word _) <| .cons (reads_mark _) <| .cons (reads_clauseStatements hd) .nil) rfl
  · exact reads_expected _

theorem reads_switchClauses (hd : Sound d) : ReadsSlot (switchClauses d) (.list .switchClause) :=
  (reads_membersUntil _ (reads_switchClause hd) _).map (fun _ _ hns => hns)

/-- **Whatever a reserved word starts is a statement.** -/
theorem reads_wordStatement (hd : Sound d) {k : Keyword} {p : Parser Node} (h : wordStatement d k = some p) :
    ReadsNode p .statement := by
  unfold wordStatement at h
  split at h <;> cases h
  · exact reads_variableStatement hd areModifiers_none rfl
  · exact reads_functionDeclaration hd areModifiers_none rfl
  · exact reads_node (.cons (reads_word _) <| .cons (reads_mark _) <| .cons (reads_whole hd) <| .cons (reads_mark _) <|
      .cons (reads_substatement hd) <| .cons (reads_innerIf _ (reads_elseClause hd)) .nil) rfl
  · exact reads_node (.cons (reads_word _) <| .cons (reads_substatement hd) <| .cons (reads_word _) <|
      .cons (reads_mark _) <| .cons (reads_whole hd) <| .cons (reads_mark _) <| .cons reads_looseEnd .nil) rfl
  · exact reads_node (.cons (reads_word _) <| .cons (reads_mark _) <| .cons (reads_whole hd) <| .cons (reads_mark _) <|
      .cons (reads_substatement hd) .nil) rfl
  · exact reads_forStatement hd
  · exact reads_node (.cons (reads_word _) <| .cons reads_jumpLabel <| .cons reads_statementEnd .nil) rfl
  · exact reads_node (.cons (reads_word _) <| .cons reads_jumpLabel <| .cons reads_statementEnd .nil) rfl
  · exact reads_node (.cons (reads_word _) <| .cons (reads_returned hd) <| .cons reads_statementEnd .nil) rfl
  · exact reads_node (.cons (reads_word _) <| .cons (reads_onSameLine hd) <| .cons reads_statementEnd .nil) rfl
  · exact reads_tryStatement hd
  · exact reads_node (.cons (reads_word _) <| .cons (reads_mark _) <| .cons (reads_whole hd) <| .cons (reads_mark _) <|
      .cons (reads_mark _) <| .cons (reads_switchClauses hd) <| .cons (reads_mark _) .nil) rfl
  · exact reads_node (.cons (reads_word _) <| .cons (reads_mark _) <| .cons (reads_whole hd) <| .cons (reads_mark _) <|
      .cons (reads_substatement hd) .nil) rfl
  · exact reads_node (.cons (reads_word _) <| .cons reads_statementEnd .nil) rfl

theorem reads_expressionStatement (hd : Sound d) : ReadsNode (expressionStatement d) .statement :=
  reads_node (.cons (reads_whole hd) <| .cons reads_statementEnd .nil) rfl

/-- **A statement is read as a statement.** -/
theorem reads_statement (hd : Sound d) : ReadsNode (statement d) .statement := by
  refine Reads.nested (.look (fun r => ?_))
  split
  · exact reads_block hd rfl
  · exact reads_node (.cons reads_current .nil) rfl
  · rename_i k _
    cases h : wordStatement d k with
    | some p => exact reads_wordStatement hd h
    | none => exact reads_expressionStatement hd
  · refine .ite ?_ (reads_expressionStatement hd)
    exact reads_node (.cons reads_name <| .cons (reads_mark _) <| .cons (reads_substatement hd) .nil) rfl
  · exact reads_expressionStatement hd

/-! ## Classes -/

theorem reads_memberAccessor (hd : Sound d) {slots : List Slot} (h : AreModifiers slots ts) :
    Reads (memberAccessor d slots) (fun n us => IsNode .classMember n (ts ++ us)) := by
  refine .look (fun r => .ite ?_ ?_)
  · exact reads_nodeAfter h (.cons reads_current <| .cons reads_property <|
      .cons (reads_inner (reads_parameterList hd)) <| .cons (reads_typeClause hd) <|
      .cons (reads_blockPart hd) .nil) rfl rfl
  · exact reads_nodeAfter h (.cons reads_current <| .cons reads_property <|
      .cons (reads_inner (reads_parameterList hd)) <| .cons (reads_blockPart hd) .nil) rfl rfl

theorem reads_methodOrField (hd : Sound d) {slots : List Slot} (h : AreModifiers slots ts) :
    Reads (methodOrField d slots) (fun n us => IsNode .classMember n (ts ++ us)) := by
  refine reads_property.bind (fun name us hname => .look (fun method => .ite ?_ ?_))
  · exact (reads_nodeWithBody hd (h.append (.one hname)) (.cons (reads_inner (reads_callSignature hd)) .nil) rfl
      rfl).assoc
  · -- The declarator takes in the name, which was read before it was known to be that of a field.
    have hdeclarator : Reads (inner (declaratorAfter d name true)) (fun slot vs =>
        IsSlot (.node (.only .variableDeclarator)) slot (us ++ vs)) :=
      (reads_declaratorAfter hd hname true).map (fun n vs hn => hn.slot)
    have hend : ReadsSlots (parts [statementEnd]) [.token] := reads_parts (.cons reads_statementEnd .nil)
    refine (reads_partsBehind hdeclarator hend).bind (fun slots vs hslots => ?_)
    have hall : AreSlots (NodeKind.sorts .memberVariableDeclaration) _ _ := h.append hslots
    refine (reads_fresh (c := .classMember) hall rfl).weaken (fun n ws hn => ?_)
    simpa using hn

theorem reads_staticWord : ReadsSlot staticWord .optionalToken :=
  .look (fun _ => .ite reads_current.optionalToken reads_noToken)

theorem reads_classElement (hd : Sound d) : ReadsNode (classElement d) .classMember := by
  refine .look (fun r => .ite ?_ ?_)
  · exact reads_nodeWithBody hd .nil (.cons reads_current <| .cons (reads_inner (reads_parameterList hd)) .nil) rfl rfl
  · refine (reads_parts (.cons (reads_access _) <| .cons reads_staticWord .nil)).bind (fun slots ts hslots => ?_)
    exact .look (fun r => .ite (reads_memberAccessor hd hslots) (reads_methodOrField hd hslots))

theorem reads_baseClause : ReadsNode (baseClause d) (.only .extendsClause) :=
  reads_node (.cons (reads_word _) <| .cons (reads_qualifiedName.map (fun _ _ hn => .single hn)) .nil) rfl

theorem reads_implementsClause : ReadsNode (implementsClause d) (.only .implementsClause) :=
  reads_node (.cons (reads_word _) <| .cons (reads_commaList reads_qualifiedName) .nil) rfl

theorem reads_classDeclaration (hd : Sound d) {slots : List Slot} (h : AreModifiers slots ts) :
    Reads (classDeclaration d slots) (fun n us => IsNode .element n (ts ++ us)) :=
  reads_nodeAfter h (.cons (reads_word _) <| .cons reads_name <| .cons (reads_innerIf _ reads_baseClause) <|
    .cons (reads_innerIf _ reads_implementsClause) <| .cons (reads_mark _) <|
    .cons (reads_members (reads_classElement hd)) <| .cons (reads_mark _) .nil) rfl rfl

/-! ## Interfaces, enums and namespaces -/

theorem reads_extendedInterfaces : ReadsNode (extendedInterfaces d) (.only .extendsClause) :=
  reads_node (.cons (reads_word _) <| .cons (reads_commaList reads_qualifiedName) .nil) rfl

theorem reads_interfaceDeclaration (hd : Sound d) {slot : Slot} (h : IsSlot .optionalToken slot ts) :
    Reads (interfaceDeclaration d slot) (fun n us => IsNode .element n (ts ++ us)) :=
  reads_nodeAfter (.one h) (.cons (reads_word _) <| .cons reads_name <|
    .cons (reads_innerIf _ reads_extendedInterfaces) <|
    .cons (reads_inner (reads_objectType (c := .only .objectType) hd rfl)) .nil) rfl rfl

theorem reads_enumElement (hd : Sound d) : ReadsNode (enumElement d) .enumMember :=
  reads_node (.cons reads_property <| .cons (reads_initializer hd true) .nil) rfl

theorem reads_enumDeclaration (hd : Sound d) {slots : List Slot} (h : AreModifiers slots ts) :
    Reads (enumDeclaration d slots) (fun n us => IsNode .element n (ts ++ us)) :=
  reads_nodeAfter h (.cons (reads_word _) <| .cons reads_name <| .cons (reads_mark _) <|
    .cons (reads_delimited _ _ (reads_enumElement hd) (fun _ => rfl)) <| .cons (reads_mark _) .nil) rfl rfl

theorem reads_moduleName : ReadsNode (moduleName d) .moduleName :=
  .look (fun _ => .ite (reads_node (.cons reads_current .nil) rfl)
    (reads_qualifiedName.widen NodeClass.name_moduleName))

theorem reads_moduleDeclaration (hd : Sound d) {slots : List Slot} (h : AreModifiers slots ts) :
    Reads (moduleDeclaration d slots) (fun n us => IsNode .element n (ts ++ us)) :=
  reads_nodeAfter h (.cons reads_current <| .cons (reads_inner reads_moduleName) <| .cons (reads_mark _) <|
    .cons (reads_members (hd .moduleElement)) <| .cons (reads_mark _) .nil) rfl rfl

/-! ## Module elements -/

theorem reads_declareWord : ReadsSlot declareWord .optionalToken :=
  .look (fun _ => .ite reads_current.optionalToken reads_noToken)

/-- **An element of a module is a statement or a declaration with all the words in front of it**: where the words lead
to nothing that they may stand in front of, nothing is read at all. -/
theorem reads_moduleElement (hd : Sound d) : ReadsNode (moduleElement d) .element := by
  refine (reads_optional _).bind (fun exported ts hexported => ?_)
  refine reads_declareWord.bind (fun declared us hdeclared => .look (fun r => ?_))
  have hmodifiers : AreModifiers [exported, declared] (ts ++ us) := .cons hexported (.one hdeclared)
  refine Reads.assoc ?_
  split
  · exact reads_classDeclaration hd hmodifiers
  · by_cases hword : declared.token?.isSome = true
    · rw [if_pos hword]; exact reads_fault _
    · rw [if_neg hword]
      have hsilent := hdeclared.tokens_eq_nil (by simpa using hword)
      refine (reads_interfaceDeclaration hd hexported).weaken (fun n vs hn => hn.of_subperm (by simp [hsilent]) ?_)
      exact (List.sublist_append_left ts us).subperm.append (List.Subperm.refl vs)
  · exact reads_enumDeclaration hd hmodifiers
  · exact reads_functionDeclaration hd hmodifiers rfl
  · exact reads_variableStatement hd hmodifiers rfl
  · refine .ite (reads_moduleDeclaration hd hmodifiers) ?_
    by_cases hword : List.any [exported, declared] (fun slot => slot.token?.isSome) = true
    · rw [if_pos hword]; exact reads_expected _
    · obtain ⟨hnone, hnone'⟩ : exported.token?.isSome = false ∧ declared.token?.isSome = false := by
        simpa using hword
      have hsilent := hexported.tokens_eq_nil hnone
      have hsilent' := hdeclared.tokens_eq_nil hnone'
      rw [if_neg hword]
      exact ((hd .statement).widen NodeClass.statement_element).weaken (fun n vs hn =>
        hn.of_subperm (by simp [hsilent, hsilent']) (List.sublist_append_right _ vs).subperm)

end Parser

end Downlevel
