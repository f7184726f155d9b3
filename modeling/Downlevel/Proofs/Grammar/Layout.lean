import Downlevel.Proofs.Grammar.Parallel
/-!
# Proofs.Grammar.Layout — layout does not influence what is read

Statements and declarations are read alike where only layout differs, and so are all goals: the recursion goes down
along the tokens that are left and, where none is consumed, along the goals (`Goal.rank`).  So it never comes to the
readers that lie below its last level, which may be any (`steps_goalOver`).  Texts of any length whose tokens are alike
are read with one outcome (`parseFrom_alike`).
-/
namespace Downlevel

/-- How far down a goal leads in front of its first token. -/
def Goal.rank : Goal → Nat
  | .type => 0
  | .creation => 0
  | .unary => 1
  | .binary _ _ => 2
  | .assignment _ => 3
  | .statement => 4
  | .moduleElement => 5

theorem Goal.rank_lt (g : Goal) : g.rank < 6 := by cases g <;> simp [Goal.rank]

namespace Parser

open Reading

variable {k i : Nat} {P : TokenKind → Prop} {d d' : Descent} {slots slots' : List Slot}

/-! ## Variables and functions -/

theorem stays_declaratorAfter (hd : Below k d d') (allowIn : Bool) {slot slot' : Slot} (hslot : slot.outline = slot'.outline) :
    Stays k Node.outline (declaratorAfter d slot allowIn) (declaratorAfter d' slot' allowIn) :=
  mirrors_nodeFrom (congrArg (fun s => [s]) hslot) (stays_typeClause hd) (.cons (stays_initializer hd allowIn) .nil)

theorem steps_declarator (hd : Below k d d') (allowIn : Bool) :
    Steps P k Node.outline (declarator d allowIn) (declarator d' allowIn) :=
  steps_name.bind (fun _ _ hslot => stays_declaratorAfter hd allowIn hslot)

theorem steps_variableDeclaration (hd : Below k d d') (allowIn : Bool) :
    Steps P k Node.outline (variableDeclaration d allowIn) (variableDeclaration d' allowIn) :=
  mirrors_nodeOf (steps_word _) (.cons (hd.commaList (hd.each (fun _ h => steps_declarator h allowIn))) .nil)

theorem steps_variableStatement (hd : Below k d d') (hslots : rowOutline slots = rowOutline slots') :
    Steps P k Node.outline (variableStatement d slots) (variableStatement d' slots') :=
  mirrors_nodeFrom hslots (steps_inner (steps_variableDeclaration hd true)) (.cons stays_statementEnd .nil)

theorem stays_bodyOrEnd (hd : Below k d d') : Stays k rowOutline (bodyOrEnd d) (bodyOrEnd d') := by
  refine .ifSees _ ?_ ?_
  · exact (stays_parts (.cons (stays_blockPart hd) <| .cons stays_nothing .nil)).before (fun _ _ => trivial)
  · exact stays_parts (.cons stays_nothing <| .cons stays_statementEnd .nil)

/-- **A node with a body that may be left out** has it on both sides or on neither. -/
theorem mirrors_nodeWithBody (hd : Below k d d') {kind : NodeKind} {before before' : List Slot} {ps ps' : List Part}
    (hbefore : rowOutline before = rowOutline before') (hs : Mirrors P i (Read rowOutline k) (parts ps) (parts ps')) :
    Mirrors P i (Read Node.outline k) (nodeWithBody d kind before ps) (nodeWithBody d' kind before' ps') := by
  refine hs.bind (fun slots slots' hslots => (stays_bodyOrEnd hd).bind (fun body body' hbody => mirrors_fresh ?_))
  show (before ++ slots ++ body).map _ = (before' ++ slots' ++ body').map _
  rw [List.map_append, List.map_append, List.map_append, List.map_append]
  exact congrArg₂ _ (congrArg₂ _ hbefore hslots) hbody

theorem steps_functionDeclaration (hd : Below k d d') (hslots : rowOutline slots = rowOutline slots') :
    Steps P k Node.outline (functionDeclaration d slots) (functionDeclaration d' slots') :=
  mirrors_nodeWithBody hd hslots (.cons (steps_word _) <| stays_parts <| .cons stays_name <|
    .cons (stays_signaturePart hd) .nil)

/-! ## Statements -/

theorem stays_substatement (hd : Below k d d') : Stays k Slot.outline (substatement d) (substatement d') :=
  hd.part .statement rfl

theorem stays_whole (hd : Below k d d') : Stays k Slot.outline (whole d) (whole d') := hd.expressionPart true

theorem stays_jumpLabel : Stays k Slot.outline jumpLabel jumpLabel := by
  refine stays_currentIf (fun r r' hr => ?_) (fun r h hend => ?_)
  · rw [hr.resembles.kind, hr.resembles.startsLine]
  · rw [hend] at h
    cases h

theorem steps_elseClause (hd : Below k d d') : Steps P k Node.outline (elseClause d) (elseClause d') :=
  mirrors_nodeOf (steps_word _) (.cons (stays_substatement hd) .nil)

theorem stays_looseEnd : Stays k Slot.outline looseEnd looseEnd := by
  refine .ifSees _ (.loose (fun _ _ => steps_currentKind nofun)) ?_
  exact stays_emptySemicolon.mapRead (fun _ _ h => congrArg Slot.token h)

theorem declaresSeveral_outline (s : Slot) : declaresSeveral s.outline = declaresSeveral s := by
  cases s with
  | absent => rfl
  | token => rfl
  | list => rw [Slot.outline_list]; rfl
  | separated => rw [Slot.outline_separated]; rfl
  | node n =>
    obtain ⟨id, kind, slots⟩ := n
    rw [Slot.outline_node, Node.outline_mk]
    cases kind
    case variableDeclaration =>
      rcases slots with _ | ⟨s, _ | ⟨_ | _ | _ | _ | _, _ | _⟩⟩
      all_goals simp [declaresSeveral]
    all_goals rfl

theorem any_declaresSeveral (h : rowOutline slots = rowOutline slots') :
    slots.any declaresSeveral = slots'.any declaresSeveral := by
  have heq : ∀ ss : List Slot, ss.any declaresSeveral = (rowOutline ss).any declaresSeveral := fun ss => by
    rw [List.any_map]
    exact congrArg _ (funext (fun s => (declaresSeveral_outline s).symm))
  rw [heq slots, h, ← heq slots']

theorem stays_loopStart (hd : Below k d d') : Stays k rowOutline (loopStart d) (loopStart d') := by
  refine .look (fun r r' hr _ => ?_)
  rw [← hr.resembles.kind]
  refine .before ?_ (P := Anywhere) (fun _ _ => trivial)
  refine .ite Iff.rfl (fun _ => ?_) (fun _ => .ite Iff.rfl (fun _ => ?_) (fun _ => ?_))
  · exact stays_parts (.cons (hd.inner (fun _ h => steps_variableDeclaration h false)) <| .cons stays_nothing .nil)
  · exact stays_parts (.cons stays_nothing <| .cons stays_nothing .nil)
  · exact stays_parts (.cons stays_nothing <| .cons (hd.expressionPart false) .nil)

theorem rowOutline_append {as as' bs bs' : List Slot} (ha : rowOutline as = rowOutline as')
    (hb : rowOutline bs = rowOutline bs') : rowOutline (as ++ bs) = rowOutline (as' ++ bs') := by
  show (as ++ bs).map _ = (as' ++ bs').map _
  rw [List.map_append, List.map_append]
  exact congrArg₂ _ ha hb

theorem steps_forStatement (hd : Below k d d') : Steps P k Node.outline (forStatement d) (forStatement d') := by
  have hhead : Steps P k rowOutline (parts [word .forKw, mark .openParen]) (parts [word .forKw, mark .openParen]) :=
    .cons (steps_word _) (stays_parts (.cons (stays_mark _) .nil))
  refine hhead.bind (fun head head' hh => (stays_loopStart hd).bind (fun start start' hs => .ifSees _ ?_ ?_))
  · rw [← any_declaresSeveral hs]
    dsimp only
    refine .ite Iff.rfl (fun _ _ _ hdepth _ _ => .error hdepth rfl) (fun _ => ?_)
    exact mirrors_nodeFrom (rowOutline_append hh hs) ((stays_word _).before (fun _ _ => trivial)) (.cons (stays_whole hd) <|
      .cons (stays_mark _) <| .cons (stays_substatement hd) .nil)
  · refine mirrors_nodeFrom (rowOutline_append hh hs) (stays_mark _) (.cons ?_ <| .cons (stays_mark _) <|
      .cons ?_ <| .cons (stays_mark _) <| .cons (stays_substatement hd) .nil)
    · exact stays_innerIf (blind_kind (· != .punctuation .semicolon)) (hd.expression true)
    · exact stays_innerIf (blind_kind (· != .punctuation .closeParen)) (hd.expression true)

theorem stays_returned (hd : Below k d d') : Stays k Slot.outline (returned d) (returned d') :=
  stays_innerIf ((blind_kind (· != .punctuation .semicolon)).and blind_mayEndStatement.not) (hd.expression true)

theorem stays_onSameLine (hd : Below k d d') : Stays k Slot.outline (onSameLine d) (onSameLine d') := by
  refine .look (fun r r' hr _ => ?_)
  rw [← hr.resembles.startsLine]
  exact .ite Iff.rfl (fun _ => mirrors_fault _) (fun _ => (stays_whole hd).before (fun _ _ => trivial))

theorem steps_catchClause (hd : Below k d d') : Steps P k Node.outline (catchClause d) (catchClause d') :=
  mirrors_nodeOf (steps_word _) (.cons (stays_mark _) <| .cons stays_name <| .cons (stays_mark _) <|
    .cons (stays_blockPart hd) .nil)

theorem steps_finallyClause (hd : Below k d d') : Steps P k Node.outline (finallyClause d) (finallyClause d') :=
  mirrors_nodeOf (steps_word _) (.cons (stays_blockPart hd) .nil)

theorem isNone_node? (h : rowOutline slots = rowOutline slots') :
    slots.all (fun s => s.node?.isNone) = slots'.all (fun s => s.node?.isNone) := by
  have heq : ∀ ss : List Slot, ss.all (fun s => s.node?.isNone) = (rowOutline ss).all (fun s => s.node?.isNone) :=
    fun ss => by
      rw [List.all_map]
      exact congrArg _ (funext (fun s => by cases s <;> rfl))
  rw [heq slots, h, ← heq slots']

theorem stays_handlers (hd : Below k d d') : Stays k rowOutline (handlers d) (handlers d') := by
  refine Mirrors.bind (stays_parts (.cons (hd.innerIf (blind_sees _) (fun _ => steps_catchClause)) <|
    .cons (hd.innerIf (blind_sees _) (fun _ => steps_finallyClause)) .nil)) (fun slots slots' hslots => ?_)
  rw [← isNone_node? hslots]
  exact .ite Iff.rfl (fun _ => mirrors_expected _) (fun _ => .pureRead hslots)

theorem steps_tryStatement (hd : Below k d d') : Steps P k Node.outline (tryStatement d) (tryStatement d') := by
  have hblock : Steps P k rowOutline (parts [word .tryKw, inner (block d)]) (parts [word .tryKw, inner (block d')]) :=
    .cons (steps_word _) (stays_parts (.cons (stays_blockPart hd) .nil))
  exact hblock.bind (fun slots slots' hs => (stays_handlers hd).bind (fun handled handled' hh =>
    mirrors_fresh (rowOutline_append hs hh)))

theorem blind_atClauseEnd : Blind atClauseEnd :=
  (((blind_sees _).or (blind_sees _)).or (blind_sees _)).or (blind_sees _)

theorem stays_clauseStatements (hd : Below k d d') : Stays k Slot.outline (clauseStatements d) (clauseStatements d') :=
  hd.untilStop blind_atClauseEnd (hd.goal .statement rfl)

theorem steps_switchClause (hd : Below k d d') : Steps P k Node.outline (switchClause d) (switchClause d') := by
  refine .lookKind (fun κ _ => ?_)
  split
  · exact mirrors_nodeOf (steps_word _) (.cons (stays_whole hd) <| .cons (stays_mark _) <|
      .cons (stays_clauseStatements hd) .nil)
  · exact mirrors_nodeOf (steps_word _) (.cons (stays_mark _) <| .cons (stays_clauseStatements hd) .nil)
  · exact mirrors_expected _

theorem stays_switchClauses (hd : Below k d d') : Stays k Slot.outline (switchClauses d) (switchClauses d') :=
  hd.untilStop (blind_sees _) (hd.each (fun _ => steps_switchClause))

/-- **What starts with a reserved word is the same statement on both sides**, or an expression on both. -/
theorem steps_wordStatement (hd : Below k d d') (w : Keyword) :
    Option.Rel (Steps P k Node.outline) (wordStatement d w) (wordStatement d' w) := by
  unfold wordStatement
  split
  · exact .some (steps_variableStatement hd rfl)
  · exact .some (steps_functionDeclaration hd rfl)
  · exact .some (mirrors_nodeOf (steps_word _) (.cons (stays_mark _) <| .cons (stays_whole hd) <|
      .cons (stays_mark _) <| .cons (stays_substatement hd) <|
      .cons (hd.innerIf (blind_sees _) (fun _ => steps_elseClause)) .nil))
  · exact .some (mirrors_nodeOf (steps_word _) (.cons (stays_substatement hd) <| .cons (stays_word _) <|
      .cons (stays_mark _) <| .cons (stays_whole hd) <| .cons (stays_mark _) <| .cons stays_looseEnd .nil))
  · exact .some (mirrors_nodeOf (steps_word _) (.cons (stays_mark _) <| .cons (stays_whole hd) <|
      .cons (stays_mark _) <| .cons (stays_substatement hd) .nil))
  · exact .some (steps_forStatement hd)
  · exact .some (mirrors_nodeOf (steps_word _) (.cons stays_jumpLabel <| .cons stays_statementEnd .nil))
  · exact .some (mirrors_nodeOf (steps_word _) (.cons stays_jumpLabel <| .cons stays_statementEnd .nil))
  · exact .some (mirrors_nodeOf (steps_word _) (.cons (stays_returned hd) <| .cons stays_statementEnd .nil))
  · exact .some (mirrors_nodeOf (steps_word _) (.cons (stays_onSameLine hd) <| .cons stays_statementEnd .nil))
  · exact .some (steps_tryStatement hd)
  · exact .some (mirrors_nodeOf (steps_word _) (.cons (stays_mark _) <| .cons (stays_whole hd) <|
      .cons (stays_mark _) <| .cons (stays_mark _) <| .cons (stays_switchClauses hd) <| .cons (stays_mark _) .nil))
  · exact .some (mirrors_nodeOf (steps_word _) (.cons (stays_mark _) <| .cons (stays_whole hd) <|
      .cons (stays_mark _) <| .cons (stays_substatement hd) .nil))
  · exact .some (mirrors_nodeOf (steps_word _) (.cons stays_statementEnd .nil))
  · exact .none

theorem steps_expressionStatement (hd : Below k d d')
    (h : Steps P k Node.outline (d.parse (.assignment true)) (d'.parse (.assignment true))) :
    Steps P k Node.outline (expressionStatement d) (expressionStatement d') :=
  mirrors_nodeOf (steps_inner (steps_expression hd true h)) (.cons stays_statementEnd .nil)

/-- **A statement is read alike.** -/
theorem steps_statement (hd : Below k d d')
    (h : Steps Anywhere k Node.outline (d.parse (.assignment true)) (d'.parse (.assignment true))) :
    Steps Anywhere k Node.outline (statement d) (statement d') := by
  refine Mirrors.nested (.look (fun r r' hr _ => ?_))
  have hexpression : Steps (· = r.kind) k Node.outline (expressionStatement d) (expressionStatement d') :=
    steps_expressionStatement hd h.steps_anywhere
  rw [← hr.resembles.kind]
  split
  · exact steps_block hd
  · rename_i hk
    exact mirrors_nodeOf (steps_currentAt (by rw [hk]; exact nofun)) .nil
  · rename_i w hk
    have hword := steps_wordStatement (P := (· = r.kind)) hd w
    generalize wordStatement d w = o at hword
    generalize wordStatement d' w = o' at hword
    cases hword with
    | some hs => exact hs
    | none => exact hexpression
  · rename_i hk
    rw [← hr.nextIs (by rw [hk]; exact nofun)]
    refine .ite Iff.rfl (fun _ => ?_) (fun _ => hexpression)
    exact mirrors_nodeOf steps_name (.cons (stays_mark _) <| .cons (stays_substatement hd) .nil)
  · exact hexpression

/-! ## Classes -/

/-- The place is in front of `get` or `set`, so not at the end. -/
theorem atAccessor_eq {r r' : Reading} (hr : Alike k r r') : atAccessor r = atAccessor r' := by
  unfold atAccessor
  rw [← isWord_eq hr.resembles, ← isWord_eq hr.resembles]
  refine and_nextHas hr (fun h => ?_) blind_isPropertyName
  rcases Bool.or_eq_true_iff.1 h with h | h <;> exact isWord_ne_end h

theorem steps_memberAccessor (hd : Below k d d') (hP : ∀ κ, P κ → κ ≠ .endOfFile)
    (hslots : rowOutline slots = rowOutline slots') :
    Steps P k Node.outline (memberAccessor d slots) (memberAccessor d' slots') := by
  refine .look (fun r r' hr hκ => ?_)
  rw [← isWord_eq hr.resembles]
  refine .ite Iff.rfl (fun _ => ?_) (fun _ => ?_)
  · exact mirrors_nodeFrom hslots (steps_currentAt (hP _ hκ)) (.cons stays_property <|
      .cons (hd.inner (fun _ => steps_parameterList)) <| .cons (stays_typeClause hd) <| .cons (stays_blockPart hd) .nil)
  · exact mirrors_nodeFrom hslots (steps_currentAt (hP _ hκ)) (.cons stays_property <|
      .cons (hd.inner (fun _ => steps_parameterList)) <| .cons (stays_blockPart hd) .nil)

theorem steps_methodOrField (hd : Below k d d') (hslots : rowOutline slots = rowOutline slots') :
    Steps P k Node.outline (methodOrField d slots) (methodOrField d' slots') := by
  refine steps_property.bind (fun name name' hname => .ifSees _ ?_ ?_)
  · refine mirrors_nodeWithBody hd (rowOutline_append hslots (congrArg (fun s => [s]) hname)) ?_
    exact .cons ((stays_signaturePart hd).before (fun _ _ => trivial)) .nil
  · refine mirrors_nodeFrom hslots ?_ (.cons stays_statementEnd .nil)
    exact (stays_declaratorAfter hd true hname).mapRead (fun _ _ h => congrArg Slot.node h)

theorem stays_accessOfMember : Stays k Slot.outline (access beforePropertyName) (access beforePropertyName) := by
  refine stays_currentIf (fun r r' hr => ?_) (fun _ h => atAccess_ne_end (Bool.and_eq_true_iff.1 h).1)
  rw [← blind_atAccess r r' hr.resembles]
  exact and_nextHas hr atAccess_ne_end blind_isPropertyName

theorem stays_staticWord : Stays k Slot.outline staticWord staticWord := by
  have hend : ∀ r : Reading, decide (r.kind = .keyword .staticKw) = true → r.kind ≠ .endOfFile := fun r h => by
    rw [of_decide_eq_true h]
    exact nofun
  refine stays_currentIf (fun r r' hr => ?_) (fun r h => hend r (Bool.and_eq_true_iff.1 h).1)
  rw [← hr.resembles.kind]
  exact and_nextHas hr (hend r) blind_isPropertyName

theorem steps_classElement (hd : Below k d d') : Steps Anywhere k Node.outline (classElement d) (classElement d') := by
  refine .look (fun r r' hr _ => ?_)
  have htest : (r.isWord "constructor" && r.nextIs (.punctuation .openParen)) =
      (r'.isWord "constructor" && r'.nextIs (.punctuation .openParen)) := by
    rw [← isWord_eq hr.resembles]
    exact and_nextHas hr isWord_ne_end (blind_sees _)
  rw [← htest]
  refine .ite Iff.rfl (fun h => ?_) (fun _ => ?_)
  · refine mirrors_nodeWithBody hd rfl (.cons (steps_currentAt (isWord_ne_end (Bool.and_eq_true_iff.1 h).1)) ?_)
    exact stays_parts (.cons (hd.inner (fun _ => steps_parameterList)) .nil)
  · have hmodifiers : Stays (k + 1) rowOutline (parts [access beforePropertyName, staticWord])
        (parts [access beforePropertyName, staticWord]) :=
      stays_parts (.cons stays_accessOfMember <| .cons stays_staticWord .nil)
    refine (hmodifiers.before (fun _ _ => trivial)).bind (fun slots slots' hslots => .look (fun q q' hq _ => ?_))
    rw [← atAccessor_eq hq]
    refine .ite Iff.rfl (fun h => steps_memberAccessor hd (fun κ hκ => ?_) hslots)
      (fun _ => steps_methodOrField hd hslots)
    rcases Bool.or_eq_true_iff.1 (Bool.and_eq_true_iff.1 h).1 with h | h <;> exact hκ ▸ isWord_ne_end h

theorem steps_baseClause (hd : Below k d d') : Steps P k Node.outline (baseClause d) (baseClause d') := by
  have hname : Stays k Slot.outline ((fun n => Slot.separated [n] []) <$> qualifiedName d)
      ((fun n => Slot.separated [n] []) <$> qualifiedName d') := by
    refine (Mirrors.stays (hd.each (fun _ => steps_qualifiedName))).mapRead (fun n n' hn => ?_)
    rw [Slot.outline_separated, Slot.outline_separated, List.map_singleton, List.map_singleton, hn]
  exact mirrors_nodeOf (steps_word _) (.cons hname .nil)

theorem stays_names (hd : Below k d d') :
    Stays k Slot.outline (commaList d (qualifiedName d)) (commaList d' (qualifiedName d')) :=
  hd.commaList (hd.each (fun _ => steps_qualifiedName))

theorem steps_classDeclaration (hd : Below k d d') (hslots : rowOutline slots = rowOutline slots') :
    Steps P k Node.outline (classDeclaration d slots) (classDeclaration d' slots') :=
  mirrors_nodeFrom hslots (steps_word _) (.cons stays_name <|
    .cons (hd.innerIf (blind_sees _) (fun _ => steps_baseClause)) <|
    .cons (hd.innerIf (blind_sees _) (fun _ h => mirrors_nodeOf (steps_word _) (.cons (stays_names h) .nil))) <|
    .cons (stays_mark _) <| .cons (hd.members (hd.each (fun _ => steps_classElement))) <| .cons (stays_mark _) .nil)

/-! ## Interfaces, enums and namespaces -/

theorem steps_interfaceDeclaration (hd : Below k d d') {slot slot' : Slot} (hslot : slot.outline = slot'.outline) :
    Steps P k Node.outline (interfaceDeclaration d slot) (interfaceDeclaration d' slot') :=
  mirrors_nodeFrom (congrArg (fun s => [s]) hslot) (steps_word _) (.cons stays_name <|
    .cons (hd.innerIf (blind_sees _) (fun _ h => mirrors_nodeOf (steps_word _) (.cons (stays_names h) .nil))) <|
    .cons (hd.inner (fun _ => steps_objectType)) .nil)

theorem steps_enumElement (hd : Below k d d') : Steps P k Node.outline (enumElement d) (enumElement d') :=
  mirrors_nodeOf steps_property (.cons (stays_initializer hd true) .nil)

theorem steps_enumDeclaration (hd : Below k d d') (hslots : rowOutline slots = rowOutline slots') :
    Steps P k Node.outline (enumDeclaration d slots) (enumDeclaration d' slots') :=
  mirrors_nodeFrom hslots (steps_word _) (.cons stays_name <| .cons (stays_mark _) <|
    .cons (hd.delimited _ _ (hd.each (fun _ => steps_enumElement))) <| .cons (stays_mark _) .nil)

theorem steps_moduleName (hd : Below k d d') : Steps P k Node.outline (moduleName d) (moduleName d') :=
  .ifSees _ (mirrors_nodeOf (steps_currentKind nofun) .nil) (steps_qualifiedName hd)

theorem steps_moduleDeclaration (hd : Below k d d') (hP : ∀ κ, P κ → κ ≠ .endOfFile)
    (hslots : rowOutline slots = rowOutline slots') :
    Steps P k Node.outline (moduleDeclaration d slots) (moduleDeclaration d' slots') :=
  mirrors_nodeFrom hslots (steps_current hP) (.cons (hd.inner (fun _ => steps_moduleName)) <| .cons (stays_mark _) <|
    .cons (hd.members (hd.goal .moduleElement rfl)) <| .cons (stays_mark _) .nil)

/-! ## Module elements -/

theorem atModuleWord_ne_end {r : Reading} (h : atModuleWord r = true) : r.kind ≠ .endOfFile := by
  rcases Bool.or_eq_true_iff.1 h with h | h <;> exact isWord_ne_end h

theorem blind_atModuleWord : Blind atModuleWord := (blind_isWord _).or (blind_isWord _)

theorem blind_isDeclarable : Blind isDeclarable :=
  blind_startsLine.not.and (((((blind_sees _).or (blind_sees _)).or (blind_sees _)).or (blind_sees _)).or
    blind_atModuleWord)

theorem stays_declareWord : Stays k Slot.outline declareWord declareWord := by
  refine stays_currentIf (fun r r' hr => ?_) (fun _ h => isWord_ne_end (Bool.and_eq_true_iff.1 h).1)
  rw [← isWord_eq hr.resembles]
  exact and_nextHas hr isWord_ne_end blind_isDeclarable

theorem atModule_eq {r r' : Reading} (hr : Alike k r r') : atModule r = atModule r' := by
  unfold atModule
  rw [← blind_atModuleWord r r' hr.resembles]
  exact and_nextHas hr atModuleWord_ne_end (blind_startsLine.not.and ((blind_sees _).or (blind_sees _)))

theorem isSome_token? {slot slot' : Slot} (h : slot.outline = slot'.outline) :
    slot.token?.isSome = slot'.token?.isSome := by
  have heq : ∀ s : Slot, s.token?.isSome = s.outline.token?.isSome := fun s => by cases s <;> rfl
  rw [heq slot, h, ← heq slot']

/-- **A module element is read alike.** -/
theorem steps_moduleElement (hd : Below k d d')
    (h : Steps Anywhere k Node.outline (d.parse .statement) (d'.parse .statement)) :
    Steps Anywhere k Node.outline (moduleElement d) (moduleElement d') := by
  have hexport : Stays (k + 1) Slot.outline (optional (.keyword .exportKw)) (optional (.keyword .exportKw)) :=
    stays_optional _ nofun
  refine hexport.bind (fun exported exported' hexported => ?_)
  refine stays_declareWord.bind (fun declared declared' hdeclared => .look (fun r r' hr _ => ?_))
  have hmodifiers : rowOutline [exported, declared] = rowOutline [exported', declared'] := by
    show [_, _] = [_, _]
    rw [hexported, hdeclared]
  rw [← hr.resembles.kind]
  split
  · exact steps_classDeclaration hd hmodifiers
  · rw [← isSome_token? hdeclared]
    exact .ite Iff.rfl (fun _ => mirrors_fault _) (fun _ => steps_interfaceDeclaration hd hexported)
  · exact steps_enumDeclaration hd hmodifiers
  · exact steps_functionDeclaration hd hmodifiers
  · exact steps_variableStatement hd hmodifiers
  · have hany : [exported, declared].any (fun slot => slot.token?.isSome) =
        [exported', declared'].any (fun slot => slot.token?.isSome) := by
      simp only [List.any_cons, List.any_nil, isSome_token? hexported, isSome_token? hdeclared]
    rw [← atModule_eq hr, ← hany]
    refine .ite Iff.rfl (fun hm => steps_moduleDeclaration hd (fun κ hκ => ?_) hmodifiers)
      (fun _ => .ite Iff.rfl (fun _ => mirrors_expected _) (fun _ => h.steps_anywhere))
    exact hκ ▸ atModuleWord_ne_end (Bool.and_eq_true_iff.1 hm).1

/-! ## Goals and programs -/

/-- **A goal is read alike if what it leads to is**: any goal behind a token, and those of lower rank in front of one. -/
theorem steps_goal (hd : Below k d d') (g : Goal)
    (h : ∀ g' : Goal, g'.rank < g.rank → Steps g'.starts k Node.outline (d.parse g') (d'.parse g')) :
    Steps g.starts k Node.outline (goal d g) (goal d' g) := by
  cases g with
  | type => exact steps_typeNode hd
  | assignment allowIn => exact steps_assignment hd allowIn (h (.binary 0 allowIn) (Nat.lt_succ_self _))
  | unary => exact steps_unary hd (h .creation (Nat.lt_succ_self _))
  | binary above allowIn => exact steps_binary hd above allowIn (h .unary (Nat.lt_succ_self _))
  | creation => exact steps_creation hd
  | statement => exact steps_statement hd (h (.assignment true) (Nat.lt_succ_self _))
  | moduleElement => exact steps_moduleElement hd (h .statement (Nat.lt_succ_self _))

/-- Reads a goal, at most so many levels of recursion deep, with readers of any kind below them. -/
def goalOver (below : Goal → Parser Node) (loop : Nat) : Nat → Goal → Parser Node
  | 0, g => below g
  | levels + 1, g => goal ⟨loop, goalOver below loop levels⟩ g

/-- **Goals are read alike in more levels than the tokens that are left ask for**: what lies below is never reached. -/
theorem steps_goalOver {below below' : Goal → Parser Node} {loop loop' : Nat} : ∀ {levels levels' k : Nat} {g : Goal},
    k < loop → k < loop' → 6 * k + g.rank < levels → 6 * k + g.rank < levels' →
      Steps g.starts k Node.outline (goalOver below loop levels g) (goalOver below' loop' levels' g)
  | 0, _, _, _, _, _, h, _ => absurd h (Nat.not_lt_zero _)
  | _, 0, _, _, _, _, _, h => absurd h (Nat.not_lt_zero _)
  | levels + 1, levels' + 1, k, g, ht, ht', h, h' => by
    have hd : Below k ⟨loop, goalOver below loop levels⟩ ⟨loop', goalOver below' loop' levels'⟩ :=
      ⟨ht, ht', fun m hm g' => by
        have hg := g'.rank_lt
        exact steps_goalOver (Nat.lt_trans hm ht) (Nat.lt_trans hm ht') (by omega) (by omega)⟩
    exact steps_goal hd g (fun g' hg => steps_goalOver ht ht' (by omega) (by omega))

/-- The rules of the grammar, at most so many levels deep, with readers of any kind below them. -/
def descentOver (below : Goal → Parser Node) (loop levels : Nat) : Descent := ⟨loop, goalOver below loop levels⟩

theorem below_descentOver {below below' : Goal → Parser Node} {loop loop' levels levels' : Nat} (ht : k < loop)
    (ht' : k < loop') (hl : 6 * k ≤ levels) (hl' : 6 * k ≤ levels') :
    Below k (descentOver below loop levels) (descentOver below' loop' levels') where
  turns := ht
  turns' := ht'
  parse m hm g := by
    have hg := g.rank_lt
    exact steps_goalOver (Nat.lt_trans hm ht) (Nat.lt_trans hm ht') (by omega) (by omega)

/-- Nothing can be read below the last level. -/
theorem goalUpTo_eq (loop : Nat) : ∀ levels, goalUpTo loop levels = goalOver (fun _ => fault .tooDeep) loop levels
  | 0 => rfl
  | levels + 1 => funext (fun g => by rw [goalUpTo, goalOver, goalUpTo_eq loop levels])

theorem descent_eq (loop levels : Nat) : descent loop levels = descentOver (fun _ => fault .tooDeep) loop levels :=
  congrArg (Descent.mk loop) (goalUpTo_eq loop levels)

theorem stays_endOfFile : Stays k Slot.outline program.endOfFile program.endOfFile := fun _ _ hdepth hs _ =>
  .ok hdepth ⟨congrArg Slot.token (outline_fresh hs.resembles.kind hs.resembles.text hs.resembles.value _ _), hs⟩

theorem stays_program (hd : Below k d d') : Stays k Node.outline (program d) (program d') :=
  mirrors_nodeOf (hd.untilStop (blind_sees _) (hd.goal .moduleElement rfl)) (.cons stays_endOfFile .nil)

end Parser

/-- How two texts are read that differ by layout. -/
inductive ReadAlike : Except ParseError Node → Except ParseError Node → Prop
  | ok {n n' : Node} (h : n.outline = n'.outline) : ReadAlike (.ok n) (.ok n')
  | error {e e' : ParseError} (h : e.fault = e'.fault) : ReadAlike (.error e) (.error e')

/-- Reads a text as a program, with loops of so many turns, so many levels of recursion, and readers of any kind below
them. -/
def parseOver (below : Goal → Parser Node) (loop levels : Nat) (text : List Char) (next : ObjectId) :
    Except ParseError Node × ObjectId :=
  match Reading.ofText text with
  | .error e => (.error e, next)
  | .ok reading =>
    let (outcome, _, next) := (Parser.program (Parser.descentOver below loop levels)).runFrom reading next
    (outcome, next)

theorem parseFrom_eq_parseOver (text : List Char) (next : ObjectId) : parseFrom text next =
    parseOver (fun _ => Parser.fault .tooDeep) (loopsFor text) (levelsFor text) text next := by
  unfold parseFrom parseOver
  rewrite [Parser.descent_eq]
  rfl

/-- Texts whose tokens are alike are read alike, with enough turns and levels for the tokens that they have. -/
theorem parseOver_alike {below below' : Goal → Parser Node} {loop loop' levels levels' : Nat} {text text' : List Char}
    {k : Nat} (i j : ObjectId) (h : Reading.Both (Reading.Alike k) (Reading.ofText text) (Reading.ofText text'))
    (ht : k < loop) (ht' : k < loop') (hl : 6 * k ≤ levels) (hl' : 6 * k ≤ levels') :
    ReadAlike (parseOver below loop levels text i).1 (parseOver below' loop' levels' text' j).1 := by
  have hdepth : ∀ {text : List Char} {r : Reading}, Reading.ofText text = .ok r → r.depth = 0 := fun {text r} h => by
    unfold Reading.ofText Reading.ofScanned at h
    split at h
    · cases h
    · cases h
      rfl
  unfold parseOver
  generalize hr : Reading.ofText text = x at h
  generalize hr' : Reading.ofText text' = x' at h
  cases h with
  | error he => exact .error he
  | @ok r r' halike =>
    have hd : Parser.Below k (Parser.descentOver below loop levels) (Parser.descentOver below' loop' levels') :=
      Parser.below_descentOver ht ht' hl hl'
    have hout := Parser.stays_program hd ⟨i, r⟩ ⟨j, r'⟩ ((hdepth hr).trans (hdepth hr').symm) halike trivial
    unfold Work.runFrom
    dsimp only
    generalize Parser.program _ ⟨i, r⟩ = y at hout
    generalize Parser.program _ ⟨j, r'⟩ = y' at hout
    cases hout with
    | ok _ h => exact .ok h.1
    | error _ he => exact .error he

/-- **Layout does not influence what is read.**  Texts whose tokens are alike are both no programs, for the same fault, or
have trees that look the same. -/
theorem parseFrom_alike {text text' : List Char} {k : Nat} (i j : ObjectId)
    (h : Reading.Both (Reading.Alike k) (Reading.ofText text) (Reading.ofText text')) (hk : k ≤ text.length + 1)
    (hk' : k ≤ text'.length + 1) : ReadAlike (parseFrom text i).1 (parseFrom text' j).1 := by
  rw [parseFrom_eq_parseOver, parseFrom_eq_parseOver]
  refine parseOver_alike i j h ?_ ?_ ?_ ?_ <;> simp only [loopsFor, levelsFor] <;> omega

end Downlevel
