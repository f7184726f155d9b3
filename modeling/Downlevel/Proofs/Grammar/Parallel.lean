import Downlevel.Grammar.Program
import Downlevel.Proofs.Grammar.Mirrors
/-!
# Proofs.Grammar.Parallel — types and expressions are read alike where only layout differs

One fact for each rule, read off its parts, as in `Proofs.Grammar.Rules`.  Behind a token a rule may lead to any goal
(`Below`); what a goal leads to in front of its first token is asked for apart.
-/
namespace Downlevel

/-- The tokens in front of which a goal is asked for. -/
def Goal.starts : Goal → TokenKind → Prop
  | .creation => (· = .keyword .newKw)
  | _ => Parser.Anywhere

namespace Parser

open Reading

variable {k m i : Nat} {P : TokenKind → Prop} {d d' : Descent} {n n' : Node} {slots slots' : List Slot}

/-! ## What may be taken for granted -/

/-- **Behind a token the goals are read alike**, and there are more turns than tokens. -/
structure Below (k : Nat) (d d' : Descent) : Prop where
  turns : k < d.loop
  turns' : k < d'.loop
  parse : ∀ m, m < k → ∀ g, Steps g.starts m Node.outline (d.parse g) (d'.parse g)

/-! ## Rows and nodes -/

theorem stays_parts : ∀ {ps ps' : List Part}, List.Forall₂ (Stays k Slot.outline) ps ps' →
    Stays k rowOutline (parts ps) (parts ps')
  | _, _, .nil => .nil
  | _, _, .cons h hs => .cons h (stays_parts hs)

section Rows

variable {kind : NodeKind} {p p' : Part} {ps ps' : List Part} {before before' : List Slot}

/-- A node of parts of which all but the first are read from wherever the reader stands. -/
theorem mirrors_nodeOf (h : Mirrors P i (Read Slot.outline k) p p') (hs : List.Forall₂ (Stays k Slot.outline) ps ps') :
    Mirrors P i (Read Node.outline k) (node kind (p :: ps)) (node kind (p' :: ps')) :=
  mirrors_node (.cons h (stays_parts hs))

theorem mirrors_nodeFrom (hbefore : rowOutline before = rowOutline before')
    (h : Mirrors P i (Read Slot.outline k) p p') (hs : List.Forall₂ (Stays k Slot.outline) ps ps') :
    Mirrors P i (Read Node.outline k) (nodeAfter kind before (p :: ps)) (nodeAfter kind before' (p' :: ps')) :=
  mirrors_nodeAfter hbefore (.cons h (stays_parts hs))

end Rows

theorem stays_mark (p : Punctuation) : Stays k Slot.outline (mark p) (mark p) := .stays (fun _ _ => steps_mark p)

theorem stays_word (w : Keyword) : Stays k Slot.outline (word w) (word w) := .stays (fun _ _ => steps_word w)

theorem stays_name : Stays k Slot.outline name name := .stays (fun _ _ => steps_name)

theorem stays_member : Stays k Slot.outline member member := .stays (fun _ _ => steps_member)

theorem stays_property : Stays k Slot.outline property property := .stays (fun _ _ => steps_property)

/-- The current token is known to be none but the end. -/
theorem steps_currentAt {r : Reading} (h : r.kind ≠ .endOfFile) : Steps (· = r.kind) k Slot.outline current current :=
  steps_current (fun _ hκ => hκ ▸ h)

/-- What consumes a token need not be known to do so. -/
theorem Mirrors.loose {α γ : Type} {f : α → γ} {p p' : Parser α} (h : ∀ m, m < k → Steps P m f p p') :
    Mirrors P k (Read f k) p p' := by
  cases k with
  | zero => exact fun _ _ _ hs _ => hs.elim
  | succ k => exact (h k (Nat.lt_succ_self k)).mono (fun _ _ _ _ hab => ⟨hab.1, hab.2.up (Nat.le_succ k)⟩)

theorem blind_sees (κ : TokenKind) : Blind (fun r => r.kind == κ) := blind_kind (· == κ)

/-- A test of the token behind the current one, where that is not the end. -/
theorem and_nextHas {r r' : Reading} {b : Bool} {test : Reading → Bool} (h : Alike k r r')
    (hb : b = true → r.kind ≠ .endOfFile) (ht : Blind test) : (b && r.nextHas test) = (b && r'.nextHas test) := by
  cases b with
  | false => rfl
  | true => exact h.nextHas (hb rfl) ht

theorem isWord_kind {r : Reading} {word : String} (h : r.isWord word = true) : r.kind = .identifier :=
  eq_of_beq (Bool.and_eq_true_iff.1 h).1

theorem isWord_ne_end {r : Reading} {word : String} (h : r.isWord word = true) : r.kind ≠ .endOfFile := by
  rw [isWord_kind h]
  exact nofun

namespace Below

theorem down (h : Below k d d') (hm : m ≤ k) : Below m d d' where
  turns := Nat.lt_of_le_of_lt hm h.turns
  turns' := Nat.lt_of_le_of_lt hm h.turns'
  parse i hi := h.parse i (Nat.lt_of_lt_of_le hi hm)

variable (h : Below k d d') {q q' : Parser Node}

include h

/-- A rule that is reached behind a token. -/
theorem each (hq : ∀ m, Below m d d' → Steps Anywhere m Node.outline q q') :
    ∀ m, m < k → Steps Anywhere m Node.outline q q' := fun m hm => hq m (h.down (Nat.le_of_lt hm))

/-- A goal that is reached behind a token. -/
theorem goal (g : Goal) (hg : g.starts = Anywhere) :
    ∀ m, m < k → Steps Anywhere m Node.outline (d.parse g) (d'.parse g) := fun m hm => hg ▸ h.parse m hm g

theorem part (g : Goal) (hg : g.starts = Anywhere) :
    Stays k Slot.outline (Parser.inner (d.parse g)) (Parser.inner (d'.parse g)) :=
  .stays (fun m hm => steps_inner (h.goal g hg m hm))

theorem inner (hq : ∀ m, Below m d d' → Steps Anywhere m Node.outline q q') :
    Stays k Slot.outline (inner q) (inner q') := .stays (fun m hm => steps_inner (h.each hq m hm))

theorem innerIf {test : Reading → Bool} (ht : Blind test)
    (hq : ∀ m, Below m d d' → Steps Anywhere m Node.outline q q') :
    Stays k Slot.outline (innerIf test q) (innerIf test q') := stays_innerIf ht (h.each hq)

theorem untilStop {stop : Reading → Bool} (hstop : Blind stop) (hq : ∀ m, m < k → Steps Anywhere m Node.outline q q') :
    Stays k Slot.outline (Slot.list <$> membersUntil stop q d.loop) (Slot.list <$> membersUntil stop q' d'.loop) :=
  stays_list (stays_membersUntil hstop h.turns h.turns' hq)

theorem members (hq : ∀ m, m < k → Steps Anywhere m Node.outline q q') :
    Stays k Slot.outline (members d q) (members d' q') := h.untilStop ((blind_sees _).or (blind_sees _)) hq

theorem commaList (hq : ∀ m, m < k → Steps Anywhere m Node.outline q q') :
    Stays k Slot.outline (commaList d q) (commaList d' q') :=
  stays_separated (stays_commaListUpTo h.turns h.turns' hq)

theorem delimited (close : Punctuation) (trailing : Bool) (hq : ∀ m, m < k → Steps Anywhere m Node.outline q q') :
    Stays k Slot.outline (delimited d close trailing q) (delimited d' close trailing q') :=
  .ifSees _ (.pureRead rfl) (stays_separated (stays_delimitedUpTo trailing h.turns h.turns' hq))

theorem grow {step step' : Node → Parser (Option Node)}
    (hstep : ∀ m, Below m d d' → ∀ n n' : Node, n.outline = n'.outline →
      Grows Anywhere m Node.outline (step n) (step' n')) (hn : n.outline = n'.outline) :
    Stays k Node.outline (grow d step n) (grow d' step' n') :=
  stays_growUpTo h.turns h.turns' (fun m hm => hstep m (h.down (Nat.le_of_lt hm))) n n' hn

end Below

/-! ## Names and signatures -/

theorem steps_qualifiedName (hd : Below k d d') : Steps P k Node.outline (qualifiedName d) (qualifiedName d') := by
  refine (mirrors_nodeOf steps_name .nil).bind (fun n n' hn => hd.grow (fun m hm n n' hn => ?_) hn)
  exact .ifSees _ (grows_some (mirrors_nodeFrom (rowOutline_node hn) (steps_mark _) (.cons stays_member .nil))) grows_none

theorem stays_typeClause (hd : Below k d d') : Stays k Slot.outline (typeClause d) (typeClause d') :=
  hd.innerIf (blind_sees _) (fun _ h => mirrors_nodeOf (steps_mark _) (.cons (h.part .type rfl) .nil))

theorem stays_initializer (hd : Below k d d') (allowIn : Bool) :
    Stays k Slot.outline (initializer d allowIn) (initializer d' allowIn) :=
  hd.innerIf (blind_sees _) (fun _ h => mirrors_nodeOf (steps_mark _) (.cons (h.part (.assignment allowIn) rfl) .nil))

theorem atAccess_ne_end {r : Reading} (h : atAccess r = true) : r.kind ≠ .endOfFile := by
  intro hend
  unfold atAccess at h
  rw [hend] at h
  cases h

theorem blind_atAccess : Blind atAccess := (blind_sees _).or (blind_sees _)

theorem stays_access : Stays k Slot.outline (access (fun _ => true)) (access (fun _ => true)) :=
  stays_currentIf (fun r r' hr => congrArg (· && true) (blind_atAccess r r' hr.resembles))
    (fun _ h => atAccess_ne_end (Bool.and_eq_true_iff.1 h).1)

theorem steps_parameter (hd : Below k d d') : Steps Anywhere k Node.outline (parameter d) (parameter d') :=
  mirrors_node (.cons (stays_optionalMark _) <| .cons stays_access <| .cons steps_name <| stays_parts <|
    .cons (stays_optionalMark _) <| .cons (stays_typeClause hd) <| .cons (stays_initializer hd true) .nil)

theorem steps_parameterList (hd : Below k d d') : Steps P k Node.outline (parameterList d) (parameterList d') :=
  mirrors_nodeOf (steps_mark _) (.cons (hd.delimited _ _ (hd.each (fun _ => steps_parameter))) <| .cons (stays_mark _) .nil)

theorem steps_callSignature (hd : Below k d d') : Steps P k Node.outline (callSignature d) (callSignature d') :=
  mirrors_nodeOf (steps_inner (steps_parameterList hd)) (.cons (stays_typeClause hd) .nil)

theorem stays_signaturePart (hd : Below k d d') :
    Stays k Slot.outline (inner (callSignature d)) (inner (callSignature d')) := hd.inner (fun _ => steps_callSignature)

/-! ## Types -/

theorem stays_memberSeparator : Stays k Slot.outline memberSeparator memberSeparator := by
  refine .look (fun r r' hr _ => ?_)
  rw [← hr.resembles.kind, ← hr.resembles.startsLine]
  refine .ite Iff.rfl (fun h => ?_) (fun _ => .ite Iff.rfl (fun _ => stays_nothing) (fun _ => mirrors_expected _))
  refine .loose (fun _ _ => steps_currentAt (fun hend => ?_))
  rw [hend] at h
  rcases h with h | h <;> cases h

theorem steps_namedTypeMember (hd : Below k d d') : Steps P k Node.outline (namedTypeMember d) (namedTypeMember d') := by
  refine Mirrors.bind (.cons steps_property (.cons (stays_optionalMark _) .nil)) (fun slots slots' hslots => ?_)
  refine .ifSees _ ?_ ?_
  · exact mirrors_nodeFrom hslots ((stays_signaturePart hd).before (fun _ _ => trivial))
      (.cons stays_memberSeparator .nil)
  · exact mirrors_nodeFrom hslots (stays_typeClause hd) (.cons stays_memberSeparator .nil)

theorem steps_typeMember (hd : Below k d d') : Steps P k Node.outline (typeMember d) (typeMember d') := by
  refine .look (fun r r' hr _ => ?_)
  rw [← hr.resembles.kind]
  split
  · exact mirrors_nodeOf (steps_inner (steps_callSignature hd)) (.cons stays_memberSeparator .nil)
  · exact mirrors_nodeOf (steps_mark _) (.cons (hd.inner (fun _ => steps_parameter)) <| .cons (stays_mark _) <|
      .cons (stays_typeClause hd) <| .cons stays_memberSeparator .nil)
  · rename_i hk
    rw [← hr.nextIs (by rw [hk]; exact nofun)]
    refine .ite Iff.rfl (fun _ => ?_) (fun _ => steps_namedTypeMember hd)
    exact mirrors_nodeOf (steps_word _) (.cons (stays_signaturePart hd) <| .cons stays_memberSeparator .nil)
  · exact steps_namedTypeMember hd

theorem steps_objectType (hd : Below k d d') : Steps P k Node.outline (objectType d) (objectType d') :=
  mirrors_nodeOf (steps_mark _) (.cons (hd.members (hd.each (fun _ => steps_typeMember))) <| .cons (stays_mark _) .nil)

theorem atPredefinedType_eq {r r' : Reading} (hr : Alike k r r') (hk : r.kind ≠ .endOfFile) :
    atPredefinedType r = atPredefinedType r' := by
  have hword : r.isWord = r'.isWord := funext (fun word => blind_isWord word r r' hr.resembles)
  unfold atPredefinedType
  rw [hword, hr.nextIs hk]

theorem steps_nonArrayType (hd : Below k d d') : Steps P k Node.outline (nonArrayType d) (nonArrayType d') := by
  refine .look (fun r r' hr _ => ?_)
  rw [← hr.resembles.kind]
  split
  · exact steps_objectType hd
  · exact mirrors_nodeOf (steps_inner (steps_parameterList hd)) (.cons (stays_mark _) <| .cons (hd.part .type rfl) .nil)
  · exact mirrors_nodeOf (steps_word _) (.cons (hd.inner (fun _ => steps_parameterList)) <| .cons (stays_mark _) <|
      .cons (hd.part .type rfl) .nil)
  · rename_i hk
    exact mirrors_nodeOf (steps_currentAt (by rw [hk]; exact nofun)) .nil
  · rename_i hk
    have hend : r.kind ≠ .endOfFile := by rw [hk]; exact nofun
    rw [← atPredefinedType_eq hr hend]
    exact .ite Iff.rfl (fun _ => mirrors_nodeOf (steps_currentAt hend) .nil) (fun _ => steps_qualifiedName hd)
  · exact mirrors_expected _

theorem grows_arrayTypeStep (hn : n.outline = n'.outline) :
    Grows Anywhere k Node.outline (arrayTypeStep n) (arrayTypeStep n') := by
  refine .look (fun r r' hr _ => ?_)
  have htest : (decide (r.kind = .punctuation .openBracket) && r.nextIs (.punctuation .closeBracket)) =
      (decide (r'.kind = .punctuation .openBracket) && r'.nextIs (.punctuation .closeBracket)) := by
    rw [← hr.resembles.kind]
    exact and_nextHas hr (fun h => by rw [of_decide_eq_true h]; exact nofun) (blind_sees _)
  rw [htest]
  refine .ite Iff.rfl (fun _ => ?_) (fun _ => grows_none)
  exact grows_some (mirrors_nodeFrom (rowOutline_node hn) (steps_mark _) (.cons (stays_mark _) .nil))

/-- **A type is read alike.** -/
theorem steps_typeNode (hd : Below k d d') : Steps P k Node.outline (typeNode d) (typeNode d') :=
  (Mirrors.nested (steps_nonArrayType hd)).bind (fun _ _ hn => hd.grow (fun _ _ _ _ => grows_arrayTypeStep) hn)

/-! ## Functions and literals -/

theorem steps_block (hd : Below k d d') : Steps P k Node.outline (block d) (block d') :=
  mirrors_nodeOf (steps_mark _) (.cons (hd.members (hd.goal .statement rfl)) <| .cons (stays_mark _) .nil)

theorem stays_blockPart (hd : Below k d d') : Stays k Slot.outline (inner (block d)) (inner (block d')) :=
  hd.inner (fun _ => steps_block)

theorem stays_arrowBody (hd : Below k d d') (allowIn : Bool) :
    Stays k Slot.outline (arrowBody d allowIn) (arrowBody d' allowIn) :=
  .ifSees _ ((stays_blockPart hd).before (fun _ _ => trivial)) (hd.part (.assignment allowIn) rfl)

/-- **An arrow function is found on both sides or on neither.** -/
theorem grows_arrowFunction? (hd : Below k d d') (allowIn : Bool) :
    Grows Anywhere k Node.outline (arrowFunction? d allowIn) (arrowFunction? d' allowIn) := by
  refine .look (fun r r' hr _ => ?_)
  rw [← hr.resembles.kind]
  split
  · rename_i hk
    rw [← hr.nextIs (by rw [hk]; exact nofun)]
    refine .ite Iff.rfl (fun _ => grows_some ?_) (fun _ => grows_none)
    exact mirrors_nodeOf steps_name (.cons (stays_mark _) <| .cons (stays_arrowBody hd allowIn) .nil)
  · refine (Mirrors.attempt (steps_callSignature hd) (blind_sees _)).bindGrown grows_none (fun n n' hn => grows_some ?_)
    exact mirrors_nodeFrom (rowOutline_node hn) (stays_mark _) (.cons (stays_arrowBody hd allowIn) .nil)
  · exact grows_none

/-- **The members of an array literal are read alike**, in more turns than tokens are left. -/
theorem stays_arrayElementsUpTo : ∀ {k turns turns' : Nat} (behindComma : Bool), k < turns → k < turns' →
    (∀ m, m < k → Steps Anywhere m Node.outline (d.parse (.assignment true)) (d'.parse (.assignment true))) →
      Stays k itemsOutline (arrayElementsUpTo d turns behindComma) (arrayElementsUpTo d' turns' behindComma)
  | 0, _, _, _, _, _, _ => fun _ _ _ hs _ => hs.elim
  | k + 1, turns + 1, turns' + 1, behindComma, ht, ht', h => by
    have hrest := stays_arrayElementsUpTo true (Nat.lt_of_succ_lt_succ ht) (Nat.lt_of_succ_lt_succ ht')
      (fun m hm => h m (Nat.lt_succ_of_lt hm))
    have hbehind : ∀ n n' : Node, n.outline = n'.outline → Stays (k + 1) itemsOutline
        (behindMember n (arrayElementsUpTo d turns true)) (behindMember n' (arrayElementsUpTo d' turns' true)) :=
      fun n n' hn => stays_behindMember hn hrest
    refine .ifSees _ ?_ (.ifSees _ (stays_omitted.bind hbehind) ?_)
    · cases behindComma with
      | false => exact .pureRead rfl
      | true =>
        refine stays_omitted.bind (fun n n' hn => .pureRead ?_)
        show ([n.outline], _) = ([n'.outline], _)
        rw [hn]
    · exact (Mirrors.stays h).bind hbehind

theorem stays_arrayElements (hd : Below k d d') : Stays k Slot.outline (arrayElements d) (arrayElements d') :=
  stays_separated (stays_arrayElementsUpTo false hd.turns hd.turns' (hd.goal (.assignment true) rfl))

theorem grows_commaStep (hd : Below k d d') (allowIn : Bool) (hn : n.outline = n'.outline) :
    Grows Anywhere k Node.outline (commaStep d allowIn n) (commaStep d' allowIn n') := by
  refine .ifSees _ (grows_some ?_) grows_none
  exact mirrors_nodeFrom (rowOutline_node hn) (steps_mark _) (.cons (hd.part (.assignment allowIn) rfl) .nil)

/-- An expression is read alike if its first part is. -/
theorem steps_expression (hd : Below k d d') (allowIn : Bool)
    (h : Steps P k Node.outline (d.parse (.assignment allowIn)) (d'.parse (.assignment allowIn))) :
    Steps P k Node.outline (expression d allowIn) (expression d' allowIn) :=
  h.bind (fun _ _ hn => hd.grow (fun _ hm _ _ => grows_commaStep hm allowIn) hn)

/-- An expression behind a token. -/
theorem Below.expression (hd : Below k d d') (allowIn : Bool) :
    ∀ m, m < k → Steps Anywhere m Node.outline (expression d allowIn) (expression d' allowIn) :=
  fun m hm => steps_expression (hd.down (Nat.le_of_lt hm)) allowIn (hd.goal (.assignment allowIn) rfl m hm)

theorem Below.expressionPart (hd : Below k d d') (allowIn : Bool) :
    Stays k Slot.outline (Parser.inner (Parser.expression d allowIn)) (Parser.inner (Parser.expression d' allowIn)) :=
  .stays (fun m hm => steps_inner (hd.expression allowIn m hm))

theorem isWord_eq {r r' : Reading} (h : r.Resembles r') (word : String) : r.isWord word = r'.isWord word :=
  blind_isWord word r r' h

/-- The name of a member is seen behind a word on both sides or on neither. -/
theorem isWord_and_beforePropertyName {r r' : Reading} (hr : Alike k r r') (word : String) :
    (r.isWord word && beforePropertyName r) = (r'.isWord word && beforePropertyName r') := by
  rw [← isWord_eq hr.resembles]
  exact and_nextHas hr isWord_ne_end blind_isPropertyName

theorem steps_propertyAssignment (hd : Below k d d') :
    Steps P k Node.outline (propertyAssignment d) (propertyAssignment d') := by
  refine .look (fun r r' hr _ => ?_)
  rw [← isWord_and_beforePropertyName hr, ← isWord_and_beforePropertyName hr]
  refine .ite Iff.rfl (fun h => ?_) (fun _ => .ite Iff.rfl (fun h => ?_) (fun _ => ?_))
  · exact mirrors_nodeOf (steps_currentAt (isWord_ne_end (Bool.and_eq_true_iff.1 h).1)) (.cons stays_property <|
      .cons (stays_mark _) <| .cons (stays_mark _) <| .cons (stays_typeClause hd) <| .cons (stays_blockPart hd) .nil)
  · exact mirrors_nodeOf (steps_currentAt (isWord_ne_end (Bool.and_eq_true_iff.1 h).1)) (.cons stays_property <|
      .cons (stays_mark _) <| .cons (hd.inner (fun _ => steps_parameter)) <| .cons (stays_mark _) <|
      .cons (stays_blockPart hd) .nil)
  · exact mirrors_nodeOf steps_property (.cons (stays_mark _) <| .cons (hd.part (.assignment true) rfl) .nil)

/-- A slash that is cut anew is a literal on both sides. -/
theorem steps_regularExpression (hP : ∀ κ, P κ → AtSlash κ) :
    Steps P k Node.outline regularExpression regularExpression :=
  mirrors_rescan hP (mirrors_nodeOf (steps_currentKind nofun) .nil)

theorem steps_primary (hd : Below k d d') : Steps P k Node.outline (primary d) (primary d') := by
  have hcurrent : ∀ {r : Reading} {kind : NodeKind}, r.kind ≠ .endOfFile →
      Steps (· = r.kind) k Node.outline (node kind [current]) (node kind [current]) :=
    fun h => mirrors_nodeOf (steps_currentAt h) .nil
  refine .look (fun r r' hr _ => ?_)
  rw [← hr.resembles.kind]
  split <;> rename_i hk
  · exact hcurrent (by rw [hk]; exact nofun)
  · exact hcurrent (by rw [hk]; exact nofun)
  · exact hcurrent (by rw [hk]; exact nofun)
  · exact hcurrent (by rw [hk]; exact nofun)
  · exact hcurrent (by rw [hk]; exact nofun)
  · exact hcurrent (by rw [hk]; exact nofun)
  · exact hcurrent (by rw [hk]; exact nofun)
  · exact hcurrent (by rw [hk]; exact nofun)
  · exact steps_regularExpression (fun _ h => .inl (h.trans hk))
  · exact steps_regularExpression (fun _ h => .inr (h.trans hk))
  · exact mirrors_nodeOf (steps_mark _) (.cons (hd.expressionPart true) <| .cons (stays_mark _) .nil)
  · exact mirrors_nodeOf (steps_mark _) (.cons (stays_arrayElements hd) <| .cons (stays_mark _) .nil)
  · exact mirrors_nodeOf (steps_mark _) (.cons (hd.delimited _ _ (hd.each (fun _ => steps_propertyAssignment))) <|
      .cons (stays_mark _) .nil)
  · exact mirrors_nodeOf (steps_word _) (.cons (stays_optional _ nofun) <| .cons (stays_signaturePart hd) <|
      .cons (stays_blockPart hd) .nil)
  · exact mirrors_expected _

/-! ## Members, calls and operators -/

theorem steps_argumentList (hd : Below k d d') : Steps P k Node.outline (argumentList d) (argumentList d') :=
  mirrors_nodeOf (steps_mark _) (.cons (hd.delimited _ _ (hd.goal (.assignment true) rfl)) <| .cons (stays_mark _) .nil)

theorem grows_suffixStep (hd : Below k d d') (allowCalls : Bool) (hn : n.outline = n'.outline) :
    Grows Anywhere k Node.outline (suffixStep d allowCalls n) (suffixStep d' allowCalls n') := by
  refine .look (fun r r' hr _ => ?_)
  rw [← hr.resembles.kind]
  split
  · exact grows_some (mirrors_nodeFrom (rowOutline_node hn) (steps_mark _) (.cons stays_member .nil))
  · exact grows_some (mirrors_nodeFrom (rowOutline_node hn) (steps_mark _) (.cons (hd.expressionPart true) <|
      .cons (stays_mark _) .nil))
  · refine .ite Iff.rfl (fun _ => grows_some ?_) (fun _ => grows_none)
    exact mirrors_nodeFrom (rowOutline_node hn) (steps_inner (steps_argumentList hd)) .nil
  · exact grows_none

theorem stays_suffixes (hd : Below k d d') (allowCalls : Bool) (hn : n.outline = n'.outline) :
    Stays k Node.outline (suffixes d allowCalls n) (suffixes d' allowCalls n') :=
  hd.grow (fun _ hm _ _ => grows_suffixStep hm allowCalls) hn

/-- What the descent reads at the word `new`. -/
abbrev Creates (k : Nat) (d d' : Descent) : Prop :=
  Steps (· = .keyword .newKw) k Node.outline (d.parse .creation) (d'.parse .creation)

theorem steps_callee (hd : Below k d d') (h : Creates k d d') : Steps P k Node.outline (callee d) (callee d') :=
  .ifSees _ h (steps_primary hd)

theorem steps_creation (hd : Below k d d') :
    Steps (· = .keyword .newKw) k Node.outline (creation d) (creation d') := by
  have hkeyword : Steps (· = .keyword .newKw) k Slot.outline current current := steps_currentKind nofun
  refine .enter (hkeyword.bind (fun keyword keyword' hkeyword => ?_))
  have hcallee : Stays k Node.outline (leaving (callee d)) (leaving (callee d')) :=
    Mirrors.leaving (.stays (fun m hm => steps_callee (hd.down (Nat.le_of_lt hm)) (hd.parse m hm .creation)))
  refine hcallee.bind (fun target target' htarget => (stays_suffixes hd false htarget).bind (fun n n' hn => ?_))
  refine mirrors_nodeFrom ?_ (hd.innerIf (blind_sees _) (fun _ => steps_argumentList)) .nil
  show [_, Slot.node _] = [_, Slot.node _]
  rw [hkeyword, hn]

theorem blind_atPostfixOperator : Blind atPostfixOperator :=
  ((blind_sees _).or (blind_sees _)).and blind_startsLine.not

theorem stays_postfixed (hn : n.outline = n'.outline) : Stays k Node.outline (postfixed n) (postfixed n') := by
  refine .look (fun r r' hr _ => ?_)
  rw [← blind_atPostfixOperator r r' hr.resembles]
  refine .ite Iff.rfl (fun h => ?_) (fun _ => .pureRead hn)
  refine .loose (fun m _ => mirrors_nodeFrom (rowOutline_node hn) (steps_currentAt (fun hend => ?_)) .nil)
  unfold atPostfixOperator at h
  rw [hend] at h
  cases h

theorem steps_unary (hd : Below k d d') (h : Creates k d d') : Steps P k Node.outline (unary d) (unary d') := by
  refine Mirrors.nested (.look (fun r r' hr _ => ?_))
  have hprefix : atPrefixOperator r = atPrefixOperator r' := by
    unfold atPrefixOperator
    rw [hr.resembles.kind]
  rw [← hprefix, ← hr.resembles.kind]
  refine .ite Iff.rfl (fun hpre => ?_) (fun _ => .ite Iff.rfl (fun _ => ?_) (fun _ => ?_))
  · refine mirrors_nodeOf (steps_currentAt (fun hend => ?_)) (.cons (hd.part .unary rfl) .nil)
    unfold atPrefixOperator at hpre
    rw [hend] at hpre
    cases hpre
  · exact mirrors_nodeOf (steps_mark _) (.cons (hd.part .type rfl) <| .cons (stays_mark _) <|
      .cons (hd.part .unary rfl) .nil)
  · exact (steps_callee hd h).bind (fun n n' hn => (stays_suffixes hd true hn).bind (fun m m' hm => stays_postfixed hm))

theorem grows_binaryStep (hd : Below k d d') (above : Nat) (allowIn : Bool) (hn : n.outline = n'.outline) :
    Grows Anywhere k Node.outline (binaryStep d above allowIn n) (binaryStep d' above allowIn n') := by
  refine .lookKind (fun κ _ => .ite Iff.rfl (fun habove => grows_some ?_) (fun _ => grows_none))
  refine mirrors_nodeFrom (rowOutline_node hn) (steps_current (fun κ' hκ hend => ?_))
    (.cons (hd.part (.binary _ allowIn) rfl) .nil)
  rw [← hκ, hend] at habove
  exact absurd habove (Nat.not_lt_zero above)

theorem steps_binary (hd : Below k d d') (above : Nat) (allowIn : Bool)
    (h : Steps P k Node.outline (d.parse .unary) (d'.parse .unary)) :
    Steps P k Node.outline (binary d above allowIn) (binary d' above allowIn) :=
  h.bind (fun _ _ hn => hd.grow (fun _ hm _ _ => grows_binaryStep hm above allowIn) hn)

theorem steps_conditional (hd : Below k d d') (allowIn : Bool)
    (h : Steps P k Node.outline (d.parse (.binary 0 allowIn)) (d'.parse (.binary 0 allowIn))) :
    Steps P k Node.outline (conditional d allowIn) (conditional d' allowIn) := by
  refine h.bind (fun n n' hn => .ifSees _ ?_ (.pureRead hn))
  exact mirrors_nodeFrom (rowOutline_node hn) ((stays_mark _).before (fun _ _ => trivial))
    (.cons (hd.part (.assignment true) rfl) <| .cons (stays_mark _) <| .cons (hd.part (.assignment allowIn) rfl) .nil)

/-- **An assignment is read alike, whether or not an arrow function was tried for first.** -/
theorem steps_assignment (hd : Below k d d') (allowIn : Bool)
    (h : Steps Anywhere k Node.outline (d.parse (.binary 0 allowIn)) (d'.parse (.binary 0 allowIn))) :
    Steps Anywhere k Node.outline (assignment d allowIn) (assignment d' allowIn) := by
  refine Mirrors.nested ((grows_arrowFunction? hd allowIn).bindGrown ?_ (fun n n' hn => .pureRead hn))
  refine (steps_conditional hd allowIn h).bind (fun n n' hn => .lookKind (fun κ _ => ?_))
  refine .ite Iff.rfl (fun hassigns => ?_) (fun _ => .pureRead hn)
  refine mirrors_nodeFrom (rowOutline_node hn) (.loose (fun _ _ => steps_current (fun κ' hκ hend => ?_)))
    (.cons (hd.part (.assignment allowIn) rfl) .nil)
  rw [← hκ, hend] at hassigns
  cases hassigns

end Parser

end Downlevel
