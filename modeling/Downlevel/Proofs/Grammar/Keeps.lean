import Downlevel.Grammar.Program
import Downlevel.Proofs.Grammar.Alike
import Downlevel.Proofs.Grammar.Reads
/-!
# Proofs.Grammar.Keeps — what is handed on from place to place

A reader goes from place to place by three steps only: behind the current token, to a slash that is cut anew, and to
another count of levels.  It fails where a token cannot be cut, or at the current token.  An `Invariant` says of places
and of errors what these steps hand on; whatever rules are read, it then holds wherever a reader ends (`keeps_program`).
There is one fact for each way of putting readers together and one for each rule, in the order of the grammar; those of
parts are known to `simp`, which goes through the row of parts of a node.
-/
namespace Downlevel

/-! ## What places hand on -/

namespace Parser

variable {α β : Type}

/-- **What is known of places and errors wherever the parser goes**: it is handed on to the place behind the current
token, to the one with a slash cut anew, and to what is met at the current token. -/
structure Invariant where
  place : Reading → Prop
  error : ParseError → Prop
  next {r r' : Reading} : place r → r.next = .ok r' → place r'
  nextError {r : Reading} {e : ParseError} : place r → r.next = .error e → error e
  again {r r' : Reading} : place r → Reading.AtSlash r.kind → r.asRegularExpression = .ok r' → place r'
  againError {r : Reading} {e : ParseError} :
    place r → Reading.AtSlash r.kind → r.asRegularExpression = .error e → error e
  depth {r : Reading} : place r → ∀ depth, place (r.atDepth depth)
  fault {r : Reading} : place r → ∀ f, (∀ e, f ≠ .lexical e) → error (r.errorHere f)

variable {I : Invariant} {r : Reading} {p q : Parser α} {f : α → Parser β}

/-- The reader has ended at such a place or with such an error. -/
def Invariant.Ends (I : Invariant) : EStateM.Result ParseError (Supplied Reading) α → Prop
  | .ok _ s => I.place s.own
  | .error e _ => I.error e

def KeepsAt (I : Invariant) (r : Reading) (p : Parser α) : Prop := ∀ next, I.Ends (p ⟨next, r⟩)

/-- **The reader keeps the invariant** from wherever it holds. -/
def Keeps (I : Invariant) (p : Parser α) : Prop := ∀ r, I.place r → KeepsAt I r p

theorem KeepsAt.bind (hp : KeepsAt I r p) (hf : ∀ a, Keeps I (f a)) : KeepsAt I r (p >>= f) := by
  intro next
  have hends := hp next
  cases hrun : p ⟨next, r⟩ with
  | ok a s =>
    rw [hrun] at hends
    rw [Work.bind_of_ok hrun]
    exact hf a s.own hends s.next
  | error e s =>
    rw [hrun] at hends
    rw [Work.bind_of_error hrun]
    exact hends

/-- Only a slash is cut anew. -/
theorem KeepsAt.rescan (hr : I.place r) (hslash : Reading.AtSlash r.kind) : KeepsAt I r Parser.rescan := by
  intro next
  show I.Ends ((Work.ofExcept r.asRegularExpression >>= fun r' => Work.setOwn r') ⟨next, r⟩)
  cases hagain : r.asRegularExpression with
  | ok r' => exact I.again hr hslash hagain
  | error e => exact I.againError hr hslash hagain

namespace Keeps

/-! ### Putting readers together -/

theorem pure (a : α) : Keeps I (Pure.pure a) := fun _ hr _ => hr

/-- **Readers that keep it one after the other keep it.** -/
theorem bind (hp : Keeps I p) (hf : ∀ a, Keeps I (f a)) : Keeps I (p >>= f) := fun r hr => (hp r hr).bind hf

theorem map {g : α → β} (hp : Keeps I p) : Keeps I (g <$> p) := by
  rw [map_eq_pure_bind]
  exact hp.bind fun _ => pure _

/-- What looks at the place stays there. -/
theorem look {g : Supplied Reading → α} (hf : ∀ a, Keeps I (f a)) :
    Keeps I (((fun s => .ok (g s) s) : Parser α) >>= f) := fun r hr next => hf (g ⟨next, r⟩) r hr next

/-- What depends on the place is told from it. -/
theorem lookAt {f : Reading → Parser β} (hf : ∀ r, I.place r → KeepsAt I r (f r)) : Keeps I (here >>= f) := hf

theorem ite {c : Prop} [Decidable c] (hp : Keeps I p) (hq : Keeps I q) : Keeps I (if c then p else q) := by
  split
  · exact hp
  · exact hq

/-- Making objects goes nowhere. -/
theorem make {m : Fresh α} : Keeps I (liftM m : Parser α) := fun _ hr _ => hr

theorem fault (f : ParseFault) (hf : ∀ e, f ≠ .lexical e) : Keeps I (Parser.fault f : Parser α) :=
  fun _ hr _ => I.fault hr f hf

theorem expected (what : Expectation) : Keeps I (Parser.expected what : Parser α) := fun _ hr _ => I.fault hr _ nofun

theorem take : Keeps I take := by
  intro r hr next
  rw [take_eq]
  cases hnext : r.next with
  | ok r' => exact I.next hr hnext
  | error e => exact I.nextError hr hnext

/-! ### Nesting and going back -/

theorem leaving (hp : Keeps I p) : Keeps I (leaving p) := by
  intro r hr next
  have hends := hp r hr next
  unfold Parser.leaving Work.andThen
  cases hrun : p ⟨next, r⟩ with
  | ok a s =>
    rw [hrun] at hends
    exact I.depth hends _
  | error e s =>
    rw [hrun] at hends
    exact hends

theorem enter : Keeps I enter :=
  bind (fun _ hr _ => I.depth hr _) fun _ => look fun _ => ite (fault _ nofun) (pure ())

theorem nested (hp : Keeps I p) : Keeps I (nested p) := enter.bind fun _ => hp.leaving

/-- **What is tried and given up leaves the reader where it was.** -/
theorem attempt (hp : Keeps I p) (accept : Reading → Bool) : Keeps I (attempt p accept) := by
  intro r hr next
  have hends := hp r hr next
  unfold Parser.attempt
  cases hrun : p ⟨next, r⟩ with
  | ok a s =>
    rw [hrun] at hends
    dsimp only
    split
    · exact hends
    · exact I.depth hr _
  | error e s => exact I.depth hr _

end Keeps

/-! ### Tokens -/

theorem keeps_token (k : TokenKind) : Keeps I (token k) := .look fun _ => .ite .take (.expected _)

theorem keeps_token? (k : TokenKind) : Keeps I (token? k) := .look fun _ => .ite (.map .take) (.pure none)

theorem keeps_identifier : Keeps I identifier := .look fun _ => .ite .take (.expected _)

theorem keeps_memberName : Keeps I memberName := .look fun _ => .ite (.bind .take fun _ => .make) (.expected _)

theorem keeps_propertyName : Keeps I propertyName := .look fun _ => .ite (.bind .take fun _ => .make) (.expected _)

theorem keeps_semicolon : Keeps I semicolon := .look fun _ => .ite .take (.ite .make (.expected _))

/-! ### Parts and nodes -/

variable {element : Parser Node} {ps : List Part} {d : Descent}

@[simp] theorem keeps_word (k : Keyword) : Keeps I (word k) := (keeps_token _).map

@[simp] theorem keeps_mark (p : Punctuation) : Keeps I (mark p) := (keeps_token _).map

@[simp] theorem keeps_current : Keeps I current := Keeps.take.map

@[simp] theorem keeps_name : Keeps I name := keeps_identifier.map

@[simp] theorem keeps_member : Keeps I member := keeps_memberName.map

@[simp] theorem keeps_property : Keeps I property := keeps_propertyName.map

@[simp] theorem keeps_statementEnd : Keeps I statementEnd := keeps_semicolon.map

@[simp] theorem keeps_optional (k : TokenKind) : Keeps I (optional k) := (keeps_token? k).map

@[simp] theorem keeps_optionalMark (p : Punctuation) : Keeps I (optionalMark p) := keeps_optional _

@[simp] theorem keeps_nothing : Keeps I nothing := .pure _

@[simp] theorem keeps_inner (h : Keeps I element) : Keeps I (inner element) := h.map

@[simp] theorem keeps_innerIf (test : Reading → Bool) (h : Keeps I element) : Keeps I (innerIf test element) :=
  .look fun _ => .ite (keeps_inner h) keeps_nothing

@[simp] theorem keeps_innerIfWord (k : Keyword) (h : Keeps I element) : Keeps I (innerIfWord k element) :=
  keeps_innerIf _ h

@[simp] theorem keeps_innerIfMark (p : Punctuation) (h : Keeps I element) : Keeps I (innerIfMark p element) :=
  keeps_innerIf _ h

theorem keeps_parts : ∀ {ps : List Part}, (∀ p ∈ ps, Keeps I p) → Keeps I (parts ps)
  | [], _ => .pure _
  | _ :: _, h => .bind (h _ List.mem_cons_self) fun _ =>
    (keeps_parts fun p hp => h p (List.mem_cons_of_mem _ hp)).bind fun _ => .pure _

/-- **A node keeps the invariant if its parts do.** -/
theorem keeps_nodeAfter (kind : NodeKind) (before : List Slot) (h : ∀ p ∈ ps, Keeps I p) :
    Keeps I (nodeAfter kind before ps) := (keeps_parts h).bind fun _ => .make

theorem keeps_node (kind : NodeKind) (h : ∀ p ∈ ps, Keeps I p) : Keeps I (node kind ps) := keeps_nodeAfter _ _ h

theorem keeps_omitted : Keeps I omitted := .make

/-! ### Lists -/

theorem keeps_membersUntil (stop : Reading → Bool) (h : Keeps I element) :
    ∀ turns, Keeps I (membersUntil stop element turns)
  | 0 => .fault _ nofun
  | turns + 1 => .look fun _ => .ite (.pure _) <|
    h.bind fun _ => (keeps_membersUntil stop h turns).bind fun _ => .pure _

@[simp] theorem keeps_members (h : Keeps I element) : Keeps I (members d element) := (keeps_membersUntil _ h _).map

theorem keeps_behindMember {more : Parser (List Node × List Token)} (h : Keeps I more) (n : Node) :
    Keeps I (behindMember n more) := by
  refine (keeps_token? _).bind fun comma => ?_
  cases comma with
  | none => exact .pure _
  | some _ => exact h.map

theorem keeps_commaListUpTo (h : Keeps I element) : ∀ turns, Keeps I (commaListUpTo element turns)
  | 0 => .fault _ nofun
  | turns + 1 => h.bind (keeps_behindMember (keeps_commaListUpTo h turns))

@[simp] theorem keeps_commaList (h : Keeps I element) : Keeps I (commaList d element) :=
  (keeps_commaListUpTo h _).bind fun _ => .pure _

theorem keeps_delimitedUpTo (close : Punctuation) (trailingComma : Bool) (h : Keeps I element) :
    ∀ turns, Keeps I (delimitedUpTo close trailingComma element turns)
  | 0 => .fault _ nofun
  | turns + 1 => by
    refine h.bind fun _ => (keeps_token? _).bind fun comma => ?_
    cases comma with
    | none => exact .pure _
    | some _ =>
      exact .look fun _ => .ite (.ite (keeps_omitted.bind fun _ => .pure _) (.expected _))
        (keeps_delimitedUpTo close trailingComma h turns).map

@[simp] theorem keeps_delimited (close : Punctuation) (trailingComma : Bool) (h : Keeps I element) :
    Keeps I (delimited d close trailingComma element) :=
  .look fun _ => .ite (.pure _) ((keeps_delimitedUpTo close trailingComma h _).bind fun _ => .pure _)

theorem keeps_growUpTo {step : Node → Parser (Option Node)} (h : ∀ n, Keeps I (step n)) :
    ∀ turns n, Keeps I (growUpTo step turns n)
  | 0, _ => .fault _ nofun
  | turns + 1, n => by
    refine (h n).bind fun larger => ?_
    cases larger with
    | some larger => exact keeps_growUpTo h turns larger
    | none => exact .pure _

/-- What grows to the left keeps the invariant if every step does. -/
theorem keeps_grow {step : Node → Parser (Option Node)} (h : Keeps I element) (hstep : ∀ n, Keeps I (step n)) :
    Keeps I (element >>= fun n => grow d step n) := h.bind fun n => keeps_growUpTo hstep _ n

/-! ## The rules -/

/-- The goals one level down keep the invariant. -/
def Invariant.Below (I : Invariant) (d : Descent) : Prop := ∀ g, Keeps I (d.parse g)

@[simp] theorem Invariant.Below.goal (hd : I.Below d) (g : Goal) : Keeps I (d.parse g) := hd g

/-! ### Types -/

theorem keeps_qualifiedName : Keeps I (qualifiedName d) :=
  keeps_grow (keeps_node _ (by simp)) fun _ => .look fun _ => .ite (.map (keeps_nodeAfter _ _ (by simp))) (.pure _)

@[simp] theorem keeps_typeClause (hd : I.Below d) : Keeps I (typeClause d) :=
  keeps_innerIfMark _ (keeps_node _ (by simp [hd]))

@[simp] theorem keeps_initializer (hd : I.Below d) (allowIn : Bool) : Keeps I (initializer d allowIn) :=
  keeps_innerIfMark _ (keeps_node _ (by simp [hd]))

@[simp] theorem keeps_access (test : Reading → Bool) : Keeps I (access test) :=
  .look fun _ => .ite keeps_current keeps_nothing

@[simp] theorem keeps_parameter (hd : I.Below d) : Keeps I (parameter d) := keeps_node _ (by simp [hd])

@[simp] theorem keeps_parameterList (hd : I.Below d) : Keeps I (parameterList d) := keeps_node _ (by simp [hd])

@[simp] theorem keeps_callSignature (hd : I.Below d) : Keeps I (callSignature d) := keeps_node _ (by simp [hd])

@[simp] theorem keeps_memberSeparator : Keeps I memberSeparator :=
  .look fun _ => .ite keeps_current (.ite keeps_nothing (.expected _))

theorem keeps_namedTypeMember (hd : I.Below d) : Keeps I (namedTypeMember d) :=
  (keeps_parts (by simp)).bind fun _ => .look fun _ =>
    .ite (keeps_nodeAfter _ _ (by simp [hd])) (keeps_nodeAfter _ _ (by simp [hd]))

@[simp] theorem keeps_typeMember (hd : I.Below d) : Keeps I (typeMember d) := by
  refine .look fun _ => ?_
  split
  · exact keeps_node _ (by simp [hd])
  · exact keeps_node _ (by simp [hd])
  · exact .ite (keeps_node _ (by simp [hd])) (keeps_namedTypeMember hd)
  · exact keeps_namedTypeMember hd

@[simp] theorem keeps_objectType (hd : I.Below d) : Keeps I (objectType d) := keeps_node _ (by simp [hd])

theorem keeps_nonArrayType (hd : I.Below d) : Keeps I (nonArrayType d) := by
  refine .look fun _ => ?_
  split
  · exact keeps_objectType hd
  · exact keeps_node _ (by simp [hd])
  · exact keeps_node _ (by simp [hd])
  · exact keeps_node _ (by simp)
  · exact .ite (keeps_node _ (by simp)) keeps_qualifiedName
  · exact .expected _

theorem keeps_typeNode (hd : I.Below d) : Keeps I (typeNode d) :=
  keeps_grow (keeps_nonArrayType hd).nested fun _ => .look fun _ =>
    .ite (.map (keeps_nodeAfter _ _ (by simp))) (.pure _)

/-! ### Functions and literals -/

@[simp] theorem keeps_block (hd : I.Below d) : Keeps I (block d) := keeps_node _ (by simp [hd])

@[simp] theorem keeps_arrowBody (hd : I.Below d) (allowIn : Bool) : Keeps I (arrowBody d allowIn) :=
  .look fun _ => .ite (by simp [hd]) (by simp [hd])

theorem keeps_arrowFunction? (hd : I.Below d) (allowIn : Bool) : Keeps I (arrowFunction? d allowIn) := by
  refine .look fun _ => ?_
  split
  · exact .ite (.map (keeps_node _ (by simp [hd]))) (.pure _)
  · refine ((keeps_callSignature hd).attempt _).bind fun signature => ?_
    cases signature with
    | some signature => exact .map (keeps_nodeAfter _ _ (by simp [hd]))
    | none => exact .pure _
  · exact .pure _

theorem keeps_arrayElementsUpTo (hd : I.Below d) : ∀ turns behindComma,
    Keeps I (arrayElementsUpTo d turns behindComma)
  | 0, _ => .fault _ nofun
  | turns + 1, _ => by
    have hmember := keeps_behindMember (keeps_arrayElementsUpTo hd turns true)
    exact .look fun _ => .ite (.ite (keeps_omitted.bind fun _ => .pure _) (.pure _)) <|
      .look fun _ => .ite (keeps_omitted.bind hmember) ((hd _).bind hmember)

@[simp] theorem keeps_arrayElements (hd : I.Below d) : Keeps I (arrayElements d) :=
  (keeps_arrayElementsUpTo hd _ _).bind fun _ => .pure _

@[simp] theorem keeps_propertyAssignment (hd : I.Below d) : Keeps I (propertyAssignment d) :=
  .look fun _ => .ite (keeps_node _ (by simp [hd])) <|
    .ite (keeps_node _ (by simp [hd])) (keeps_node _ (by simp [hd]))

@[simp] theorem keeps_expression (hd : I.Below d) (allowIn : Bool) : Keeps I (expression d allowIn) :=
  keeps_grow (hd _) fun _ => .look fun _ => .ite (.map (keeps_nodeAfter _ _ (by simp [hd]))) (.pure _)

/-- **A regular expression literal is read in front of a slash only.** -/
theorem keeps_primary (hd : I.Below d) : Keeps I (primary d) := by
  refine .lookAt fun r hr => ?_
  have hcut (h : Reading.AtSlash r.kind) : KeepsAt I r regularExpression :=
    (KeepsAt.rescan hr h).bind fun _ => keeps_node _ (by simp)
  have hnode {kind : NodeKind} {ps : List Part} (h : ∀ p ∈ ps, Keeps I p) : KeepsAt I r (node kind ps) :=
    keeps_node kind h r hr
  split
  · exact hnode (by simp)
  · exact hnode (by simp)
  · exact hnode (by simp)
  · exact hnode (by simp)
  · exact hnode (by simp)
  · exact hnode (by simp)
  · exact hnode (by simp)
  · exact hnode (by simp)
  · rename_i hslash
    exact hcut (.inl hslash)
  · rename_i hslash
    exact hcut (.inr hslash)
  · exact hnode (by simp [hd])
  · exact hnode (by simp [hd])
  · exact hnode (by simp [hd])
  · exact hnode (by simp [hd])
  · exact Keeps.expected _ r hr

/-! ### Operators -/

@[simp] theorem keeps_argumentList (hd : I.Below d) : Keeps I (argumentList d) := keeps_node _ (by simp [hd])

theorem keeps_suffixes (hd : I.Below d) (allowCalls : Bool) (n : Node) : Keeps I (suffixes d allowCalls n) := by
  refine keeps_growUpTo (fun _ => .look fun _ => ?_) _ n
  split
  · exact .map (keeps_nodeAfter _ _ (by simp))
  · exact .map (keeps_nodeAfter _ _ (by simp [hd]))
  · exact .ite (.map (keeps_nodeAfter _ _ (by simp [hd]))) (.pure _)
  · exact .pure _

theorem keeps_callee (hd : I.Below d) : Keeps I (callee d) := .look fun _ => .ite (hd _) (keeps_primary hd)

theorem keeps_creation (hd : I.Below d) : Keeps I (creation d) :=
  Keeps.enter.bind fun _ => keeps_current.bind fun _ => (keeps_callee hd).leaving.bind fun _ =>
    (keeps_suffixes hd false _).bind fun _ => keeps_nodeAfter _ _ (by simp [hd])

theorem keeps_postfixed (n : Node) : Keeps I (postfixed n) :=
  .look fun _ => .ite (keeps_nodeAfter _ _ (by simp)) (.pure _)

theorem keeps_unary (hd : I.Below d) : Keeps I (unary d) :=
  .nested <| .look fun _ => .ite (keeps_node _ (by simp [hd])) <| .ite (keeps_node _ (by simp [hd])) <|
    (keeps_callee hd).bind fun _ => (keeps_suffixes hd true _).bind keeps_postfixed

theorem keeps_binary (hd : I.Below d) (above : Nat) (allowIn : Bool) : Keeps I (binary d above allowIn) :=
  keeps_grow (hd _) fun _ => .look fun _ => .ite (.map (keeps_nodeAfter _ _ (by simp [hd]))) (.pure _)

theorem keeps_conditional (hd : I.Below d) (allowIn : Bool) : Keeps I (conditional d allowIn) :=
  (hd _).bind fun _ => .look fun _ => .ite (keeps_nodeAfter _ _ (by simp [hd])) (.pure _)

theorem keeps_assignment (hd : I.Below d) (allowIn : Bool) : Keeps I (assignment d allowIn) := by
  refine .nested ((keeps_arrowFunction? hd allowIn).bind fun arrow => ?_)
  cases arrow with
  | some arrow => exact .pure _
  | none =>
    exact (keeps_conditional hd allowIn).bind fun _ => .look fun _ => .ite (keeps_nodeAfter _ _ (by simp [hd])) (.pure _)

/-! ### Variables and functions -/

theorem keeps_declaratorAfter (hd : I.Below d) (name : Slot) (allowIn : Bool) :
    Keeps I (declaratorAfter d name allowIn) := keeps_nodeAfter _ _ (by simp [hd])

@[simp] theorem keeps_declarator (hd : I.Below d) (allowIn : Bool) : Keeps I (declarator d allowIn) :=
  keeps_name.bind fun _ => keeps_declaratorAfter hd _ allowIn

@[simp] theorem keeps_variableDeclaration (hd : I.Below d) (allowIn : Bool) :
    Keeps I (variableDeclaration d allowIn) := keeps_node _ (by simp [hd])

theorem keeps_variableStatement (hd : I.Below d) (modifiers : List Slot) :
    Keeps I (variableStatement d modifiers) := keeps_nodeAfter _ _ (by simp [hd])

theorem keeps_nodeWithBody (hd : I.Below d) (kind : NodeKind) (before : List Slot) (h : ∀ p ∈ ps, Keeps I p) :
    Keeps I (nodeWithBody d kind before ps) := by
  have hbody : Keeps I (bodyOrEnd d) := .look fun _ => .ite (keeps_parts (by simp [hd])) (keeps_parts (by simp))
  exact (keeps_parts h).bind fun _ => hbody.bind fun _ => .make

theorem keeps_functionDeclaration (hd : I.Below d) (modifiers : List Slot) :
    Keeps I (functionDeclaration d modifiers) := keeps_nodeWithBody hd _ _ (by simp [hd])

/-! ### Statements -/

@[simp] theorem keeps_substatement (hd : I.Below d) : Keeps I (substatement d) := keeps_inner (hd _)

@[simp] theorem keeps_whole (hd : I.Below d) : Keeps I (whole d) := keeps_inner (keeps_expression hd true)

@[simp] theorem keeps_jumpLabel : Keeps I jumpLabel := .look fun _ => .ite keeps_current keeps_nothing

@[simp] theorem keeps_elseClause (hd : I.Below d) : Keeps I (elseClause d) := keeps_node _ (by simp [hd])

@[simp] theorem keeps_looseEnd : Keeps I looseEnd := .look fun _ => .ite keeps_current (.map .make)

theorem keeps_loopStart (hd : I.Below d) : Keeps I (loopStart d) :=
  .look fun _ => .ite (keeps_parts (by simp [hd])) <|
    .ite (keeps_parts (by simp)) (keeps_parts (by simp [hd]))

theorem keeps_forStatement (hd : I.Below d) : Keeps I (forStatement d) := by
  refine (keeps_parts (by simp)).bind fun _ => (keeps_loopStart hd).bind fun _ => .look fun _ => .ite (.ite ?_ ?_) ?_
  · exact .bind (.fault _ nofun) fun _ => keeps_nodeAfter _ _ (by simp [hd])
  · exact keeps_nodeAfter _ _ (by simp [hd])
  · exact keeps_nodeAfter _ _ (by simp [hd])

@[simp] theorem keeps_returned (hd : I.Below d) : Keeps I (returned d) := keeps_innerIf _ (keeps_expression hd true)

@[simp] theorem keeps_onSameLine (hd : I.Below d) : Keeps I (onSameLine d) :=
  .look fun _ => .ite (.fault _ nofun) (keeps_whole hd)

@[simp] theorem keeps_catchClause (hd : I.Below d) : Keeps I (catchClause d) := keeps_node _ (by simp [hd])

@[simp] theorem keeps_finallyClause (hd : I.Below d) : Keeps I (finallyClause d) := keeps_node _ (by simp [hd])

theorem keeps_handlers (hd : I.Below d) : Keeps I (handlers d) :=
  (keeps_parts (by simp [hd])).bind fun _ => .ite (.expected _) (.pure _)

theorem keeps_tryStatement (hd : I.Below d) : Keeps I (tryStatement d) :=
  (keeps_parts (by simp [hd])).bind fun _ => (keeps_handlers hd).bind fun _ => .make

@[simp] theorem keeps_clauseStatements (hd : I.Below d) : Keeps I (clauseStatements d) :=
  (keeps_membersUntil _ (hd _) _).map

theorem keeps_switchClause (hd : I.Below d) : Keeps I (switchClause d) := by
  refine .look fun _ => ?_
  split
  · exact keeps_node _ (by simp [hd])
  · exact keeps_node _ (by simp [hd])
  · exact .expected _

@[simp] theorem keeps_switchClauses (hd : I.Below d) : Keeps I (switchClauses d) :=
  (keeps_membersUntil _ (keeps_switchClause hd) _).map

theorem keeps_wordStatement (hd : I.Below d) {k : Keyword} {p : Parser Node} (h : wordStatement d k = some p) :
    Keeps I p := by
  unfold wordStatement at h
  split at h <;> cases h
  · exact keeps_variableStatement hd _
  · exact keeps_functionDeclaration hd _
  · exact keeps_node _ (by simp [hd])
  · exact keeps_node _ (by simp [hd])
  · exact keeps_node _ (by simp [hd])
  · exact keeps_forStatement hd
  · exact keeps_node _ (by simp)
  · exact keeps_node _ (by simp)
  · exact keeps_node _ (by simp [hd])
  · exact keeps_node _ (by simp [hd])
  · exact keeps_tryStatement hd
  · exact keeps_node _ (by simp [hd])
  · exact keeps_node _ (by simp [hd])
  · exact keeps_node _ (by simp)

theorem keeps_expressionStatement (hd : I.Below d) : Keeps I (expressionStatement d) := keeps_node _ (by simp [hd])

theorem keeps_statement (hd : I.Below d) : Keeps I (statement d) := by
  refine .nested (.look fun _ => ?_)
  split
  · exact keeps_block hd
  · exact keeps_node _ (by simp)
  · rename_i k _
    cases h : wordStatement d k with
    | some p => exact keeps_wordStatement hd h
    | none => exact keeps_expressionStatement hd
  · exact .ite (keeps_node _ (by simp [hd])) (keeps_expressionStatement hd)
  · exact keeps_expressionStatement hd

/-! ### Declarations -/

theorem keeps_memberAccessor (hd : I.Below d) (modifiers : List Slot) : Keeps I (memberAccessor d modifiers) :=
  .look fun _ => .ite (keeps_nodeAfter _ _ (by simp [hd])) (keeps_nodeAfter _ _ (by simp [hd]))

theorem keeps_methodOrField (hd : I.Below d) (modifiers : List Slot) : Keeps I (methodOrField d modifiers) := by
  refine keeps_property.bind fun name => .look fun _ => .ite (keeps_nodeWithBody hd _ _ (by simp [hd])) ?_
  exact keeps_nodeAfter _ _ (by simp [keeps_declaratorAfter hd])

@[simp] theorem keeps_staticWord : Keeps I staticWord := .look fun _ => .ite keeps_current keeps_nothing

@[simp] theorem keeps_classElement (hd : I.Below d) : Keeps I (classElement d) := by
  refine .look fun _ => .ite (keeps_nodeWithBody hd _ _ (by simp [hd])) ?_
  exact (keeps_parts (by simp)).bind fun _ => .look fun _ =>
    .ite (keeps_memberAccessor hd _) (keeps_methodOrField hd _)

@[simp] theorem keeps_baseClause : Keeps I (baseClause d) := keeps_node _ (by simp [keeps_qualifiedName.map])

@[simp] theorem keeps_implementsClause : Keeps I (implementsClause d) := keeps_node _ (by simp [keeps_qualifiedName])

theorem keeps_classDeclaration (hd : I.Below d) (modifiers : List Slot) :
    Keeps I (classDeclaration d modifiers) := keeps_nodeAfter _ _ (by simp [hd])

@[simp] theorem keeps_extendedInterfaces : Keeps I (extendedInterfaces d) :=
  keeps_node _ (by simp [keeps_qualifiedName])

theorem keeps_interfaceDeclaration (hd : I.Below d) (exported : Slot) :
    Keeps I (interfaceDeclaration d exported) := keeps_nodeAfter _ _ (by simp [hd])

@[simp] theorem keeps_enumElement (hd : I.Below d) : Keeps I (enumElement d) := keeps_node _ (by simp [hd])

theorem keeps_enumDeclaration (hd : I.Below d) (modifiers : List Slot) :
    Keeps I (enumDeclaration d modifiers) := keeps_nodeAfter _ _ (by simp [hd])

@[simp] theorem keeps_moduleName : Keeps I (moduleName d) :=
  .look fun _ => .ite (keeps_node _ (by simp)) keeps_qualifiedName

theorem keeps_moduleDeclaration (hd : I.Below d) (modifiers : List Slot) :
    Keeps I (moduleDeclaration d modifiers) := keeps_nodeAfter _ _ (by simp [hd])

theorem keeps_declareWord : Keeps I declareWord := .look fun _ => .ite keeps_current keeps_nothing

theorem keeps_moduleElement (hd : I.Below d) : Keeps I (moduleElement d) := by
  refine (keeps_optional _).bind fun exported => keeps_declareWord.bind fun declared => .look fun _ => ?_
  split
  · exact keeps_classDeclaration hd _
  · exact .ite (.fault _ nofun) (keeps_interfaceDeclaration hd _)
  · exact keeps_enumDeclaration hd _
  · exact keeps_functionDeclaration hd _
  · exact keeps_variableStatement hd _
  · exact .ite (keeps_moduleDeclaration hd _) (.ite (.expected _) (hd _))

/-! ## Programs -/

/-- **Every rule keeps the invariant** if the goals one level down do. -/
theorem keeps_goal (hd : I.Below d) : ∀ g, Keeps I (goal d g)
  | .type => keeps_typeNode hd
  | .assignment allowIn => keeps_assignment hd allowIn
  | .unary => keeps_unary hd
  | .binary above allowIn => keeps_binary hd above allowIn
  | .creation => keeps_creation hd
  | .statement => keeps_statement hd
  | .moduleElement => keeps_moduleElement hd

theorem keeps_goalUpTo (loop : Nat) : ∀ levels g, Keeps I (goalUpTo loop levels g)
  | 0, _ => .fault _ nofun
  | levels + 1, g => keeps_goal (fun g => keeps_goalUpTo loop levels g) g

/-- **Whatever is handed on from place to place holds at the end of a program**, however deep the recursion goes. -/
theorem keeps_program (loop levels : Nat) : Keeps I (program (descent loop levels)) := by
  have hend : Keeps I program.endOfFile := .look fun _ => .map .make
  have helements := keeps_membersUntil (I := I) (fun r => r.kind == .endOfFile)
    (keeps_goalUpTo loop levels .moduleElement) loop
  refine keeps_node _ fun p hp => ?_
  rcases List.mem_pair.1 hp with rfl | rfl
  · exact helements.map
  · exact hend

end Parser

end Downlevel
