import Downlevel.Proofs.Grammar.Forms
import Downlevel.Proofs.Grammar.Layout
/-!
# Proofs.Grammar.Moves — whatever is read takes a token

A reader that succeeds may have moved over nothing: a semicolon may be left out, and so may a clause, an element of an
array, or the signature of an arrow function.  But every construct of a program has a token with characters in it, since
some part of it that is always there starts with one (`BringsAt`), and its tokens are those that were moved over
(`Reads`).  So each construct takes a token wherever it is read (`takes_construct`), and a node that grows takes one
each time it does (`growsAt_growth`).
-/
namespace Downlevel

/-- From one place to another a token with characters was moved over. -/
def Moved (s s' : Supplied Reading) : Prop := ∃ ts, Advance s s' ts ∧ ∃ t ∈ Made.tokens ts, t.text ≠ []

/-! ## Trees with characters -/

/-- The tree has a token with characters. -/
def Node.IsReal (n : Node) : Prop := ∃ t ∈ n.tokens, t.text ≠ []

/-- The slot has a token with characters. -/
def Slot.IsReal (s : Slot) : Prop := ∃ t ∈ s.tokens, t.text ≠ []

/-- One of the slots has a token with characters. -/
def HasReal (slots : List Slot) : Prop := ∃ s ∈ slots, s.IsReal

theorem HasReal.append_left {slots : List Slot} (h : HasReal slots) (more : List Slot) : HasReal (slots ++ more) :=
  let ⟨s, hs, hreal⟩ := h
  ⟨s, List.mem_append_left _ hs, hreal⟩

theorem HasReal.append_right {slots : List Slot} (h : HasReal slots) (before : List Slot) : HasReal (before ++ slots) :=
  let ⟨s, hs, hreal⟩ := h
  ⟨s, List.mem_append_right _ hs, hreal⟩

/-- A token with characters in a row of slots. -/
theorem HasReal.tokens {slots : List Slot} (h : HasReal slots) : ∃ t ∈ slots.flatMap Slot.tokens, t.text ≠ [] :=
  let ⟨s, hs, t, ht, htext⟩ := h
  ⟨t, List.mem_flatMap.2 ⟨s, hs, ht⟩, htext⟩

theorem HasReal.node {slots : List Slot} (h : HasReal slots) (id : ObjectId) (kind : NodeKind) :
    (Node.mk id kind slots).IsReal := by
  obtain ⟨t, ht, htext⟩ := h.tokens
  exact ⟨t, by rw [Node.tokens_mk]; exact ht, htext⟩

theorem Node.IsReal.slot {n : Node} (h : n.IsReal) : (Slot.node n).IsReal := h

theorem Node.StartsAt.isReal {n : Node} {k : TokenKind} (h : n.StartsAt k) : n.IsReal := by
  obtain ⟨t, ts, htokens, htext, -⟩ := h
  exact ⟨t, by rw [htokens]; exact List.mem_cons_self, htext⟩

namespace Parser

variable {α β : Type} {r : Reading} {P : α → Prop} {Q : β → Prop} {p : Parser α} {f : α → Parser β}
  {first : Part} {ps : List Part} {element : Parser Node} {kind : NodeKind} {d : Descent} {modifiers : List Slot}

/-! ## What is read from a place -/

/-- What is read from a place on, if it ends well, has a property. -/
def BringsAt (r : Reading) (p : Parser α) (P : α → Prop) : Prop := ∀ next a s', p ⟨next, r⟩ = .ok a s' → P a

namespace BringsAt

theorem of_yieldsAt {R : α → Reading → Prop} (h : YieldsAt r p R) (hR : ∀ a r', R a r' → P a) : BringsAt r p P :=
  fun next a s' hp => hR a _ (h next a s' hp).2

/-- What is read last counts. -/
theorem bind (hp : BringsAt r p P) (hf : ∀ a r', P a → BringsAt r' (f a) Q) : BringsAt r (p >>= f) Q := by
  intro next b s' h
  obtain ⟨a, s₁, h₁, h₂⟩ := Work.bind_eq_ok h
  exact hf a s₁.own (hp next a s₁ h₁) s₁.next b s' h₂

/-- What is read behind something else is read from a place that is as whole as the first one. -/
theorem behind {R : α → List Made → Prop} (hr : r.Whole) (hp : Reads p R)
    (hf : ∀ a r', r'.Whole → BringsAt r' (f a) Q) : BringsAt r (p >>= f) Q := by
  intro next b s' h
  obtain ⟨a, s₁, h₁, h₂⟩ := Work.bind_eq_ok h
  obtain ⟨ts, hadv, -⟩ := hp.ok (s := ⟨next, r⟩) hr h₁
  exact hf a s₁.own hadv.whole s₁.next b s' h₂

/-- A look at the place moves over nothing. -/
theorem look {a : α} (hp : ∀ next, p ⟨next, r⟩ = .ok a ⟨next, r⟩) (h : BringsAt r (f a) Q) : BringsAt r (p >>= f) Q :=
  fun next b s' hs => h next b s' ((Work.bind_of_ok (hp next)).symm.trans hs)

theorem ite {c : Prop} [Decidable c] {q : Parser α} (hp : c → BringsAt r p P) (hq : ¬c → BringsAt r q P) :
    BringsAt r (if c then p else q) P := by
  split
  · exact hp ‹_›
  · exact hq ‹_›

theorem pure {a : α} (h : P a) : BringsAt r (pure a) P := fun _ _ _ hs => by
  cases hs
  exact h

theorem map {g : α → β} (h : BringsAt r p P) (hg : ∀ a, P a → Q (g a)) : BringsAt r (g <$> p) Q := by
  rw [map_eq_pure_bind]
  exact h.bind (fun a _ ha => .pure (hg a ha))

theorem fault {f : ParseFault} : BringsAt r (fault f : Parser α) P := fun _ _ _ h => by cases h

theorem expected {what : Expectation} : BringsAt r (expected what : Parser α) P := fun _ _ _ h => by cases h

theorem leaving (h : BringsAt r p P) : BringsAt r (leaving p) P := by
  intro next a s' hp
  obtain ⟨s₁, hrun, rfl⟩ := Work.andThen_eq_ok hp
  exact h next a s₁ hrun

theorem nested (hr : r.Whole) (h : ∀ r' : Reading, r'.Whole → BringsAt r' p P) : BringsAt r (nested p) P :=
  .behind hr reads_enter (fun _ r' hr' => (h r' hr').leaving)

end BringsAt

/-! ## Tokens -/

theorem bringsAt_take (hr : r.Whole) (hk : r.kind ≠ .endOfFile) : BringsAt r take (fun t => t.text ≠ []) :=
  .of_yieldsAt yieldsAt_take (fun t _ (ht : t.lexeme = r.current) => by
    show t.lexeme.text ≠ []
    rw [ht]
    exact hr.text_ne_nil hk)

theorem bringsAt_takeIf {k : TokenKind} {what : Expectation} (hr : r.Whole) (hk : k ≠ .endOfFile) :
    BringsAt r (do if ← sees k then take else expected what) (fun t => t.text ≠ []) := by
  refine .look (a := r.kind == k) (fun _ => rfl) (.ite (fun h => ?_) (fun _ => .expected))
  exact bringsAt_take hr (by rw [show r.kind = k from beq_iff_eq.1 h]; exact hk)

theorem bringsAt_tokenSlot {p : Parser Token} (h : BringsAt r p (fun t => t.text ≠ [])) :
    BringsAt r (Slot.token <$> p) Slot.IsReal := h.map (fun t ht => ⟨t, List.mem_singleton.2 rfl, ht⟩)

theorem bringsAt_current (hr : r.Whole) (hk : r.kind ≠ .endOfFile) : BringsAt r current Slot.IsReal :=
  bringsAt_tokenSlot (bringsAt_take hr hk)

theorem bringsAt_word (hr : r.Whole) (k : Keyword) : BringsAt r (word k) Slot.IsReal :=
  bringsAt_tokenSlot (bringsAt_takeIf hr nofun)

theorem bringsAt_mark (hr : r.Whole) (p : Punctuation) : BringsAt r (mark p) Slot.IsReal :=
  bringsAt_tokenSlot (bringsAt_takeIf hr nofun)

theorem bringsAt_name (hr : r.Whole) : BringsAt r name Slot.IsReal := bringsAt_tokenSlot (bringsAt_takeIf hr nofun)

/-- A word that is taken as a name keeps its characters. -/
theorem bringsAt_property (hr : r.Whole) : BringsAt r property Slot.IsReal := by
  refine bringsAt_tokenSlot (.look (a := r) (fun _ => rfl) (.ite (fun h => ?_) (fun _ => .expected)))
  have hk : r.kind ≠ .endOfFile := fun hend => by
    rw [Reading.isPropertyName, hend] at h
    cases h
  refine (bringsAt_take hr hk).bind (fun t r' ht next u s' hu => ?_)
  rw [toName_eq] at hu
  split at hu
  · cases hu
    exact ht
  · cases hu
    exact ht

/-! ## Rows and nodes -/

theorem bringsAt_inner (h : BringsAt r element Node.IsReal) : BringsAt r (inner element) Slot.IsReal :=
  h.map (fun _ hn => hn.slot)

theorem bringsAt_first (h : BringsAt r first Slot.IsReal) (ps : List Part) : BringsAt r (parts (first :: ps)) HasReal :=
  h.bind (fun s _ hs next slots s' hrun => by
    obtain ⟨more, s₁, -, hmore⟩ := Work.bind_eq_ok hrun
    cases hmore
    exact ⟨s, List.mem_cons_self, hs⟩)

/-- A part behind the first has characters. -/
theorem bringsAt_later {sort : SlotSort} (hr : r.Whole) (hfirst : ReadsSlot first sort)
    (h : ∀ r', r'.Whole → BringsAt r' (parts ps) HasReal) : BringsAt r (parts (first :: ps)) HasReal :=
  .behind hr hfirst (fun s r' hr' => (h r' hr').bind (fun _ _ hslots => .pure (hslots.append_right [s])))

theorem bringsAt_nodeAfter (h : BringsAt r (parts ps) HasReal) (before : List Slot) :
    BringsAt r (nodeAfter kind before ps) Node.IsReal :=
  h.bind (fun _ _ hslots next n s' hrun => by
    cases hrun
    exact (hslots.append_right before).node _ _)

/-- A node of which the slots that were read before have characters. -/
theorem bringsAt_nodeOf {before : List Slot} (h : HasReal before) (ps : List Part) :
    BringsAt r (nodeAfter kind before ps) Node.IsReal := by
  intro next n s' hrun
  obtain ⟨slots, s₁, -, hfresh⟩ := Work.bind_eq_ok hrun
  cases hfresh
  exact (h.append_left slots).node _ _

theorem bringsAt_node (h : BringsAt r first Slot.IsReal) (ps : List Part) :
    BringsAt r (node kind (first :: ps)) Node.IsReal := bringsAt_nodeAfter (bringsAt_first h ps) []

theorem bringsAt_nodeFrom (h : BringsAt r first Slot.IsReal) (before : List Slot) (ps : List Part) :
    BringsAt r (nodeAfter kind before (first :: ps)) Node.IsReal := bringsAt_nodeAfter (bringsAt_first h ps) before

theorem bringsAt_nodeWithBody {before : List Slot} (h : HasReal before ∨ BringsAt r (parts ps) HasReal) :
    BringsAt r (nodeWithBody d kind before ps) Node.IsReal := by
  intro next n s' hrun
  obtain ⟨slots, s₁, hslots, hrun⟩ := Work.bind_eq_ok hrun
  obtain ⟨body, s₂, -, hfresh⟩ := Work.bind_eq_ok hrun
  cases hfresh
  refine (HasReal.append_left ?_ body).node _ _
  rcases h with h | h
  · exact h.append_left slots
  · exact (h next slots s₁ hslots).append_right before

/-- **What grows keeps the characters that it has.** -/
theorem bringsAt_growUpTo {step : Node → Parser (Option Node)}
    (hstep : ∀ n r', n.IsReal → BringsAt r' (step n) (fun o => ∀ m ∈ o, Node.IsReal m)) :
    ∀ (turns : Nat) {n : Node} {r : Reading}, n.IsReal → BringsAt r (growUpTo step turns n) Node.IsReal
  | 0, _, _, _ => .fault
  | turns + 1, n, _, hn => (hstep n _ hn).bind (fun o r' ho => by
      cases o with
      | none => exact .pure hn
      | some m => exact bringsAt_growUpTo hstep turns (ho m rfl))

/-- A node that is built on one with characters. -/
theorem bringsAt_larger {n : Node} (hn : n.IsReal) (ps : List Part) :
    BringsAt r (some <$> nodeAfter kind [.node n] ps) (fun o => ∀ m ∈ o, Node.IsReal m) :=
  BringsAt.map (bringsAt_nodeOf ⟨_, List.mem_cons_self, hn.slot⟩ ps) (fun _ hm _ hmem => Option.some.inj hmem ▸ hm)

theorem bringsAt_noLarger : BringsAt r (return none : Parser (Option Node)) (fun o => ∀ m ∈ o, Node.IsReal m) :=
  .pure (fun _ h => by cases h)

/-! ## Names, signatures and types -/

theorem bringsAt_qualifiedName (hr : r.Whole) : BringsAt r (qualifiedName d) Node.IsReal :=
  (bringsAt_node (bringsAt_name hr) []).bind (fun _ _ hn => bringsAt_growUpTo (fun _ r' hn =>
    .look (a := r'.kind == .punctuation .dot) (fun _ => rfl)
      (.ite (fun _ => bringsAt_larger hn _) (fun _ => bringsAt_noLarger))) _ hn)

/-- A parameter has a name behind what may be left out. -/
theorem bringsAt_parameter (hr : r.Whole) : BringsAt r (parameter d) Node.IsReal :=
  bringsAt_nodeAfter (bringsAt_later hr (reads_optional _) (fun _ hr =>
    bringsAt_later hr (reads_access _) (fun _ hr => bringsAt_first (bringsAt_name hr) _))) []

theorem bringsAt_parameterList (hr : r.Whole) : BringsAt r (parameterList d) Node.IsReal :=
  bringsAt_node (bringsAt_mark hr _) _

theorem bringsAt_callSignature (hr : r.Whole) : BringsAt r (callSignature d) Node.IsReal :=
  bringsAt_node (bringsAt_inner (bringsAt_parameterList hr)) _

theorem bringsAt_namedTypeMember (hr : r.Whole) : BringsAt r (namedTypeMember d) Node.IsReal :=
  (bringsAt_first (bringsAt_property hr) _).bind (fun _ r' hslots =>
    .look (a := r'.kind == .punctuation .openParen) (fun _ => rfl)
      (.ite (fun _ => bringsAt_nodeOf hslots _) (fun _ => bringsAt_nodeOf hslots _)))

theorem bringsAt_typeMember (hr : r.Whole) : BringsAt r (typeMember d) Node.IsReal := by
  refine .look (a := r) (fun _ => rfl) ?_
  split
  · exact bringsAt_node (bringsAt_inner (bringsAt_callSignature hr)) _
  · exact bringsAt_node (bringsAt_mark hr _) _
  · exact .ite (fun _ => bringsAt_node (bringsAt_word hr _) _) (fun _ => bringsAt_namedTypeMember hr)
  · exact bringsAt_namedTypeMember hr

theorem bringsAt_objectType (hr : r.Whole) : BringsAt r (objectType d) Node.IsReal :=
  bringsAt_node (bringsAt_mark hr _) _

theorem bringsAt_nonArrayType (hr : r.Whole) : BringsAt r (nonArrayType d) Node.IsReal := by
  refine .look (a := r) (fun _ => rfl) ?_
  split
  · exact bringsAt_objectType hr
  · exact bringsAt_node (bringsAt_inner (bringsAt_parameterList hr)) _
  · exact bringsAt_node (bringsAt_word hr _) _
  · rename_i hk
    exact bringsAt_node (bringsAt_current hr (by rw [hk]; exact nofun)) _
  · rename_i hk
    exact .ite (fun _ => bringsAt_node (bringsAt_current hr (by rw [hk]; exact nofun)) _)
      (fun _ => bringsAt_qualifiedName hr)
  · exact .expected

theorem bringsAt_typeNode (hr : r.Whole) : BringsAt r (typeNode d) Node.IsReal :=
  (BringsAt.nested hr (fun _ hr => bringsAt_nonArrayType hr)).bind (fun _ _ hn => bringsAt_growUpTo (fun _ r' hn =>
    .look (a := r') (fun _ => rfl) (.ite (fun _ => bringsAt_larger hn _) (fun _ => bringsAt_noLarger))) _ hn)

/-! ## Expressions -/

/-- What computes a value starts with characters. -/
theorem bringsAt_value {least : Nat} (hr : r.Whole) (h : YieldsValue element least) : BringsAt r element Node.IsReal :=
  .of_yieldsAt (h r hr.proper) (fun _ _ hn => hn.starts.isReal)

theorem bringsAt_expression (hr : r.Whole) (hd : Forming d) (allowIn : Bool) :
    BringsAt r (expression d allowIn) Node.IsReal := bringsAt_value hr (yieldsValue_expression hd allowIn)

theorem bringsAt_propertyAssignment (hr : r.Whole) : BringsAt r (propertyAssignment d) Node.IsReal := by
  refine .look (a := r) (fun _ => rfl) (.ite (fun h => ?_) (fun _ => .ite (fun h => ?_) (fun _ => ?_)))
  · exact bringsAt_node (bringsAt_current hr (isWord_ne_end (Bool.and_eq_true_iff.1 h).1)) _
  · exact bringsAt_node (bringsAt_current hr (isWord_ne_end (Bool.and_eq_true_iff.1 h).1)) _
  · exact bringsAt_node (bringsAt_property hr) _

theorem bringsAt_suffixStep (allowCalls : Bool) {n : Node} (hn : n.IsReal) :
    BringsAt r (suffixStep d allowCalls n) (fun o => ∀ m ∈ o, Node.IsReal m) := by
  refine .look (a := r) (fun _ => rfl) ?_
  split
  · exact bringsAt_larger hn _
  · exact bringsAt_larger hn _
  · exact .ite (fun _ => bringsAt_larger hn _) (fun _ => bringsAt_noLarger)
  · exact bringsAt_noLarger

/-- The form that starts with `new` has a target with characters, whatever stands in the place of that word. -/
theorem bringsAt_creation (hr : r.Whole) (hd : Forming d) : BringsAt r (creation d) Node.IsReal :=
  .behind hr reads_enter (fun _ _ hr => .behind hr reads_current (fun keyword _ hr =>
    (bringsAt_value hr (yieldsValue_callee hd)).leaving.bind (fun _ _ htarget =>
      (bringsAt_growUpTo (fun _ _ hn => bringsAt_suffixStep false hn) _ htarget).bind (fun _ _ htarget =>
        bringsAt_nodeOf ⟨_, List.mem_cons_of_mem keyword List.mem_cons_self, htarget.slot⟩ _))))

/-! ## Variables and functions -/

theorem bringsAt_declaratorAfter {name : Slot} (h : name.IsReal) (allowIn : Bool) :
    BringsAt r (declaratorAfter d name allowIn) Node.IsReal := bringsAt_nodeOf ⟨_, List.mem_cons_self, h⟩ _

theorem bringsAt_declarator (hr : r.Whole) (allowIn : Bool) : BringsAt r (declarator d allowIn) Node.IsReal :=
  (bringsAt_name hr).bind (fun _ _ hname => bringsAt_declaratorAfter hname allowIn)

theorem bringsAt_variableStatement (hr : r.Whole) (modifiers : List Slot) :
    BringsAt r (variableStatement d modifiers) Node.IsReal :=
  bringsAt_nodeFrom (bringsAt_inner (bringsAt_node (bringsAt_word hr _) _)) _ _

theorem bringsAt_functionDeclaration (hr : r.Whole) (modifiers : List Slot) :
    BringsAt r (functionDeclaration d modifiers) Node.IsReal :=
  bringsAt_nodeWithBody (.inr (bringsAt_first (bringsAt_word hr _) _))

/-! ## Statements -/

theorem bringsAt_block (hr : r.Whole) : BringsAt r (block d) Node.IsReal := bringsAt_node (bringsAt_mark hr _) _

theorem bringsAt_forStatement (hr : r.Whole) : BringsAt r (forStatement d) Node.IsReal := by
  refine (bringsAt_first (bringsAt_word hr _) _).bind (fun head _ hhead => ?_)
  refine BringsAt.bind (P := fun _ => True) (fun _ _ _ _ => trivial) (fun start r _ => ?_)
  have hslots := hhead.append_left start
  refine .look (a := r.kind == .keyword .inKw) (fun _ => rfl)
    (.ite (fun _ => .ite (fun _ => ?_) (fun _ => ?_)) (fun _ => ?_))
  · exact BringsAt.bind (P := fun _ => True) .fault (fun _ _ _ => bringsAt_nodeOf hslots _)
  · exact bringsAt_nodeOf hslots _
  · exact bringsAt_nodeOf hslots _

theorem bringsAt_tryStatement (hr : r.Whole) : BringsAt r (tryStatement d) Node.IsReal :=
  (bringsAt_first (bringsAt_word hr _) _).bind (fun slots _ hslots =>
    BringsAt.bind (P := fun _ => True) (fun _ _ _ _ => trivial) (fun handled _ _ next n s' hrun => by
      cases hrun
      exact (hslots.append_left handled).node _ _))

theorem bringsAt_switchClause (hr : r.Whole) : BringsAt r (switchClause d) Node.IsReal := by
  refine .look (a := r.kind) (fun _ => rfl) ?_
  split
  · exact bringsAt_node (bringsAt_word hr _) _
  · exact bringsAt_node (bringsAt_word hr _) _
  · exact .expected

/-- Whatever a reserved word starts has that word. -/
theorem bringsAt_wordStatement (hr : r.Whole) {k : Keyword} {p : Parser Node} (h : wordStatement d k = some p) :
    BringsAt r p Node.IsReal := by
  unfold wordStatement at h
  split at h <;> cases h
  · exact bringsAt_variableStatement hr _
  · exact bringsAt_functionDeclaration hr _
  · exact bringsAt_node (bringsAt_word hr _) _
  · exact bringsAt_node (bringsAt_word hr _) _
  · exact bringsAt_node (bringsAt_word hr _) _
  · exact bringsAt_forStatement hr
  · exact bringsAt_node (bringsAt_word hr _) _
  · exact bringsAt_node (bringsAt_word hr _) _
  · exact bringsAt_node (bringsAt_word hr _) _
  · exact bringsAt_node (bringsAt_word hr _) _
  · exact bringsAt_tryStatement hr
  · exact bringsAt_node (bringsAt_word hr _) _
  · exact bringsAt_node (bringsAt_word hr _) _
  · exact bringsAt_node (bringsAt_word hr _) _

theorem bringsAt_expressionStatement (hr : r.Whole) (hd : Forming d) :
    BringsAt r (expressionStatement d) Node.IsReal :=
  bringsAt_node (bringsAt_inner (bringsAt_expression hr hd true)) _

theorem bringsAt_statement (hr : r.Whole) (hd : Forming d) : BringsAt r (statement d) Node.IsReal := by
  refine .nested hr (fun r hr => .look (a := r) (fun _ => rfl) ?_)
  split
  · exact bringsAt_block hr
  · rename_i hk
    exact bringsAt_node (bringsAt_current hr (by rw [hk]; exact nofun)) _
  · rename_i k _
    cases h : wordStatement d k with
    | some p => exact bringsAt_wordStatement hr h
    | none => exact bringsAt_expressionStatement hr hd
  · exact .ite (fun _ => bringsAt_node (bringsAt_name hr) _) (fun _ => bringsAt_expressionStatement hr hd)
  · exact bringsAt_expressionStatement hr hd

/-! ## Classes and enums -/

theorem bringsAt_memberAccessor (hr : r.Whole) (hk : r.kind ≠ .endOfFile) (modifiers : List Slot) :
    BringsAt r (memberAccessor d modifiers) Node.IsReal :=
  .look (a := r) (fun _ => rfl) (.ite (fun _ => bringsAt_nodeFrom (bringsAt_current hr hk) _ _)
    (fun _ => bringsAt_nodeFrom (bringsAt_current hr hk) _ _))

theorem bringsAt_methodOrField (hr : r.Whole) (modifiers : List Slot) :
    BringsAt r (methodOrField d modifiers) Node.IsReal := by
  refine (bringsAt_property hr).bind (fun name r hname => .look (a := r.kind == .punctuation .openParen) (fun _ => rfl)
    (.ite (fun _ => ?_) (fun _ => ?_)))
  · exact bringsAt_nodeWithBody (.inl ⟨name, List.mem_append_right _ List.mem_cons_self, hname⟩)
  · exact bringsAt_nodeFrom (bringsAt_inner (bringsAt_declaratorAfter hname true)) _ _

/-- A member of a class has a name behind the words that may be left out. -/
theorem bringsAt_classElement (hr : r.Whole) : BringsAt r (classElement d) Node.IsReal := by
  refine .look (a := r) (fun _ => rfl) (.ite (fun h => ?_) (fun _ => ?_))
  · exact bringsAt_nodeWithBody (.inr (bringsAt_first
      (bringsAt_current hr (isWord_ne_end (Bool.and_eq_true_iff.1 h).1)) _))
  · have hmodifiers := reads_parts (.cons (reads_access beforePropertyName) <| .cons reads_staticWord .nil)
    refine .behind hr hmodifiers (fun modifiers r hr => .look (a := r) (fun _ => rfl)
      (.ite (fun h => ?_) (fun _ => ?_)))
    · have hk : r.kind ≠ .endOfFile := by
        rcases Bool.or_eq_true_iff.1 (Bool.and_eq_true_iff.1 h).1 with h | h <;> exact isWord_ne_end h
      exact bringsAt_memberAccessor hr hk modifiers
    · exact bringsAt_methodOrField hr modifiers

theorem bringsAt_enumElement (hr : r.Whole) : BringsAt r (enumElement d) Node.IsReal :=
  bringsAt_node (bringsAt_property hr) _

/-! ## Module elements -/

theorem bringsAt_moduleElement (hr : r.Whole)
    (h : ∀ r' : Reading, r'.Whole → BringsAt r' (d.parse .statement) Node.IsReal) :
    BringsAt r (moduleElement d) Node.IsReal := by
  refine .behind hr (reads_optional _) (fun exported _ hr => .behind hr reads_declareWord (fun declared r hr =>
    .look (a := r) (fun _ => rfl) ?_))
  split
  · exact bringsAt_nodeFrom (bringsAt_word hr _) _ _
  · exact .ite (fun _ => .fault) (fun _ => bringsAt_nodeFrom (bringsAt_word hr _) _ _)
  · exact bringsAt_nodeFrom (bringsAt_word hr _) _ _
  · exact bringsAt_functionDeclaration hr _
  · exact bringsAt_variableStatement hr _
  · refine .ite (fun hmodule => ?_) (fun _ => .ite (fun _ => .expected) (fun _ => h r hr))
    exact bringsAt_nodeFrom (bringsAt_current hr (atModuleWord_ne_end (Bool.and_eq_true_iff.1 hmodule).1)) _ _

/-! ## Goals -/

theorem bringsAt_goal (hd : Forming d) (h : ∀ r' : Reading, r'.Whole → BringsAt r' (d.parse .statement) Node.IsReal) :
    ∀ (g : Goal) {r : Reading}, r.Whole → BringsAt r (goal d g) Node.IsReal
  | .type, _, hr => bringsAt_typeNode hr
  | .assignment allowIn, _, hr => bringsAt_value hr (yieldsValue_assignment hd allowIn)
  | .unary, _, hr => bringsAt_value hr (yieldsValue_unary hd)
  | .binary above allowIn, _, hr =>
    .of_yieldsAt (yieldsAt_binary hd above allowIn hr.proper) (fun _ _ hn => hn.1.starts.isReal)
  | .creation, _, hr => bringsAt_creation hr hd
  | .statement, _, hr => bringsAt_statement hr hd
  | .moduleElement, _, hr => bringsAt_moduleElement hr h

theorem bringsAt_goalUpTo (loop : Nat) : ∀ (levels : Nat) (g : Goal) (r : Reading), r.Whole →
    BringsAt r (goalUpTo loop levels g) Node.IsReal
  | 0, _, _, _ => .fault
  | levels + 1, g, _, hr => bringsAt_goal (d := ⟨loop, goalUpTo loop levels⟩) (forming_goalUpTo loop levels)
      (bringsAt_goalUpTo loop levels .statement) g hr

/-! ## Constructs take tokens -/

/-- Wherever the reader reads something, it takes a token. -/
def Takes (p : Parser α) : Prop := ∀ s a s', s.own.Whole → p s = .ok a s' → Moved s s'

/-- **The tokens of what is read are those that were moved over.** -/
theorem takes_of_brings {c : NodeClass} (h : ReadsNode element c)
    (hreal : ∀ r : Reading, r.Whole → BringsAt r element Node.IsReal) : Takes element := by
  intro s n s' hs hrun
  obtain ⟨ts, hadv, hn⟩ := h.ok hs hrun
  obtain ⟨t, ht, htext⟩ := hreal s.own hs s.next n s' hrun
  exact ⟨ts, hadv, t, hn.tokens ▸ ht, htext⟩

/-- The readers of the constructs of which a program is made. -/
inductive Construct (d : Descent) : Parser Node → Prop
  /-- A type, an expression without commas or an operand, a statement or a module element. -/
  | goal (g : Goal) : Construct d (d.parse g)
  | expression (allowIn : Bool) : Construct d (expression d allowIn)
  | name : Construct d (qualifiedName d)
  | parameter : Construct d (parameter d)
  | typeMember : Construct d (typeMember d)
  | propertyAssignment : Construct d (propertyAssignment d)
  | declarator (allowIn : Bool) : Construct d (declarator d allowIn)
  | switchClause : Construct d (switchClause d)
  | classElement : Construct d (classElement d)
  | enumElement : Construct d (enumElement d)

/-- **Every construct takes a token**, at every depth of recursion. -/
theorem takes_construct {loop levels : Nat} (h : Construct (descent loop levels) element) : Takes element := by
  have hd := sound_descent loop levels
  cases h with
  | goal g => exact takes_of_brings (hd g) (bringsAt_goalUpTo loop levels g)
  | expression allowIn =>
    exact takes_of_brings (reads_expression hd allowIn)
      (fun _ hr => bringsAt_expression hr (forming_goalUpTo loop levels) allowIn)
  | name => exact takes_of_brings reads_qualifiedName (fun _ hr => bringsAt_qualifiedName hr)
  | parameter => exact takes_of_brings (reads_parameter hd) (fun _ hr => bringsAt_parameter hr)
  | typeMember => exact takes_of_brings (reads_typeMember hd) (fun _ hr => bringsAt_typeMember hr)
  | propertyAssignment =>
    exact takes_of_brings (reads_propertyAssignment hd) (fun _ hr => bringsAt_propertyAssignment hr)
  | declarator allowIn =>
    exact takes_of_brings (reads_declarator hd allowIn) (fun _ hr => bringsAt_declarator hr allowIn)
  | switchClause => exact takes_of_brings (reads_switchClause hd) (fun _ hr => bringsAt_switchClause hr)
  | classElement => exact takes_of_brings (reads_classElement hd) (fun _ hr => bringsAt_classElement hr)
  | enumElement => exact takes_of_brings (reads_enumElement hd) (fun _ hr => bringsAt_enumElement hr)

/-! ## Growth takes tokens -/

/-- What makes a node larger at a place takes a token. -/
def GrowsAt (r : Reading) (p : Parser (Option Node)) : Prop :=
  ∀ next m s', p ⟨next, r⟩ = .ok (some m) s' → Moved ⟨next, r⟩ s'

namespace GrowsAt

variable {p q : Parser (Option Node)}

theorem look {f : α → Parser (Option Node)} {g : Parser α} {a : α} (hg : ∀ next, g ⟨next, r⟩ = .ok a ⟨next, r⟩)
    (h : GrowsAt r (f a)) : GrowsAt r (g >>= f) :=
  fun next m s' hs => h next m s' ((Work.bind_of_ok (hg next)).symm.trans hs)

theorem ite {c : Prop} [Decidable c] (hp : c → GrowsAt r p) (hq : ¬c → GrowsAt r q) :
    GrowsAt r (if c then p else q) := by
  split
  · exact hp ‹_›
  · exact hq ‹_›

theorem none : GrowsAt r (return none) := fun _ _ _ h => by cases h

/-- **The parts behind what was read before take a token** if the first of them has characters. -/
theorem larger {sorts : List SlotSort} {before : List Slot} (hr : r.Whole)
    (hps : List.Forall₂ ReadsSlot (first :: ps) sorts) (hfirst : BringsAt r first Slot.IsReal) :
    GrowsAt r (some <$> nodeAfter kind before (first :: ps)) := by
  intro next m s' hrun
  obtain ⟨n, s₁, hnode, hsome⟩ := Work.bind_eq_ok hrun
  cases hsome
  obtain ⟨slots, s₂, hparts, hfresh⟩ := Work.bind_eq_ok hnode
  cases hfresh
  obtain ⟨ts, hadv, hslots⟩ := (reads_parts hps).ok (s := ⟨next, r⟩) hr hparts
  obtain ⟨t, ht, htext⟩ := (bringsAt_first hfirst ps next slots s₂ hparts).tokens
  refine ⟨ts ++ [.node s₂.next], hadv.trans (.node hadv.whole), t, ?_, htext⟩
  rw [Made.tokens_append, ← hslots.tokens]
  exact List.mem_append_left _ ht

end GrowsAt

/-- The steps by which a node grows to the left. -/
inductive Growth (d : Descent) : (Node → Parser (Option Node)) → Prop
  | dot : Growth d qualifiedNameStep
  | brackets : Growth d arrayTypeStep
  | comma (allowIn : Bool) : Growth d (commaStep d allowIn)
  | suffix (allowCalls : Bool) : Growth d (suffixStep d allowCalls)
  | operator (above : Nat) (allowIn : Bool) : Growth d (binaryStep d above allowIn)

/-- **Each step by which a node grows takes a token.** -/
theorem growsAt_growth {step : Node → Parser (Option Node)} (hd : Sound d) (h : Growth d step) (n : Node)
    (hr : r.Whole) :
    GrowsAt r (step n) := by
  cases h with
  | dot =>
    refine .look (a := r.kind == .punctuation .dot) (fun _ => rfl) (.ite (fun _ => ?_) (fun _ => .none))
    exact .larger hr (.cons (reads_mark _) <| .cons reads_member .nil) (bringsAt_mark hr _)
  | brackets =>
    refine .look (a := r) (fun _ => rfl) (.ite (fun _ => ?_) (fun _ => .none))
    exact .larger hr (.cons (reads_mark _) <| .cons (reads_mark _) .nil) (bringsAt_mark hr _)
  | comma allowIn =>
    refine .look (a := r.kind == .punctuation .comma) (fun _ => rfl) (.ite (fun _ => ?_) (fun _ => .none))
    exact .larger hr (.cons (reads_mark _) <| .cons (hd.part _) .nil) (bringsAt_mark hr _)
  | suffix allowCalls =>
    refine .look (a := r) (fun _ => rfl) ?_
    split
    · exact .larger hr (.cons (reads_mark _) <| .cons reads_member .nil) (bringsAt_mark hr _)
    · exact .larger hr (.cons (reads_mark _) <| .cons (reads_inner (reads_expression hd true)) <|
        .cons (reads_mark _) .nil) (bringsAt_mark hr _)
    · refine .ite (fun _ => ?_) (fun _ => .none)
      exact .larger hr (.cons (reads_inner (reads_argumentList hd)) .nil)
        (bringsAt_inner (bringsAt_node (bringsAt_mark hr _) _))
    · exact .none
  | operator above allowIn =>
    refine .look (a := r.kind) (fun _ => rfl) (.ite (fun habove => ?_) (fun _ => .none))
    have hk : r.kind ≠ .endOfFile := fun hend => by
      rw [hend] at habove
      exact absurd habove (Nat.not_lt_zero above)
    exact .larger hr (.cons reads_current <| .cons (hd.part _) .nil) (bringsAt_current hr hk)

end Parser

end Downlevel
