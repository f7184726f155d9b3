import Downlevel.Proofs.Outline.Bodies
import Downlevel.Proofs.Outline.Mentions
/-!
# Proofs.Outline.Marked — drafts call the helper where they say so

A draft says whether a class with a base was lowered in it (`Marks.derived`).  This tells of what it makes if what it
makes names the helper only then, and calls it then; the name stands in no other place (`Mention.Told`).  A draft that
tells of all trees without the name (`Draft.Tells`) does so for the slots of a node (`Draft.told_walk`), for functions
and for expressions.
-/
namespace Downlevel

/-- What is said of classes with a base tells where the helper is mentioned. -/
structure Mention.Told (derived : Bool) (ps : List Mention) : Prop where
  strict : .loose ∉ ps
  named : .name ∈ ps → derived = true
  called : derived = true → .call ∈ ps

namespace Mention.Told

variable {d d' : Bool} {ps qs : List Mention}

theorem nil : Told false [] := ⟨fun h => (by cases h), fun h => (by cases h), fun h => by cases h⟩

theorem append (h : Told d ps) (h' : Told d' qs) : Told (d || d') (ps ++ qs) where
  strict := fun hmem => (List.mem_append.1 hmem).elim h.strict h'.strict
  named := fun hmem => Bool.or_eq_true_iff.2 ((List.mem_append.1 hmem).imp h.named h'.named)
  called := fun hd => List.mem_append.2 ((Bool.or_eq_true_iff.1 hd).imp h.called h'.called)

/-- One more call makes no difference. -/
theorem call (h : Told d ps) : Told d (.call :: ps) where
  strict := fun hmem => h.strict ((List.mem_cons.1 hmem).resolve_left (by decide))
  named := fun hmem => h.named ((List.mem_cons.1 hmem).resolve_left (by decide))
  called := fun hd => List.mem_cons_of_mem _ (h.called hd)

/-- The order makes no difference. -/
theorem perm (h : Told d ps) (hperm : ps.Perm qs) : Told d qs where
  strict := fun hmem => h.strict (hperm.mem_iff.2 hmem)
  named := fun hmem => h.named (hperm.mem_iff.2 hmem)
  called := fun hd => hperm.mem_iff.1 (h.called hd)

end Mention.Told

variable {d d' : Bool} {i captured : Bool} {j k : Nat} {n b parameters block : Node} {ns ms members : List Node}
  {t name : Token} {s : Slot}

/-- **A node that is put together of parts mentions what they do**, and may be a call itself. -/
theorem Node.told_mk {id : ObjectId} {kind : NodeKind} {slots : List Slot} (h : ∀ s ∈ slots, s.Nameless)
    (hp : Mention.Told d ((slots.flatMap Slot.nodes).flatMap mentions)) : Mention.Told d (Node.mk id kind slots).mentions := by
  rw [mentions_eq, mentionsHere_eq (n := .mk id kind slots) h]
  split
  · exact hp.call
  · exact hp

/-- Where the name is not loose, no token of a node is the name unless it is that name. -/
theorem Node.nameless_of_strict (h : .loose ∉ n.mentions) (hk : n.kind ≠ .identifierName) :
    ∀ s ∈ n.slots, s.Nameless := by
  refine fun s hs => ⟨fun _ _ => trivial, fun t ht => Bool.eq_false_iff.2 (fun hname => h ?_)⟩
  rw [mentions_eq, mentionsHere, if_neg hk]
  have hmem : t ∈ (n.slots.flatMap Slot.ownTokens).filter Token.isExtends :=
    List.mem_filter.2 ⟨List.mem_flatMap.2 ⟨s, hs, ht⟩, hname⟩
  exact List.mem_append_left _ (List.mem_append_left _ (List.mem_map.2 ⟨t, hmem, rfl⟩))

/-- What is read as a view mentions what the parts of the view do. -/
theorem Node.mentions_of_view {α : Type} [NodeView α] [ExactView α] {v : α} (h : .loose ∉ n.mentions)
    (hv : n.view? α = some v) (hname : NodeView.kind α ≠ .identifierName) (hcall : NodeView.kind α ≠ .invocationExpression) :
    (∀ s ∈ NodeView.toSlots v, s.Nameless) ∧
      n.mentions = ((NodeView.toSlots v).flatMap Slot.nodes).flatMap Node.mentions := by
  have hkind := kind_of_view? hv
  have hslots := slots_of_view? hv
  have hnameless := nameless_of_strict h (hkind ▸ hname)
  obtain ⟨id, kind, slots⟩ := n
  obtain rfl : slots = NodeView.toSlots v := hslots
  obtain rfl : kind = NodeView.kind α := hkind
  exact ⟨hnameless, mentions_inner hcall hnameless⟩

/-! ## Trees without the name -/

/-- No word is `__extends`. -/
def Demand.helperless : Demand :=
  ⟨fun _ => True, fun kind text => ((kind == .identifier || kind.isKeyword) && text == "__extends".toList) = false⟩

/-- The tree fits, and no word in it is `__extends`. -/
def Node.Lacks (k : Nat) (n : Node) : Prop := n.Sound (fun _ => True) Demand.helperless k

/-- No word in the slot is `__extends`. -/
abbrev Slot.Lacks (k : Nat) (s : Slot) : Prop := s.Each (Node.Lacks k) (fun t => t.isExtends = false)

theorem Token.Meets.isExtends (h : t.Meets Demand.helperless k) : t.isExtends = false := h.text

theorem Slot.Lacks.nameless (h : s.Lacks k) : s.Nameless := h.imp (fun _ _ => trivial) (fun _ ht => ht)

theorem Node.Lacks.slots (h : n.Lacks k) : ∀ s ∈ n.slots, s.Lacks k := fun s hs =>
  (Node.Sound.slots h s hs).imp (fun _ hm => hm) (fun _ ht => ht.isExtends)

theorem Node.Lacks.parts {α : Type} [NodeView α] [FittingView α] {v : α} (h : n.Lacks k) (hv : n.view? α = some v) :
    ∀ s ∈ NodeView.toSlots v, s.Lacks k := fun s hs => h.slots s (Node.Sound.slots_eq h hv ▸ hs)

/-- A tree without the name is read by its parts. -/
theorem Draft.Notes.viewLacking {α β : Type} [NodeView α] [FittingView α] {f : α → Draft β} {Q : β → Marks → Prop}
    (h : n.Lacks k) (hf : ∀ v, n.view? α = some v → n.slots = NodeView.toSlots v → (∀ s ∈ NodeView.toSlots v, s.Lacks k) →
      (f v).Notes i Q) : (Draft.view α n >>= f).Notes i Q :=
  viewAny (fun v hv => hf v hv (Node.Sound.slots_eq h hv) (h.parts hv))

/-! ## Telling where the helper is mentioned -/

/-- **Of every tree without the name the draft tells** where what it makes mentions the helper; types are left out. -/
structure Draft.Tells (visit : Node → Draft Replacement) : Prop where
  told : ∀ {n : Node} {k : Nat} (i : Bool), n.Lacks k →
    (visit n).Notes i (fun r m => Mention.Told m.derived (r.nodes.flatMap Node.mentions))
  untyped : ∀ {n : Node} (i : Bool), n.kind = .typeClause → (visit n).Notes i (fun r _ => r.nodes = [])

/-- What becomes of a slot that lacks the name. -/
structure Slot.Cleared (s s' : Slot) : Prop where
  nameless : s'.Nameless
  word : ∀ o, s = .ofToken? o → s'.nodes = []
  untyped : ∀ n, s = .node n → n.kind = .typeClause → s'.nodes = []

/-- What parameters leave for the body lacks the name. -/
structure ParameterFacts.Lack (k : Nat) (facts : ParameterFacts) : Prop where
  defaults : ∀ d ∈ facts.defaults, d.name.isExtends = false ∧ d.value.Lacks k
  rest : ∀ r ∈ facts.rest, r.name.isExtends = false
  properties : ∀ t ∈ facts.properties, t.isExtends = false

theorem ParameterFacts.lack_none : ParameterFacts.none.Lack k :=
  ⟨fun _ h => (by cases h), fun _ h => (by cases h), fun _ h => by cases h⟩

theorem Replacement.mentions_one : (Replacement.one n).nodes.flatMap Node.mentions = n.mentions := List.flatMap_singleton ..

namespace Draft

open LoweringContext

/-- **Steps in a row tell of all that they make.** -/
theorem Notes.mapM_told {α : Type} {f : α → Draft Node} : ∀ {as : List α},
    (∀ a ∈ as, (f a).Notes i (fun n m => Mention.Told m.derived n.mentions)) →
    (as.mapM f).Notes i (fun ns m => Mention.Told m.derived (ns.flatMap Node.mentions))
  | [], _ => by
    rw [List.mapM_nil]
    exact .pure .nil
  | a :: as, h => by
    obtain ⟨ha, has⟩ := List.forall_mem_cons.1 h
    rw [List.mapM_cons]
    exact ha.bind (fun n m hn => (Notes.mapM_told has).andThen (fun ns m' hns => .pure ⟨rfl, hn.append hns⟩))

/-- Objects that mention nothing are made in a row. -/
theorem Notes.mapM_silent {α : Type} {w : α → Fresh Node} : ∀ {as : List α}, (∀ a ∈ as, (w a 0).1.mentions = []) →
    (as.mapM (fun a => Draft.make (w a))).Notes i (fun ns m => m = .none ∧ ns.flatMap Node.mentions = [])
  | [], _ => by
    rw [List.mapM_nil]
    exact .pure ⟨rfl, rfl⟩
  | a :: as, h => by
    obtain ⟨ha, has⟩ := List.forall_mem_cons.1 h
    rw [List.mapM_cons]
    exact .made ((Notes.mapM_silent has).given (fun ns hns => .pure ⟨rfl, by rw [List.flatMap_cons, ha, hns]; rfl⟩))

section Walk

variable {visit : Node → Draft Replacement} (h : Tells visit)
include h

theorem told_walkList : ∀ {ns : List Node}, (∀ n ∈ ns, n.Lacks k) →
    (walkList visit ns).Notes i (fun ms m => Mention.Told m.derived (ms.flatMap Node.mentions))
  | [], _ => .pure .nil
  | n :: ns, hns => by
    obtain ⟨hn, hns⟩ := List.forall_mem_cons.1 hns
    refine (h.told i hn).bind (fun r m hr => (told_walkList hns).andThen (fun ms m' hms => .pure ⟨rfl, ?_⟩))
    rw [List.flatMap_append]
    exact hr.append hms

theorem told_walkMember (hn : n.Lacks k) :
    (walkMember visit n).Notes i (fun n' m => Mention.Told m.derived n'.mentions) := by
  refine (h.told i hn).andThen (fun r m hr => (notes_single false r).given (fun o ho => ?_))
  cases o with
  | none => exact .fail
  | some n' =>
    refine .pure ⟨rfl, ?_⟩
    rw [← ho] at hr
    simpa using hr

theorem told_walkSlot (optional : Bool) (hs : s.Lacks k) : (walkSlot visit optional s).Notes i
    (fun s' m => Mention.Told m.derived (s'.nodes.flatMap Node.mentions) ∧ Slot.Cleared s s') := by
  cases s with
  | absent => exact .pure ⟨.nil, hs.nameless, fun _ _ => rfl, fun _ heq => by cases heq⟩
  | token t => exact .pure ⟨.nil, hs.nameless, fun _ _ => rfl, fun _ heq => by cases heq⟩
  | node n =>
    have hboth : (visit n).Notes i (fun r m => Mention.Told m.derived (r.nodes.flatMap Node.mentions) ∧
        (n.kind = .typeClause → r.nodes = [])) := fun r m heq =>
      ⟨h.told i (Slot.each_node.1 hs) r m heq, fun hk => h.untyped i hk r m heq⟩
    refine hboth.andThen (fun r m hr => (notes_single optional r).given (fun o ho => .pure ⟨rfl, ?_, ?_, ?_, ?_⟩))
    · rw [Slot.nodes_ofNode?, ho]
      exact hr.1
    · exact Slot.each_ofNode?.2 (fun _ _ => trivial)
    · intro o' heq
      cases o' <;> cases heq
    · intro n' heq hk
      cases heq
      rw [Slot.nodes_ofNode?, ho, hr.2 hk]
  | list ns =>
    refine (told_walkList h (Slot.each_list.1 hs)).andThen (fun ms m hms => .pure ⟨rfl, hms, ?_, ?_, ?_⟩)
    · exact Slot.each_list.2 (fun _ _ => trivial)
    · exact fun o heq => by cases o <;> cases heq
    · exact fun _ heq => by cases heq
  | separated ns ts =>
    have hmembers := Notes.mapM_told (fun n hn => told_walkMember (i := i) h (hs.nodes n hn))
    refine hmembers.andThen (fun ms m hms => .pure ⟨rfl, hms, ?_, ?_, ?_⟩)
    · exact Slot.each_separated.2 ⟨fun _ _ => trivial, hs.tokens⟩
    · exact fun o heq => by cases o <;> cases heq
    · exact fun _ heq => by cases heq

theorem told_walkSlots (parent : NodeKind) : ∀ (index : Nat) {slots : List Slot}, (∀ s ∈ slots, s.Lacks k) →
    (walkSlots visit parent index slots).Notes i (fun ss m =>
      Mention.Told m.derived ((ss.flatMap Slot.nodes).flatMap Node.mentions) ∧ (∀ s ∈ ss, s.Nameless) ∧
        List.Forall₂ Slot.Cleared slots ss)
  | _, [], _ => .pure ⟨.nil, fun _ hs => (by cases hs), .nil⟩
  | index, s :: slots, hs => by
    obtain ⟨hs, hslots⟩ := List.forall_mem_cons.1 hs
    refine (told_walkSlot h _ hs).bind (fun s' m hs' => (told_walkSlots parent (index + 1) hslots).andThen
      (fun ss m' hss => .pure ⟨rfl, ?_, List.forall_mem_cons.2 ⟨hs'.2.nameless, hss.2.1⟩, .cons hs'.2 hss.2.2⟩))
    rw [List.flatMap_cons, List.flatMap_append]
    exact hs'.1.append hss.1

/-- **A node is walked through slot by slot.** -/
theorem told_walk (hn : n.Lacks k) : (walk visit n).Notes i (fun n' m => Mention.Told m.derived n'.mentions ∧
    ∃ slots, n' = .mk 0 n.kind slots ∧ List.Forall₂ Slot.Cleared n.slots slots) := by
  refine (told_walkSlots h n.kind 0 hn.slots).andThen (fun ss m hss => .make ⟨rfl, ?_, ss, rfl, hss.2.2⟩)
  exact Node.told_mk hss.2.1 hss.1

/-- What must stay one node. -/
theorem told_lower (hn : n.Lacks k) : (lower visit n).Notes i (fun n' m => Mention.Told m.derived n'.mentions) := by
  refine (h.told i hn).andThen (fun r m hr => ?_)
  split
  · exact .pure ⟨rfl, by simpa [Replacement.nodes] using hr⟩
  · exact .pure ⟨rfl, by simpa [Replacement.nodes] using hr⟩
  · exact .fail

/-- What may be left out. -/
theorem told_lowerOption {o : Option Node} (ho : ∀ n ∈ o, n.Lacks k) : (o.mapM (lower visit)).Notes i
    (fun o' m => Mention.Told m.derived (o'.toList.flatMap Node.mentions)) := by
  cases o with
  | none => exact .pure .nil
  | some n =>
    show (some <$> lower visit n).Notes i _
    rw [map_eq_pure_bind]
    exact (told_lower h (ho n rfl)).andThen (fun n' m hn => .pure ⟨rfl, by simpa using hn⟩)

end Walk

/-! ## Bodies -/

theorem mentions_assembleBlock (hb : .loose ∉ b.mentions) : (assembleBlock b ns).Notes i
    (fun b' m => m = .none ∧ b'.mentions = ns.flatMap Node.mentions ++ b.mentions) := by
  refine .ite (fun hempty => .pure ⟨rfl, ?_⟩) (fun _ => .viewAny (fun v hv => .make ⟨rfl, ?_⟩))
  · rw [List.isEmpty_iff.1 hempty]
    rfl
  · obtain ⟨hnameless, hmentions⟩ := Node.mentions_of_view hb hv (by decide) (by decide)
    simp only [NodeView.toSlots, List.forall_mem_cons, Slot.each_token] at hnameless
    rw [Build.mentions_block hnameless.1 hnameless.2.2.1, hmentions, List.flatMap_append]
    simp [NodeView.toSlots]

/-! ## Parameters -/

theorem told_defaultValue {p : Parameter} (hname : p.name.isExtends = false) (hvalue : ∀ n ∈ p.value, n.Lacks k) :
    (defaultValue? p).Notes i (fun ds m => m = .none ∧ ∀ d ∈ ds, d.name.isExtends = false ∧ d.value.Lacks k) := by
  refine (notes_viewClause p.value).given (fun c hc => ?_)
  have hvalues := hc ▸ Node.Sound.clauseValue hvalue
  cases c with
  | none => exact .pure ⟨rfl, fun _ hd => by cases hd⟩
  | some c => exact .pure ⟨rfl, List.forall_mem_singleton.2 ⟨hname, hvalues _ (List.mem_singleton.2 rfl)⟩⟩

theorem told_parametersFrom : ∀ (index : Nat) {ns : List Node}, (∀ n ∈ ns, n.Lacks k) →
    (parametersFrom index ns).Notes i (fun p m => m = .none ∧ p.1.flatMap Node.mentions = [] ∧ p.2.Lack k)
  | _, [], _ => .pure ⟨rfl, rfl, ParameterFacts.lack_none⟩
  | index, n :: ns, hns => by
    obtain ⟨hn, hns⟩ := List.forall_mem_cons.1 hns
    refine .viewLacking hn (fun p hv _ hparts => ?_)
    simp only [NodeView.toSlots, List.forall_mem_cons, Slot.each_token, Slot.each_ofNode?] at hparts
    obtain ⟨-, -, hname, -, -, hvalue, -⟩ := hparts
    refine .ite (fun _ => .pure ⟨rfl, rfl, fun _ h => (by cases h), ?_, fun _ h => by cases h⟩) (fun _ => ?_)
    · exact fun r hr => Option.some.inj hr ▸ hname
    · have herased : (eraseParameter n).Notes i (fun n' m => m = .none ∧ n'.mentions = []) :=
        .view hv (.make ⟨rfl, Build.mentions_parameter hname⟩)
      refine (told_defaultValue hname hvalue).given (fun ds hds => herased.given (fun erased herased => ?_))
      refine (told_parametersFrom (index + 1) hns).given (fun rest hrest => ?_)
      obtain ⟨ms, facts⟩ := rest
      obtain ⟨hms, hfacts⟩ := hrest
      refine .pure ⟨rfl, ?_, List.forall_mem_append.2 ⟨hds, hfacts.defaults⟩, hfacts.rest,
        List.forall_mem_append.2 ⟨fun t ht => ?_, hfacts.properties⟩⟩
      · rw [List.flatMap_cons, herased, List.nil_append, hms]
      · unfold property? at ht
        split at ht
        · exact List.mem_singleton.1 ht ▸ hname
        · cases ht

/-- **A list of parameters mentions nothing**, and what it leaves for the body lacks the name. -/
theorem told_parameterList (hn : n.Lacks k) :
    (parameterList n).Notes i (fun p m => m = .none ∧ p.1.mentions = [] ∧ p.2.Lack k) := by
  refine .viewLacking hn (fun v hv _ hparts => ?_)
  simp only [NodeView.toSlots, List.forall_mem_cons, Slot.each_token, Slot.each_separated] at hparts
  obtain ⟨hopen, ⟨hmembers, hseparators⟩, hclose, -⟩ := hparts
  refine (told_parametersFrom 0 hmembers).given (fun p hp => .made (.pure ⟨rfl, ?_, hp.2⟩))
  rw [Node.mentions_toNode _ (by decide) ?_]
  · simp [NodeView.toSlots, hp.1]
  · simp only [NodeView.toSlots, List.forall_mem_cons, Slot.each_token, Slot.each_separated]
    exact ⟨hopen, ⟨fun _ _ => trivial, fun t ht => hseparators t (List.mem_of_mem_take ht)⟩, hclose,
      fun _ hs => by cases hs⟩

section Rules

variable {visit : Node → Draft Replacement} (h : Tells visit)
include h

theorem told_parameterPrologue {facts : ParameterFacts} (hf : facts.Lack k) : (parameterPrologue visit facts).Notes i
    (fun ms m => Mention.Told m.derived (ms.flatMap Node.mentions)) := by
  have hdefaults : (facts.defaults.mapM (defaultValueStatement visit)).Notes i
      (fun ms m => Mention.Told m.derived (ms.flatMap Node.mentions)) :=
    Notes.mapM_told (fun d hd => (told_lower h (hf.defaults d hd).2).andThen (fun value m hvalue => .make ⟨rfl, by
      rwa [mentions_setDefault (hf.defaults d hd).1]⟩))
  refine hdefaults.andThen (fun ms m hms => ?_)
  split
  · rename_i rest hrest
    refine .made (.pure ⟨rfl, ?_⟩)
    rwa [List.flatMap_append, mentions_restStatements (hf.rest rest hrest), List.append_nil]
  · exact .pure ⟨rfl, hms⟩

/-! ## Functions -/

/-- **The body of a function** mentions what its default values and its statements do. -/
theorem told_functionLike (hp : parameters.Lacks k) (hb : block.Lacks k) :
    (functionLike visit parameters block).Notes i (fun p m =>
      p.1.mentions = [] ∧ Mention.Told m.derived p.2.mentions) := by
  unfold functionLike
  refine (Notes.inScope (P := fun (p : Node × List Node × Node) m => p.1.mentions = [] ∧ ∃ d d', m.derived = (d || d') ∧
    Mention.Told d (p.2.1.flatMap Node.mentions) ∧ Mention.Told d' p.2.2.mentions) ?_).andThen (fun p m hp => ?_)
  · refine (told_parameterList hp).given (fun p hp => ?_)
    refine (told_parameterPrologue h hp.2).bind (fun prologue m hprologue => ?_)
    exact (told_lower h hb).andThen (fun lowered m' hlowered => .pure ⟨rfl, hp.1, _, _, rfl, hprologue, hlowered⟩)
  · obtain ⟨⟨list, prologue, lowered⟩, captured⟩ := p
    obtain ⟨m', rfl, -, hlist, d, d', hderived, hprologue, hlowered⟩ := hp
    refine .made ((mentions_assembleBlock hlowered.strict).given (fun b hb => .pure ⟨rfl, hlist, ?_⟩))
    rw [hb, mentions_withCapture, hderived]
    exact hprologue.append hlowered

/-- **A function with a signature**: its body tells, whatever is built around it next. -/
theorem told_signature {signature : Node} {β : Type} {f : CallSignature → Node × Node → Draft β} {Q : β → Marks → Prop}
    (hs : signature.Lacks k) (hb : block.Lacks k)
    (hf : ∀ s p m, p.1.mentions = [] → Mention.Told m.derived p.2.mentions →
      (f s p).Notes i (fun b m' => m' = .none ∧ Q b m)) :
    (Draft.view CallSignature signature >>= fun s => functionLike visit s.parameters block >>= f s).Notes i Q := by
  refine .viewLacking hs (fun s hv _ hparts => ?_)
  simp only [NodeView.toSlots, List.forall_mem_cons, Slot.each_node] at hparts
  exact (told_functionLike h hparts.1 hb).andThen (fun p m hp => hf s p m hp.1 hp.2)

theorem told_functionStatement (hn : n.Lacks k) :
    (functionStatement visit n).Notes i (fun r m => Mention.Told m.derived (r.nodes.flatMap Node.mentions)) := by
  refine .viewLacking hn (fun v hv _ hparts => .ite (fun _ => .pure .nil) (fun _ => ?_))
  simp only [NodeView.toSlots, List.forall_mem_cons, Slot.each_token, Slot.each_ofToken?, Slot.each_node,
    Slot.each_ofNode?] at hparts
  obtain ⟨-, -, hkeyword, hname, hsignature, hblock, hsemicolon, -⟩ := hparts
  split
  · exact .pure .nil
  · rename_i block hsome
    refine told_signature h hsignature (hblock block hsome) (fun s p m hlist hbody => .made (.made (.pure ⟨rfl, ?_⟩)))
    rw [Replacement.mentions_one, Node.mentions_toNode _ (by decide)
      (by simp [NodeView.toSlots, hkeyword, hname]; exact hsemicolon)]
    simpa [NodeView.toSlots, hlist] using hbody

theorem told_functionValue (hn : n.Lacks k) :
    (functionValue visit n).Notes i (fun r m => Mention.Told m.derived (r.nodes.flatMap Node.mentions)) := by
  refine .viewLacking hn (fun v hv _ hparts => ?_)
  simp only [NodeView.toSlots, List.forall_mem_cons, Slot.each_token, Slot.each_ofToken?, Slot.each_node] at hparts
  obtain ⟨hkeyword, hname, hsignature, hblock, -⟩ := hparts
  refine told_signature h hsignature hblock (fun s p m hlist hbody => .made (.made (.pure ⟨rfl, ?_⟩)))
  rw [Replacement.mentions_one, Node.mentions_toNode _ (by decide) (by simp [NodeView.toSlots, hkeyword]; exact hname)]
  simpa [NodeView.toSlots, hlist] using hbody

/-! ## Arrow functions -/

theorem told_arrowBody {facts : ParameterFacts} (hf : facts.Lack k) (hb : block.Lacks k) :
    (arrowBody visit facts block).Notes i (fun b m => Mention.Told m.derived b.mentions) := by
  refine (told_parameterPrologue h hf).bind (fun prologue m hprologue => ?_)
  refine (told_lower h hb).andThen (fun lowered m' hlowered => ?_)
  have hboth := hprologue.append hlowered
  refine .ite (fun _ => ?_) (fun _ => .made (.make ⟨rfl, ?_⟩))
  · exact (mentions_assembleBlock hlowered.strict).mono (fun b _ hb => ⟨hb.1, by rw [hb.2]; exact hboth⟩)
  rw [mentions_braced, List.flatMap_append, List.flatMap_singleton, Build.mentions_returnStatement]
  rwa [Option.toList_some, List.flatMap_singleton]

theorem told_arrowFunction {facts : ParameterFacts} (hp : parameters.mentions = []) (hf : facts.Lack k)
    (hb : block.Lacks k) : (arrowFunction visit parameters facts block).Notes i
      (fun r m => Mention.Told m.derived (r.nodes.flatMap Node.mentions)) := by
  refine (told_arrowBody h hf hb).inArrow.andThen (fun b m hb => .made (.pure ⟨rfl, ?_⟩))
  rwa [Replacement.mentions_one, mentions_functionExpression hp]

theorem told_simpleArrow (hn : n.Lacks k) :
    (simpleArrow visit n).Notes i (fun r m => Mention.Told m.derived (r.nodes.flatMap Node.mentions)) := by
  refine .viewLacking hn (fun v hv _ hparts => .made ?_)
  simp only [NodeView.toSlots, List.forall_mem_cons, Slot.each_token, Slot.each_node] at hparts
  exact told_arrowFunction h (by simp [Fresh.bind_apply, Build.mentions_parameter hparts.1]) ParameterFacts.lack_none
    hparts.2.2.1

theorem told_parenthesizedArrow (hn : n.Lacks k) :
    (parenthesizedArrow visit n).Notes i (fun r m => Mention.Told m.derived (r.nodes.flatMap Node.mentions)) := by
  refine .viewLacking hn (fun v hv _ hparts => ?_)
  simp only [NodeView.toSlots, List.forall_mem_cons, Slot.each_node] at hparts
  refine .viewLacking hparts.1 (fun s hs _ hsparts => ?_)
  simp only [NodeView.toSlots, List.forall_mem_cons, Slot.each_node] at hsparts
  exact (told_parameterList hsparts.1).given (fun p hp => told_arrowFunction h hp.1 hp.2 hparts.2.2.1)

/-! ## Accessors of object literals -/

omit h in
theorem mentions_accessorBody (hb : .loose ∉ b.mentions) :
    (accessorBody b captured).Notes i (fun b' m => m = .none ∧ b'.mentions = b.mentions) := by
  rw [accessorBody_eq]
  exact (mentions_assembleBlock hb).mono (fun b' _ hb => ⟨hb.1, by rw [hb.2, mentions_withCapture]; rfl⟩)

omit h in
/-- **A getter loses the type of its result**, in which nothing was left. -/
theorem told_objectGetter {slots : List Slot} (hn : n.Lacks k) (hk : n.kind = .getAccessorPropertyAssignment)
    (hw : List.Forall₂ Slot.Cleared n.slots slots) (hr : Mention.Told d (Node.mk 0 n.kind slots).mentions) :
    (objectGetter n (.mk 0 n.kind slots) captured).Notes i
      (fun r m => m = .none ∧ Mention.Told d (r.nodes.flatMap Node.mentions)) := by
  obtain ⟨before, hbefore, hs, -, -, -, -, htype, -⟩ := (Node.Sound.stands hn).objectGetter hk
  refine .viewAny (fun accessor haccessor => .view hbefore (.ite (fun _ => .pure ⟨rfl, ?_⟩) (fun _ => ?_)))
  · rwa [Replacement.mentions_one]
  obtain ⟨s, hslots, hresult⟩ := Node.slots_of_objectGetter haccessor
  obtain rfl : slots = _ := hslots
  have hnameless := Node.nameless_of_strict hr.strict (by rw [Node.kind, hk]; decide)
  simp only [Node.slots] at hnameless
  rw [Node.mentions_inner (by rw [hk]; decide) hnameless] at hr
  simp only [List.forall_mem_cons, Slot.each_token] at hnameless
  obtain ⟨hkeyword, hname, hopen, hclose, -, -⟩ := hnameless
  rw [hs] at hw
  simp only [NodeView.toSlots, List.forall₂_cons] at hw
  obtain ⟨-, -, -, -, hwtype, -⟩ := hw
  -- The type was cleared by the walk if there was one, so nothing is mentioned where it stood.
  have hnone : s.nodes = [] ∧ (if before.resultType.isSome then none else accessor.resultType) = none := by
    cases hrt : before.resultType with
    | none =>
      rw [hrt] at hwtype
      have hempty := hwtype.word none rfl
      refine ⟨hempty, hresult.trans ?_⟩
      cases s with
      | node m => cases hempty
      | _ => rfl
    | some type =>
      rw [hrt] at hwtype
      exact ⟨hwtype.untyped type rfl (htype type hrt).kind_eq, rfl⟩
  rw [hnone.2]
  have hblock : Mention.Told d accessor.block.mentions := by simpa [hnone.1] using hr
  refine (mentions_accessorBody hblock.strict).given (fun b hb => .made (.pure ⟨rfl, ?_⟩))
  rw [Replacement.mentions_one,
    Node.mentions_toNode _ (by decide) (by simp [NodeView.toSlots, hkeyword, hname, hopen, hclose])]
  simpa [NodeView.toSlots, hb] using hblock

omit h in
theorem told_objectSetter {slots : List Slot} (hr : Mention.Told d (Node.mk 0 n.kind slots).mentions) :
    (objectSetter (.mk 0 n.kind slots) captured).Notes i
      (fun r m => m = .none ∧ Mention.Told d (r.nodes.flatMap Node.mentions)) := by
  refine .ite (fun _ => .pure ⟨rfl, ?_⟩) (fun _ => .viewAny (fun accessor haccessor => ?_))
  · rwa [Replacement.mentions_one]
  obtain ⟨hnameless, hmentions⟩ := Node.mentions_of_view hr.strict haccessor (by decide) (by decide)
  simp only [NodeView.toSlots, List.forall_mem_cons, Slot.each_token] at hnameless
  obtain ⟨hkeyword, hname, hopen, -, hclose, -⟩ := hnameless
  have hboth : Mention.Told d (accessor.parameter.mentions ++ accessor.block.mentions) := by
    rw [hmentions] at hr
    simpa [NodeView.toSlots] using hr
  have hstrict : .loose ∉ accessor.block.mentions := fun hmem => hboth.strict (List.mem_append_right _ hmem)
  refine (mentions_accessorBody hstrict).given (fun b hb => .made (.pure ⟨rfl, ?_⟩))
  rw [Replacement.mentions_one,
    Node.mentions_toNode _ (by decide) (by simp [NodeView.toSlots, hkeyword, hname, hopen, hclose])]
  simpa [NodeView.toSlots, hb] using hboth

/-- **A getter or setter of an object literal** tells of its body. -/
theorem told_objectAccessor (hn : n.Lacks k) :
    (objectAccessor visit n).Notes i (fun r m => Mention.Told m.derived (r.nodes.flatMap Node.mentions)) := by
  refine (told_walk h hn).inScope.andThen (fun p m hp => ?_)
  obtain ⟨walked, captured⟩ := p
  obtain ⟨m', rfl, -, hr, slots, rfl, hw⟩ := hp
  exact .ite (fun hget => told_objectGetter hn hget hw hr) (fun _ => told_objectSetter hr)

/-! ## Statements -/

theorem told_walked (hn : n.Lacks k) : (do return .one (← walk visit n) : Draft Replacement).Notes i
    (fun r m => Mention.Told m.derived (r.nodes.flatMap Node.mentions)) :=
  (told_walk h hn).andThen (fun walked m hwalked => .pure ⟨rfl, by rw [Replacement.mentions_one]; exact hwalked.1⟩)

/-- **A statement that declares variables** loses words in front of it, and nothing else. -/
theorem told_variableStatement (hn : n.Lacks k) (hk : n.kind = .variableStatement) :
    (variableStatement visit n).Notes i (fun r m => Mention.Told m.derived (r.nodes.flatMap Node.mentions)) := by
  refine .viewLacking hn (fun v hv hs _ => .ite (fun _ => .pure .nil) (fun _ => ?_))
  refine (told_walk h hn).andThen (fun walked m hwalked => ?_)
  obtain ⟨hr, slots, rfl, hw⟩ := hwalked
  split
  · exact .pure ⟨rfl, by rwa [Replacement.mentions_one]⟩
  · refine .viewAny (fun lowered hview => .made (.pure ⟨rfl, ?_⟩))
    obtain ⟨exported, declared, hslots⟩ := Node.slots_of_variableStatement hview
    obtain rfl : slots = _ := hslots
    have hnameless := Node.nameless_of_strict hr.strict (by rw [Node.kind, hk]; decide)
    simp only [Node.slots] at hnameless
    rw [Node.mentions_inner (by rw [hk]; decide) hnameless] at hr
    simp only [List.forall_mem_cons, Slot.each_token] at hnameless
    rw [hs] at hw
    simp only [NodeView.toSlots, List.forall₂_cons] at hw
    have hexported := hw.1.word _ rfl
    have hdeclared := hw.2.1.word _ rfl
    rw [Replacement.mentions_one, Node.mentions_toNode _ (by decide) (by simp [NodeView.toSlots, hnameless.2.2.2.1])]
    simpa [NodeView.toSlots, hexported, hdeclared] using hr

theorem told_variableDeclarator (hn : n.Lacks k) :
    (variableDeclarator visit n).Notes i (fun r m => Mention.Told m.derived (r.nodes.flatMap Node.mentions)) := by
  refine .viewLacking hn (fun v hv hs hparts => ?_)
  simp only [NodeView.toSlots, List.forall_mem_cons, Slot.each_token, Slot.each_ofNode?] at hparts
  split
  · exact told_walked h hn
  · refine (told_lowerOption h hparts.2.2.1).andThen (fun value m hvalue => .made (.pure ⟨rfl, ?_⟩))
    rw [Replacement.mentions_one, Node.mentions_toNode _ (by decide) (by simp [NodeView.toSlots, hparts.1])]
    simpa [NodeView.toSlots] using hvalue

theorem told_castExpression (hn : n.Lacks k) :
    (castExpression visit n).Notes i (fun r m => Mention.Told m.derived (r.nodes.flatMap Node.mentions)) := by
  refine .viewLacking hn (fun v hv _ hparts => ?_)
  simp only [NodeView.toSlots, List.forall_mem_cons, Slot.each_node] at hparts
  exact (told_lower h hparts.2.2.2.1).andThen (fun m _ hm => .pure ⟨rfl, by rwa [Replacement.mentions_one]⟩)

theorem told_expressionStatement (hn : n.Lacks k) :
    (expressionStatement visit n).Notes i (fun r m => Mention.Told m.derived (r.nodes.flatMap Node.mentions)) := by
  refine (told_walk h hn).andThen (fun walked m hwalked => .viewAny (fun statement hstatement => ?_))
  have hr := hwalked.1
  refine .ite (fun _ => .pure ⟨rfl, by rwa [Replacement.mentions_one]⟩) (fun _ => .made (.made (.pure ⟨rfl, ?_⟩)))
  obtain ⟨hnameless, hmentions⟩ := Node.mentions_of_view hr.strict hstatement (by decide) (by decide)
  simp only [NodeView.toSlots, List.forall_mem_cons, Slot.each_token] at hnameless
  rw [hmentions] at hr
  rw [Replacement.mentions_one, Node.mentions_toNode _ (by decide) (by simp [NodeView.toSlots, hnameless.2.1])]
  simpa [NodeView.toSlots] using hr

/-! ## Expressions -/

omit h in
theorem told_thisReference (ht : t.isExtends = false) :
    (thisReference t).Notes i (fun n m => m.derived = false ∧ n.mentions = []) := by
  intro n m heq
  cases i with
  | true =>
    cases heq
    exact ⟨rfl, Build.mentions_name (by decide)⟩
  | false =>
    cases heq
    refine ⟨rfl, (Node.mentions_toNode _ (by decide) ?_).trans ?_⟩
    · simp [NodeView.toSlots, ht]
    · simp [NodeView.toSlots]

omit h in
theorem told_thisExpression (hn : n.Lacks k) :
    (thisExpression n).Notes i (fun r m => Mention.Told m.derived (r.nodes.flatMap Node.mentions)) := by
  refine .viewLacking hn (fun v _ _ hparts => ?_)
  simp only [NodeView.toSlots, List.forall_mem_cons, Slot.each_token] at hparts
  refine (told_thisReference hparts.1).andThen (fun this m hthis => .pure ⟨rfl, ?_⟩)
  rw [Replacement.mentions_one, hthis.1, hthis.2]
  exact .nil

omit h in
/-- What is called in place of the base class mentions nothing. -/
theorem mentions_superCallee (hn : n.Lacks k) : ∀ m ∈ (superCallee? n j).1, m.mentions = [] := by
  intro m hm
  unfold superCallee? at hm
  cases hsuper : n.view? SuperExpression with
  | some _ =>
    rw [hsuper] at hm
    rw [← Option.some.inj hm]
    exact mentions_callMember.trans (Build.mentions_name (by decide))
  | none =>
    rw [hsuper] at hm
    cases haccess : n.view? MemberAccess with
    | none =>
      rw [haccess] at hm
      cases hm
    | some access =>
      rw [haccess] at hm
      have hname : access.name.isExtends = false :=
        Slot.each_token.1 (hn.parts haccess (.token access.name) (by simp [NodeView.toSlots]))
      cases hbase : access.expression.view? SuperExpression with
      | none =>
        dsimp only at hm
        rw [hbase] at hm
        cases hm
      | some _ =>
        dsimp only at hm
        rw [hbase] at hm
        rw [← Option.some.inj hm]
        exact mentions_callMember.trans ((Build.mentions_memberAccess hname).trans mentions_superPrototype)

/-- **A call of the base class** is given `this` in front of its arguments. -/
theorem told_callWithThis {target arguments : Node} (ht : target.mentions = []) (ha : arguments.Lacks k) :
    (callWithThis visit target arguments).Notes i
      (fun r m => Mention.Told m.derived (r.nodes.flatMap Node.mentions)) := by
  refine (told_lower h ha).bind (fun lowered m hlowered => .viewAny (fun list hlist => ?_))
  obtain ⟨hnameless, hmentions⟩ := Node.mentions_of_view hlowered.strict hlist (by decide) (by decide)
  simp only [NodeView.toSlots, List.forall_mem_cons, Slot.each_token, Slot.each_separated] at hnameless
  obtain ⟨hopen, ⟨-, hseparators⟩, hclose, -⟩ := hnameless
  refine (told_thisReference Build.isExtends_token).andThen (fun this m' hthis => ?_)
  extract_lets finish
  have hfinish : ∀ comma : List Token, (∀ t ∈ comma, t.isExtends = false) → (finish comma).Notes i (fun r m'' =>
      m'' = .none ∧ Mention.Told (m.and m').derived (r.nodes.flatMap Node.mentions)) := fun comma hcomma => by
    refine .made (.made (.pure ⟨rfl, ?_⟩))
    have hderived : (m.and m').derived = m.derived := by rw [Marks.and, hthis.1, Bool.or_false]
    have harguments : ∀ l, (NodeView.toNode (ArgumentList.mk list.openParen
        ⟨this :: list.arguments.members, comma ++ list.arguments.separators⟩ list.closeParen) l).1.mentions =
          list.arguments.members.flatMap Node.mentions := fun l => by
      rw [Node.mentions_toNode _ (by decide) ?_]
      · simp [NodeView.toSlots, hthis.2]
      · simp only [NodeView.toSlots, List.forall_mem_cons, Slot.each_token, Slot.each_separated]
        exact ⟨hopen, ⟨⟨trivial, fun _ _ => trivial⟩, List.forall_mem_append.2 ⟨hcomma, hseparators⟩⟩, hclose,
          fun _ hs => by cases hs⟩
    rw [hmentions] at hlowered
    rw [Replacement.mentions_one, hderived]
    refine Node.told_mk (by simp [NodeView.toSlots]) ?_
    simpa [NodeView.toSlots, ht, harguments] using hlowered
  exact .ite (fun _ => .given (R := (· = [])) (.pure ⟨rfl, rfl⟩) (fun comma heq => hfinish comma (by rw [heq]; simp)))
    (fun _ => .made (.given (R := (· = [(Build.markThenSpace .comma 0).1])) (.pure ⟨rfl, rfl⟩)
      (fun comma heq => hfinish comma (by rw [heq]; simp))))

theorem told_invocation (hn : n.Lacks k) :
    (invocation visit n).Notes i (fun r m => Mention.Told m.derived (r.nodes.flatMap Node.mentions)) := by
  refine .viewLacking hn (fun v hv hs hparts => .made ?_)
  simp only [NodeView.toSlots, List.forall_mem_cons, Slot.each_node] at hparts
  split
  · rename_i target htarget
    exact told_callWithThis h (mentions_superCallee hparts.1 target htarget) hparts.2.1
  · exact told_walked h hn

theorem told_memberAccess (hn : n.Lacks k) :
    (memberAccess visit n).Notes i (fun r m => Mention.Told m.derived (r.nodes.flatMap Node.mentions)) := by
  refine .viewLacking hn (fun v hv hs hparts => ?_)
  simp only [NodeView.toSlots, List.forall_mem_cons, Slot.each_node, Slot.each_token] at hparts
  split
  · refine .made (.pure ?_)
    rw [Replacement.mentions_one]
    show Mention.Told false (NodeView.toNode (MemberAccess.mk (superPrototype 0).1 v.dot v.name) _).1.mentions
    rw [Node.mentions_toNode _ (by decide) (by simp [NodeView.toSlots, hparts.2.1, hparts.2.2.1])]
    simpa [NodeView.toSlots, mentions_superPrototype] using Mention.Told.nil
  · exact told_walked h hn

end Rules

end Draft
end Downlevel
