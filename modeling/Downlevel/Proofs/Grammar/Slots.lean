import Downlevel.Proofs.Grammar.Reads
import Mathlib.Data.List.Perm.Subperm
/-!
# Proofs.Grammar.Slots — what the parts of a node read

`ReadsNode p c`, `ReadsSlot p s` and `ReadsSlots p ss` say that a reader puts the tokens that it moves over into a node
of the class `c`, a slot of the sort `s` or slots of the sorts `ss`, in document order and each at one place, and that
every node in there was made on the way.  The slots
of a node are read one by one, so a rule of the grammar is right if its parts read what the kind asks for
(`reads_node`).
-/
namespace Downlevel

variable {c : NodeClass} {sort : SlotSort} {n m : Node} {ts us : List Made}

/-- The nodes of a tree as objects that were made. -/
def Node.objects (n : Node) : List Made := n.all.map (fun m => .node m.id)

/-- The nodes in a slot and below as objects that were made. -/
def Slot.objects (s : Slot) : List Made := s.nodes.flatMap Node.objects

theorem Node.objects_mk (id : ObjectId) (kind : NodeKind) (slots : List Slot) :
    (Node.mk id kind slots).objects = .node id :: slots.flatMap Slot.objects := by
  unfold Node.objects
  rw [Node.all_eq, List.map_cons]
  congr 1
  simp only [Node.children, Node.slots, List.map_flatMap, List.flatMap_assoc]
  rfl

/-- A node of a class, made of these objects. -/
structure IsNode (c : NodeClass) (n : Node) (ts : List Made) : Prop where
  tokens : n.tokens = Made.tokens ts
  kind : c.includes n.kind = true
  wellFormed : n.WellFormed
  made : n.objects.Subperm ts

/-- A slot of a sort, made of these objects. -/
structure IsSlot (sort : SlotSort) (slot : Slot) (ts : List Made) : Prop where
  tokens : slot.tokens = Made.tokens ts
  admits : sort.Admits slot
  wellFormed : ∀ m ∈ slot.nodes, m.WellFormed
  made : slot.objects.Subperm ts

/-- Slots of the given sorts, made of these objects. -/
structure AreSlots (sorts : List SlotSort) (slots : List Slot) (ts : List Made) : Prop where
  tokens : slots.flatMap Slot.tokens = Made.tokens ts
  admits : List.Forall₂ SlotSort.Admits sorts slots
  wellFormed : ∀ slot ∈ slots, ∀ m ∈ slot.nodes, m.WellFormed
  made : (slots.flatMap Slot.objects).Subperm ts

namespace IsNode

/-- More objects may have been made, if none of them is a token. -/
theorem of_subperm (h : IsNode c n ts) (htokens : Made.tokens us = Made.tokens ts) (hsub : ts.Subperm us) :
    IsNode c n us := ⟨h.tokens.trans htokens.symm, h.kind, h.wellFormed, h.made.trans hsub⟩

/-- A node of a class is one of any class that takes in its kind. -/
theorem widen {c' : NodeClass} (h : IsNode c n ts) (hc : ∀ k, c.includes k = true → c'.includes k = true) :
    IsNode c' n ts := ⟨h.tokens, hc _ h.kind, h.wellFormed, h.made⟩

theorem slot (h : IsNode c n ts) : IsSlot (.node c) (.node n) ts where
  tokens := by rw [Slot.tokens_node, h.tokens]
  admits := h.kind
  wellFormed := fun m hm => by rw [List.mem_singleton.1 hm]; exact h.wellFormed
  made := by simpa [Slot.objects, Slot.nodes] using h.made

end IsNode

namespace IsSlot

theorem token (t : Token) : IsSlot .token (.token t) [.token t] := ⟨rfl, trivial, fun _ hm => (by cases hm), List.nil_subperm⟩

/-- A slot that must be filled may stand where one may be left out. -/
theorem optionalNode {slot : Slot} (h : IsSlot (.node c) slot ts) : IsSlot (.optionalNode c) slot ts := by
  cases slot with
  | node n => exact ⟨h.tokens, h.admits, h.wellFormed, h.made⟩
  | _ => exact h.admits.elim

theorem optionalToken {slot : Slot} (h : IsSlot .token slot ts) : IsSlot .optionalToken slot ts := by
  cases slot with
  | token t => exact ⟨h.tokens, trivial, h.wellFormed, h.made⟩
  | _ => exact h.admits.elim

theorem absentNode (c : NodeClass) : IsSlot (.optionalNode c) .absent [] := ⟨rfl, trivial, fun _ hm => (by cases hm), List.nil_subperm⟩

theorem absentToken : IsSlot .optionalToken .absent [] := ⟨rfl, trivial, fun _ hm => (by cases hm), List.nil_subperm⟩

/-- Where no token was taken, none was read. -/
theorem tokens_eq_nil {slot : Slot} (h : IsSlot .optionalToken slot ts) (hnone : slot.token?.isSome = false) :
    Made.tokens ts = [] := by
  cases slot with
  | absent => exact h.tokens.symm
  | token t => cases hnone
  | _ => exact h.admits.elim

theorem ofToken? (t : Option Token) : IsSlot .optionalToken (.ofToken? t) (t.toList.map .token) := by
  cases t with
  | none => exact absentToken
  | some t => exact (token t).optionalToken

theorem emptyList (c : NodeClass) : IsSlot (.list c) (.list []) [] :=
  ⟨rfl, fun _ hm => (by cases hm), fun _ hm => (by cases hm), List.nil_subperm⟩

theorem listCons {ns : List Node} (hn : IsNode c n ts) (h : IsSlot (.list c) (.list ns) us) :
    IsSlot (.list c) (.list (n :: ns)) (ts ++ us) where
  tokens := by rw [Made.tokens_append, ← h.tokens, ← hn.tokens]; simp
  admits := fun m hm => by
    rcases List.mem_cons.1 hm with rfl | hm
    · exact hn.kind
    · exact h.admits m hm
  wellFormed := fun m hm => by
    rcases List.mem_cons.1 hm with rfl | hm
    · exact hn.wellFormed
    · exact h.wellFormed m hm
  made := hn.made.append h.made

theorem emptySeparated (c : NodeClass) : IsSlot (.separated c) (.separated [] []) [] :=
  ⟨rfl, ⟨fun _ hm => (by cases hm), .inl ⟨rfl, rfl⟩⟩, fun _ hm => (by cases hm), List.nil_subperm⟩

/-- A separated list of one member. -/
theorem single (hn : IsNode c n ts) : IsSlot (.nonempty c) (.separated [n] []) ts where
  tokens := by rw [← hn.tokens]; simp
  admits := ⟨fun m hm => by rw [List.mem_singleton.1 hm]; exact hn.kind, rfl⟩
  wellFormed := fun m hm => by rw [List.mem_singleton.1 hm]; exact hn.wellFormed
  made := by simpa [Slot.objects, Slot.nodes] using hn.made

/-- A separated list with one more member and one more separator in front. -/
theorem separatedCons {r : List Node × List Token} (hn : IsNode c n ts) (t : Token)
    (h : IsSlot (.nonempty c) (.separated r.1 r.2) us) :
    IsSlot (.nonempty c) (.separated (n :: r.1) (t :: r.2)) (ts ++ ([.token t] ++ us)) where
  tokens := by simp [← h.tokens, ← hn.tokens, interleave]
  admits := by
    refine ⟨fun m hm => ?_, by rw [List.length_cons, List.length_cons, h.admits.2]⟩
    rcases List.mem_cons.1 hm with rfl | hm
    · exact hn.kind
    · exact h.admits.1 m hm
  wellFormed := fun m hm => by
    rcases List.mem_cons.1 hm with rfl | hm
    · exact hn.wellFormed
    · exact h.wellFormed m hm
  made := hn.made.append (h.made.cons_right _)

/-- A list with a member may stand where an empty one may. -/
theorem separated {slot : Slot} (h : IsSlot (.nonempty c) slot ts) : IsSlot (.separated c) slot ts := by
  cases slot with
  | separated ns ss => exact ⟨h.tokens, ⟨h.admits.1, .inr h.admits.2⟩, h.wellFormed, h.made⟩
  | _ => exact h.admits.elim

end IsSlot

namespace AreSlots

variable {sorts sorts' : List SlotSort} {slots slots' : List Slot}

theorem nil : AreSlots [] [] [] := ⟨rfl, .nil, fun _ hm => (by cases hm), List.nil_subperm⟩

theorem cons {slot : Slot} (h : IsSlot sort slot ts) (hs : AreSlots sorts slots us) :
    AreSlots (sort :: sorts) (slot :: slots) (ts ++ us) where
  tokens := by rw [List.flatMap_cons, h.tokens, hs.tokens, Made.tokens_append]
  admits := .cons h.admits hs.admits
  wellFormed := fun s hsm => by
    rcases List.mem_cons.1 hsm with rfl | hsm
    · exact h.wellFormed
    · exact hs.wellFormed s hsm
  made := h.made.append hs.made

theorem one {slot : Slot} (h : IsSlot sort slot ts) : AreSlots [sort] [slot] ts := by
  have := cons h nil
  rwa [List.append_nil] at this

theorem append (h : AreSlots sorts slots ts) (h' : AreSlots sorts' slots' us) :
    AreSlots (sorts ++ sorts') (slots ++ slots') (ts ++ us) where
  tokens := by rw [List.flatMap_append, h.tokens, h'.tokens, Made.tokens_append]
  admits := List.rel_append h.admits h'.admits
  wellFormed := fun s hs => by
    rcases List.mem_append.1 hs with hs | hs
    · exact h.wellFormed s hs
    · exact h'.wellFormed s hs
  made := by rw [List.flatMap_append]; exact h.made.append h'.made

/-- **Slots of the sorts of a kind make a node of that kind.** -/
theorem node {kind : NodeKind} (h : AreSlots kind.sorts slots ts) (id : ObjectId) (hc : c.includes kind = true) :
    IsNode c (.mk id kind slots) (ts ++ [.node id]) where
  tokens := by rw [Node.tokens_mk, h.tokens]; simp
  kind := hc
  wellFormed := Node.every_mk.2 ⟨h.admits, h.wellFormed⟩
  made := by
    rw [Node.objects_mk, (List.perm_append_singleton _ _).symm.subperm_right]
    exact h.made.append (List.Subperm.refl _)

end AreSlots

namespace Parser

variable {element : Parser Node} {p : Part}

/-- The reader returns a node of a class, made of the tokens that it moves over. -/
abbrev ReadsNode (p : Parser Node) (c : NodeClass) : Prop := Reads p (IsNode c)

/-- The reader returns a slot of a sort, made of the tokens that it moves over. -/
abbrev ReadsSlot (p : Part) (sort : SlotSort) : Prop := Reads p (IsSlot sort)

/-- The reader returns slots of some sorts, made of the tokens that it moves over. -/
abbrev ReadsSlots (p : Parser (List Slot)) (sorts : List SlotSort) : Prop := Reads p (AreSlots sorts)

/-! ## Parts -/

theorem reads_tokenSlot {p : Parser Token} (h : Reads p (fun t ts => ts = [.token t])) :
    ReadsSlot (Slot.token <$> p) .token :=
  h.map (fun t _ hts => hts ▸ .token t)

theorem reads_word (k : Keyword) : ReadsSlot (word k) .token := reads_tokenSlot (reads_token _)

theorem reads_mark (p : Punctuation) : ReadsSlot (mark p) .token := reads_tokenSlot (reads_token _)

theorem reads_current : ReadsSlot current .token := reads_tokenSlot reads_take

theorem reads_name : ReadsSlot name .token := reads_tokenSlot reads_identifier

theorem reads_member : ReadsSlot member .token := reads_tokenSlot reads_memberName

theorem reads_property : ReadsSlot property .token := reads_tokenSlot reads_propertyName

theorem reads_statementEnd : ReadsSlot statementEnd .token := reads_tokenSlot reads_semicolon

theorem reads_optional (kind : TokenKind) : ReadsSlot (optional kind) .optionalToken :=
  (reads_token? kind).map (fun t _ hts => hts ▸ .ofToken? t)

theorem reads_inner (h : ReadsNode element c) : ReadsSlot (inner element) (.node c) := h.map (fun _ _ hn => hn.slot)

theorem reads_noNode (c : NodeClass) : ReadsSlot nothing (.optionalNode c) := .pure (.absentNode c)

theorem reads_noToken : ReadsSlot nothing .optionalToken := .pure .absentToken

theorem Reads.mayBeLeftOut (h : ReadsSlot p (.node c)) : ReadsSlot p (.optionalNode c) :=
  h.weaken (fun _ _ hs => hs.optionalNode)

theorem Reads.optionalToken (h : ReadsSlot p .token) : ReadsSlot p .optionalToken :=
  h.weaken (fun _ _ hs => hs.optionalToken)

theorem reads_innerIf (test : Reading → Bool) (h : ReadsNode element c) :
    ReadsSlot (innerIf test element) (.optionalNode c) :=
  .look (fun _ => .ite (reads_inner h).mayBeLeftOut (reads_noNode c))

/-! ## Nodes -/

theorem reads_partsBehind {ps : List Part} {sorts : List SlotSort}
    (hp : Reads p (fun slot us => IsSlot sort slot (ts ++ us))) (h : ReadsSlots (parts ps) sorts) :
    Reads (parts (p :: ps)) (fun slots us => AreSlots (sort :: sorts) slots (ts ++ us)) := by
  refine hp.bind (fun slot us hslot => h.bind (fun slots vs hslots => .pure ?_))
  rw [List.append_nil, ← List.append_assoc]
  exact .cons hslot hslots

/-- **Parts that each read a slot of the right sort read a row of slots.** -/
theorem reads_parts {ps : List Part} {sorts : List SlotSort} (h : List.Forall₂ ReadsSlot ps sorts) :
    ReadsSlots (parts ps) sorts := by
  induction h with
  | nil => exact .pure .nil
  | cons hp _ ih =>
    have hp' : Reads _ (fun slot us => IsSlot _ slot ([] ++ us)) := hp
    exact reads_partsBehind hp' ih

/-- A node is made of slots that were read, which moves over no token. -/
theorem reads_fresh {kind : NodeKind} {slots : List Slot} (h : AreSlots kind.sorts slots ts)
    (hc : c.includes kind = true) :
    Reads (Node.fresh kind slots : Fresh Node) (fun n us => IsNode c n (ts ++ us)) where
  ok := fun {s n s'} hs hp => by
    cases hp
    exact ⟨[.node s.next], Advance.node hs, h.node _ hc⟩
  error := fun _ hp => by cases hp

/-- **A node is read by reading the slots that its kind has and that were not read before.** -/
theorem reads_nodeAfter {kind : NodeKind} {before : List Slot} {rest : List Part} {front behind : List SlotSort}
    (hbefore : AreSlots front before ts) (hrest : List.Forall₂ ReadsSlot rest behind)
    (hsorts : front ++ behind = kind.sorts) (hc : c.includes kind = true) :
    Reads (nodeAfter kind before rest) (fun n us => IsNode c n (ts ++ us)) :=
  (reads_parts hrest).bind (fun _ _ hslots => (reads_fresh (hsorts ▸ hbefore.append hslots) hc).assoc)

/-- **A node is read by reading the slots of its kind.** -/
theorem reads_node {kind : NodeKind} {slots : List Part} (h : List.Forall₂ ReadsSlot slots kind.sorts)
    (hc : c.includes kind = true) : ReadsNode (node kind slots) c :=
  reads_nodeAfter .nil h rfl hc

theorem reads_omitted (hc : c.includes .omittedExpression = true) : ReadsNode omitted c := 
  reads_fresh (show AreSlots (NodeKind.sorts .omittedExpression) [] [] from .nil) hc

/-! ## Lists -/

/-- **Members that are read one after the other are a list.** -/
theorem reads_membersUntil (stop : Reading → Bool) (h : ReadsNode element c) :
    ∀ turns, Reads (membersUntil stop element turns) (fun ns ts => IsSlot (.list c) (.list ns) ts)
  | 0 => reads_fault _
  | turns + 1 => .look (fun _ => .ite (.pure (.emptyList c)) (h.bind (fun n ts hn =>
      (reads_membersUntil stop h turns).bind (fun ns us hns => .pure (by
        rw [List.append_nil]; exact .listCons hn hns)))))

theorem reads_members {d : Descent} (h : ReadsNode element c) : ReadsSlot (members d element) (.list c) :=
  (reads_membersUntil _ h _).map (fun _ _ hns => hns)

theorem reads_separatedCons {p : Parser (List Node × List Token)} {t : Token} (hn : IsNode c n ts)
    (h : Reads p (fun r us => IsSlot (.nonempty c) (.separated r.1 r.2) us)) :
    Reads (separatedCons n t <$> p) (fun r us => IsSlot (.nonempty c) (.separated r.1 r.2) (ts ++ ([.token t] ++ us))) :=
  h.map (fun _ _ hr => .separatedCons hn t hr)

/-- **A member and what stands behind it.** -/
theorem reads_behindMember {more : Parser (List Node × List Token)} (hn : IsNode c n ts)
    (h : Reads more (fun r us => IsSlot (.nonempty c) (.separated r.1 r.2) us)) :
    Reads (behindMember n more) (fun r us => IsSlot (.nonempty c) (.separated r.1 r.2) (ts ++ us)) := by
  refine (reads_token? _).bind (fun o us hus => ?_)
  subst hus
  cases o with
  | none => exact .pure (by simpa using IsSlot.single hn)
  | some t => exact reads_separatedCons hn h

theorem reads_commaListUpTo (h : ReadsNode element c) : ∀ turns,
    Reads (commaListUpTo element turns) (fun r ts => IsSlot (.nonempty c) (.separated r.1 r.2) ts)
  | 0 => reads_fault _
  | turns + 1 => h.bind (fun _ _ hn => reads_behindMember hn (reads_commaListUpTo h turns))

theorem reads_commaList {d : Descent} (h : ReadsNode element c) : ReadsSlot (commaList d element) (.nonempty c) :=
  (reads_commaListUpTo h _).map (fun _ _ hr => hr)

/-- **A list up to a closing mark**; only a list that may end in a comma may have an omitted member. -/
theorem reads_delimitedUpTo (close : Punctuation) (trailing : Bool) (h : ReadsNode element c)
    (hc : trailing = true → c.includes .omittedExpression = true) : ∀ turns,
    Reads (delimitedUpTo close trailing element turns) (fun r ts => IsSlot (.nonempty c) (.separated r.1 r.2) ts)
  | 0 => reads_fault _
  | turns + 1 => h.bind (fun n ts hn => (reads_token? _).bind (fun o us hus => by
      subst hus
      cases o with
      | none => exact .pure (by simpa using IsSlot.single hn)
      | some t =>
        refine .look (fun closes => .ite ?_ (reads_separatedCons hn (reads_delimitedUpTo close trailing h hc turns)))
        by_cases ht : trailing = true
        · rw [if_pos ht]
          refine (reads_omitted (hc ht)).bind (fun m vs hm => .pure ?_)
          rw [List.append_nil]
          exact .separatedCons (r := ([m], [])) hn t (.single hm)
        · rw [if_neg ht]
          exact reads_expected _))

theorem reads_delimited {d : Descent} (close : Punctuation) (trailing : Bool) (h : ReadsNode element c)
    (hc : trailing = true → c.includes .omittedExpression = true) :
    ReadsSlot (delimited d close trailing element) (.separated c) :=
  .look (fun _ => .ite (.pure (.emptySeparated c)) ((reads_delimitedUpTo close trailing h hc _).map
    (fun _ _ hr => hr.separated)))

/-! ## Growth -/

/-- What was read so far with more behind it, or nothing more. -/
def GrowsTo (c : NodeClass) (ts : List Made) (o : Option Node) (us : List Made) : Prop :=
  match o with
  | some larger => IsNode c larger (ts ++ us)
  | none => us = []

theorem reads_larger {p : Parser Node} (h : Reads p (fun m us => IsNode c m (ts ++ us))) :
    Reads (some <$> p) (GrowsTo c ts) := h.map (fun _ _ hm => hm)

theorem reads_noLarger : Reads (return none) (GrowsTo c ts) := .pure rfl

/-- **What grows to the left stays a node of its class**, made of all that was read. -/
theorem reads_growUpTo {step : Node → Parser (Option Node)}
    (hstep : ∀ n ts, IsNode c n ts → Reads (step n) (GrowsTo c ts)) : ∀ turns {n : Node} {ts : List Made},
    IsNode c n ts → Reads (growUpTo step turns n) (fun m us => IsNode c m (ts ++ us))
  | 0, _, _, _ => reads_fault _
  | turns + 1, n, ts, hn => (hstep n ts hn).bind (fun o us ho => by
      cases o with
      | none => cases ho; exact .pure (by simpa using hn)
      | some larger => exact (reads_growUpTo hstep turns ho).assoc)

theorem reads_grow {d : Descent} {step : Node → Parser (Option Node)} (h : ReadsNode element c)
    (hstep : ∀ n ts, IsNode c n ts → Reads (step n) (GrowsTo c ts)) : ReadsNode (element >>= grow d step) c :=
  h.bind (fun _ _ hn => reads_growUpTo hstep _ hn)

end Parser

end Downlevel
