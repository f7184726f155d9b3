import Downlevel.Proofs.Schema.Brought
import Downlevel.Proofs.Tree.Edges
import Downlevel.Tree.Build
/-!
# Proofs.Schema.Edits — edits and code that was not written by hand match the schema

Whatever a new token is, each slot on the way to it holds what it held before: a node, a list or a separated list of as
many members and separators.  And each form of the target language is schematic if its parts are, whatever tokens it is
given.
-/
namespace Downlevel

/-! ## New tokens at an edge -/

instance : HasTrees SeparatedEdit where
  trees
    | .member old new => [old, new]
    | .separator _ _ => []

namespace AllSchematic

@[simp] theorem member_iff {old new : Node} :
    AllSchematic (SeparatedEdit.member old new) ↔ old.Schematic ∧ new.Schematic := by
  simp [AllSchematic, HasTrees.trees]

@[simp] theorem separator {old new : Token} : AllSchematic (SeparatedEdit.separator old new) := fun _ hm => nomatch hm

/-- A separated list with an item changed brings schematic trees. -/
theorem edited {e : SeparatedEdit} {ns : List Node} {ts : List Token} (he : AllSchematic e) (h : AllSchematic ns) :
    (e.apply ns ts).SchematicIn .separatedList := by
  cases e with
  | separator old new => exact ⟨rfl, separated_slot_iff.2 h⟩
  | member old new =>
    refine ⟨rfl, separated_slot_iff.2 (list_iff.2 (fun m hm => node_iff.2 ?_))⟩
    rcases mem_replaceFirst hm with rfl | hm
    · exact (member_iff.1 he).2
    · exact node_iff.1 (h.mem hm)

end AllSchematic

section Edge

variable {change : Token → Fresh Token} {edge : Edge}

theorem schematic_ofSeparators {ts : List Token} :
    (SeparatedEdit.ofSeparators? edge change ts).Gives AllSchematic := by
  unfold SeparatedEdit.ofSeparators?
  dsimp only
  split
  · exact .andThen (fun u => .pure (by simp))
  · exact .pure (by simp)

mutual

theorem Node.schematic_mapEdge : ∀ {edge : Edge} {n : Node}, n.Schematic → (n.mapEdge? edge change).Gives AllSchematic
  | edge, .mk id kind slots, h => by
    unfold Node.mapEdge?
    refine (Slot.schematic_mapEdgeOfAll (Node.schematic_iff_slots.1 h)).bind (fun found hfound => ?_)
    cases found with
    | none => exact .pure (by simp)
    | some slots' =>
      have hmake : (Node.fresh kind slots').Gives Node.Schematic :=
        fun _ => Node.schematic_iff_slots.2 (hfound slots' rfl)
      exact hmake.bindPure (fun m hm => by simpa using hm)

theorem Slot.schematic_mapEdgeOfAll : ∀ {edge : Edge} {shapes : List SlotShape} {slots : List Slot},
    List.Forall₂ Slot.SchematicIn shapes slots → (Slot.mapEdgeOfAll? edge change slots).Gives
      (fun found => ∀ slots' ∈ found, List.Forall₂ Slot.SchematicIn shapes slots')
  | _, _, [], _ => .pure (fun _ h => nomatch h)
  | edge, shape :: shapes, slot :: slots, .cons hslot hslots => by
    unfold Slot.mapEdgeOfAll?
    cases edge with
    | first =>
      refine (Slot.schematic_mapEdge hslot).bind (fun found hfound => ?_)
      cases found with
      | some slot' => exact .pure (fun _ h => by cases h; exact .cons (hfound slot' rfl) hslots)
      | none =>
        refine (Slot.schematic_mapEdgeOfAll hslots).bindPure (fun found hfound slots' h => ?_)
        obtain ⟨rest, hrest, rfl⟩ := Option.map_eq_some_iff.1 h
        exact .cons hslot (hfound rest hrest)
    | last =>
      refine (Slot.schematic_mapEdgeOfAll hslots).bind (fun found hfound => ?_)
      cases found with
      | some slots' => exact .pure (fun _ h => by cases h; exact .cons hslot (hfound slots' rfl))
      | none =>
        refine (Slot.schematic_mapEdge hslot).bindPure (fun found hfound slots' h => ?_)
        obtain ⟨slot', hslot', rfl⟩ := Option.map_eq_some_iff.1 h
        exact .cons (hfound slot' hslot') hslots

theorem Slot.schematic_mapEdge : ∀ {edge : Edge} {shape : SlotShape} {slot : Slot}, slot.SchematicIn shape →
    (slot.mapEdge? edge change).Gives (fun found => ∀ slot' ∈ found, slot'.SchematicIn shape)
  | _, _, .absent, _ => .pure (fun _ h => nomatch h)
  | edge, shape, .token t, hs => .andThen (fun found => .pure (fun slot' h => by
    obtain ⟨u, -, rfl⟩ := Option.map_eq_some_iff.1 h
    exact ⟨hs.1, AllSchematic.token_slot⟩))
  | edge, shape, .node n, hs => by
    refine (Node.schematic_mapEdge (AllSchematic.node_slot_iff.1 hs.2)).bindPure (fun found hfound slot' h => ?_)
    obtain ⟨m, rfl, rfl⟩ := Option.map_eq_some_iff.1 h
    exact ⟨hs.1, by simpa using hfound⟩
  | edge, shape, .list ns, hs => by
    refine (Node.schematic_mapEdgeOfList (AllSchematic.list_slot_iff.1 hs.2)).bindPure (fun found hfound slot' h => ?_)
    obtain ⟨ms, rfl, rfl⟩ := Option.map_eq_some_iff.1 h
    exact ⟨hs.1, by simpa using hfound⟩
  | edge, shape, .separated ns ts, hs => by
    have hns := AllSchematic.separated_slot_iff.1 hs.2
    refine (Node.schematic_mapEdgeOfItems hns).bindPure (fun found hfound slot' h => ?_)
    obtain ⟨e, rfl, rfl⟩ := Option.map_eq_some_iff.1 h
    have hshape : shape = .separatedList := eq_of_beq hs.1
    exact hshape ▸ (AllSchematic.some_iff.1 hfound).edited hns

theorem Node.schematic_mapEdgeOfList : ∀ {edge : Edge} {ns : List Node}, AllSchematic ns →
    (Node.mapEdgeOfList? edge change ns).Gives AllSchematic
  | _, [], _ => .pure (by simp)
  | edge, n :: ns, h => by
    obtain ⟨hn, hns⟩ := AllSchematic.cons_iff.1 h
    rw [AllSchematic.node_iff] at hn
    unfold Node.mapEdgeOfList?
    cases edge with
    | first =>
      refine (Node.schematic_mapEdge hn).bind (fun found hfound => ?_)
      cases found with
      | some m => exact .pure (by simpa [hns] using hfound)
      | none =>
        refine (Node.schematic_mapEdgeOfList hns).bindPure (fun found hfound => ?_)
        cases found with
        | none => simp
        | some ms => simpa [hn] using hfound
    | last =>
      refine (Node.schematic_mapEdgeOfList hns).bind (fun found hfound => ?_)
      cases found with
      | some ms => exact .pure (by simpa [hn] using hfound)
      | none =>
        refine (Node.schematic_mapEdge hn).bindPure (fun found hfound => ?_)
        cases found with
        | none => simp
        | some m => simpa [hns] using hfound

theorem Node.schematic_mapEdgeOfItems : ∀ {edge : Edge} {ns : List Node} {ts : List Token}, AllSchematic ns →
    (Node.mapEdgeOfItems? edge change ns ts).Gives AllSchematic
  | _, [], _, _ => schematic_ofSeparators
  | edge, n :: ns, ts, h => by
    obtain ⟨hn, hns⟩ := AllSchematic.cons_iff.1 h
    rw [AllSchematic.node_iff] at hn
    unfold Node.mapEdgeOfItems?
    cases edge with
    | first =>
      refine (Node.schematic_mapEdge hn).bind (fun found hfound => ?_)
      cases found with
      | some m => exact .pure (by simpa [hn] using hfound)
      | none =>
        refine schematic_ofSeparators.bind (fun found hfound => ?_)
        cases found with
        | some e => exact .pure hfound
        | none => exact Node.schematic_mapEdgeOfItems hns
    | last =>
      refine (Node.schematic_mapEdgeOfItems hns).bind (fun found hfound => ?_)
      cases found with
      | some e => exact .pure hfound
      | none =>
        refine schematic_ofSeparators.bind (fun found hfound => ?_)
        cases found with
        | some e => exact .pure hfound
        | none =>
          refine (Node.schematic_mapEdge hn).bindPure (fun found hfound => ?_)
          cases found with
          | none => simp
          | some m => simpa [hn] using hfound

end

end Edge

namespace Node.Schematic

variable {n : Node}

/-- A tree in whose place a tree was made, if one was. -/
theorem getD {found : Option Node} (hn : n.Schematic) (h : AllSchematic found) : (found.getD n).Schematic := by
  cases found with
  | none => exact hn
  | some m => simpa using h

theorem withLeading (hn : n.Schematic) (trivia : TriviaList) : (n.withLeading trivia).Gives Node.Schematic :=
  (Node.schematic_mapEdge hn).bindPure (fun _ h => hn.getD h)

theorem withTrailing (hn : n.Schematic) (trivia : TriviaList) : (n.withTrailing trivia).Gives Node.Schematic :=
  (Node.schematic_mapEdge hn).bindPure (fun _ h => hn.getD h)

theorem withTrivia (hn : n.Schematic) (leading trailing : TriviaList) :
    (n.withTrivia leading trailing).Gives Node.Schematic :=
  (hn.withLeading leading).bind (fun _ hm => hm.withTrailing trailing)

theorem bare (hn : n.Schematic) : n.bare.Gives Node.Schematic := hn.withTrivia .empty .empty

end Node.Schematic

/-! ## A token in the place of another -/

section Replace

variable {old new : Token}

/-- One of two is new: a row of which a part was replaced, if one was. -/
theorem replaced_cons {α : Type} [HasTrees α] {a : α} {as : List α} {a' : Option α} {as' : Option (List α)}
    (h : AllSchematic (a :: as)) (ha : AllSchematic a') (has : AllSchematic as') :
    AllSchematic (a'.getD a :: as'.getD as) := by
  obtain ⟨hhere, hrest⟩ := AllSchematic.cons_iff.1 h
  cases a' <;> cases as' <;> simp_all

mutual

theorem Node.schematic_replaceToken : ∀ {n : Node}, n.Schematic → (n.replaceToken? old new).Gives AllSchematic
  | .mk id kind slots, h => by
    unfold Node.replaceToken?
    refine (Slot.schematic_replaceTokenInAll (Node.schematic_iff_slots.1 h)).bind (fun found hfound => ?_)
    cases found with
    | none => exact .pure (by simp)
    | some slots' =>
      have hmake : (Node.fresh kind slots').Gives Node.Schematic :=
        fun _ => Node.schematic_iff_slots.2 (hfound slots' rfl)
      exact hmake.bindPure (fun m hm => by simpa using hm)

theorem Slot.schematic_replaceTokenInAll : ∀ {shapes : List SlotShape} {slots : List Slot},
    List.Forall₂ Slot.SchematicIn shapes slots → (Slot.replaceTokenInAll? old new slots).Gives
      (fun found => ∀ slots' ∈ found, List.Forall₂ Slot.SchematicIn shapes slots')
  | _, [], _ => .pure (fun _ h => nomatch h)
  | shape :: shapes, slot :: slots, .cons hslot hslots => by
    unfold Slot.replaceTokenInAll?
    refine (Slot.schematic_replaceToken hslot).bind (fun slot' hslot' => ?_)
    refine (Slot.schematic_replaceTokenInAll hslots).bind (fun rest hrest => ?_)
    split
    · exact .pure (fun _ h => nomatch h)
    · refine .pure (fun _ h => ?_)
      cases h
      refine .cons ?_ ?_
      · cases slot' with
        | none => exact hslot
        | some s => exact hslot' s rfl
      · cases rest with
        | none => exact hslots
        | some ss => exact hrest ss rfl

theorem Slot.schematic_replaceToken : ∀ {shape : SlotShape} {slot : Slot}, slot.SchematicIn shape →
    (slot.replaceToken? old new).Gives (fun found => ∀ slot' ∈ found, slot'.SchematicIn shape)
  | _, .absent, _ => .pure (fun _ h => nomatch h)
  | shape, .token t, hs => .pure (fun slot' h => by
    obtain ⟨u, -, rfl⟩ := Option.map_eq_some_iff.1 h
    exact ⟨hs.1, AllSchematic.token_slot⟩)
  | shape, .node n, hs => by
    refine (Node.schematic_replaceToken (AllSchematic.node_slot_iff.1 hs.2)).bindPure (fun found hfound slot' h => ?_)
    obtain ⟨m, rfl, rfl⟩ := Option.map_eq_some_iff.1 h
    exact ⟨hs.1, by simpa using hfound⟩
  | shape, .list ns, hs => by
    refine (Node.schematic_replaceTokenInList (AllSchematic.list_slot_iff.1 hs.2)).bindPure
      (fun found hfound slot' h => ?_)
    obtain ⟨ms, rfl, rfl⟩ := Option.map_eq_some_iff.1 h
    exact ⟨hs.1, by simpa using hfound⟩
  | shape, .separated ns ts, hs => by
    have hns := AllSchematic.separated_slot_iff.1 hs.2
    refine (Node.schematic_replaceTokenInList hns).bind (fun members' hmembers => ?_)
    dsimp only
    split
    · exact .pure (fun _ h => nomatch h)
    · refine .pure (fun _ h => ?_)
      cases h
      refine ⟨hs.1, AllSchematic.separated_slot_iff.2 ?_⟩
      cases members' with
      | none => exact hns
      | some ms => simpa using hmembers

theorem Node.schematic_replaceTokenInList : ∀ {ns : List Node}, AllSchematic ns →
    (Node.replaceTokenInList? old new ns).Gives AllSchematic
  | [], _ => .pure (by simp)
  | n :: ns, h => by
    obtain ⟨hn, hns⟩ := AllSchematic.cons_iff.1 h
    unfold Node.replaceTokenInList?
    refine (Node.schematic_replaceToken (AllSchematic.node_iff.1 hn)).bind (fun n' hn' => ?_)
    refine (Node.schematic_replaceTokenInList hns).bind (fun ns' hns' => ?_)
    split
    · exact .pure (by simp)
    · exact .pure (AllSchematic.some_iff.2 (replaced_cons h hn' hns'))

end

theorem Node.Schematic.replaceToken {n : Node} (hn : n.Schematic) : (n.replaceToken old new).Gives Node.Schematic :=
  (Node.schematic_replaceToken hn).bindPure (fun _ h => hn.getD h)

end Replace

end Downlevel

namespace Downlevel.Build

variable {n m : Node} {ns : List Node} {o : Option Node} {t u : Token} {s : Slot}

/-! ## Expressions -/

theorem schematic_nameExpression : (nameExpression t).Gives Node.Schematic := schematic_fresh (by simp) rfl

theorem schematic_name (text : List Char) : (name text).Gives Node.Schematic :=
  .andThen (fun _ => schematic_nameExpression)

theorem schematic_thisExpression : thisExpression.Gives Node.Schematic :=
  .andThen (fun _ => schematic_fresh (by simp) rfl)

theorem schematic_literal : (literal t).Gives Node.Schematic := schematic_fresh (by simp) rfl

theorem schematic_stringLiteral (value : List Char) : (stringLiteral value).Gives Node.Schematic :=
  .andThen (fun _ => schematic_literal)

theorem schematic_numericLiteral (text : List Char) : (numericLiteral text).Gives Node.Schematic :=
  .andThen (fun _ => schematic_literal)

theorem schematic_keywordLiteral (kind : TokenKind) : (keywordLiteral kind).Gives Node.Schematic :=
  .andThen (fun _ => schematic_literal)

theorem schematic_memberAccess (hn : n.Schematic) : (memberAccess n t).Gives Node.Schematic :=
  .andThen (fun _ => .andThen (fun _ => schematic_fresh (by simp [hn]) rfl))

theorem schematic_memberPath : ∀ (names : List (List Char)) {n : Node}, n.Schematic →
    (memberPath n names).Gives Node.Schematic
  | [], _, hn => .pure hn
  | _ :: names, _, hn =>
    .andThen (fun _ => (schematic_memberAccess hn).bind (fun _ hm => schematic_memberPath names hm))

theorem schematic_elementAccess (hn : n.Schematic) (hm : m.Schematic) : (elementAccess n m).Gives Node.Schematic :=
  .andThen (fun _ => .andThen (fun _ => schematic_fresh (by simp [hn, hm]) rfl))

/-- A list with commas in between is a separated list. -/
theorem schematic_commaSeparated (h : AllSchematic ns) :
    (commaSeparated ns).Gives (fun s => AllSchematic s ∧ s.fits .separatedList = true) :=
  .andThen (fun _ => .pure (by simp [h]))

/-- A list with commas in between and a mark on each side is schematic. -/
theorem schematic_enclosed {kind : NodeKind} (h : AllSchematic ns) (p q : Punctuation)
    (hkind : kind.shapes = [.token, .separatedList, .token]) : Fresh.Gives (do
      Node.fresh kind [.token (← mark p), ← commaSeparated ns, .token (← mark q)]) Node.Schematic := by
  refine .andThen (fun _ => (schematic_commaSeparated h).bind (fun _ hs => .andThen (fun _ => ?_)))
  refine schematic_fresh (by simp [hs.1]) (Node.matchesSchema_iff.2 ?_)
  exact hkind ▸ .cons rfl (.cons hs.2 (.cons rfl .nil))

theorem schematic_argumentList (h : AllSchematic ns) : (argumentList ns).Gives Node.Schematic :=
  schematic_enclosed h _ _ rfl

theorem schematic_invocation (hn : n.Schematic) (h : AllSchematic ns) : (invocation n ns).Gives Node.Schematic :=
  (schematic_argumentList h).bind (fun _ hlist => schematic_fresh (by simp [hn, hlist]) rfl)

theorem schematic_binary (kind : TokenKind) (hn : n.Schematic) (hm : m.Schematic) :
    (binary n kind m).Gives Node.Schematic :=
  .andThen (fun _ => schematic_fresh (by simp [hn, hm]) rfl)

theorem schematic_assignment (hn : n.Schematic) (hm : m.Schematic) : (assignment n m).Gives Node.Schematic :=
  schematic_binary _ hn hm

theorem schematic_prefixUnary (kind : TokenKind) (hn : n.Schematic) : (prefixUnary kind n).Gives Node.Schematic := by
  have hnode : ∀ t : Token, (Node.fresh .prefixUnaryExpression [.token t, .node n]).Gives Node.Schematic :=
    fun t => schematic_fresh (by simp [hn]) rfl
  unfold prefixUnary
  dsimp only
  split
  · exact .andThen hnode
  · exact .andThen hnode

theorem schematic_postfixUnary (kind : TokenKind) (hn : n.Schematic) : (postfixUnary n kind).Gives Node.Schematic :=
  .andThen (fun _ => schematic_fresh (by simp [hn]) rfl)

theorem schematic_arrayLiteral (h : AllSchematic ns) : (arrayLiteral ns).Gives Node.Schematic :=
  schematic_enclosed h _ _ rfl

theorem schematic_parenthesized (hn : n.Schematic) : (parenthesized n).Gives Node.Schematic :=
  .andThen (fun _ => .andThen (fun _ => schematic_fresh (by simp [hn]) rfl))

theorem schematic_propertyAssignment (hn : n.Schematic) : (propertyAssignment t n).Gives Node.Schematic :=
  .andThen (fun _ => .andThen (fun _ => schematic_fresh (by simp [hn]) rfl))

theorem schematic_objectLiteral {ts : List Token} (h : AllSchematic ns) :
    (objectLiteral t (.separated ns ts) u).Gives Node.Schematic := schematic_fresh (by simp [h]) rfl

theorem schematic_emptyObject : emptyObject.Gives Node.Schematic :=
  .andThen (fun _ => .andThen (fun _ => schematic_objectLiteral AllSchematic.nil))

/-! ## Statements -/

theorem schematic_expressionStatement (hn : n.Schematic) : (expressionStatement n).Gives Node.Schematic :=
  .andThen (fun _ => schematic_fresh (by simp [hn]) rfl)

theorem schematic_returnStatement (h : AllSchematic o) : (returnStatement o).Gives Node.Schematic := by
  have hnode : ∀ t u : Token, (Node.fresh .returnStatement [.token t, .ofNode? o, .token u]).Gives Node.Schematic :=
    fun t u => schematic_fresh (by simp [h]) (Node.matchesSchema_iff.2 (.cons rfl (.cons (Slot.fits_ofNode? _) (.cons rfl .nil))))
  unfold returnStatement
  dsimp only
  split
  · exact .andThen (fun t => .andThen (hnode t))
  · exact .andThen (fun t => .andThen (hnode t))

theorem schematic_equalsValueClause (hn : n.Schematic) : (equalsValueClause n).Gives Node.Schematic :=
  .andThen (fun _ => schematic_fresh (by simp [hn]) rfl)

theorem schematic_variableDeclaration (h : AllSchematic o) : (variableDeclaration t o).Gives Node.Schematic := by
  have hrest : ∀ s : Slot, s.SchematicIn .optionalNode → Fresh.Gives (do
      let declarator ← Node.fresh .variableDeclarator [.token t, .absent, s]
      Node.fresh .variableDeclaration [.token (← wordThenSpace .varKw), .separated [declarator] []])
      Node.Schematic := by
    intro s hs
    have hdeclarator : (Node.fresh .variableDeclarator [.token t, .absent, s]).Gives Node.Schematic :=
      schematic_fresh (by simp [hs.2]) (Node.matchesSchema_iff.2 (.cons rfl (.cons rfl (.cons hs.1 .nil))))
    exact hdeclarator.bind (fun d hd => .andThen (fun _ => schematic_fresh (by simp [hd]) rfl))
  cases o with
  | none => exact hrest _ ⟨rfl, AllSchematic.absent⟩
  | some v =>
    have hv : v.Schematic := by simpa using h
    exact (schematic_equalsValueClause hv).bind (fun _ hc => hrest _ ⟨rfl, AllSchematic.node_slot_iff.2 hc⟩)

theorem schematic_variableStatement (h : AllSchematic o) : (variableStatement t o).Gives Node.Schematic :=
  (schematic_variableDeclaration h).bind (fun _ hd => .andThen (fun _ => schematic_fresh (by simp [hd]) rfl))

theorem schematic_parameter : (parameter t).Gives Node.Schematic := schematic_fresh (by simp) rfl

theorem schematic_parameterList (h : AllSchematic ns) : (parameterList ns).Gives Node.Schematic :=
  schematic_enclosed h _ _ rfl

theorem schematic_callSignature (hn : n.Schematic) : (callSignature n).Gives Node.Schematic :=
  schematic_fresh (by simp [hn]) rfl

theorem schematic_block (h : AllSchematic ns) : (block t ns u).Gives Node.Schematic :=
  schematic_fresh (by simp [h]) rfl

theorem schematic_spaceAfter (hn : n.Schematic) : (spaceAfter n).Gives Node.Schematic := by
  unfold spaceAfter
  split
  · exact .pure hn
  · exact hn.withTrailing _

theorem schematic_functionExpression (hn : n.Schematic) (hm : m.Schematic) :
    (functionExpression n m).Gives Node.Schematic :=
  .andThen (fun _ => (schematic_spaceAfter hn).bind (fun _ hspaced => (schematic_callSignature hspaced).bind
    (fun _ hsignature => schematic_fresh (by simp [hsignature, hm]) rfl)))

theorem schematic_functionDeclaration (hn : n.Schematic) (hm : m.Schematic) :
    (functionDeclaration t n m).Gives Node.Schematic :=
  .andThen (fun _ => (schematic_spaceAfter hn).bind (fun _ hspaced => (schematic_callSignature hspaced).bind
    (fun _ hsignature => schematic_fresh (by simp [hsignature, hm]) rfl)))

theorem schematic_ifStatement (hn : n.Schematic) (hm : m.Schematic) : (ifStatement n m).Gives Node.Schematic :=
  .andThen (fun _ => .andThen (fun _ => .andThen (fun _ => schematic_fresh (by simp [hn, hm]) rfl)))

end Downlevel.Build
