import Downlevel.Proofs.Lowering.Untouched
import Downlevel.Proofs.Outline.Twice
/-!
# Proofs.Outline.Kept — plain statements of a program are kept

A statement of a program becomes itself if it is plain, and else nodes that are made of tokens of its own and of new
ones (`Node.Becomes`).  So no token of a plain statement is met in front of it when tokens are told apart, and it is in
the result as the object that it was (`sublist_of_copies`).  Only where a captured `this` is declared in front of it, the
first statement is built anew, with other trivia in front (`lower_keeps_plain`).
-/
namespace Downlevel

variable {text : List Char} {tree n m : Node} {i k next : ObjectId} {ns us : List Node}

/-! ## Telling the tokens of a program apart -/

/-- What was kept or copied in a row was so in each of its two parts, and only tokens of the first part were met in it. -/
theorem Copies.split {s' : Supplied (List ObjectId)} {vs ws : List Token} :
    ∀ {s : Supplied (List ObjectId)} {ts us : List Token}, Copies s (ts ++ vs) (us ++ ws) s' → ts.length = us.length →
      ∃ s₁, Copies s ts us s₁ ∧ Copies s₁ vs ws s' ∧ ∀ j ∈ s₁.own, j ∈ s.own ∨ j ∈ ts.map Token.id := by
  intro s ts
  induction ts generalizing s with
  | nil =>
    intro us h hlength
    rw [List.eq_nil_of_length_eq_zero hlength.symm] at h ⊢
    exact ⟨s, .done _ (Nat.le_refl _), h, fun _ hj => .inl hj⟩
  | cons t ts ih =>
    intro us h hlength
    obtain ⟨u, us, rfl⟩ := List.exists_cons_of_length_eq_add_one hlength.symm
    rw [List.map_cons]
    cases h with
    | kept new rest =>
      obtain ⟨s₁, hfirst, hsecond, hown⟩ := ih rest (Nat.succ.inj hlength)
      refine ⟨s₁, .kept new hfirst, hsecond, fun j hj => ?_⟩
      rcases hown j hj with hmem | hmem
      · rcases List.mem_cons.1 hmem with rfl | hmem
        · exact .inr List.mem_cons_self
        · exact .inl hmem
      · exact .inr (List.mem_cons_of_mem _ hmem)
    | copied met content fresh rest =>
      obtain ⟨s₁, hfirst, hsecond, hown⟩ := ih rest (Nat.succ.inj hlength)
      exact ⟨s₁, .copied met content fresh hfirst, hsecond, fun j hj => (hown j hj).imp_right (List.mem_cons_of_mem _)⟩

/-- **Telling the tokens of a program apart** keeps or copies its statements one by one. -/
theorem SourceUnit.copies {program : SourceUnit} {u : Node} {id : ObjectId}
    (h : (Node.mk id .sourceUnit (NodeView.toSlots program)).Schematic)
    (hold : (Node.mk id .sourceUnit (NodeView.toSlots program)).OlderThan k)
    (hrun : ((Node.mk id .sourceUnit (NodeView.toSlots program)).withUniqueTokens k).1 = .ok u) :
    ∃ id' result s', u = .mk id' .sourceUnit (NodeView.toSlots (result : SourceUnit)) ∧
      Copies ⟨k, []⟩ (program.elements.flatMap Node.tokens ++ [program.endOfFile])
        (result.elements.flatMap Node.tokens ++ [result.endOfFile]) s' ∧
      List.Forall₂ (Node.CopiedAs s'.next) program.elements result.elements := by
  obtain ⟨levels, hlevels⟩ : ∃ levels, (Node.mk id .sourceUnit (NodeView.toSlots program)).height = levels + 1 :=
    ⟨_, rfl⟩
  have hfine : ∀ p ∈ (Node.mk id .sourceUnit (NodeView.toSlots program)).parts,
      Transformer.CarriesOut.Fine k (Node.Passable k levels) p := by
    intro p hp
    rcases Node.mem_parts hp with ⟨slot, hslot, t, ht, rfl⟩ | ⟨c, hc, room, rfl⟩
    · exact hold.tokens t (Node.mem_tokens.2 ⟨slot, hslot, Slot.mem_tokens.2 (.inl ht)⟩)
    · exact Node.Passable.child ⟨h, hold, hlevels.le⟩ hc
  obtain ⟨answers, s₁, has, hruns, hcopied⟩ :=
    (carriesOut_descend TokenPass.isDoneBy_unlessMet levels).answered (s := ⟨k, []⟩) .sourceUnit hfine (Nat.le_refl k)
  have hcopies := hruns.copies
  -- The walk over the root makes a row of the answers, even where it gives back the node that was there.
  have hmade : ∃ id' slots s₂, (Node.mk id .sourceUnit (NodeView.toSlots program)).transformTokens Token.unlessMet ⟨k, []⟩ =
      .ok (.mk id' .sourceUnit slots) s₂ ∧
        NodeKind.sourceUnit.RowRebuilt 0 (NodeView.toSlots program) answers slots := by
    have hroot : ∀ {v s₂}, (Transformer.ofRuleUpTo (fun e => e) Token.unlessMet NodeRule.descend levels).walk
        (.mk id .sourceUnit (NodeView.toSlots program)) ⟨k, []⟩ = .ok v s₂ →
          (Node.mk id .sourceUnit (NodeView.toSlots program)).transformTokens Token.unlessMet ⟨k, []⟩ = .ok v s₂ := by
      intro v s₂ hwalk
      have hnode : (Transformer.ofRuleUpTo (fun e => e) Token.unlessMet NodeRule.descend (levels + 1)).node
          (.mk id .sourceUnit (NodeView.toSlots program)) ⟨k, []⟩ = .ok (.one v) s₂ := Work.bind_of_ok hwalk
      unfold Node.transformTokens Node.transform
      rw [hlevels]
      exact Work.bind_of_ok hnode
    rcases Transformer.walk_cases (r := Transformer.ofRuleUpTo (fun e => e) Token.unlessMet NodeRule.descend levels)
      h.self ⟨k, []⟩ with ⟨answers', s₂, slots, has', hrow, ⟨hkept, hrun⟩ | ⟨-, -, hrun⟩⟩ | ⟨e, s₂, hstop, -⟩
    · obtain ⟨rfl, -⟩ := has.unique has'
      refine ⟨_, _, _, hroot hrun, ?_⟩
      rwa [hrow.eq_of_kept (forall₂_and hkept (hcopied.imp (fun _ _ h => h.knownIn)))] at hrow
    · obtain ⟨rfl, -⟩ := has.unique has'
      exact ⟨_, _, _, hroot hrun, hrow⟩
    · exact absurd has (hstop.unique.2 _ _)
  obtain ⟨id', slots, s₂, htransform, hrow⟩ := hmade
  rw [Node.withUniqueTokens, Work.runFrom, htransform] at hrun
  cases hrun
  have htokens := hrow.tokens_eq
  -- A program has two slots, a list and a token: the row is taken apart in step with them.
  cases hrow with
  | cons hlist hrest =>
    cases hlist with
    | list _ reps hlength =>
      cases hrest with
      | cons htoken hnil =>
        cases htoken with
        | token _ t' =>
          cases hnil
          refine ⟨id', ⟨reps.flatMap Replacement.nodes, t'⟩, s₁, rfl, ?_, ?_⟩
          · rw [Node.tokens_parts, Node.tokens_mk, ← htokens] at hcopies
            simpa [NodeView.toSlots] using hcopies
          · have hparts : (Node.mk id .sourceUnit (NodeView.toSlots program)).parts =
                program.elements.map (fun n => Child.node n .anyNumber) ++ [.token program.endOfFile] := rfl
            rw [hparts, List.append_nil, forall₂_append_iff (by simp [hlength])] at hcopied
            exact Child.passed_members (List.forall₂_map_left_iff.1 (List.forall₂_map_right_iff.1 hcopied.1))

/-! ## Plain statements -/

/-- Nothing in the tree is written in the dialect only, and no `super` is in it. -/
def Node.isPlain (n : Node) : Bool := !n.isSpecific && n.all.all (fun m => m.kind != .superExpression)

/-- A plain tree that was read is one that the rules give back. -/
theorem Node.untouched_of_isPlain (hformed : n.Every Node.Formed) (hfits : n.WellFormed) (hold : n.OlderThan k)
    (h : n.isPlain = true) : n.Untouched (.only n.kind) k := by
  obtain ⟨hspecific, hsuper⟩ : n.isSpecific = false ∧ n.Every (fun m => m.kind ≠ .superExpression) := by
    simpa [Node.isPlain, Node.Every] using h
  have hplain := Node.isSpecific_eq_false_iff.1 hspecific
  refine ⟨beq_self_eq_true _, Node.sound_of hfits (fun m hm => ?_) hold.nodes (fun t ht => ?_)⟩
  · exact ⟨hplain m hm, hsuper m hm, (hformed m hm).opens, (hformed m hm).starts⟩
  · exact ⟨hold.tokens t ht, fun _ _ => trivial, fun _ _ => trivial, trivial⟩

/-! ## What a statement becomes -/

/-- The token objects that may stand in what a tree becomes, in a program whose objects are older than `k`: those of the
tree and new ones. -/
def Node.Lends (k : ObjectId) (n : Node) (i : ObjectId) : Prop := i ∈ n.tokens.map Token.id ∨ k ≤ i

/-- What a statement became when the next number is `next`: itself if it is plain, and else nodes that are made of
tokens of its own and new ones. -/
structure Node.Becomes (k next : ObjectId) (n : Node) (ms : List Node) : Prop where
  plain : n.isPlain = true → ms = [n]
  known : ∃ W : Registry, W.next = next ∧ W.mine = n.Lends k ∧ ∀ m ∈ ms, m.Known W

/-- The registry at a later number, with other token objects that may be used. -/
def Registry.lent (W : Registry) (next : ObjectId) (mine : ObjectId → Prop) (hmine : ∀ i, next ≤ i → mine i) : Registry :=
  { W with next := next, mine := mine, mine_of_le := hmine }

theorem Node.Known.lent {W : Registry} {mine : ObjectId → Prop} {hmine : ∀ i, next ≤ i → mine i} (h : n.Known W)
    (hnext : W.next ≤ next) (ht : ∀ t ∈ n.tokens, mine t.id) : n.Known (W.lent next mine hmine) where
  nodes := h.nodes.mono (fun _ hm => ⟨Nat.lt_of_lt_of_le hm.1 hnext, hm.2⟩)
  tokens := fun t hmem => ⟨Nat.lt_of_lt_of_le (h.tokens t hmem).id_lt hnext, (h.tokens t hmem).outline, ht t hmem⟩

theorem Node.Becomes.later {ms : List Node} {j : ObjectId} (h : n.Becomes k next ms) (hj : next ≤ j) :
    n.Becomes k j ms := by
  refine ⟨h.plain, ?_⟩
  obtain ⟨W, rfl, hmine, hknown⟩ := h.known
  refine ⟨W.lent j W.mine (fun i hi => W.mine_of_le i (Nat.le_trans hj hi)), rfl, hmine, fun m hm => ?_⟩
  exact (hknown m hm).lent hj (fun t ht => ((hknown m hm).tokens t ht).mine)

/-- What a statement stands for in the result: itself if it is plain, and else nodes with tokens that it lends. -/
structure Node.StandsFor (k : ObjectId) (n : Node) (ms : List Node) : Prop where
  plain : n.isPlain = true → ms = [n]
  lends : ∀ m ∈ ms, ∀ t ∈ m.tokens, n.Lends k t.id

theorem Node.Becomes.standsFor {ms : List Node} (h : n.Becomes k next ms) : n.StandsFor k ms := by
  refine ⟨h.plain, ?_⟩
  obtain ⟨W, -, hmine, hknown⟩ := h.known
  exact fun m hm t ht => hmine ▸ ((hknown m hm).tokens t ht).mine

/-- What is known of a statement that the rules are given. -/
structure Node.IsGiven (W : Registry) (k : ObjectId) (levels : Nat) (n : Node) : Prop where
  held : n.Held W
  formed : n.Every Node.Formed
  older : n.OlderThan k
  height : n.height ≤ levels

/-- The innermost scope is one above these, and no arrow function of it is open. -/
def LoweringState.InScope (rest : List ThisScope) (s : LoweringState) : Prop :=
  ∃ scope, s.scopes = scope :: rest ∧ scope.arrowDepth = 0

section Elements

variable {W : Registry} {positions : Positions} {layout : LayoutOptions} {levels : Nat} {rest : List ThisScope}
  {s s' : Supplied LoweringState}

theorem Node.IsGiven.becomes_self (h : n.IsGiven W k levels) (hk : k ≤ next) (hnext : W.next ≤ next) :
    n.Becomes k next [n] := by
  refine ⟨fun _ => rfl, W.lent next (n.Lends k) (fun i hi => .inr (Nat.le_trans hk hi)), rfl, rfl, fun m hm => ?_⟩
  rw [List.mem_singleton.1 hm]
  exact h.held.known.lent hnext (fun t ht => .inl (List.mem_map_of_mem ht))

/-- **What the rules make of a statement.** -/
theorem Node.IsGiven.visit {r : Replacement} (h : n.IsGiven W k levels) (hk : k ≤ W.next) (hnext : W.next ≤ s.next)
    (hscope : s.own.InScope rest) (hrun : visitUpTo positions layout levels n s = .ok r s') :
    s.next ≤ s'.next ∧ s'.own.InScope rest ∧ n.Becomes k s'.next r.nodes := by
  obtain ⟨scope, hscopes, hdepth⟩ := hscope
  have hmine : ∀ i, s.next ≤ i → n.Lends k i := fun i hi =>
    .inr (Nat.le_trans hk (Nat.le_trans hnext hi))
  have hheld : n.Held (W.lent s.next (n.Lends k) hmine) :=
    ⟨h.held.known.lent hnext (fun t ht => .inl (List.mem_map_of_mem ht)), h.held.wellFormed, h.held.opens⟩
  have hfollows := (drafted_visitUpTo positions layout levels).follows _ n hheld s.own scope rest hscopes
  change FollowsTo _ _ _ (visitUpTo positions layout levels n s) _ at hfollows
  rw [hrun] at hfollows
  generalize Draft.visitUpTo levels n.outline _ = d at hfollows
  cases hfollows with
  | @ok W' _ _ marks _ hle hnext' hr hown =>
    have hnodes : ∀ m ∈ r.nodes, m.Known W' := Node.AllShow.known hr.nodes
    refine ⟨hnext' ▸ Registry.next_le hle, ?_, fun hplain => ?_, W', hnext'.symm, Registry.mine_eq hle, hnodes⟩
    · rw [hown]
      exact ⟨_, LoweringState.scopes_marked hscopes, hdepth⟩
    · have houtside : s.own.OutsideArrow := by simp [LoweringState.OutsideArrow, hscopes, hdepth]
      have huntouched := Node.untouched_of_isPlain h.formed h.held.wellFormed h.older hplain
      obtain ⟨j, -, hback⟩ := givesBack_visitUpTo positions layout huntouched h.height s houtside
      rw [hrun] at hback
      cases hback
      rfl

/-- **What the rules make of the statements of a program**, one after the other. -/
theorem becomes_walkList (hk : k ≤ W.next) : ∀ {ns : List Node} {s s' : Supplied LoweringState} {w : Walked (List Node)},
    (∀ n ∈ ns, n.IsGiven W k levels) → W.next ≤ s.next → s.own.InScope rest →
      (LoweringContext.mk positions layout (visitUpTo positions layout levels)).transformer.walkList ns s = .ok w s' →
        s.next ≤ s'.next ∧ ∃ parts, List.Forall₂ (Node.Becomes k s'.next) ns parts ∧ w.value = parts.flatten := by
  intro ns
  induction ns with
  | nil =>
    intro s s' w _ _ _ hrun
    obtain ⟨rfl, rfl⟩ := Work.pure_eq_ok hrun
    exact ⟨Nat.le_refl _, [], .nil, rfl⟩
  | cons n ns ih =>
    intro s s' w hgiven hnext hscope hrun
    obtain ⟨hn, hns⟩ := List.forall_mem_cons.1 hgiven
    obtain ⟨r, s₁, hvisit, hrun⟩ := Work.bind_eq_ok hrun
    obtain ⟨hle₁, hscope₁, hbecomes⟩ := hn.visit hk hnext hscope hvisit
    obtain ⟨w', s₂, hwalk, hrun⟩ := Work.bind_eq_ok hrun
    obtain ⟨hle₂, parts, hparts, hvalue⟩ := ih hns (Nat.le_trans hnext hle₁) hscope₁ hwalk
    have hmade : s' = s₂ ∧ w.value = r.nodes ++ w'.value := by
      cases r <;> cases hrun <;> exact ⟨rfl, rfl⟩
    obtain ⟨rfl, hmade⟩ := hmade
    refine ⟨Nat.le_trans hle₁ hle₂, r.nodes :: parts, .cons (hbecomes.later hle₂) hparts, ?_⟩
    rw [hmade, hvalue, List.flatten_cons]

end Elements

/-! ## Statements that are met for the first time -/

/-- From a state on, the tokens of nodes in a row were kept or copied, and with them the nodes; others may follow. -/
structure RowCopies (j : ObjectId) (s : Supplied (List ObjectId)) (ns us : List Node) : Prop where
  tokens : ∃ vs ws s', Copies s (ns.flatMap Node.tokens ++ vs) (us.flatMap Node.tokens ++ ws) s'
  nodes : List.Forall₂ (Node.CopiedAs j) ns us
  outlines : us.map Node.outline = ns.map Node.outline

/-- The tokens of a row of statements are all different, older than `k`, and not met yet. -/
structure AreUnmet (k : ObjectId) (s : Supplied (List ObjectId)) (ns : List Node) : Prop where
  distinct : ((ns.flatMap Node.tokens).map Token.id).Nodup
  older : ∀ n ∈ ns, ∀ t ∈ n.tokens, t.id < k
  unmet : ∀ n ∈ ns, ∀ t ∈ n.tokens, t.id ∉ s.own

namespace RowCopies

variable {j : ObjectId} {s : Supplied (List ObjectId)} {ms : List Node} {parts : List (List Node)}

theorem length_tokens (h : List.Forall₂ (Node.CopiedAs j) ns us) :
    (ns.flatMap Node.tokens).length = (us.flatMap Node.tokens).length := by
  induction h with
  | nil => rfl
  | cons hn _ ih => rw [List.flatMap_cons, List.flatMap_cons, List.length_append, List.length_append, hn.length, ih]

/-- A row of two parts was copied part by part, and only tokens of the first part were met in it. -/
theorem split (h : RowCopies j s (ns ++ ms) us) : ∃ us₁ us₂ s₁, us = us₁ ++ us₂ ∧ RowCopies j s ns us₁ ∧
    RowCopies j s₁ ms us₂ ∧ ∀ i ∈ s₁.own, i ∈ s.own ∨ ∃ n ∈ ns, ∃ t ∈ n.tokens, t.id = i := by
  have hfirst : List.Forall₂ (Node.CopiedAs j) ns (us.take ns.length) :=
    (List.forall₂_take_append _ _ _ h.nodes.flip).flip
  have hsecond : List.Forall₂ (Node.CopiedAs j) ms (us.drop ns.length) :=
    (List.forall₂_drop_append _ _ _ h.nodes.flip).flip
  obtain ⟨vs, ws, s', hcopies⟩ := h.tokens
  rw [← List.take_append_drop ns.length us, List.flatMap_append, List.flatMap_append, List.append_assoc,
    List.append_assoc] at hcopies
  obtain ⟨s₁, hcopies₁, hcopies₂, hown⟩ := hcopies.split (length_tokens hfirst)
  have houtlines := h.outlines
  rw [← List.take_append_drop ns.length us, List.map_append, List.map_append] at houtlines
  obtain ⟨houtlines₁, houtlines₂⟩ := List.append_inj houtlines
    ((List.length_map ..).trans (hfirst.length_eq.symm.trans (List.length_map ..).symm))
  refine ⟨_, _, s₁, (List.take_append_drop ns.length us).symm, ⟨⟨[], [], s₁, ?_⟩, hfirst, houtlines₁⟩,
    ⟨⟨vs, ws, s', hcopies₂⟩, hsecond, houtlines₂⟩, fun i hi => (hown i hi).imp_right (fun hmem => ?_)⟩
  · rwa [List.append_nil, List.append_nil]
  · obtain ⟨t, ht, rfl⟩ := List.mem_map.1 hmem
    obtain ⟨n, hn, ht⟩ := List.mem_flatMap.1 ht
    exact ⟨n, hn, t, ht, rfl⟩

/-- A row was copied head first. -/
theorem uncons (h : RowCopies j s (n :: ms) us) : ∃ us₁ us₂ s₁, us = us₁ ++ us₂ ∧ RowCopies j s [n] us₁ ∧
    RowCopies j s₁ ms us₂ ∧ ∀ i ∈ s₁.own, i ∈ s.own ∨ ∃ m ∈ [n], ∃ t ∈ m.tokens, t.id = i := by
  rw [← List.singleton_append] at h
  exact h.split

theorem one (h : RowCopies j s [n] us) : ∃ u, us = [u] ∧ u.outline = n.outline ∧
    u.tokens.map Token.lexeme = n.tokens.map Token.lexeme ∧
      ((n.tokens.map Token.id).Nodup → (∀ t ∈ n.tokens, t.id ∉ s.own) → u = n) := by
  obtain ⟨u, us, hcopied, hnil, rfl⟩ := List.forall₂_cons_left_iff.1 h.nodes
  obtain rfl := List.forall₂_nil_left_iff.1 hnil
  obtain ⟨vs, ws, s', hcopies⟩ := h.tokens
  simp only [List.flatMap_cons, List.flatMap_nil, List.append_nil] at hcopies
  obtain ⟨s₁, hcopies, -, -⟩ := hcopies.split hcopied.length
  exact ⟨u, rfl, List.singleton_inj.1 h.outlines, map_eq_map_iff_forall₂.2 hcopies.contents.flip,
    fun hnodup hown => hcopied.kept (hcopies.eq_of_nodup hnodup hown)⟩

end RowCopies

/-- Statements behind one that stands for nodes are not met in these. -/
theorem AreUnmet.tail {s s₁ : Supplied (List ObjectId)} {ms : List Node} (h : AreUnmet k s (n :: ns))
    (hfor : ∀ m ∈ ms, ∀ t ∈ m.tokens, n.Lends k t.id)
    (hown : ∀ i ∈ s₁.own, i ∈ s.own ∨ ∃ m ∈ ms, ∃ t ∈ m.tokens, t.id = i) : AreUnmet k s₁ ns := by
  have hdistinct := h.distinct
  rw [List.flatMap_cons, List.map_append, List.nodup_append] at hdistinct
  obtain ⟨-, hrest, hapart⟩ := hdistinct
  refine ⟨hrest, fun m hm => h.older m (List.mem_cons_of_mem _ hm), fun m hm t ht hmem => ?_⟩
  have hid : t.id ∈ (ns.flatMap Node.tokens).map Token.id :=
    List.mem_map_of_mem (List.mem_flatMap.2 ⟨m, hm, ht⟩)
  rcases hown _ hmem with hmet | ⟨m', hm', u, hu, heq⟩
  · exact h.unmet m (List.mem_cons_of_mem _ hm) t ht hmet
  · rcases hfor m' hm' u hu with hlent | hnew
    · exact hapart _ hlent _ hid heq
    · exact absurd (h.older m (List.mem_cons_of_mem _ hm) t ht) (Nat.not_lt.2 (heq ▸ hnew))

/-- **Plain statements are in the result in their order**, each as the object that it was. -/
theorem RowCopies.sublist {j : ObjectId} {parts : List (List Node)} (hparts : List.Forall₂ (Node.StandsFor k) ns parts) :
    ∀ {s : Supplied (List ObjectId)} {us : List Node}, AreUnmet k s ns → RowCopies j s parts.flatten us →
      (ns.filter Node.isPlain).Sublist us := by
  induction hparts with
  | nil => exact fun _ _ => List.nil_sublist _
  | @cons n ms ns parts hn _ ih =>
    intro s us hunmet h
    rw [List.flatten_cons] at h
    obtain ⟨us₁, us₂, s₁, rfl, hhere, hbehind, hown⟩ := h.split
    have hrest := ih (hunmet.tail hn.lends hown) hbehind
    cases hplain : n.isPlain with
    | false =>
      rw [List.filter_cons_of_neg (by simp [hplain])]
      exact hrest.trans (List.sublist_append_right us₁ us₂)
    | true =>
      rw [hn.plain hplain] at hhere
      obtain ⟨u, rfl, -, -, hkept⟩ := hhere.one
      have hnodup : (n.tokens.map Token.id).Nodup := by
        have hdistinct := hunmet.distinct
        rw [List.flatMap_cons, List.map_append, List.nodup_append] at hdistinct
        exact hdistinct.1
      rw [hkept hnodup (hunmet.unmet n List.mem_cons_self), List.filter_cons_of_pos hplain]
      exact hrest.cons_cons n

/-- **Plain statements are in the result in their order**, but the first one may be another node in a row whose first
node was replaced by one with the same tokens and new ones. -/
theorem RowCopies.sublist_moved {j : ObjectId} {first moved : Node} {parts : List (List Node)}
    (hmoved : ∀ W : Registry, W.next = next → first.Known W → ∀ t ∈ moved.tokens, W.mine t.id)
    (hparts : List.Forall₂ (Node.Becomes k next) ns parts) :
    ∀ {s : Supplied (List ObjectId)} {us rest : List Node}, AreUnmet k s ns → parts.flatten = first :: rest →
      RowCopies j s (moved :: rest) us → (ns.filter Node.isPlain).Sublist us ∨ ∃ plain u us',
        ns.filter Node.isPlain = first :: plain ∧ us = u :: us' ∧ u.outline = moved.outline ∧
          u.tokens.map Token.lexeme = moved.tokens.map Token.lexeme ∧ plain.Sublist us' := by
  induction hparts with
  | nil => exact fun _ hflat => by cases hflat
  | @cons n ms ns parts hn hparts ih =>
    intro s us rest hunmet hflat h
    cases ms with
    | nil =>
      have hplain : ¬ n.isPlain = true := fun hplain => by cases hn.plain hplain
      rw [List.filter_cons_of_neg hplain]
      have hnone : ∀ m ∈ ([] : List Node), ∀ t ∈ m.tokens, n.Lends k t.id := fun _ hm => by cases hm
      exact ih (hunmet.tail hnone (fun _ hi => .inl hi)) hflat h
    | cons m ms =>
      rw [List.flatten_cons, List.cons_append, List.cons.injEq] at hflat
      obtain ⟨rfl, rfl⟩ := hflat
      -- The moved node has tokens of the first one and new ones, so it takes none from the statements behind.
      have hlends : ∀ t ∈ moved.tokens, n.Lends k t.id := by
        obtain ⟨W, hnext, hmine, hknown⟩ := hn.known
        exact fun t ht => hmine ▸ hmoved W hnext (hknown m List.mem_cons_self) t ht
      have hstand : List.Forall₂ (Node.StandsFor k) ns parts := hparts.imp (fun _ _ h => h.standsFor)
      by_cases hplain : n.isPlain = true
      · obtain ⟨rfl, rfl⟩ := List.cons.inj (hn.plain hplain)
        obtain ⟨us₁, us₂, s₁, rfl, hhere, hbehind, hown⟩ := h.uncons
        obtain ⟨u, rfl, houtline, hlexemes, -⟩ := hhere.one
        refine .inr ⟨ns.filter Node.isPlain, u, us₂, List.filter_cons_of_pos hplain, rfl, houtline, hlexemes, ?_⟩
        exact RowCopies.sublist hstand (hunmet.tail (List.forall_mem_singleton.2 hlends) hown) hbehind
      · have hmade : n.StandsFor k (moved :: ms) := by
          refine ⟨fun hp => absurd hp hplain, List.forall_mem_cons.2 ⟨hlends, fun m' hm' => ?_⟩⟩
          exact hn.standsFor.lends m' (List.mem_cons_of_mem _ hm')
        exact .inl (RowCopies.sublist (.cons hmade hstand) hunmet h)

/-! ## A captured `this` at the head -/

/-- The node is the statement `var _this = this;`. -/
def Node.DeclaresThis (n : Node) : Prop :=
  n.tokens.map Token.text = ["var".toList, "_this".toList, "=".toList, "this".toList, ";".toList]

/-- The node is another one that was built anew with other trivia in front. -/
structure Node.IsMoved (m n : Node) : Prop where
  outline : m.outline = n.outline
  tokens : ∃ trivia j, m.tokens.map Token.lexeme = (n.withLeading trivia j).1.tokens.map Token.lexeme

theorem Node.DeclaresThis.of_outline (h : m.outline = n.outline) (hn : n.DeclaresThis) : m.DeclaresThis := by
  have htexts : ∀ x : Node, x.tokens.map Token.text = x.outline.tokens.map Token.text := fun x => by
    simp [Node.tokens_outline, Function.comp_def]
  rw [Node.DeclaresThis, htexts, h, ← htexts]
  exact hn

/-- A node that was given other trivia in front is made of what might be used before. -/
theorem mine_withLeading {W : Registry} {trivia : TriviaList} {j : ObjectId} (hn : n.Known W) (hj : W.next ≤ j) :
    (n.withLeading trivia j).1.outline = n.outline ∧ ∀ t ∈ (n.withLeading trivia j).1.tokens, W.mine t.id := by
  have hknown : n.Known (W.lent j W.mine (fun i hi => W.mine_of_le i (Nat.le_trans hj hi))) :=
    hn.lent hj (fun t ht => (hn.tokens t ht).mine)
  have hmade : Records _ (n.withLeading trivia) (fun W' m => m.Shows W' n.outline) := records_withLeading hknown.shows
  obtain ⟨W', hle, -, hshows⟩ := hmade
  refine ⟨hshows.outline.trans n.outline_outline, fun t ht => ?_⟩
  have hmine := (hshows.known.tokens t ht).mine
  rwa [Registry.mine_eq hle] at hmine

/-- **What stands at the head where `this` is captured.** -/
theorem captureAtHead_cons (c : LoweringContext) (first : Node) (rest : List Node) {j : ObjectId} (hk : k ≤ j) :
    ∃ capture trivia l, (c.captureAtHead (first :: rest) j).1 = capture :: (first.withLeading trivia l).1 :: rest ∧
      capture.DeclaresThis ∧ (∀ t ∈ capture.tokens, k ≤ t.id) ∧ j ≤ l := by
  let W : Registry := Registry.empty.lent j (fun i => k ≤ i) (fun i hi => Nat.le_trans hk hi)
  have hcapture : Records W (c.captureStatement 0 >>= fun m => m.withLeading first.leading.splitLines.1)
      (fun W' m => m.Shows W' (Draft.captureStatement 0).1) :=
    (LoweringContext.draws_captureStatement 0).bind (fun W₁ h₁ m hm => records_withLeading hm)
  obtain ⟨W', hle, hnext, hshows⟩ := hcapture
  refine ⟨_, first.leading.splitLines.2, _, rfl, ?_, fun t ht => ?_, ?_⟩
  · exact .of_outline hshows.outline rfl
  · have hmine := (hshows.known.tokens t ht).mine
    rwa [Registry.mine_eq hle] at hmine
  · exact (Registry.next_le hle).trans hnext.ge

/-! ## The program -/

theorem IsProgram.older (h : IsProgram text i k tree) : tree.OlderThan k :=
  ⟨h.nodes.mono (fun _ hm => hm.2), fun t ht => (h.tokens t ht).2⟩

/-- What was read is a program. -/
theorem IsProgram.view (h : IsProgram text i k tree) : ∃ program : SourceUnit, tree.view? SourceUnit = some program ∧
    tree.slots = NodeView.toSlots program := by
  have hstands : tree.Stands (fun _ => True) Demand.any (.only .sourceUnit) k :=
    ⟨beq_iff_eq.2 h.kind, Node.sound_of h.wellFormed (fun _ _ => trivial) h.older.nodes
      (fun t ht => ⟨h.older.tokens t ht, fun _ _ => trivial, fun _ _ => trivial, trivial⟩)⟩
  obtain ⟨program, hv, hs, -⟩ := hstands.sourceUnit h.kind
  exact ⟨program, hv, hs⟩

section Program

variable {program : SourceUnit} {o : LoweringOptions} {layout : LayoutOptions} {s s' : Supplied LoweringState}

/-- What the rule for a program makes, of the statements that the walk made. -/
theorem sourceUnit_eq_ok {c : LoweringContext} {r : Replacement} (hv : tree.view? SourceUnit = some program)
    (hs : tree.slots = NodeView.toSlots program) (hrun : c.sourceUnit tree s = .ok r s') :
    ∃ w s₁ id statements, c.transformer.walkList program.elements
        ⟨s.next, { s.own with scopes := ⟨0, false⟩ :: s.own.scopes }⟩ = .ok w s₁ ∧
      r = .one (.mk id .sourceUnit (NodeView.toSlots (SourceUnit.mk statements program.endOfFile))) ∧
      (statements = program.elements ∨ statements = w.value ∨ statements = (c.captureAtHead w.value s₁.next).1) := by
  unfold LoweringContext.sourceUnit at hrun
  rw [Lowering.view_eq hv, pure_bind] at hrun
  obtain ⟨p, s₂, hscope, hrun⟩ := Work.bind_eq_ok hrun
  unfold Lowering.inScope at hscope
  cases hwalk : c.transformer.walkList program.elements ⟨s.next, { s.own with scopes := ⟨0, false⟩ :: s.own.scopes }⟩ with
  | error e s₁ =>
    rw [hwalk] at hscope
    cases hscope
  | ok w s₁ =>
    rw [hwalk] at hscope
    cases hscope
    dsimp only at hrun
    split at hrun
    · obtain ⟨rfl, -⟩ := Work.pure_eq_ok hrun
      -- Nothing changed and nothing was captured, so the program is the one that was given.
      obtain ⟨id, kind, slots⟩ := tree
      obtain rfl : kind = .sourceUnit := Node.kind_of_view? hv
      exact ⟨w, s₁, id, program.elements, rfl, by rw [show slots = _ from hs], .inl rfl⟩
    · split at hrun
      · obtain ⟨statements, s₃, hmade, hrun⟩ := Work.bind_eq_ok hrun
        obtain ⟨rfl, rfl⟩ := Work.lift_eq_ok hmade
        obtain ⟨m, s₄, hnode, hrun⟩ := Work.bind_eq_ok hrun
        obtain ⟨rfl, rfl⟩ := Work.lift_eq_ok hnode
        obtain ⟨rfl, -⟩ := Work.pure_eq_ok hrun
        exact ⟨w, s₁, _, _, rfl, rfl, .inr (.inr rfl)⟩
      · obtain ⟨statements, s₃, hmade, hrun⟩ := Work.bind_eq_ok hrun
        obtain ⟨rfl, rfl⟩ := Work.pure_eq_ok hmade
        obtain ⟨m, s₄, hnode, hrun⟩ := Work.bind_eq_ok hrun
        obtain ⟨rfl, rfl⟩ := Work.lift_eq_ok hnode
        obtain ⟨rfl, -⟩ := Work.pure_eq_ok hrun
        exact ⟨w, s₁, _, _, rfl, rfl, .inr (.inl rfl)⟩

/-- **What the rules make of the statements of a program that was read.** -/
theorem becomes_lowerByRules (hparse : parseFrom text i = (.ok tree, k)) (hnext : k ≤ next)
    (hheight : tree.height ≤ LoweringFault.maxTreeDepth)
    (hrun : tree.lowerByRules layout ⟨next, .initial⟩ = .ok m s') :
    ∃ program id statements j parts, tree.view? SourceUnit = some program ∧
      m = .mk id .sourceUnit (NodeView.toSlots (SourceUnit.mk statements program.endOfFile)) ∧ k ≤ j ∧
      List.Forall₂ (Node.Becomes k j) program.elements parts ∧
      (statements = parts.flatten ∨ ∃ c : LoweringContext, statements = (c.captureAtHead parts.flatten j).1) := by
  obtain ⟨levels, hlevels⟩ : ∃ levels, LoweringFault.maxTreeDepth = levels + 1 := ⟨_, rfl⟩
  have hprogram := (parseFrom_isProgram hparse).2
  obtain ⟨W, rfl, hheld⟩ := held_of_parse hparse hnext
  obtain ⟨program, hv, hs⟩ := hprogram.view
  have hgiven : ∀ n ∈ program.elements, n.IsGiven W k levels := fun n hn => by
    have hchild : n ∈ tree.children := by simp [Node.children, hs, NodeView.toSlots, hn]
    have hlow := Node.height_lt_of_mem_children hchild
    have hslot : ∀ s ∈ NodeView.toSlots program, s.Held W := hs ▸ hheld.slots
    simp only [NodeView.toSlots, List.forall_mem_cons, Slot.held_list] at hslot
    exact ⟨hslot.1 n hn, (parseFrom_formed hparse).child hchild, hprogram.older.child hchild, by omega⟩
  obtain ⟨r, s₁, hvisit, hrun⟩ := Work.bind_eq_ok hrun
  have hrule : (LoweringContext.mk (Positions.ofTree tree layout) layout
      (visitUpTo (Positions.ofTree tree layout) layout levels)).sourceUnit tree ⟨W.next, .initial⟩ = .ok r s₁ := by
    change visitUpTo (Positions.ofTree tree layout) layout LoweringFault.maxTreeDepth tree ⟨W.next, .initial⟩ = _ at hvisit
    rw [hlevels, visitUpTo, LoweringContext.rule, hprogram.kind] at hvisit
    exact hvisit
  obtain ⟨w, s₂, id, statements, hwalk, rfl, hstatements⟩ := sourceUnit_eq_ok hv hs hrule
  obtain ⟨rfl, -⟩ := Work.pure_eq_ok hrun
  obtain ⟨hle, parts, hparts, hvalue⟩ := becomes_walkList hnext hgiven (Nat.le_refl _) ⟨_, rfl, rfl⟩ hwalk
  have hk : k ≤ s₂.next := Nat.le_trans hnext hle
  -- The program comes back, its statements are those of the walk, or a captured `this` stands in front of them.
  rcases hstatements with rfl | rfl | rfl
  · refine ⟨program, id, _, s₂.next, program.elements.map (fun n => [n]), hv, rfl, hk, ?_, .inl ?_⟩
    · exact List.forall₂_map_right_iff.2 (List.forall₂_same.2 (fun n hn => (hgiven n hn).becomes_self hk hle))
    · rw [← List.flatMap_def, List.flatMap_singleton']
  · exact ⟨program, id, _, s₂.next, parts, hv, rfl, hk, hparts, .inl hvalue⟩
  · exact ⟨program, id, _, s₂.next, parts, hv, rfl, hk, hparts, .inr ⟨_, by rw [hvalue]⟩⟩

/-- What the rules make of a program that was read is known. -/
theorem known_lowerByRules (hparse : parseFrom text i = (.ok tree, k)) (hnext : k ≤ next)
    (hrun : tree.lowerByRules layout ⟨next, .initial⟩ = .ok m s') :
    ∃ W : Registry, s'.next = W.next ∧ next ≤ W.next ∧ m.Known W := by
  obtain ⟨W, rfl, hheld⟩ := held_of_parse hparse hnext
  have hfollows := hheld.follows_lowerByRules (parseFrom_isProgram hparse).2.kind layout .initial false
  rw [hrun] at hfollows
  generalize Draft.ofTree tree.outline false = d at hfollows
  cases hfollows with
  | ok hle hnext' hshows => exact ⟨_, hnext', Registry.next_le hle, hshows.known⟩

/-- What the helper for derived classes was put in front of is known, and the tokens of the helper are new. -/
theorem known_helped {W : Registry} {id : ObjectId} {helped : Node} {s s' : Supplied LoweringState} {asked : Bool}
    (hk : k ≤ s.next)
    (hs : s.next = W.next) (hknown : (Node.mk id .sourceUnit (NodeView.toSlots program)).Known W)
    (h : asked = false ∧ helped = .mk id .sourceUnit (NodeView.toSlots program) ∧ s' = s ∨
      asked = true ∧
        (Node.mk id .sourceUnit (NodeView.toSlots program)).withExtendsHelper layout s = .ok helped s') :
    ∃ (W' : Registry) (id' : ObjectId) (helper : List Node), s'.next = W'.next ∧ helped.Known W' ∧
      (∀ n ∈ helper, ∀ t ∈ n.tokens, k ≤ t.id) ∧
      helped = .mk id' .sourceUnit (NodeView.toSlots (SourceUnit.mk (helper ++ program.elements) program.endOfFile)) := by
  rcases h with ⟨-, rfl, rfl⟩ | ⟨-, h⟩
  · exact ⟨W, id, [], hs, hknown, (fun _ hn => by cases hn), rfl⟩
  rcases Node.withExtendsHelper_eq_ok h with ⟨-, rfl, rfl⟩ | ⟨program', m, helper, j, hv, hread, hw, rfl, rfl⟩
  · exact ⟨W, id, [], hs, hknown, (fun _ hn => by cases hn), rfl⟩
  · cases hv
    have hprogram := (parseFrom_isProgram hread).2
    rw [hs] at hread
    obtain ⟨W₂, h₂, rfl, hm⟩ := Registry.held_parse hread
    obtain ⟨W₃, h₃, hnext, hafter⟩ := SourceUnit.known_after (hknown.up (by order)) hm.known rfl hw
    refine ⟨W₃, _, helper.elements, hnext.symm, hafter, fun n hn t ht => ?_, rfl⟩
    obtain ⟨helper', hw', hslots⟩ := hprogram.view
    cases hw.symm.trans hw'
    have hmem : t ∈ m.tokens := Node.mem_tokens.2 ⟨.list helper.elements, by simp [hslots, NodeView.toSlots],
      Slot.mem_tokens.2 (.inr ⟨n, hn, ht⟩)⟩
    exact Nat.le_trans hk (hprogram.tokens t hmem).1

/-- The nodes are among others in their order, each as the object that it is; or the first one is there built anew, with
other trivia in front, behind a statement that declares a captured `this`. -/
def Node.AreKeptIn (plain out : List Node) : Prop :=
  plain.Sublist out ∨ ∃ first behind before capture moved rest, plain = first :: behind ∧
    out = before ++ capture :: moved :: rest ∧ capture.DeclaresThis ∧ moved.IsMoved first ∧ behind.Sublist rest

theorem Node.AreKeptIn.behind {plain out before : List Node} (h : Node.AreKeptIn plain out) :
    Node.AreKeptIn plain (before ++ out) := by
  rcases h with h | ⟨first, behind, before', capture, moved, rest, hplain, rfl, hrest⟩
  · exact .inl (h.trans (List.sublist_append_right before out))
  · exact .inr ⟨first, behind, before ++ before', capture, moved, rest, hplain, by rw [List.append_assoc], hrest⟩

/-- What plain statements stand for is among what all of them stand for. -/
theorem sublist_flatten {parts : List (List Node)} (h : List.Forall₂ (Node.StandsFor k) ns parts) :
    (ns.filter Node.isPlain).Sublist parts.flatten := by
  induction h with
  | nil => exact List.nil_sublist _
  | @cons n ms ns parts hn _ ih =>
    rw [List.flatten_cons]
    cases hplain : n.isPlain with
    | false =>
      rw [List.filter_cons_of_neg (by simp [hplain])]
      exact ih.trans (List.sublist_append_right ms _)
    | true =>
      rw [List.filter_cons_of_pos hplain, hn.plain hplain]
      exact ih.cons_cons n

/-- **Plain statements are kept** when the tokens of statements are told apart, whether a `this` was captured or not. -/
theorem areKeptIn_of_copies {j : ObjectId} {s : Supplied (List ObjectId)} {parts : List (List Node)}
    {statements : List Node} (hk : k ≤ next) (hunmet : AreUnmet k s ns)
    (hparts : List.Forall₂ (Node.Becomes k next) ns parts)
    (hstatements : statements = parts.flatten ∨ ∃ c : LoweringContext, statements = (c.captureAtHead parts.flatten next).1)
    (h : RowCopies j s statements us) : Node.AreKeptIn (ns.filter Node.isPlain) us := by
  have hstand : List.Forall₂ (Node.StandsFor k) ns parts := hparts.imp (fun _ _ h => h.standsFor)
  rcases hstatements with rfl | ⟨c, rfl⟩
  · exact .inl (RowCopies.sublist hstand hunmet h)
  cases hflat : parts.flatten with
  | nil =>
    have hnone := hflat ▸ sublist_flatten hstand
    rw [List.sublist_nil.1 hnone]
    exact .inl (List.nil_sublist _)
  | cons first rest =>
    obtain ⟨capture, trivia, l, hhead, hdeclares, hnew, hl⟩ := captureAtHead_cons c first rest hk
    rw [hflat, hhead] at h
    obtain ⟨us₁, us₂, s₁, rfl, hcapture, hbehind, hown⟩ := h.uncons
    obtain ⟨u, rfl, houtline, -, -⟩ := hcapture.one
    -- What is written for the capture is new, so behind it no token of the program was met.
    have hunmet₁ : AreUnmet k s₁ ns := by
      refine ⟨hunmet.distinct, hunmet.older, fun n hn t ht hmem => ?_⟩
      rcases hown _ hmem with hmet | ⟨m, hm, t', ht', heq⟩
      · exact hunmet.unmet n hn t ht hmet
      · rw [List.mem_singleton.1 hm] at ht'
        exact absurd (hunmet.older n hn t ht) (Nat.not_lt.2 (heq ▸ hnew t' ht'))
    have hmoved : ∀ W : Registry, W.next = next → first.Known W → ∀ t ∈ (first.withLeading trivia l).1.tokens, W.mine t.id :=
      fun W hW hfirst => (mine_withLeading hfirst (hW.symm ▸ hl)).2
    rcases RowCopies.sublist_moved hmoved hparts hunmet₁ hflat hbehind with
      hsub | ⟨plain, v, us₃, hplain, rfl, hsame, hlexemes, hsub⟩
    · exact .inl (hsub.trans (List.sublist_append_right [u] us₂))
    · obtain ⟨ms, hms, hmem⟩ := List.mem_flatten.1 (hflat ▸ List.mem_cons_self : first ∈ parts.flatten)
      obtain ⟨n, hn⟩ := exists_of_mem_forall₂ hparts hms
      obtain ⟨W, hW, -, hknown⟩ := hn.known
      have houtside : (first.withLeading trivia l).1.outline = first.outline :=
        (mine_withLeading (hknown first hmem) (hW.symm ▸ hl)).1
      exact .inr ⟨first, plain, [], u, v, us₃, hplain, rfl, .of_outline houtline hdeclares,
        ⟨hsame.trans houtside, trivia, l, hlexemes⟩, hsub⟩

/-- **Plain statements are kept** by all that is done to a program. -/
theorem areKeptIn_lowerSpecific (hparse : parseFrom text i = (.ok tree, k)) (hnext : k ≤ next)
    (hheight : tree.height ≤ LoweringFault.maxTreeDepth) (h : tree.lowerSpecific o ⟨next, .initial⟩ = .ok m s') :
    ∃ program result, tree.view? SourceUnit = some program ∧ m.view? SourceUnit = some result ∧
      Node.AreKeptIn (program.elements.filter Node.isPlain) result.elements := by
  obtain ⟨lowered, s₁, helped, s₂, hrules, hhelped, hunique⟩ := Node.lowerSpecific_eq_ok h
  have hprogram := (parseFrom_isProgram hparse).2
  obtain ⟨program, id, statements, j, parts, hv, rfl, hj, hparts, hstatements⟩ :=
    becomes_lowerByRules hparse hnext hheight hrules
  obtain ⟨W₁, hs₁, hle₁, hknown⟩ := known_lowerByRules hparse hnext hrules
  obtain ⟨W₂, id', helper, hs₂, hknown₂, hnew, rfl⟩ := known_helped (hs₁ ▸ Nat.le_trans hnext hle₁) hs₁ hknown hhelped
  rw [hs₂] at hunique
  obtain ⟨id₃, result, s₃, rfl, hcopies, hcopied⟩ := SourceUnit.copies hknown₂.schematic hknown₂.olderThan hunique
  have houtlines : result.elements.map Node.outline = (helper ++ statements).map Node.outline := by
    obtain ⟨W₃, -, -, x, hx, hshows⟩ := records_uniqueTokens hknown₂
    rw [hunique] at hx
    cases hx
    have houtline := hshows.outline
    simp only [Node.outline_mk, NodeView.toSlots, List.map_cons, Slot.outline_list, Node.mk.injEq, List.cons.injEq,
      Slot.list.injEq] at houtline
    exact houtline.2.2.1
  -- The helper stands in front, and is told apart first; its objects are new, so they meet none of the program.
  have hrow : RowCopies s₃.next ⟨W₂.next, []⟩ (helper ++ statements) result.elements := ⟨⟨_, _, _, hcopies⟩, hcopied, houtlines⟩
  obtain ⟨us₁, us₂, s₄, hsplit, -, hbehind, hown⟩ := hrow.split
  refine ⟨program, result, hv, rfl, ?_⟩
  rw [hsplit]
  have htokens : tree.tokens = program.elements.flatMap Node.tokens ++ [program.endOfFile] := by
    obtain ⟨program', hv', hslots⟩ := hprogram.view
    cases hv.symm.trans hv'
    rw [Node.tokens_eq, hslots]
    simp [NodeView.toSlots]
  have hdistinct := hprogram.distinct
  rw [htokens, List.map_append] at hdistinct
  have holder : ∀ n ∈ program.elements, ∀ t ∈ n.tokens, t.id < k := fun n hn t ht =>
    hprogram.older.tokens t (htokens ▸ List.mem_append_left _ (List.mem_flatMap.2 ⟨n, hn, ht⟩))
  refine (areKeptIn_of_copies hj ⟨hdistinct.of_append_left, holder, fun n hn t ht hmem => ?_⟩ hparts hstatements
    hbehind).behind
  rcases hown _ hmem with hmet | ⟨h, hh, t', ht', heq⟩
  · cases hmet
  · exact absurd (holder n hn t ht) (Nat.not_lt.2 (heq ▸ hnew h hh t' ht'))

/-- The rules give a program back that is plain as a whole. -/
theorem lowerByRules_of_isPlain (hparse : parseFrom text i = (.ok tree, k)) (hheight : tree.height ≤ LoweringFault.maxTreeDepth)
    (hplain : tree.isPlain = true) (layout : LayoutOptions) (next : ObjectId) :
    ∃ next', tree.lowerByRules layout ⟨next, .initial⟩ = .ok tree ⟨next', .initial⟩ := by
  have hprogram := (parseFrom_isProgram hparse).2
  have huntouched := Node.untouched_of_isPlain (parseFrom_formed hparse) hprogram.wellFormed hprogram.older hplain
  obtain ⟨next', -, hvisit⟩ := givesBack_visitUpTo (Positions.ofTree tree layout) layout huntouched hheight
    ⟨next, .initial⟩ rfl
  exact ⟨next', Work.bind_of_ok hvisit⟩

/-- A program that holds nothing of the dialect is not lowered at all. -/
theorem lower_of_not_isSpecific (hparse : parseFrom text i = (.ok tree, k)) (hspecific : tree.isSpecific = false)
    (o : LoweringOptions) (next : ObjectId) : tree.lower o next = (.ok tree, next) := by
  have hprogram := (parseFrom_isProgram hparse).2
  unfold Node.lower
  rw [Node.checkInvariants_eq_ok hprogram.wellFormed hprogram.distinct]
  simp only [hspecific, Bool.false_eq_true, if_false]

end Program

/-- **Plain code is kept.**  The rules give a program back that is plain as a whole, as lowering does that does not apply
them; and of any program, the plain statements are in the result in their order, each as the object that it was, but for
the first one where a captured `this` is declared in front of it. -/
theorem lower_keeps_plain (text : List Char) (o : LoweringOptions) (tree : Node) (i k next : ObjectId)
    (hparse : parseFrom text i = (.ok tree, k)) (hnext : k ≤ next) (hheight : tree.height ≤ LoweringFault.maxTreeDepth) :
    (tree.isPlain = true →
      (∃ next', tree.lowerByRules o.layout ⟨next, .initial⟩ = .ok tree ⟨next', .initial⟩) ∧
        (tree.lower o next).1 = .ok tree) ∧
    ∀ u, (tree.lower o next).1 = .ok u → ∃ program result, tree.view? SourceUnit = some program ∧
      u.view? SourceUnit = some result ∧ Node.AreKeptIn (program.elements.filter Node.isPlain) result.elements := by
  refine ⟨fun hplain => ⟨lowerByRules_of_isPlain hparse hheight hplain o.layout next, ?_⟩, fun u hlower => ?_⟩
  · have hspecific : tree.isSpecific = false := by
      simp only [Node.isPlain, Bool.and_eq_true, Bool.not_eq_true'] at hplain
      exact hplain.1
    rw [lower_of_not_isSpecific hparse hspecific]
  rcases Node.lower_eq_ok hlower with ⟨-, s, hrun⟩ | ⟨-, rfl⟩
  · exact areKeptIn_lowerSpecific hparse hnext hheight hrun
  · obtain ⟨program, hv, -⟩ := (parseFrom_isProgram hparse).2.view
    exact ⟨program, program, hv, hv, .inl List.filter_sublist⟩

/-- A program that is plain as a whole, and one whose only plain statement is behind a captured `this`. -/
theorem lower_keeps_plain_captured :
    (∃ tree k next', parseFrom "f(this);".toList 0 = (.ok tree, k) ∧
      tree.lowerByRules LoweringOptions.standard.layout ⟨k, .initial⟩ = .ok tree ⟨next', .initial⟩) ∧
    ∃ tree k u program result, parseFrom "f(this);\nvar g = () => this;".toList 0 = (.ok tree, k) ∧
      (tree.lower .standard k).1 = .ok u ∧ tree.view? SourceUnit = some program ∧ u.view? SourceUnit = some result ∧
      (program.elements.filter Node.isPlain).length = 1 ∧
      Node.AreKeptIn (program.elements.filter Node.isPlain) result.elements := by
  constructor
  · have hok : lowersInto .standard (fun tree _ => tree.isPlain && decide (tree.height ≤ LoweringFault.maxTreeDepth))
        "f(this);".toList = true := by decide +kernel
    obtain ⟨tree, k, u, hparse, -, htest⟩ := exists_of_lowersInto _ _ _ hok
    simp only [Bool.and_eq_true, decide_eq_true_eq] at htest
    obtain ⟨next', hrun⟩ := ((lower_keeps_plain _ .standard tree 0 k k hparse le_rfl htest.2).1 htest.1).1
    exact ⟨tree, k, next', hparse, hrun⟩
  · have hok : lowersInto .standard (fun tree _ => decide (tree.height ≤ LoweringFault.maxTreeDepth) &&
        (tree.view? SourceUnit).all (fun program => (program.elements.filter Node.isPlain).length == 1))
        "f(this);\nvar g = () => this;".toList = true := by decide +kernel
    obtain ⟨tree, k, u, hparse, hlower, htest⟩ := exists_of_lowersInto _ _ _ hok
    simp only [Bool.and_eq_true, decide_eq_true_eq] at htest
    obtain ⟨hheight, hlength⟩ := htest
    obtain ⟨program, result, hv, hu, hkept⟩ := (lower_keeps_plain _ .standard tree 0 k k hparse le_rfl hheight).2 u hlower
    rw [hv] at hlength
    exact ⟨tree, k, u, program, result, hparse, hlower, hv, hu, eq_of_beq hlength, hkept⟩

end Downlevel
