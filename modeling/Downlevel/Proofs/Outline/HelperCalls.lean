import Downlevel.Proofs.Outline.Derived
import Downlevel.Proofs.Outline.Lexical
/-!
# Proofs.Outline.HelperCalls — the helper for derived classes stands in front of what calls it

Where no name of a program is `__extends`, what is made of it calls `__extends` if and only if the rules lowered a class
with a base (`Mention.Told`), and the helper stands in front of the statements in the same case
(`parts_lowerSpecific`).  Nothing but the helper gives the name to anything, so the name is declared exactly where it is
called, and then by the first statement alone (`lower_declares_helper`).
-/
namespace Downlevel

variable {text : List Char} {tree n m u : Node} {ns ns' : List Node} {t : Token} {d inArrow : Bool} {i j k next : ObjectId}
  {o : LoweringOptions} {layout : LayoutOptions}

/-- The node gives the name `__extends` to something: it holds the word, and it is neither an expression itself nor does it
take a member of one. -/
def Node.declaresExtends (n : Node) : Bool :=
  n.kind != .identifierName && n.kind != .memberAccessExpression && (n.slots.flatMap Slot.ownTokens).any Token.isExtends

/-! ## What mentions tell of the nodes -/

theorem Node.call_mem_mentionsHere : .call ∈ n.mentionsHere ↔ n.callsExtends = true := by
  unfold mentionsHere
  by_cases hk : n.kind = .identifierName <;> by_cases hc : n.callsExtends = true <;> simp [hk, hc]

theorem Node.any_callsExtends : ns.any Node.callsExtends = true ↔ .call ∈ ns.flatMap Node.mentionsHere := by
  rw [List.mem_flatMap, List.any_eq_true]
  exact exists_congr (fun m => and_congr_right (fun _ => call_mem_mentionsHere.symm))

theorem Node.loose_mem_mentionsHere (h : n.declaresExtends = true) : .loose ∈ n.mentionsHere := by
  simp only [declaresExtends, Bool.and_eq_true, bne_iff_ne, List.any_eq_true] at h
  obtain ⟨⟨hk, -⟩, t, ht, hname⟩ := h
  rw [mentionsHere, if_neg hk]
  exact List.mem_append_left _ (List.mem_map.2 ⟨t, List.mem_filter.2 ⟨ht, hname⟩, rfl⟩)

/-- Where no mention is loose, the name is not declared. -/
theorem Node.countP_declaresExtends (h : .loose ∉ ns.flatMap Node.mentionsHere) : ns.countP Node.declaresExtends = 0 :=
  List.countP_eq_zero.2 (fun m hm hd => h (List.mem_flatMap.2 ⟨m, hm, loose_mem_mentionsHere hd⟩))

/-- The mentions of trees in a row are those of their nodes. -/
theorem Node.mentions_nodes (ns : List Node) : ns.flatMap Node.mentions = (ns.flatMap Node.all).flatMap Node.mentionsHere :=
  List.flatMap_assoc.symm

theorem Node.name_mem_of_call (h : .call ∈ n.mentions) : .name ∈ n.mentions := by
  obtain ⟨m, hm, hcall⟩ := List.mem_flatMap.1 h
  rw [call_mem_mentionsHere] at hcall
  unfold callsExtends at hcall
  split at hcall
  · rename_i id callee slots
    unfold isExtends at hcall
    split at hcall
    · rename_i id' t
      have hcallee : Node.mk id' .identifierName [.token t] ∈ n.all :=
        Node.mem_all_trans hm (Node.mem_all_of_child (List.mem_flatMap.2 ⟨_, List.mem_cons_self, List.mem_singleton.2 rfl⟩)
          (Node.mem_all_self _))
      refine List.mem_flatMap.2 ⟨_, hcallee, ?_⟩
      simp [mentionsHere, Node.slots, Node.kind, Slot.ownTokens, hcall]
    · cases hcall
  · cases hcall

/-- **The helper is called where a class with a base was lowered**, and only there. -/
theorem Mention.Told.call_iff (h : Mention.Told d (ns.flatMap Node.mentions)) :
    d = true ↔ .call ∈ ns.flatMap Node.mentions := by
  refine ⟨h.called, fun hcall => h.named ?_⟩
  obtain ⟨n, hn, hcall⟩ := List.mem_flatMap.1 hcall
  exact List.mem_flatMap.2 ⟨n, hn, Node.name_mem_of_call hcall⟩

/-! ## Outlines -/

theorem Token.isExtends_outline (t : Token) : t.outline.isExtends = t.isExtends := rfl

theorem Slot.ownTokens_outline (s : Slot) : s.outline.ownTokens = s.ownTokens.map Token.outline := by
  cases s <;> simp [Slot.ownTokens]

theorem Node.ownTokens_outline (n : Node) :
    n.outline.slots.flatMap Slot.ownTokens = (n.slots.flatMap Slot.ownTokens).map Token.outline := by
  rw [Node.slots_outline, List.flatMap_map, List.map_flatMap]
  exact List.flatMap_congr (fun s _ => s.ownTokens_outline)

theorem Node.declaresExtends_outline (n : Node) : n.outline.declaresExtends = n.declaresExtends := by
  rw [declaresExtends, declaresExtends, ownTokens_outline, kind_outline, List.any_map]
  rfl

theorem Node.isExtends_outline (n : Node) : n.outline.isExtends = n.isExtends := by
  by_cases hk : n.kind = .identifierName
  · obtain ⟨id, kind, slots⟩ := n
    obtain rfl : kind = .identifierName := hk
    rw [Node.outline_mk]
    cases slots with
    | nil => rfl
    | cons s slots =>
      cases slots with
      | nil => cases s <;> simp [isExtends, Token.isExtends_outline]
      | cons _ _ => cases s <;> rfl
  · rw [isExtends_of_kind hk, isExtends_of_kind (by rwa [kind_outline])]

theorem Node.callsExtends_outline (n : Node) : n.outline.callsExtends = n.callsExtends := by
  by_cases hk : n.kind = .invocationExpression
  · obtain ⟨id, kind, slots⟩ := n
    obtain rfl : kind = .invocationExpression := hk
    rw [Node.outline_mk]
    cases slots with
    | nil => rfl
    | cons s slots => cases s <;> simp [callsExtends, isExtends_outline]
  · rw [callsExtends_of_kind hk, callsExtends_of_kind (by rwa [kind_outline])]

/-- **What is mentioned is not a matter of layout.** -/
theorem Node.mentions_outline (n : Node) : n.outline.mentions = n.mentions := by
  have hhere : ∀ m : Node, m.outline.mentionsHere = m.mentionsHere := fun m => by
    rw [mentionsHere, mentionsHere, ownTokens_outline, kind_outline, callsExtends_outline, List.filter_map, List.map_map]
    rfl
  rw [mentions, mentions, all_outline, List.flatMap_map]
  exact List.flatMap_congr (fun m _ => hhere m)

theorem mentions_of_outlines (h : ns.map Node.outline = ns'.map Node.outline) :
    ns.flatMap Node.mentions = ns'.flatMap Node.mentions := by
  have hmentions : ∀ ns : List Node, (ns.map Node.outline).flatMap Node.mentions = ns.flatMap Node.mentions :=
    fun ns => List.flatMap_map .. |>.trans (List.flatMap_congr (fun m _ => m.mentions_outline))
  rw [← hmentions, h, hmentions]

/-! ## Programs without the name -/

/-- Where no identifier of what a text reads as is `__extends`, no word of it is. -/
theorem parseFrom_lacks (hparse : parseFrom text i = (.ok tree, k))
    (hwords : ∀ t ∈ tree.tokens, t.kind = .identifier → t.text ≠ "__extends".toList) :
    ∀ t ∈ tree.tokens, t.isExtends = false := by
  intro t ht
  have hproper := parseFrom_proper hparse tree (Node.mem_all_self _) t ht
  refine Bool.eq_false_iff.2 (fun hname => ?_)
  obtain ⟨hkind, htext⟩ := Bool.and_eq_true_iff.1 hname
  have hkind : (t.kind == .identifier || t.kind.isKeyword) = true := hkind
  have htext : t.text = "__extends".toList := eq_of_beq htext
  cases hk : t.kind with
  | identifier => exact hwords t ht hk htext
  | keyword word =>
    have hspelled : word.text = "__extends".toList := (hproper.word word hk).symm.trans htext
    exact absurd hspelled (by cases word <;> decide)
  | _ =>
    rw [hk] at hkind
    cases hkind

/-- Where no word is `__extends`, none is in the outline. -/
theorem Node.lacks_outline (hfits : n.WellFormed) (h : ∀ t ∈ n.tokens, t.isExtends = false) : n.outline.Lacks 1 :=
  Node.words_outline hfits h

/-- A tree without the name mentions nothing. -/
theorem Node.mentions_eq_nil (h : ∀ t ∈ n.tokens, t.isExtends = false) : n.mentions = [] := by
  have hcalls : ∀ p ∈ n.mentions, p = .call := fun p hp => by
    obtain ⟨m, hm, hp⟩ := List.mem_flatMap.1 hp
    rw [mentionsHere_eq (fun s hs => ⟨fun _ _ => trivial, (Node.every_tokens n).1 h m hm s hs⟩)] at hp
    split at hp
    · exact List.mem_singleton.1 hp
    · cases hp
  refine List.eq_nil_iff_forall_not_mem.2 (fun p hp => ?_)
  obtain rfl := hcalls p hp
  exact absurd (hcalls _ (name_mem_of_call hp)) (by decide)

/-- **The draft of a program tells** where what becomes of it mentions the helper. -/
theorem Draft.told_ofTree (hn : n.outline.Lacks k) :
    (Draft.ofTree n.outline).Notes inArrow (fun m marks => Mention.Told marks.derived m.mentions) :=
  Draft.told_lower (Draft.tells_visitUpTo _) hn

/-! ## The helper -/

/-- **The helper is one statement**, which declares the name once and does not call itself. -/
theorem Node.AreHelper.declares (h : Node.AreHelper layout ns) (hend : ∃ e : LineEnding, layout.newLine = e.text) :
    ∃ helper, ns = [helper] ∧ helper.all.countP Node.declaresExtends = 1 ∧
      helper.all.any Node.callsExtends = false := by
  have hsame : (fun n : Node => (n.all.countP Node.declaresExtends, n.all.any Node.callsExtends)) =
      (fun n => (n.all.countP Node.declaresExtends, n.all.any Node.callsExtends)) ∘ Node.outline := by
    funext n
    rw [Function.comp_apply, Node.all_outline, List.countP_map, List.any_map]
    simp only [Function.comp_def, Node.declaresExtends_outline, Node.callsExtends_outline]
  have hstandard : helperStatements.map (fun n => (n.all.countP Node.declaresExtends, n.all.any Node.callsExtends)) =
      [(1, false)] := by decide +kernel
  rw [hsame, ← List.map_map, ← h.outlines hend, List.map_map, ← hsame] at hstandard
  obtain ⟨helper, rfl, hone⟩ := List.map_eq_singleton_iff.1 hstandard
  exact ⟨helper, rfl, congrArg Prod.fst hone, congrArg Prod.snd hone⟩

/-! ## Programs -/

/-- The calls in a program are those in its statements. -/
theorem Node.calls_of_viewProgram {v : SourceUnit} (hv : n.view? SourceUnit = some v) :
    n.all.any Node.callsExtends = (v.elements.flatMap Node.all).any Node.callsExtends := by
  have hkind := kind_of_view? hv
  have hchildren : n.children = v.elements := by simp [Node.children, slots_of_view? hv, NodeView.toSlots]
  rw [Node.all_eq, hchildren, List.any_cons, callsExtends_of_kind (by rw [hkind]; decide), Bool.false_or]

/-- So are the places that give the name to something. -/
theorem Node.declares_of_viewProgram {v : SourceUnit} (hv : n.view? SourceUnit = some v)
    (hend : v.endOfFile.isExtends = false) :
    n.all.countP Node.declaresExtends = (v.elements.flatMap Node.all).countP Node.declaresExtends := by
  have hchildren : n.children = v.elements := by simp [Node.children, slots_of_view? hv, NodeView.toSlots]
  have hself : n.declaresExtends = false := by
    simp [declaresExtends, slots_of_view? hv, NodeView.toSlots, Slot.ownTokens, hend]
  rw [Node.all_eq, hchildren, List.countP_cons_of_neg (by rw [hself]; decide)]

/-- What is made of a tree of the dialect declares the name where it is called, by its first statement. -/
theorem declares_lowerSpecific {s : Supplied LoweringState} (hparse : parseFrom text i = (.ok tree, k)) (hnext : k ≤ next)
    (hlacks : ∀ t ∈ tree.tokens, t.isExtends = false) (hend : ∃ e : LineEnding, o.layout.newLine = e.text)
    (hemit : o.emitHelpers = true) (h : tree.lowerSpecific o ⟨next, .initial⟩ = .ok u s) :
    ∃ result, u.view? SourceUnit = some result ∧
      if u.all.any Node.callsExtends then ∃ helper own, result.elements = helper :: own ∧
        Node.AreHelper o.layout [helper] ∧ helper.all.countP Node.declaresExtends = 1 ∧
        u.all.countP Node.declaresExtends = 1
      else u.all.countP Node.declaresExtends = 0 := by
  obtain ⟨m', marks, program, result, front, own, hdraft, hv, hu, hsplit, hfront, hown, heof⟩ :=
    parts_lowerSpecific hparse hnext h
  have hdrafted : Mention.Told marks.derived m'.mentions :=
    Draft.told_ofTree (Node.lacks_outline (parseFrom_isProgram hparse).2.wellFormed hlacks) _ _ hdraft
  obtain ⟨hnameless, hmentions⟩ := Node.mentions_of_view hdrafted.strict hv (by decide) (by decide)
  simp only [NodeView.toSlots, List.forall_mem_cons, Slot.each_token, List.flatMap_cons, List.flatMap_nil,
    Slot.nodes_list, Slot.nodes_token, List.append_nil] at hnameless hmentions
  have htold : Mention.Told marks.derived (own.flatMap Node.mentions) := by
    rw [mentions_of_outlines hown, ← hmentions]
    exact hdrafted
  have hlast : result.endOfFile.isExtends = false := by
    rw [← Token.isExtends_outline, heof, Token.isExtends_outline]
    exact hnameless.2.1
  -- A class with a base is marked exactly where a call of the helper is written.
  have hcalls : marks.derived = (own.flatMap Node.all).any Node.callsExtends := by
    rw [Bool.eq_iff_iff, Node.any_callsExtends, ← Node.mentions_nodes]
    exact htold.call_iff
  have hdeclares : (own.flatMap Node.all).countP Node.declaresExtends = 0 :=
    Node.countP_declaresExtends (Node.mentions_nodes own ▸ htold.strict)
  refine ⟨result, hu, ?_⟩
  rw [Node.calls_of_viewProgram hu, Node.declares_of_viewProgram hu hlast, hsplit, List.flatMap_append, List.any_append,
    List.countP_append, hdeclares, ← hcalls]
  rw [hemit, Bool.true_and] at hfront
  by_cases hd : marks.derived = true
  · rw [if_pos hd] at hfront
    obtain ⟨helper, rfl, hone, hnone⟩ := hfront.declares hend
    rw [if_pos (by rw [hd, Bool.or_true])]
    exact ⟨helper, own, rfl, hfront, hone, by simpa using hone⟩
  · rw [if_neg hd] at hfront
    subst hfront
    rw [if_neg (by simpa using hd)]
    rfl

/-- **The helper for derived classes is there exactly where it is called.**  Of a program in which no identifier is
`__extends`, what comes out calls `__extends` only behind the helper, which is the first statement and the one place where
the name is declared; and where nothing calls it, nothing declares it. -/
theorem lower_declares_helper (text : List Char) (o : LoweringOptions) (tree u : Node) (i k next : ObjectId)
    (hparse : parseFrom text i = (.ok tree, k)) (hnext : k ≤ next)
    (hwords : ∀ t ∈ tree.tokens, t.kind = .identifier → t.text ≠ "__extends".toList)
    (hend : ∃ e : LineEnding, o.layout.newLine = e.text) (hemit : o.emitHelpers = true)
    (hlower : (tree.lower o next).1 = .ok u) :
    ∃ result, u.view? SourceUnit = some result ∧
      if u.all.any Node.callsExtends then ∃ helper own, result.elements = helper :: own ∧
        Node.AreHelper o.layout [helper] ∧ helper.all.countP Node.declaresExtends = 1 ∧
        u.all.countP Node.declaresExtends = 1
      else u.all.countP Node.declaresExtends = 0 := by
  have hlacks := parseFrom_lacks hparse hwords
  rcases Node.lower_eq_ok hlower with ⟨-, s, hrun⟩ | ⟨-, rfl⟩
  · exact declares_lowerSpecific hparse hnext hlacks hend hemit hrun
  · obtain ⟨W, -, hheld⟩ := held_of_parse hparse hnext
    obtain ⟨result, hu, -⟩ := hheld.stands.sourceUnit (parseFrom_isProgram hparse).2.kind
    have hnone : u.all.flatMap Node.mentionsHere = [] := Node.mentions_eq_nil hlacks
    have hcalls : ¬ u.all.any Node.callsExtends = true := by
      rw [Node.any_callsExtends, hnone]
      exact List.not_mem_nil
    refine ⟨result, hu, ?_⟩
    rw [if_neg hcalls]
    exact Node.countP_declaresExtends (hnone ▸ List.not_mem_nil)

/-- A program without the name, of which what comes out with the helper asked for calls the helper or does not. -/
theorem exists_of_lowersCalling (calls : Bool) (text : List Char)
    (h : lowersInto { LoweringOptions.standard with emitHelpers := true } (fun tree u =>
      tree.tokens.all (fun t => !(t.kind == .identifier && t.text == "__extends".toList)) &&
        u.all.any Node.callsExtends == calls) text = true) : ∃ tree k u,
    parseFrom text 0 = (.ok tree, k) ∧ (∀ t ∈ tree.tokens, t.kind = .identifier → t.text ≠ "__extends".toList) ∧
    (tree.lower { LoweringOptions.standard with emitHelpers := true } k).1 = .ok u ∧
    u.all.any Node.callsExtends = calls := by
  obtain ⟨tree, k, u, hparse, hlower, htest⟩ := exists_of_lowersInto _ _ _ h
  obtain ⟨hwords, hcalls⟩ := Bool.and_eq_true_iff.1 htest
  refine ⟨tree, k, u, hparse, fun t ht hk htext => ?_, hlower, eq_of_beq hcalls⟩
  have hword := List.all_eq_true.1 hwords t ht
  rw [hk, htext] at hword
  cases hword

/-- A derived class that is only announced brings no helper; one in a namespace does. -/
theorem lower_declares_helper_ambient :
    (∃ tree k u, parseFrom "declare class A extends B \x7b \x7d".toList 0 = (.ok tree, k) ∧
      (∀ t ∈ tree.tokens, t.kind = .identifier → t.text ≠ "__extends".toList) ∧
      (tree.lower { LoweringOptions.standard with emitHelpers := true } k).1 = .ok u ∧
      u.all.any Node.callsExtends = false ∧ u.all.countP Node.declaresExtends = 0) ∧
    ∃ tree k u result helper own,
      parseFrom "declare class A extends B \x7b \x7d module M \x7b class C extends B \x7b \x7d \x7d".toList 0 =
        (.ok tree, k) ∧
      (∀ t ∈ tree.tokens, t.kind = .identifier → t.text ≠ "__extends".toList) ∧
      (tree.lower { LoweringOptions.standard with emitHelpers := true } k).1 = .ok u ∧
      u.all.any Node.callsExtends = true ∧ u.view? SourceUnit = some result ∧ result.elements = helper :: own ∧
      Node.AreHelper LayoutOptions.standard [helper] ∧ helper.all.countP Node.declaresExtends = 1 ∧
      u.all.countP Node.declaresExtends = 1 := by
  constructor
  · obtain ⟨tree, k, u, hparse, hwords, hlower, hcalls⟩ := exists_of_lowersCalling false
      "declare class A extends B \x7b \x7d".toList (by decide +kernel)
    obtain ⟨_, _, hdeclares⟩ := lower_declares_helper _ _ tree u 0 k k hparse le_rfl hwords ⟨.lf, rfl⟩ rfl hlower
    rw [hcalls] at hdeclares
    exact ⟨tree, k, u, hparse, hwords, hlower, hcalls, hdeclares⟩
  · obtain ⟨tree, k, u, hparse, hwords, hlower, hcalls⟩ := exists_of_lowersCalling true
      "declare class A extends B \x7b \x7d module M \x7b class C extends B \x7b \x7d \x7d".toList (by decide +kernel)
    obtain ⟨result, hu, hdeclares⟩ := lower_declares_helper _ _ tree u 0 k k hparse le_rfl hwords ⟨.lf, rfl⟩ rfl hlower
    rw [hcalls, if_pos rfl] at hdeclares
    obtain ⟨helper, own, helements, hhelper, hone, hwhole⟩ := hdeclares
    exact ⟨tree, k, u, result, helper, own, hparse, hwords, hlower, hcalls, hu, helements, hhelper, hone, hwhole⟩

end Downlevel
