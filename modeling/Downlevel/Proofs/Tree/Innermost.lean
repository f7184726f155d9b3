import Downlevel.Proofs.Tree.Places
/-!
# Proofs.Tree.Innermost — the search for the deepest place

`Cursor.innermost?` goes down only where an offset lies, and into the first child that answers.  That finds the deepest
place of a kind, since the places below a place lie one behind the other: an offset lies in one of them at most.  Only
an expression that was left out takes up no room.  It stands where the next place starts, or where the place above ends,
if no characters set it off; for this one kind the search is right in trees whose places set them off
(`Cursor.SetsOff`), and there is a tree in which it misses one (`Cursor.innermost?_deepest_fails`).
-/
namespace Downlevel

/-- The node takes up room, or it is an expression that was left out and holds nothing. -/
structure Node.TakesRoom (n : Node) : Prop where
  width : n.kind ≠ .omittedExpression → 0 < n.fullWidth
  schema : n.matchesSchema = true

theorem Node.TakesRoom.children_eq_nil {n : Node} (h : n.TakesRoom) (hk : n.kind = .omittedExpression) :
    n.children = [] := by
  obtain ⟨id, kind, slots⟩ := n
  obtain rfl : kind = .omittedExpression := hk
  have hfits := h.schema
  cases slots with
  | nil => rfl
  | cons s slots => cases hfits

namespace Cursor

variable {c d e : Cursor} {offset : Nat} {kind : NodeKind}

/-- Behind each expression that was left out stand characters, in front of the next place and the end. -/
structure SetsOff (c : Cursor) : Prop where
  next : c.children.Pairwise (fun d e => d.kind = .omittedExpression → d.stop < e.start)
  last : ∀ d ∈ c.children, d.kind = .omittedExpression → d.stop < c.stop

theorem holds_iff : c.holds offset = true ↔ offset = c.start ∨ c.start < offset ∧ offset < c.stop := by
  simp [holds]

theorem start_le_of_holds (h : c.holds offset = true) : c.start ≤ offset := by
  rcases holds_iff.1 h with h | h
  · exact Nat.le_of_eq h.symm
  · exact Nat.le_of_lt h.1

theorem lt_stop_of_holds (h : c.holds offset = true) (hw : 0 < c.node.fullWidth) : offset < c.stop := by
  rcases holds_iff.1 h with h | h
  · rw [h, stop]
    omega
  · exact h.2

theorem holds_of_le (h : c.start ≤ offset) (h' : offset < c.stop) : c.holds offset = true := by
  rw [holds_iff]
  omega

theorem above_of_mem_children (h : d ∈ c.children) : d.above = (c.node, c.start) :: c.above := by
  obtain ⟨_, -, rfl⟩ := List.mem_map.1 h
  rfl

/-- **A place that is reached is no less deep.** -/
theorem Reaches.length_above_le (h : c.Reaches d) : c.above.length ≤ d.above.length := by
  induction h with
  | refl => exact Nat.le_refl _
  | tail _ hd ih =>
    rw [above_of_mem_children hd, List.length_cons]
    omega

/-- What is left out leads nowhere. -/
theorem Reaches.eq_of_omitted (h : c.Reaches d) (hroom : c.node.TakesRoom) (hk : c.kind = .omittedExpression) :
    d = c := by
  rcases h.cases_head with rfl | ⟨e, he, -⟩
  · rfl
  · have hmem := node_mem_children he
    rw [hroom.children_eq_nil hk] at hmem
    cases hmem

/-- A place leads to itself, or through a place directly below. -/
theorem reaches_iff : c.Reaches d ↔ d = c ∨ ∃ e ∈ c.children, e.Reaches d := by
  constructor
  · intro h
    rcases h.cases_head with rfl | ⟨e, he, hd⟩
    · exact .inl rfl
    · exact .inr ⟨e, he, hd⟩
  · rintro (rfl | ⟨e, he, hd⟩)
    · exact .refl
    · exact .head he hd

/-- The places that are reached set off what was left out, if it is what is searched for. -/
def SetsOffFor (kind : NodeKind) (c : Cursor) : Prop := kind = .omittedExpression → ∀ d, c.Reaches d → d.SetsOff

theorem SetsOffFor.child (h : c.SetsOffFor kind) (hd : d ∈ c.children) : d.SetsOffFor kind :=
  fun hk _ he => h hk _ (.head hd he)

/-- **Where a place of the kind holds an offset, so does each place that leads to it.** -/
theorem Reaches.holds (h : c.Reaches d) (hroom : c.node.Every Node.TakesRoom) (hoff : c.SetsOffFor d.kind)
    (hd : d.holds offset = true) : c.holds offset = true := by
  induction h using Relation.ReflTransGen.head_induction_on with
  | refl => exact hd
  | @head c e he hreach ih =>
    have hroom' := hroom.child (node_mem_children he)
    have hholds := ih hroom' (hoff.child he)
    obtain ⟨hstart, hstop⟩ := within_children he
    refine holds_of_le (Nat.le_trans hstart (start_le_of_holds hholds)) ?_
    by_cases hk : e.kind = .omittedExpression
    · obtain rfl : d = e := Reaches.eq_of_omitted hreach hroom'.self hk
      have hlast := (hoff hk c .refl).last d he hk
      rcases holds_iff.1 hholds with hoffset | hoffset
      · rw [stop] at hlast
        omega
      · omega
    · exact Nat.lt_of_lt_of_le (lt_stop_of_holds hholds (hroom'.self.width hk)) hstop

/-- **Two places of the kind that hold an offset are not below two different children.** -/
theorem not_holds_of_ordered {x y : Cursor} (hroom : d.node.Every Node.TakesRoom) (hroom' : e.node.Every Node.TakesRoom)
    (hoff : d.SetsOffFor x.kind) (hoff' : e.SetsOffFor y.kind) (hordered : d.stop ≤ e.start)
    (hnext : d.kind = .omittedExpression → x.kind = .omittedExpression → d.stop < e.start) (hx : d.Reaches x)
    (hy : e.Reaches y) (hholds : x.holds offset = true) : ¬ y.holds offset = true := by
  intro hholds'
  have hd := hx.holds hroom hoff hholds
  have he := start_le_of_holds (hy.holds hroom' hoff' hholds')
  by_cases hk : d.kind = .omittedExpression
  · obtain rfl : x = d := hx.eq_of_omitted hroom.self hk
    have hlt := hnext hk hk
    rcases holds_iff.1 hd with hoffset | hoffset
    · rw [stop] at hlt
      omega
    · omega
  · have hlt := lt_stop_of_holds hd (hroom.self.width hk)
    omega

/-- The answer of a search from a place down: nothing if no place of the kind holds the offset, else one that does and
than which none is deeper. -/
def Answers (offset : Nat) (kind : NodeKind) (c : Cursor) : Option Cursor → Prop
  | none => ∀ d, c.Reaches d → d.kind = kind → d.holds offset = false
  | some x => c.Reaches x ∧ x.kind = kind ∧ x.holds offset = true ∧
      ∀ d, c.Reaches d → d.kind = kind → d.holds offset = true → d.above.length ≤ x.above.length

/-- **A child that answers answers for its parent**, if those in front of it hold nothing: those behind it cannot. -/
theorem answers_of_child {before behind : List Cursor} {x : Cursor} (hroom : c.node.Every Node.TakesRoom)
    (hoff : c.SetsOffFor kind) (hchildren : c.children = before ++ d :: behind) (hd : Answers offset kind d (some x))
    (hbefore : ∀ e ∈ before, Answers offset kind e none) : Answers offset kind c (some x) := by
  have hmem : d ∈ c.children := by rw [hchildren]; simp
  obtain ⟨hreach, rfl, hx, hdeepest⟩ := hd
  refine ⟨.head hmem hreach, rfl, hx, fun y hy hkind hholds => ?_⟩
  rcases reaches_iff.1 hy with rfl | ⟨e, he, hey⟩
  · exact Reaches.length_above_le (.head hmem hreach)
  · rw [hchildren, List.mem_append, List.mem_cons] at he
    rcases he with hfront | rfl | hbehind
    · rw [hbefore e hfront y hey hkind] at hholds
      cases hholds
    · exact hdeepest y hey hkind hholds
    · have he : e ∈ c.children := by rw [hchildren]; simp [hbehind]
      have hordered := c.ordered_children
      rw [hchildren, List.pairwise_append, List.pairwise_cons] at hordered
      have hnext : d.kind = .omittedExpression → x.kind = .omittedExpression → d.stop < e.start := by
        intro hk hxk
        have hset := (hoff hxk c .refl).next
        rw [hchildren, List.pairwise_append, List.pairwise_cons] at hset
        exact hset.2.1.1 e hbehind hk
      exact absurd hholds (not_holds_of_ordered (hroom.child (node_mem_children hmem))
        (hroom.child (node_mem_children he)) (hoff.child hmem) (hkind ▸ hoff.child he) (hordered.2.1.1 e hbehind)
        hnext hreach hey hx)

/-- Where no child holds a place of the kind, the place itself answers if it is of the kind. -/
theorem answers_of_childless (hholds : c.holds offset = true) (hnone : ∀ d ∈ c.children, Answers offset kind d none) :
    Answers offset kind c (if c.kind = kind then some c else none) := by
  split
  · rename_i hk
    refine ⟨.refl, hk, hholds, fun y hy hkind hyholds => ?_⟩
    rcases reaches_iff.1 hy with rfl | ⟨d, hd, hdy⟩
    · exact Nat.le_refl _
    · rw [hnone d hd y hdy hkind] at hyholds
      cases hyholds
  · rename_i hk
    intro y hy hkind
    rcases reaches_iff.1 hy with rfl | ⟨d, hd, hdy⟩
    · exact absurd hkind hk
    · exact hnone d hd y hdy hkind

/-- **The search answers at every depth.** -/
theorem answers_innermostUpTo? (offset : Nat) (kind : NodeKind) : ∀ (levels : Nat) (c : Cursor),
    c.node.height ≤ levels → c.node.Every Node.TakesRoom → c.SetsOffFor kind →
      Answers offset kind c (innermostUpTo? offset kind levels c)
  | 0, c, hlevels, _, _ => absurd hlevels (by cases hc : c.node; simp [Node.height])
  | levels + 1, c, hlevels, hroom, hoff => by
    have ih : ∀ d ∈ c.children, Answers offset kind d (innermostUpTo? offset kind levels d) := fun d hd =>
      answers_innermostUpTo? offset kind levels d
        (Nat.le_of_lt_succ (Nat.lt_of_lt_of_le (Node.height_lt_of_mem_children (node_mem_children hd)) hlevels))
        (hroom.child (node_mem_children hd)) (hoff.child hd)
    rw [innermostUpTo?]
    split
    · rename_i hholds
      cases hfind : c.children.findSome? (innermostUpTo? offset kind levels) with
      | some x =>
        obtain ⟨before, d, behind, hchildren, hd, hbefore⟩ := List.findSome?_eq_some_iff.1 hfind
        refine answers_of_child hroom hoff hchildren (hd ▸ ih d (by rw [hchildren]; simp)) (fun e he => ?_)
        exact hbefore e he ▸ ih e (by rw [hchildren]; exact List.mem_append_left _ he)
      | none =>
        rw [Option.none_or]
        exact answers_of_childless hholds (fun d hd => List.findSome?_eq_none_iff.1 hfind d hd ▸ ih d hd)
    · rename_i hholds
      intro y hy hkind
      by_contra hyholds
      exact hholds (hy.holds hroom (hkind ▸ hoff) (by simpa using hyholds))

/-- **The search finds the deepest place of a kind that holds an offset, and nothing only if there is none.**
Expressions that were left out need to be set off where they are what is searched for. -/
theorem innermost?_deepest (n : Node) (offset : Nat) (kind : NodeKind) (hroom : n.Every Node.TakesRoom)
    (hoff : (root n).SetsOffFor kind) : Answers offset kind (root n) ((root n).innermost? offset kind) :=
  answers_innermostUpTo? offset kind _ _ (Nat.le_refl _) hroom hoff

/-- In `-;` with the operand left out, the operand stands where the place above it ends, and the search misses it. -/
theorem innermost?_deepest_fails : ∃ (n : Node) (c : Cursor), n.Every Node.TakesRoom ∧ (root n).Reaches c ∧
    c.kind = .omittedExpression ∧ c.holds 1 = true ∧ (root n).innermost? 1 .omittedExpression = none := by
  let operand : Node := .mk 2 .omittedExpression []
  let negation : Node := .mk 3 .prefixUnaryExpression [.token ⟨0, .ofKind (.punctuation .minus)⟩, .node operand]
  let n : Node := .mk 4 .expressionStatement [.node negation, .token ⟨1, .ofKind (.punctuation .semicolon)⟩]
  refine ⟨n, ⟨operand, 1, [(negation, 0), (n, 0)]⟩, ?_, ?_, rfl, rfl, by decide⟩
  · intro m hm
    rcases (show m = n ∨ m = negation ∨ m = operand by simpa [n, negation, operand, Node.all, Node.allOnto,
      Slot.allNodesOnto, Slot.nodesOnto] using hm) with rfl | rfl | rfl
    · exact ⟨fun _ => by decide, rfl⟩
    · exact ⟨fun _ => by decide, rfl⟩
    · exact ⟨fun h => absurd rfl h, rfl⟩
  · exact .tail (.tail .refl (List.mem_singleton.2 rfl : (⟨negation, 0, [(n, 0)]⟩ : Cursor) ∈ (root n).children))
      (List.mem_singleton.2 rfl)

end Cursor

end Downlevel
