import Downlevel.Proofs.Tree.Edges
import Mathlib.Data.List.Flatten
/-!
# Proofs.Tree.EdgeTokens — a new token at an edge, token by token

A tree with a new token at an edge has the tokens that it had but for one: among those that have characters or trivia,
the one that is nearest to the edge (`Node.mapEdge_exact`).  In a separated list the changed item goes where the first
item stands that is the same object, so the items of such a list must be told apart: at the first edge, equal objects must
be equal items, and at the last edge no object may stand in the list twice.  Trees that have every object once are of
that kind (`Node.keepsApart_of_nodup`), as those that were read.
-/
namespace Downlevel

namespace Edge

/-- Two rows of tokens put together, the one that is nearer to the edge being given first. -/
def join : Edge → List Token → List Token → List Token
  | first, near, far => near ++ far
  | last, near, far => far ++ near

variable {edge : Edge} {change : Token → Fresh Token} {k : ObjectId} {near far ts ts' : List Token} {t : Token}

theorem join_assoc (a b c : List Token) : edge.join (edge.join a b) c = edge.join a (edge.join b c) := by
  cases edge with
  | first => exact List.append_assoc ..
  | last => exact (List.append_assoc ..).symm

theorem mem_join : t ∈ edge.join near far ↔ t ∈ near ∨ t ∈ far := by
  cases edge with
  | first => exact List.mem_append
  | last => exact List.mem_append.trans Or.comm

/-- One token of a row is changed: the nearest to the edge of those that have characters or trivia. -/
def Changed (edge : Edge) (change : Token → Fresh Token) (k : ObjectId) (ts ts' : List Token) : Prop :=
  ∃ near t far, ts = edge.join near (edge.join [t] far) ∧ (∀ u ∈ near, u.fullWidth = 0) ∧ 0 < t.fullWidth ∧
    ts' = edge.join near (edge.join [(change t k).1] far)

namespace Changed

theorem of_near (h : edge.Changed change k near ts') : edge.Changed change k (edge.join near far) (edge.join ts' far) := by
  obtain ⟨before, t, behind, rfl, hnarrow, hwide, rfl⟩ := h
  exact ⟨before, t, edge.join behind far, by rw [join_assoc, join_assoc], hnarrow, hwide, by rw [join_assoc, join_assoc]⟩

theorem of_far (h : edge.Changed change k far ts') (hnear : ∀ u ∈ near, u.fullWidth = 0) :
    edge.Changed change k (edge.join near far) (edge.join near ts') := by
  obtain ⟨before, t, behind, rfl, hnarrow, hwide, rfl⟩ := h
  exact ⟨edge.join near before, t, behind, (join_assoc ..).symm,
    fun u hu => (mem_join.1 hu).elim (hnear u) (hnarrow u), hwide, (join_assoc ..).symm⟩

theorem wide (h : edge.Changed change k ts ts') : ∃ t ∈ ts, 0 < t.fullWidth := by
  obtain ⟨near, t, far, rfl, -, hwide, -⟩ := h
  exact ⟨t, mem_join.2 (.inr (mem_join.2 (.inl List.mem_cons_self))), hwide⟩

end Changed

/-- What is found at the edge of a row of tokens: nothing if none of them has characters or trivia, and then no number is
taken; otherwise something that tells, by `P`, what the row becomes. -/
inductive Finds {α : Type} (edge : Edge) (change : Token → Fresh Token) (k : ObjectId) (ts : List Token)
    (P : α → List Token → Prop) : Option α × ObjectId → Prop
  | none (h : ∀ t ∈ ts, t.fullWidth = 0) : Finds edge change k ts P (none, k)
  | some {a : α} {j : ObjectId} {ts' : List Token} (h : edge.Changed change k ts ts') (hP : P a ts') :
    Finds edge change k ts P (some a, j)

end Edge

/-- Whatever number comes next, the computation finds what is at the edge. -/
def Fresh.AtEdge {α : Type} (w : Fresh (Option α)) (edge : Edge) (change : Token → Fresh Token) (ts : List Token)
    (P : α → List Token → Prop) : Prop := ∀ k, edge.Finds change k ts P (w k)

namespace Fresh.AtEdge

variable {α β : Type} {edge : Edge} {change : Token → Fresh Token} {ts near far : List Token} {w : Fresh (Option α)}
variable {P : α → List Token → Prop} {R : β → List Token → Prop}

theorem none (h : ∀ t ∈ ts, t.fullWidth = 0) : AtEdge (Pure.pure Option.none) edge change ts P := fun _ => .none h

theorem map {f : α → β} (h : w.AtEdge edge change ts P)
    (hf : ∀ a ts', (∃ t ∈ ts, 0 < t.fullWidth) → P a ts' → R (f a) ts') :
    AtEdge (Option.map f <$> w) edge change ts R := fun k => by
  show edge.Finds change k ts R ((w k).1.map f, (w k).2)
  have hk := h k
  generalize w k = found at hk ⊢
  cases hk with
  | none h => exact .none h
  | some h hP => exact .some h (hf _ _ h.wide hP)

theorem mono {P' : α → List Token → Prop} (h : w.AtEdge edge change ts P) (hP : ∀ a ts', P a ts' → P' a ts') :
    w.AtEdge edge change ts P' := fun k => by
  have hk := h k
  generalize w k = found at hk ⊢
  cases hk with
  | none h => exact .none h
  | some h hP' => exact .some h (hP _ _ hP')

/-- Something is made of what is found. -/
theorem make {rest : Option α → Fresh (Option β)} {f : α → Fresh β} (hw : w.AtEdge edge change ts P)
    (hnone : rest .none = Pure.pure .none) (hsome : ∀ a, rest (some a) = some <$> f a)
    (hf : ∀ a ts', P a ts' → ∀ j, R (f a j).1 ts') : (w >>= rest).AtEdge edge change ts R := fun k => by
  show edge.Finds change k _ R (rest (w k).1 (w k).2)
  have hk := hw k
  generalize w k = found at hk ⊢
  cases hk with
  | none hnarrow =>
    dsimp only
    rw [hnone]
    exact .none hnarrow
  | some h hP =>
    dsimp only
    rw [hsome]
    exact .some h (hf _ _ hP _)

/-- What is nearer to the edge comes first. -/
theorem orElse {rest : Option α → Fresh (Option β)} {f : α → β} (hw : w.AtEdge edge change near P)
    (hsome : ∀ a, rest (some a) = Pure.pure (some (f a)))
    (hnear : ∀ a ts', (∃ t ∈ near, 0 < t.fullWidth) → P a ts' → R (f a) (edge.join ts' far))
    (hrest : (∀ t ∈ near, t.fullWidth = 0) →
      (rest .none).AtEdge edge change far (fun b ts' => R b (edge.join near ts'))) :
    (w >>= rest).AtEdge edge change (edge.join near far) R := fun k => by
  show edge.Finds change k _ R (rest (w k).1 (w k).2)
  have hk := hw k
  generalize w k = found at hk ⊢
  cases hk with
  | none hnarrow =>
    have hk' := hrest hnarrow k
    dsimp only
    generalize rest .none k = found' at hk' ⊢
    cases hk' with
    | none hnarrow' => exact .none (fun t ht => (Edge.mem_join.1 ht).elim (hnarrow t) (hnarrow' t))
    | some h hR => exact .some (h.of_far hnarrow) hR
  | some h hP =>
    dsimp only
    rw [hsome]
    exact .some h.of_near (hnear _ _ h.wide hP)

end Fresh.AtEdge

/-! ## Items that are told apart -/

/-- Where the same object stands in a row twice, a change at the edge does not depend on which of the two it is. -/
def Edge.KeepsApart {α : Type} (edge : Edge) (object : α → ObjectId) (row : List α) : Prop :=
  row.Pairwise (fun a b => object a = object b → edge = .first ∧ a = b)

/-- The items of a separated list are told apart. -/
def Slot.KeepsApart (edge : Edge) : Slot → Prop
  | .separated ns ts => edge.KeepsApart Node.id ns ∧ edge.KeepsApart Token.id ts
  | _ => True

/-- The items of all separated lists are told apart. -/
def Node.KeepsApart (edge : Edge) (n : Node) : Prop := n.Every (fun m => ∀ s ∈ m.slots, s.KeepsApart edge)

section Items

variable {α : Type} {p : α → Bool} {a b : α} {edge : Edge} {change : Token → Fresh Token} {k : ObjectId}
variable {ns : List Node} {ts : List Token} {n : Node}

theorem replaceFirst_append {before behind : List α} (h : ∀ x ∈ before, p x = false) (ha : p a = true) :
    replaceFirst p b (before ++ a :: behind) = before ++ b :: behind := by
  induction before with
  | nil => rw [List.nil_append, List.nil_append, replaceFirst, if_pos ha]
  | cons x before ih =>
    obtain ⟨hx, hbefore⟩ := List.forall_mem_cons.1 h
    rw [List.cons_append, replaceFirst, hx, if_neg Bool.false_ne_true, ih hbefore, List.cons_append]

/-- The changed item stands in the list and has characters or trivia. -/
def SeparatedEdit.Names (ns : List Node) (ts : List Token) : SeparatedEdit → Prop
  | member old _ => old ∈ ns ∧ ∃ t ∈ old.tokens, 0 < t.fullWidth
  | separator old _ => old ∈ ts ∧ 0 < old.fullWidth

/-- The tokens of a separated list are those of what it starts with and those of the rest. -/
theorem tokens_separated_cons (n : Node) (ns : List Node) (ts : List Token) :
    (Slot.separated (n :: ns) ts).tokens = n.tokens ++ (ts.take 1 ++ (Slot.separated ns (ts.drop 1)).tokens) := by
  cases ts with
  | nil => simp
  | cons t ts => simp [interleave]

theorem tokens_separated_nil (ts : List Token) : (Slot.separated [] ts).tokens = ts := by
  simp [interleave, flatten_map_singleton]

/-- The items in front of one that is changed are other objects. -/
theorem Edge.KeepsApart.others {object : α → ObjectId} {row before behind : List α} (h : edge.KeepsApart object row)
    (hrow : row = before ++ a :: behind) (hfirst : edge = .first → a ∉ before) :
    ∀ x ∈ before, (object x == object a) = false := fun x hx => by
  subst hrow
  by_contra hsame
  obtain ⟨-, -, hacross⟩ := List.pairwise_append.1 h
  obtain ⟨hedge, rfl⟩ := hacross x hx a List.mem_cons_self (by simpa using hsame)
  exact hfirst hedge hx

/-- One separator is changed where it is found. -/
theorem atEdge_ofSeparators (h : edge.KeepsApart Token.id ts) :
    (SeparatedEdit.ofSeparators? edge change ts).AtEdge edge change ts (fun e ts' =>
      ∃ old new, e = .separator old new ∧ old ∈ ts ∧ 0 < old.fullWidth ∧ replaceFirst (·.isSame old) new ts = ts') := by
  intro k
  unfold SeparatedEdit.ofSeparators?
  cases edge with
  | first =>
    dsimp only
    cases hfind : ts.find? (fun t => 0 < t.fullWidth) with
    | none => exact .none (fun t ht => by simpa using List.find?_eq_none.1 hfind t ht)
    | some t =>
      obtain ⟨hwide, near, far, hts, hnear⟩ := List.find?_eq_some_iff_append.1 hfind
      have hwide : 0 < t.fullWidth := by simpa using hwide
      have hnear : ∀ u ∈ near, u.fullWidth = 0 := fun u hu => by simpa using hnear u hu
      -- No other separator nearer to the edge is the same object, so the one that was found is replaced.
      have hothers : ∀ u ∈ near, u.isSame t = false := h.others hts (fun _ ht => by have := hnear t ht; omega)
      refine .some ⟨near, t, far, hts, hnear, hwide, rfl⟩ ⟨t, _, rfl, List.mem_of_find?_eq_some hfind, hwide, ?_⟩
      rw [hts, replaceFirst_append hothers (beq_self_eq_true t.id)]
      rfl
  | last =>
    dsimp only
    cases hfind : ts.reverse.find? (fun t => 0 < t.fullWidth) with
    | none => exact .none (fun t ht => by simpa using List.find?_eq_none.1 hfind t (List.mem_reverse.2 ht))
    | some t =>
      obtain ⟨hwide, near, far, hreverse, hnear⟩ := List.find?_eq_some_iff_append.1 hfind
      have hwide : 0 < t.fullWidth := by simpa using hwide
      have hnear : ∀ u ∈ near.reverse, u.fullWidth = 0 := fun u hu => by simpa using hnear u (List.mem_reverse.1 hu)
      have hts : ts = far.reverse ++ [t] ++ near.reverse := by
        rw [← List.reverse_reverse ts, hreverse]
        simp
      have hothers : ∀ u ∈ far.reverse, u.isSame t = false :=
        h.others (hts.trans (List.append_assoc ..)) (fun hedge => by cases hedge)
      refine .some ⟨near.reverse, t, far.reverse, hts, hnear, hwide, rfl⟩
        ⟨t, _, rfl, List.mem_reverse.1 (List.mem_of_find?_eq_some hfind), hwide, ?_⟩
      rw [hts, List.append_assoc, List.singleton_append, replaceFirst_append hothers (beq_self_eq_true t.id)]
      exact (List.append_assoc far.reverse [(change t k).1] near.reverse).symm

/-- The edit tells what becomes of the tokens of a separated list. -/
def SeparatedEdit.Tells (ns : List Node) (ts : List Token) (e : SeparatedEdit) (ts' : List Token) : Prop :=
  e.Names ns ts ∧ (e.apply ns ts).tokens = ts'

namespace SeparatedEdit.Tells

variable {e : SeparatedEdit} {m : Node} {t u : Token} {row : List Token}

theorem member (hwide : ∃ t ∈ n.tokens, 0 < t.fullWidth) :
    Tells (n :: ns) ts (.member n m) (m.tokens ++ (ts.take 1 ++ (Slot.separated ns (ts.drop 1)).tokens)) := by
  refine ⟨⟨List.mem_cons_self, hwide⟩, ?_⟩
  show (Slot.separated (replaceFirst _ m (n :: ns)) ts).tokens = _
  rw [replaceFirst, Node.isSame, beq_self_eq_true, if_pos rfl, tokens_separated_cons]

theorem separator (ht : t ∈ ts.take 1) (hwide : 0 < t.fullWidth)
    (hrow : replaceFirst (·.isSame t) u (ts.take 1) = row) :
    Tells (n :: ns) ts (.separator t u) (n.tokens ++ (row ++ (Slot.separated ns (ts.drop 1)).tokens)) := by
  subst hrow
  refine ⟨⟨List.mem_of_mem_take ht, hwide⟩, ?_⟩
  cases ts with
  | nil => cases ht
  | cons t' ts =>
    obtain rfl : t = t' := List.mem_singleton.1 ht
    show (Slot.separated (n :: ns) (replaceFirst _ u (t :: ts))).tokens = _
    simp [replaceFirst, Token.isSame, interleave]

/-- What becomes of the rest of the list becomes of the whole, since no item in front is the same object: neither two
items that are told apart, nor one that has no characters and one that has. -/
theorem rest (he : Tells ns (ts.drop 1) e row) (hns : edge.KeepsApart Node.id (n :: ns))
    (hts : edge.KeepsApart Token.id ts)
    (hfront : edge = .first → (∀ t ∈ n.tokens, t.fullWidth = 0) ∧ ∀ t ∈ ts.take 1, t.fullWidth = 0) :
    Tells (n :: ns) ts e (n.tokens ++ (ts.take 1 ++ row)) := by
  obtain ⟨hnames, rfl⟩ := he
  cases e with
  | member old new =>
    obtain ⟨hold, t, ht, hwide⟩ := hnames
    have hother : n.isSame old = false := by
      by_contra hsame
      obtain ⟨hedge, rfl⟩ := List.rel_of_pairwise_cons hns hold (by simpa [Node.isSame] using hsame)
      have := (hfront hedge).1 t ht
      omega
    refine ⟨⟨List.mem_cons_of_mem _ hold, t, ht, hwide⟩, ?_⟩
    show (Slot.separated (replaceFirst _ new (n :: ns)) ts).tokens = _
    rw [replaceFirst, hother, if_neg Bool.false_ne_true, tokens_separated_cons]
    rfl
  | separator old new =>
    obtain ⟨hold, hwide⟩ := hnames
    refine ⟨⟨List.mem_of_mem_drop hold, hwide⟩, ?_⟩
    cases ts with
    | nil => cases hold
    | cons t ts =>
      have hother : t.isSame old = false := by
        by_contra hsame
        obtain ⟨hedge, rfl⟩ := List.rel_of_pairwise_cons hts hold (by simpa [Token.isSame] using hsame)
        have := (hfront hedge).2 t List.mem_cons_self
        omega
      show (Slot.separated (n :: ns) (replaceFirst _ new (t :: ts))).tokens = _
      rw [replaceFirst, hother, if_neg Bool.false_ne_true, tokens_separated_cons]
      rfl

end SeparatedEdit.Tells

end Items

/-! ## Trees -/

section Trees

variable {edge : Edge} {change : Token → Fresh Token}

theorem atEdge_token (t : Token) : (t.mapEdge? change).AtEdge edge change [t] (fun u ts' => [u] = ts') := by
  intro k
  unfold Token.mapEdge?
  split
  · rename_i hwide
    have hnone : ∀ u ∈ ([] : List Token), u.fullWidth = 0 := fun u hu => by cases hu
    cases edge <;> exact .some ⟨[], t, [], rfl, hnone, hwide, rfl⟩ rfl
  · exact .none (fun u hu => by rw [List.mem_singleton.1 hu]; omega)

/-- Items that are told apart are so from the second one on. -/
theorem Edge.KeepsApart.tail {α : Type} {object : α → ObjectId} {a : α} {row : List α}
    (h : edge.KeepsApart object (a :: row)) : edge.KeepsApart object row := List.Pairwise.of_cons h

mutual

theorem Node.atEdge : ∀ {n : Node}, n.KeepsApart edge →
    (n.mapEdge? edge change).AtEdge edge change n.tokens (fun m ts' => m.tokens = ts')
  | .mk id kind slots, h => by
    obtain ⟨hslots, hnodes⟩ := Node.every_mk.1 h
    unfold Node.mapEdge?
    rw [Node.tokens_mk]
    refine (Slot.atEdge_all hslots hnodes).make rfl (fun _ => rfl) (fun slots' ts' hts j => ?_)
    exact (Node.tokens_mk j kind slots').trans hts

theorem Slot.atEdge_all : ∀ {slots : List Slot}, (∀ s ∈ slots, s.KeepsApart edge) →
    (∀ s ∈ slots, ∀ m ∈ s.nodes, m.KeepsApart edge) →
    (Slot.mapEdgeOfAll? edge change slots).AtEdge edge change (slots.flatMap Slot.tokens)
      (fun slots' ts' => slots'.flatMap Slot.tokens = ts')
  | [], _, _ => .none (fun _ ht => by cases ht)
  | slot :: slots, h, hn => by
    obtain ⟨hslot, hslots⟩ := List.forall_mem_cons.1 h
    obtain ⟨hnodes, hothers⟩ := List.forall_mem_cons.1 hn
    have hhere := Slot.atEdge hslot hnodes
    have hrest := Slot.atEdge_all hslots hothers
    unfold Slot.mapEdgeOfAll?
    rw [List.flatMap_cons]
    cases edge with
    | first =>
      exact hhere.orElse (fun _ => rfl) (fun _ _ _ h => h ▸ List.flatMap_cons) (fun _ =>
        hrest.map (fun _ _ _ h => h ▸ List.flatMap_cons))
    | last =>
      exact hrest.orElse (fun _ => rfl) (fun _ _ _ h => h ▸ List.flatMap_cons) (fun _ =>
        hhere.map (fun _ _ _ h => h ▸ List.flatMap_cons))

theorem Slot.atEdge : ∀ {slot : Slot}, slot.KeepsApart edge → (∀ m ∈ slot.nodes, m.KeepsApart edge) →
    (Slot.mapEdge? edge change slot).AtEdge edge change slot.tokens (fun slot' ts' => slot'.tokens = ts')
  | .absent, _, _ => .none (fun _ ht => by cases ht)
  | .token t, _, _ => (atEdge_token t).map (fun _ _ _ h => h)
  | .node n, _, hn => (Node.atEdge (hn n (List.mem_singleton.2 rfl))).map (fun _ _ _ h => h)
  | .list ns, _, hn => by
    rw [Slot.tokens_list]
    exact (Node.atEdge_list hn).map (fun ms _ _ h => (Slot.tokens_list ms).trans h)
  | .separated ns ts, h, hn => (Node.atEdge_items h.1 h.2 hn).map (fun _ _ _ h => h.2)

theorem Node.atEdge_list : ∀ {ns : List Node}, (∀ n ∈ ns, n.KeepsApart edge) →
    (Node.mapEdgeOfList? edge change ns).AtEdge edge change (ns.flatMap Node.tokens)
      (fun ms ts' => ms.flatMap Node.tokens = ts')
  | [], _ => .none (fun _ ht => by cases ht)
  | n :: ns, h => by
    obtain ⟨hn, hns⟩ := List.forall_mem_cons.1 h
    have hhere := Node.atEdge hn
    have hrest := Node.atEdge_list hns
    unfold Node.mapEdgeOfList?
    rw [List.flatMap_cons]
    cases edge with
    | first =>
      exact hhere.orElse (fun _ => rfl) (fun _ _ _ h => h ▸ List.flatMap_cons) (fun _ =>
        hrest.map (fun _ _ _ h => h ▸ List.flatMap_cons))
    | last =>
      exact hrest.orElse (fun _ => rfl) (fun _ _ _ h => h ▸ List.flatMap_cons) (fun _ =>
        hhere.map (fun _ _ _ h => h ▸ List.flatMap_cons))

theorem Node.atEdge_items : ∀ {ns : List Node} {ts : List Token}, edge.KeepsApart Node.id ns →
    edge.KeepsApart Token.id ts → (∀ n ∈ ns, n.KeepsApart edge) →
    (Node.mapEdgeOfItems? edge change ns ts).AtEdge edge change (Slot.separated ns ts).tokens
      (SeparatedEdit.Tells ns ts)
  | [], ts, _, hts, _ => by
    rw [tokens_separated_nil]
    refine (atEdge_ofSeparators hts).mono (fun e ts' h => ?_)
    obtain ⟨old, new, rfl, hold, hwide, rfl⟩ := h
    exact ⟨⟨hold, hwide⟩, tokens_separated_nil _⟩
  | n :: ns, ts, hns, hts, h => by
    obtain ⟨hn, hall⟩ := List.forall_mem_cons.1 h
    have hhere := Node.atEdge hn
    have hseparator : (SeparatedEdit.ofSeparators? edge change (ts.take 1)).AtEdge edge change (ts.take 1) _ :=
      atEdge_ofSeparators (hts.sublist (List.take_sublist 1 ts))
    have hrest := Node.atEdge_items hns.tail (hts.sublist (List.drop_sublist 1 ts)) hall
    unfold Node.mapEdgeOfItems?
    rw [tokens_separated_cons]
    cases edge with
    | first =>
      refine hhere.orElse (fun _ => rfl) (fun m ts' hwide hm => ?_) (fun hfront => hseparator.orElse (fun _ => rfl)
        (fun e ts' _ he => ?_) (fun hfront' => hrest.mono (fun e ts' he => ?_)))
      · exact hm ▸ .member hwide
      · obtain ⟨old, new, rfl, hold, hwide, hrow⟩ := he
        exact .separator hold hwide hrow
      · exact he.rest hns hts (fun _ => ⟨hfront, hfront'⟩)
    | last =>
      rw [← List.append_assoc]
      refine hrest.orElse (fun _ => rfl) (fun e ts' _ he => ?_) (fun _ => hseparator.orElse (fun _ => rfl)
        (fun e ts' _ he => ?_) (fun _ => hhere.map (fun m ts' hwide hm => ?_)))
      all_goals simp only [Edge.join, List.append_assoc]
      · exact he.rest hns hts (fun hedge => by cases hedge)
      · obtain ⟨old, new, rfl, hold, hwide, hrow⟩ := he
        exact .separator hold hwide hrow
      · exact hm ▸ .member hwide

end

/-- **Exactly one token of a tree is changed at an edge**: the one that is nearest to the edge of those that have
characters or trivia, if there is one.  All others stay as they are, the same objects at the same places. -/
theorem Node.mapEdge_exact {n : Node} (h : n.KeepsApart edge) (k : ObjectId) :
    (∀ t ∈ n.tokens, t.fullWidth = 0) ∧ (n.mapEdge? edge change k).1 = none ∨
      ∃ m near t far, (n.mapEdge? edge change k).1 = some m ∧ n.tokens = edge.join near (edge.join [t] far) ∧
        (∀ u ∈ near, u.fullWidth = 0) ∧ 0 < t.fullWidth ∧
        m.tokens = edge.join near (edge.join [(change t k).1] far) := by
  have hfinds : edge.Finds change k n.tokens (fun m ts' => m.tokens = ts') (n.mapEdge? edge change k) :=
    Node.atEdge h k
  generalize n.mapEdge? edge change k = found at hfinds ⊢
  cases hfinds with
  | none h => exact .inl ⟨h, rfl⟩
  | some h hm =>
    obtain ⟨near, t, far, htokens, hnear, hwide, rfl⟩ := h
    exact .inr ⟨_, near, t, far, rfl, htokens, hnear, hwide, hm⟩

/-- The last of two items is not the one that is changed if the first one is the same object. -/
example :
    let a : Node := .mk 1 .variableDeclarator [.token ⟨0, .realized .identifier .empty ['a'] .none .empty⟩]
    let comma : Token := ⟨2, .realized (.punctuation .comma) .empty [','] .none .empty⟩
    let n : Node := .mk 3 .variableDeclaration [.separated [a, a] [comma]]
    (n.mapEdge? .last (fun _ => Token.fresh (.realized .identifier .empty ['z'] .none .empty)) 4).1.map Node.fullText =
      some "z,a".toList := rfl

end Trees

/-! ## Trees that have every object once -/

section Sublists

variable {α : Type} {n m : Node} {s : Slot}

theorem sublist_interleave : ∀ as bs : List α, as.Sublist (interleave as bs) ∧ bs.Sublist (interleave as bs)
  | [], _ => ⟨List.nil_sublist _, List.Sublist.refl _⟩
  | _ :: _, [] => ⟨List.Sublist.refl _, List.nil_sublist _⟩
  | a :: as, b :: bs =>
    have h := sublist_interleave as bs
    ⟨(h.1.cons b).cons_cons a, (h.2.cons_cons b).cons a⟩

theorem Slot.sublist_tokens (h : m ∈ s.nodes) : m.tokens.Sublist s.tokens := by
  have hmem : ∀ ns : List Node, m ∈ ns → [m.tokens].Sublist (ns.map Node.tokens) := fun ns hm =>
    (List.singleton_sublist.2 hm).map Node.tokens
  cases s with
  | absent => cases h
  | token t => cases h
  | node n => rw [List.mem_singleton.1 h, Slot.tokens_node]
  | list ns =>
    rw [Slot.tokens_list, List.flatMap_def]
    simpa using (hmem ns h).flatten
  | separated ns ts =>
    rw [Slot.tokens_separated]
    simpa using ((hmem ns h).trans (sublist_interleave ..).1).flatten

theorem Slot.sublist_ownTokens : s.ownTokens.Sublist s.tokens := by
  cases s with
  | absent => exact List.Sublist.refl _
  | token t => exact List.Sublist.refl _
  | node n => exact List.nil_sublist _
  | list ns => exact List.nil_sublist _
  | separated ns ts =>
    have hflat := (sublist_interleave (ns.map Node.tokens) (ts.map (fun t => [t]))).2.flatten
    rwa [flatten_map_singleton, ← Slot.tokens_separated] at hflat

theorem Node.sublist_slotTokens (hs : s ∈ n.slots) : s.tokens.Sublist n.tokens := by
  obtain ⟨id, kind, slots⟩ := n
  have hflat := (List.singleton_sublist.2 hs).flatMap Slot.tokens
  rwa [List.flatMap_singleton, Node.slots, ← Node.tokens_mk id kind] at hflat

theorem Node.sublist_tokens (h : m ∈ n.all) : m.tokens.Sublist n.tokens := by
  induction n using Node.induction with
  | step n ih =>
    rw [Node.all_eq] at h
    rcases List.mem_cons.1 h with rfl | h
    · exact List.Sublist.refl _
    · obtain ⟨c, hc, hm⟩ := List.mem_flatMap.1 h
      obtain ⟨s, hs, hcs⟩ := List.mem_flatMap.1 hc
      exact (ih c hc hm).trans ((Slot.sublist_tokens hcs).trans (Node.sublist_slotTokens hs))

theorem Node.sublist_all (h : m ∈ n.all) : m.all.Sublist n.all := by
  induction n using Node.induction with
  | step n ih =>
    rw [Node.all_eq] at h
    rcases List.mem_cons.1 h with rfl | h
    · exact List.Sublist.refl _
    · obtain ⟨c, hc, hm⟩ := List.mem_flatMap.1 h
      have hflat := (List.singleton_sublist.2 hc).flatMap Node.all
      rw [List.flatMap_singleton] at hflat
      rw [Node.all_eq n]
      exact ((ih c hc hm).trans hflat).cons n

theorem Node.sublist_children : n.children.Sublist n.all := by
  have hself : (n.children.flatMap (fun c => [c])).Sublist (n.children.flatMap Node.all) :=
    .flatMap_right _ (fun c _ => List.singleton_sublist.2 c.mem_all_self)
  rw [Node.all_eq]
  simpa using hself.cons n

end Sublists

/-- A row without an object twice is told apart at both edges. -/
theorem Edge.KeepsApart.of_nodup {α : Type} {object : α → ObjectId} {row : List α} (edge : Edge)
    (h : (row.map object).Nodup) : edge.KeepsApart object row :=
  (List.pairwise_map.1 h).imp (fun hne heq => absurd heq hne)

/-- **A tree that has every object once** tells the items of its lists apart. -/
theorem Node.keepsApart_of_nodup {n : Node} (hnodes : (n.all.map Node.id).Nodup)
    (htokens : (n.tokens.map Token.id).Nodup) (edge : Edge) : n.KeepsApart edge := by
  intro m hm s hs
  cases s with
  | separated ns ts =>
    have hmembers := (List.singleton_sublist.2 hs).flatMap Slot.nodes
    rw [List.flatMap_singleton] at hmembers
    have hbelow : ns.Sublist n.all := hmembers.trans (Node.sublist_children.trans (Node.sublist_all hm))
    have hheld : ts.Sublist n.tokens :=
      (Slot.sublist_ownTokens (s := .separated ns ts)).trans ((Node.sublist_slotTokens hs).trans (Node.sublist_tokens hm))
    exact ⟨.of_nodup edge (hnodes.sublist (hbelow.map Node.id)), .of_nodup edge (htokens.sublist (hheld.map Token.id))⟩
  | _ => trivial

end Downlevel
