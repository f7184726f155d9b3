import Downlevel.Proofs.Outline.Agrees
import Downlevel.Proofs.Tree.TokenPasses
/-!
# Proofs.Tree.Skeleton — what it means for trees to have the same structure

Trees are compared from the root down, token by token through the widths of its own trivia, with a way around subtrees
that are one object and an early way out where the widths of subtrees differ.  What comes out does not depend on any of
this.  A tree is its `Skeleton`, which says how its nodes and tokens are put together, and the row of its tokens, each
where it stands in the text (`PlacedToken`); two trees agree exactly if their skeletons are the same and their tokens
correspond one by one (`Node.agrees_exact`).

Objects are numbers here, so what is said about one object needs trees whose objects are told apart by their numbers:
the trees of a store (`Node.StoredIn`).
-/
namespace Downlevel

variable {m n : Node} {s t : Slot} {how : Comparison}

/-! ## Skeletons -/

mutual

/-- The kind of a node and how it is put together. -/
inductive Skeleton where
  | mk (kind : NodeKind) (slots : List SlotSkeleton)

/-- What a slot holds, with tokens only counted. -/
inductive SlotSkeleton where
  | absent
  | token
  | node (node : Skeleton)
  | list (members : List Skeleton)
  | separated (members : List Skeleton) (separators : Nat)

end

mutual

/-- How a tree is put together. -/
def Node.skeleton : Node → Skeleton
  | .mk _ kind slots => .mk kind (Slot.skeletons slots)

/-- How the contents of a row of slots are put together. -/
def Slot.skeletons : List Slot → List SlotSkeleton
  | [] => []
  | slot :: slots => slot.skeleton :: Slot.skeletons slots

/-- How the content of a slot is put together. -/
def Slot.skeleton : Slot → SlotSkeleton
  | .absent => .absent
  | .token _ => .token
  | .node n => .node n.skeleton
  | .list members => .list (Node.skeletons members)
  | .separated members separators => .separated (Node.skeletons members) separators.length

/-- How the trees of a list are put together. -/
def Node.skeletons : List Node → List Skeleton
  | [] => []
  | n :: ns => n.skeleton :: Node.skeletons ns

end

theorem Slot.skeletons_eq (slots : List Slot) : Slot.skeletons slots = slots.map Slot.skeleton := by
  induction slots with
  | nil => rfl
  | cons slot slots ih => rw [Slot.skeletons, ih, List.map_cons]

theorem Node.skeletons_eq (ns : List Node) : Node.skeletons ns = ns.map Node.skeleton := by
  induction ns with
  | nil => rfl
  | cons n ns ih => rw [Node.skeletons, ih, List.map_cons]

/-- **Skeletons are the same if the kinds are and the slots hold the same**, slot by slot. -/
theorem Node.skeleton_eq_iff : m.skeleton = n.skeleton ↔
    m.kind = n.kind ∧ List.Forall₂ (fun s t => s.skeleton = t.skeleton) m.slots n.slots := by
  obtain ⟨i, k, ss⟩ := m
  obtain ⟨j, l, ts⟩ := n
  rw [Node.skeleton, Node.skeleton, Skeleton.mk.injEq, Slot.skeletons_eq, Slot.skeletons_eq, map_eq_map_iff_forall₂]
  rfl

/-- The rows of tokens in a slot, one for each node and one for each token of its own. -/
def Slot.rows : Slot → List (List Token)
  | .absent => []
  | .token t => [[t]]
  | .node n => [n.tokens]
  | .list members => members.map Node.tokens
  | .separated members separators => interleave (members.map Node.tokens) (separators.map (fun t => [t]))

theorem Slot.tokens_eq_flatten_rows (s : Slot) : s.tokens = s.rows.flatten := by
  cases s with
  | absent => rfl
  | token t => rfl
  | node n => exact (List.append_nil _).symm
  | list members => rw [Slot.tokens_list, rows, List.flatMap_def]
  | separated members separators => rw [Slot.tokens_separated, rows]

/-! ## Rows of rows -/

section Rows

variable {α β : Type} {R : α → β → Prop}

theorem forall₂_interleave_intro {as bs : List α} {cs ds : List β} (h : List.Forall₂ R as cs)
    (h' : List.Forall₂ R bs ds) : List.Forall₂ R (interleave as bs) (interleave cs ds) := by
  induction h generalizing bs ds with
  | nil => exact h'
  | cons hhere hrest ih =>
    cases h' with
    | nil =>
      rw [interleave_nil_right, interleave_nil_right]
      exact .cons hhere hrest
    | cons hhere' hrest' => exact .cons hhere (.cons hhere' (ih hrest'))

theorem forall₂_trans {γ : Type} {S : β → γ → Prop} {T : α → γ → Prop} (hRST : ∀ a b c, R a b → S b c → T a c)
    {as : List α} {bs : List β} {cs : List γ} (h : List.Forall₂ R as bs) (h' : List.Forall₂ S bs cs) :
    List.Forall₂ T as cs := by
  induction h generalizing cs with
  | nil => cases h'; exact .nil
  | cons hhere _ ih =>
    cases h' with
    | cons hhere' hrest' => exact .cons (hRST _ _ _ hhere hhere') (ih hrest')

/-- Rows of the same lengths in a row are related exactly if they are one by one. -/
theorem forall₂_flatten_iff {as : List (List α)} {bs : List (List β)}
    (h : List.Forall₂ (fun a b => a.length = b.length) as bs) :
    List.Forall₂ R as.flatten bs.flatten ↔ List.Forall₂ (List.Forall₂ R) as bs := by
  induction h with
  | nil => simp
  | cons hlength _ ih => rw [List.flatten_cons, List.flatten_cons, forall₂_append_iff hlength, ih, List.forall₂_cons]

end Rows

/-! ## Tokens of trees with the same skeleton -/

/-- Slots with the same skeleton have rows of tokens of the same lengths, if their nodes do. -/
theorem Slot.lengths_rows_of_nodes (h : s.skeleton = t.skeleton) (hnodes : ∀ c ∈ s.nodes, ∀ d ∈ t.nodes,
    c.skeleton = d.skeleton → c.tokens.length = d.tokens.length) :
    List.Forall₂ (fun us vs => us.length = vs.length) s.rows t.rows := by
  have hlist : ∀ {ms ns : List Node}, Node.skeletons ms = Node.skeletons ns →
      (∀ c ∈ ms, ∀ d ∈ ns, c.skeleton = d.skeleton → c.tokens.length = d.tokens.length) →
        List.Forall₂ (fun us vs => us.length = vs.length) (ms.map Node.tokens) (ns.map Node.tokens) := by
    intro ms ns h hnodes
    rw [Node.skeletons_eq, Node.skeletons_eq, map_eq_map_iff_forall₂] at h
    rw [List.forall₂_map_left_iff, List.forall₂_map_right_iff]
    exact forall₂_mono_of_mem h hnodes
  cases s <;> cases t <;> simp only [skeleton, reduceCtorEq, SlotSkeleton.node.injEq, SlotSkeleton.list.injEq,
    SlotSkeleton.separated.injEq] at h
  case absent.absent => exact .nil
  case token.token => exact .cons rfl .nil
  case node.node => exact .cons (hnodes _ (List.mem_singleton.2 rfl) _ (List.mem_singleton.2 rfl) h) .nil
  case list.list => exact hlist h hnodes
  case separated.separated ms ss ns ts =>
    refine forall₂_interleave_intro (hlist h.1 hnodes) ?_
    rw [List.forall₂_map_left_iff, List.forall₂_map_right_iff]
    exact List.forall₂_iff_zip.2 ⟨h.2, fun _ => rfl⟩

/-- **Trees with the same skeleton have the same number of tokens.** -/
theorem Node.length_tokens_of_skeleton (h : m.skeleton = n.skeleton) : m.tokens.length = n.tokens.length := by
  induction m using Node.induction generalizing n with
  | step m ih =>
    have hslots : List.Forall₂ (fun s t => s.tokens.length = t.tokens.length) m.slots n.slots := by
      refine forall₂_mono_of_mem (Node.skeleton_eq_iff.1 h).2 (fun s hs t _ hst => ?_)
      have hrows := Slot.lengths_rows_of_nodes hst (fun c hc _ _ hcd => ih c (List.mem_flatMap.2 ⟨s, hs, hc⟩) hcd)
      rw [Slot.tokens_eq_flatten_rows, Slot.tokens_eq_flatten_rows, List.length_flatten, List.length_flatten,
        map_eq_map_iff_forall₂.2 hrows]
    rw [Node.tokens_eq, Node.tokens_eq, List.length_flatMap, List.length_flatMap, map_eq_map_iff_forall₂.2 hslots]

theorem Slot.lengths_rows (h : s.skeleton = t.skeleton) :
    List.Forall₂ (fun us vs => us.length = vs.length) s.rows t.rows :=
  lengths_rows_of_nodes h (fun _ _ _ _ => Node.length_tokens_of_skeleton)

/-- The tokens of slots with the same skeleton are related exactly if they are row by row. -/
theorem Slot.forall₂_tokens_iff {R : Token → Token → Prop} (h : s.skeleton = t.skeleton) :
    List.Forall₂ R s.tokens t.tokens ↔ List.Forall₂ (List.Forall₂ R) s.rows t.rows := by
  rw [tokens_eq_flatten_rows, tokens_eq_flatten_rows, forall₂_flatten_iff (lengths_rows h)]

/-- The tokens of nodes with the same skeleton are related exactly if they are slot by slot. -/
theorem Node.forall₂_tokens_iff {R : Token → Token → Prop} (h : m.skeleton = n.skeleton) :
    List.Forall₂ R m.tokens n.tokens ↔ List.Forall₂ (fun s t => List.Forall₂ R s.tokens t.tokens) m.slots n.slots := by
  have hlengths : List.Forall₂ (fun us vs => us.length = vs.length) (m.slots.map Slot.tokens)
      (n.slots.map Slot.tokens) := by
    rw [List.forall₂_map_left_iff, List.forall₂_map_right_iff]
    refine (Node.skeleton_eq_iff.1 h).2.imp (fun s t hst => ?_)
    rw [Slot.tokens_eq_flatten_rows, Slot.tokens_eq_flatten_rows, List.length_flatten, List.length_flatten,
      map_eq_map_iff_forall₂.2 (Slot.lengths_rows hst)]
  rw [Node.tokens_eq, Node.tokens_eq, List.flatMap_def, List.flatMap_def, forall₂_flatten_iff hlengths,
    List.forall₂_map_left_iff, List.forall₂_map_right_iff]

/-! ## Comparing with and without shortcuts -/

/-- The ways around a comparison of two subtrees: they are one object, or their widths differ. -/
structure Shortcuts where
  identity : Bool
  widths : Bool

mutual

/-- Two trees have the same structure, compared with the given shortcuts. -/
def Node.agreesVia (via : Shortcuts) (how : Comparison) : Node → Node → Bool
  | .mk i k ss, .mk j l ts =>
    (via.identity && i == j)
      || (k == l && (!(via.widths && how.offsets) || Slot.allFullWidth ss == Slot.allFullWidth ts)
        && Slot.allAgreeVia via how ss ts)
termination_by structural n => n

/-- Two rows of slots have the same structure, compared with the given shortcuts. -/
def Slot.allAgreeVia (via : Shortcuts) (how : Comparison) : List Slot → List Slot → Bool
  | [], [] => true
  | s :: ss, t :: ts => Slot.agreesVia via how s t && Slot.allAgreeVia via how ss ts
  | _, _ => false
termination_by structural slots => slots

/-- Two slots have the same structure, compared with the given shortcuts. -/
def Slot.agreesVia (via : Shortcuts) (how : Comparison) : Slot → Slot → Bool
  | .absent, .absent => true
  | .token s, .token t => s.agrees how t
  | .node m, .node n => Node.agreesVia via how m n
  | .list ms, .list ns => Node.listAgreesVia via how ms ns
  | .separated ms ss, .separated ns ts => Node.listAgreesVia via how ms ns && Token.allAgree how ss ts
  | _, _ => false
termination_by structural slot => slot

/-- Two lists of nodes have the same structure, compared with the given shortcuts. -/
def Node.listAgreesVia (via : Shortcuts) (how : Comparison) : List Node → List Node → Bool
  | [], [] => true
  | m :: ms, n :: ns => Node.agreesVia via how m n && Node.listAgreesVia via how ms ns
  | _, _ => false
termination_by structural ns => ns

end

mutual

/-- **Trees are compared with both shortcuts.** -/
theorem Node.agrees_eq_agreesVia (how : Comparison) : ∀ m n : Node, m.agrees how n = m.agreesVia ⟨true, true⟩ how n
  | .mk i k ss, .mk j l ts => by
    rw [Node.agrees, Node.agreesVia, Slot.allAgree_eq_allAgreeVia how ss ts]
    rfl

theorem Slot.allAgree_eq_allAgreeVia (how : Comparison) : ∀ ss ts : List Slot,
    Slot.allAgree how ss ts = Slot.allAgreeVia ⟨true, true⟩ how ss ts
  | [], [] => rfl
  | [], _ :: _ => rfl
  | _ :: _, [] => rfl
  | s :: ss, t :: ts => by
    rw [Slot.allAgree, Slot.allAgreeVia, Slot.agrees_eq_agreesVia how s t, Slot.allAgree_eq_allAgreeVia how ss ts]

theorem Slot.agrees_eq_agreesVia (how : Comparison) : ∀ s t : Slot, s.agrees how t = s.agreesVia ⟨true, true⟩ how t
  | .absent, t => by cases t <;> rfl
  | .token _, t => by cases t <;> rfl
  | .node m, t => by
    cases t with
    | node n => exact Node.agrees_eq_agreesVia how m n
    | _ => rfl
  | .list ms, t => by
    cases t with
    | list ns => exact Node.listAgrees_eq_listAgreesVia how ms ns
    | _ => rfl
  | .separated ms ss, t => by
    cases t with
    | separated ns ts => rw [Slot.agrees, Slot.agreesVia, Node.listAgrees_eq_listAgreesVia how ms ns]
    | _ => rfl

theorem Node.listAgrees_eq_listAgreesVia (how : Comparison) : ∀ ms ns : List Node,
    Node.listAgrees how ms ns = Node.listAgreesVia ⟨true, true⟩ how ms ns
  | [], [] => rfl
  | [], _ :: _ => rfl
  | _ :: _, [] => rfl
  | m :: ms, n :: ns => by
    rw [Node.listAgrees, Node.listAgreesVia, Node.agrees_eq_agreesVia how m n,
      Node.listAgrees_eq_listAgreesVia how ms ns]

end

section Rows

variable {via : Shortcuts}

theorem Slot.allAgreeVia_iff : ∀ {ss ts : List Slot},
    Slot.allAgreeVia via how ss ts = true ↔ List.Forall₂ (fun s t => s.agreesVia via how t = true) ss ts
  | [], [] => by simp [Slot.allAgreeVia]
  | [], _ :: _ => by simp [Slot.allAgreeVia]
  | _ :: _, [] => by simp [Slot.allAgreeVia]
  | s :: ss, t :: ts => by
    rw [Slot.allAgreeVia, Bool.and_eq_true, List.forall₂_cons, Slot.allAgreeVia_iff]

theorem Node.listAgreesVia_iff : ∀ {ms ns : List Node},
    Node.listAgreesVia via how ms ns = true ↔ List.Forall₂ (fun m n => m.agreesVia via how n = true) ms ns
  | [], [] => by simp [Node.listAgreesVia]
  | [], _ :: _ => by simp [Node.listAgreesVia]
  | _ :: _, [] => by simp [Node.listAgreesVia]
  | m :: ms, n :: ns => by
    rw [Node.listAgreesVia, Bool.and_eq_true, List.forall₂_cons, Node.listAgreesVia_iff]

end Rows

/-! ## Agreement is agreement of skeletons and of tokens -/

/-- The skeletons are the same and the tokens agree one by one. -/
def Node.Matches (how : Comparison) (m n : Node) : Prop :=
  m.skeleton = n.skeleton ∧ List.Forall₂ (fun u v => u.agrees how v = true) m.tokens n.tokens

theorem Node.forall₂_matches_iff {ms ns : List Node} : List.Forall₂ (Node.Matches how) ms ns ↔
    Node.skeletons ms = Node.skeletons ns ∧
      List.Forall₂ (List.Forall₂ (fun u v => u.agrees how v = true)) (ms.map Node.tokens) (ns.map Node.tokens) := by
  rw [Node.skeletons_eq, Node.skeletons_eq, map_eq_map_iff_forall₂, List.forall₂_map_left_iff,
    List.forall₂_map_right_iff]
  exact ⟨fun h => ⟨h.imp (fun _ _ h => h.1), h.imp (fun _ _ h => h.2)⟩, fun h => forall₂_and h.1 h.2⟩

/-- **Slots agree exactly if their skeletons are the same and their tokens agree**, if this is so for their nodes. -/
theorem Slot.agreesVia_iff {via : Shortcuts} (hnodes : ∀ c ∈ s.nodes, ∀ d ∈ t.nodes,
    (c.agreesVia via how d = true ↔ c.Matches how d)) : s.agreesVia via how t = true ↔
      s.skeleton = t.skeleton ∧ List.Forall₂ (fun u v => u.agrees how v = true) s.tokens t.tokens := by
  have hlist : ∀ ms ns : List Node, (∀ c ∈ ms, ∀ d ∈ ns, (c.agreesVia via how d = true ↔ c.Matches how d)) →
      (Node.listAgreesVia via how ms ns = true ↔ List.Forall₂ (Node.Matches how) ms ns) := fun _ _ h =>
    Node.listAgreesVia_iff.trans ⟨fun hall => forall₂_mono_of_mem hall (fun c hc d hd => (h c hc d hd).1),
      fun hall => forall₂_mono_of_mem hall (fun c hc d hd => (h c hc d hd).2)⟩
  rw [← and_congr_right (fun h => (Slot.forall₂_tokens_iff h).symm)]
  cases s <;> cases t <;> simp only [agreesVia, skeleton, reduceCtorEq, Bool.false_eq_true, false_and,
    SlotSkeleton.node.injEq, SlotSkeleton.list.injEq, SlotSkeleton.separated.injEq, rows]
  case absent.absent => simp
  case token.token => simp
  case node.node m n =>
    rw [hnodes m (List.mem_singleton.2 rfl) n (List.mem_singleton.2 rfl)]
    simp [Node.Matches]
  case list.list ms ns => rw [hlist ms ns hnodes, Node.forall₂_matches_iff]
  case separated.separated ms ss ns ts =>
    rw [Bool.and_eq_true, hlist ms ns hnodes, Node.forall₂_matches_iff, Token.allAgree_iff, and_assoc, and_assoc]
    refine and_congr_right (fun hmembers => ?_)
    constructor
    · rintro ⟨hnodes, htokens⟩
      refine ⟨htokens.length_eq, forall₂_interleave_intro hnodes ?_⟩
      rw [List.forall₂_map_left_iff, List.forall₂_map_right_iff]
      exact htokens.imp (fun _ _ h => .cons h .nil)
    · rintro ⟨hlength, hrows⟩
      have hcount : ms.length = ns.length := by
        rw [Node.skeletons_eq, Node.skeletons_eq] at hmembers
        simpa using congrArg List.length hmembers
      obtain ⟨hnodes, htokens⟩ := forall₂_interleave (by simpa using hcount) (by simpa using hlength) hrows
      rw [List.forall₂_map_left_iff, List.forall₂_map_right_iff] at htokens
      exact ⟨hnodes, htokens.imp (fun _ _ h => (List.forall₂_cons.1 h).1)⟩

theorem Token.agrees_self (how : Comparison) (t : Token) : t.agrees how t = true := by simp [agrees]

/-- The objects of the tree are those of a store: the node with a number is the one at this number. -/
def Node.StoredIn (store : ObjectId → Node) (n : Node) : Prop := n.Every (fun m => store m.id = m)

/-- Nodes agree if a shortcut says so, or their kinds are the same, no shortcut says otherwise and their slots agree. -/
theorem Node.agreesVia_step_iff {via : Shortcuts} : m.agreesVia via how n = true ↔
    (via.identity = true ∧ m.id = n.id) ∨
      (m.kind = n.kind ∧ (¬(via.widths = true ∧ how.offsets = true) ∨ m.fullWidth = n.fullWidth)) ∧
        List.Forall₂ (fun s t => s.agreesVia via how t = true) m.slots n.slots := by
  rw [← Slot.allAgreeVia_iff]
  cases m
  cases n
  simp only [agreesVia, Node.id, Node.kind, Node.slots, Node.fullWidth, Bool.or_eq_true, Bool.and_eq_true,
    beq_iff_eq, Bool.not_eq_true', ← Bool.not_eq_true]

/-- **Trees agree exactly if their skeletons are the same and their tokens agree one by one**, whatever shortcuts are
taken. -/
theorem Node.agreesVia_iff {store : ObjectId → Node} {via : Shortcuts} (hm : m.StoredIn store) (hn : n.StoredIn store) :
    m.agreesVia via how n = true ↔ m.Matches how n := by
  induction m using Node.induction generalizing n with
  | step m ih =>
    have hslot : ∀ s ∈ m.slots, ∀ t ∈ n.slots, (s.agreesVia via how t = true ↔
        s.skeleton = t.skeleton ∧ List.Forall₂ (fun u v => u.agrees how v = true) s.tokens t.tokens) := by
      refine fun s hs t ht => Slot.agreesVia_iff (fun c hc d hd => ?_)
      have hcm : c ∈ m.children := List.mem_flatMap.2 ⟨s, hs, hc⟩
      exact ih c hcm (hm.child hcm) (hn.child (List.mem_flatMap.2 ⟨t, ht, hd⟩))
    rw [Node.agreesVia_step_iff]
    constructor
    · rintro (⟨-, hid⟩ | ⟨⟨hkind, -⟩, hslots⟩)
      · obtain rfl : m = n := by rw [← hm.self, hid, hn.self]
        exact ⟨rfl, List.forall₂_same.2 (fun t _ => t.agrees_self how)⟩
      · have hboth := forall₂_mono_of_mem hslots (fun s hs t ht => (hslot s hs t ht).1)
        have hskeleton := Node.skeleton_eq_iff.2 ⟨hkind, hboth.imp (fun _ _ h => h.1)⟩
        exact ⟨hskeleton, (Node.forall₂_tokens_iff hskeleton).2 (hboth.imp (fun _ _ h => h.2))⟩
    · rintro ⟨hskeleton, htokens⟩
      obtain ⟨hkind, hslots⟩ := Node.skeleton_eq_iff.1 hskeleton
      refine .inr ⟨⟨hkind, not_or_of_imp (fun hwidths => ?_)⟩, ?_⟩
      · rw [Node.fullWidth_eq, Node.fullWidth_eq]
        exact Token.width_texts_of_agree hwidths.2 htokens.flip
      · exact forall₂_mono_of_mem (forall₂_and hslots ((Node.forall₂_tokens_iff hskeleton).1 htokens))
          (fun s hs t ht => (hslot s hs t ht).2)

/-! ## Tokens where they stand -/

/-- A token with the offset of its leading trivia. -/
structure PlacedToken where
  token : Token
  fullStart : Nat

namespace PlacedToken

variable {p q r : PlacedToken}

/-- The offset of the characters. -/
def start (p : PlacedToken) : Nat := p.fullStart + p.token.leading.fullWidth

/-- The offset behind the characters. -/
def stop (p : PlacedToken) : Nat := p.start + p.token.width

/-- The offset behind the trailing trivia. -/
def fullStop (p : PlacedToken) : Nat := p.stop + p.token.trailing.fullWidth

/-- Tokens in a row from an offset on. -/
def row : Nat → List Token → List PlacedToken
  | _, [] => []
  | first, t :: ts => ⟨t, first⟩ :: row (first + t.fullWidth) ts

/-- Tokens at two places have the same kind and characters, and, as far as they are compared, the same offsets and the
same comments on each side. -/
structure Corresponds (how : Comparison) (p q : PlacedToken) : Prop where
  kind : p.token.kind = q.token.kind
  text : p.token.text = q.token.text
  offsets : how.offsets = true →
    p.fullStart = q.fullStart ∧ p.start = q.start ∧ p.stop = q.stop ∧ p.fullStop = q.fullStop
  comments : how.comments = true → p.token.leading.comments = q.token.leading.comments ∧
    p.token.trailing.comments = q.token.trailing.comments

namespace Corresponds

theorem refl (how : Comparison) (p : PlacedToken) : Corresponds how p p :=
  ⟨rfl, rfl, fun _ => ⟨rfl, rfl, rfl, rfl⟩, fun _ => ⟨rfl, rfl⟩⟩

theorem symm (h : Corresponds how p q) : Corresponds how q p := by
  refine ⟨h.kind.symm, h.text.symm, fun ho => ?_, fun hc => ?_⟩
  · obtain ⟨hfull, hstart, hstop, hfullStop⟩ := h.offsets ho
    exact ⟨hfull.symm, hstart.symm, hstop.symm, hfullStop.symm⟩
  · exact ⟨(h.comments hc).1.symm, (h.comments hc).2.symm⟩

theorem trans (h : Corresponds how p q) (h' : Corresponds how q r) : Corresponds how p r := by
  refine ⟨h.kind.trans h'.kind, h.text.trans h'.text, fun ho => ?_, fun hc => ?_⟩
  · obtain ⟨hfull, hstart, hstop, hfullStop⟩ := h.offsets ho
    obtain ⟨hfull', hstart', hstop', hfullStop'⟩ := h'.offsets ho
    exact ⟨hfull.trans hfull', hstart.trans hstart', hstop.trans hstop', hfullStop.trans hfullStop'⟩
  · exact ⟨(h.comments hc).1.trans (h'.comments hc).1, (h.comments hc).2.trans (h'.comments hc).2⟩

/-- Less is compared, so more corresponds. -/
theorem mono {weaker : Comparison} (h : Corresponds how p q) (hoffsets : weaker.offsets = true → how.offsets = true)
    (hcomments : weaker.comments = true → how.comments = true) : Corresponds weaker p q :=
  ⟨h.kind, h.text, fun hw => h.offsets (hoffsets hw), fun hw => h.comments (hcomments hw)⟩

end Corresponds

/-- **Tokens at the same offset correspond exactly if they agree**, which only compares what they hold themselves. -/
theorem corresponds_iff {u v : Token} {first first' : Nat} (h : how.offsets = true → first = first') :
    Corresponds how ⟨u, first⟩ ⟨v, first'⟩ ↔ u.agrees how v = true := by
  have hlook : u.agrees how v = true ↔ u.kind = v.kind ∧ u.text = v.text ∧
      (how.offsets = true →
        u.leading.fullWidth = v.leading.fullWidth ∧ u.trailing.fullWidth = v.trailing.fullWidth) ∧
      (how.comments = true → u.leading.comments = v.leading.comments ∧ u.trailing.comments = v.trailing.comments) := by
    simp only [Token.agrees, Bool.and_eq_true, beq_iff_eq, Bool.or_eq_true, Bool.not_eq_true', and_assoc,
      imp_iff_not_or, Bool.not_eq_true]
  rw [hlook]
  constructor
  · intro hc
    refine ⟨hc.kind, hc.text, fun ho => ?_, hc.comments⟩
    obtain ⟨hfull, hstart, hstop, hfullStop⟩ := hc.offsets ho
    simp only [start, stop, fullStop] at hfull hstart hstop hfullStop
    omega
  · rintro ⟨hkind, htext, hwidths, hcomments⟩
    refine ⟨hkind, htext, fun ho => ?_, hcomments⟩
    have hwidth : u.width = v.width := congrArg Text.width htext
    obtain ⟨hleading, htrailing⟩ := hwidths ho
    simp only [start, stop, fullStop, h ho, hleading, htrailing, hwidth, and_self]

/-- Tokens that correspond end at the same offset, if offsets are compared. -/
theorem Corresponds.fullWidth_eq {u v : Token} {first first' : Nat} (h : Corresponds how ⟨u, first⟩ ⟨v, first'⟩)
    (ho : how.offsets = true) : first + u.fullWidth = first' + v.fullWidth := by
  have hstop : first + u.leading.fullWidth + u.width + u.trailing.fullWidth =
      first' + v.leading.fullWidth + v.width + v.trailing.fullWidth := (h.offsets ho).2.2.2
  show first + (u.leading.fullWidth + u.width + u.trailing.fullWidth) =
    first' + (v.leading.fullWidth + v.width + v.trailing.fullWidth)
  omega

/-- **Rows of tokens correspond exactly if the tokens agree one by one.**  What agrees is as wide, so each pair of
tokens moves on by the same width, and the tokens behind it stand at the same offsets again. -/
theorem forall₂_row_iff : ∀ {us vs : List Token} {first first' : Nat}, (how.offsets = true → first = first') →
    (List.Forall₂ (Corresponds how) (row first us) (row first' vs) ↔
      List.Forall₂ (fun u v => u.agrees how v = true) us vs)
  | [], [], _, _, _ => by simp [row]
  | [], _ :: _, _, _, _ => by simp [row]
  | _ :: _, [], _, _, _ => by simp [row]
  | u :: us, v :: vs, first, first', h => by
    rw [row, row, List.forall₂_cons, List.forall₂_cons, ← corresponds_iff h]
    exact and_congr_right (fun hhere => forall₂_row_iff hhere.fullWidth_eq)

end PlacedToken

/-- The tokens of a tree, each where it stands in the text. -/
def Node.placedTokens (n : Node) : List PlacedToken := PlacedToken.row 0 n.tokens

theorem Node.matches_iff : m.Matches how n ↔
    m.skeleton = n.skeleton ∧ List.Forall₂ (PlacedToken.Corresponds how) m.placedTokens n.placedTokens :=
  and_congr_right (fun _ => (PlacedToken.forall₂_row_iff (fun _ => rfl)).symm)

namespace Node.Matches

variable {l : Node}

theorem refl (how : Comparison) (n : Node) : n.Matches how n :=
  Node.matches_iff.2 ⟨rfl, List.forall₂_same.2 (fun p _ => .refl how p)⟩

theorem symm (h : m.Matches how n) : n.Matches how m := by
  obtain ⟨hskeleton, htokens⟩ := Node.matches_iff.1 h
  exact Node.matches_iff.2 ⟨hskeleton.symm, (htokens.imp (fun _ _ hpq => hpq.symm)).flip⟩

theorem trans (h : l.Matches how m) (h' : m.Matches how n) : l.Matches how n := by
  obtain ⟨hskeleton, htokens⟩ := Node.matches_iff.1 h
  obtain ⟨hskeleton', htokens'⟩ := Node.matches_iff.1 h'
  exact Node.matches_iff.2
    ⟨hskeleton.trans hskeleton', forall₂_trans (fun _ _ _ hpq hqr => hpq.trans hqr) htokens htokens'⟩

theorem mono {weaker : Comparison} (h : m.Matches how n) (hoffsets : weaker.offsets = true → how.offsets = true)
    (hcomments : weaker.comments = true → how.comments = true) : m.Matches weaker n := by
  obtain ⟨hskeleton, htokens⟩ := Node.matches_iff.1 h
  exact Node.matches_iff.2 ⟨hskeleton, htokens.imp (fun _ _ hpq => hpq.mono hoffsets hcomments)⟩

end Node.Matches

theorem Node.agrees_iff_matches {store : ObjectId → Node} (hm : m.StoredIn store) (hn : n.StoredIn store) :
    m.agrees how n = true ↔ m.Matches how n := by
  rw [Node.agrees_eq_agreesVia, Node.agreesVia_iff hm hn]

/-- Trees whose nodes are told apart by their numbers are trees of a store. -/
theorem Node.exists_store (h : ∀ a ∈ m.all ++ n.all, ∀ b ∈ m.all ++ n.all, a.id = b.id → a = b) :
    ∃ store, m.StoredIn store ∧ n.StoredIn store := by
  classical
  refine ⟨fun i => ((m.all ++ n.all).find? (fun a => a.id = i)).getD m, ?_⟩
  have hstore : ∀ a ∈ m.all ++ n.all, ((m.all ++ n.all).find? (fun b => b.id = a.id)).getD m = a := by
    intro a ha
    obtain ⟨b, hb⟩ := Option.isSome_iff_exists.1 (List.find?_isSome.2 ⟨a, ha, decide_eq_true rfl⟩ :
      ((m.all ++ n.all).find? (fun b => b.id = a.id)).isSome = true)
    rw [hb]
    exact h b (List.mem_of_find?_eq_some hb) a ha (by simpa using List.find?_some hb)
  exact ⟨fun a ha => hstore a (List.mem_append_left _ ha), fun a ha => hstore a (List.mem_append_right _ ha)⟩

/-- **Having the same structure is what the options say.**  On the trees of a store, whatever is compared: it is an
equivalence.  Two trees have the same structure exactly if they are put together in the same way, kind by kind and slot
by slot, and their tokens correspond one by one where they stand.  What has the same structure still has it when less is
compared.  And the answer is the same with the ways around subtrees and without. -/
theorem Node.agrees_exact (store : ObjectId → Node) (how : Comparison) :
    Equivalence (fun m n : { n : Node // n.StoredIn store } => m.1.agrees how n.1 = true) ∧
    ∀ m n : Node, m.StoredIn store → n.StoredIn store →
      (m.agrees how n = true ↔ m.skeleton = n.skeleton ∧
        List.Forall₂ (PlacedToken.Corresponds how) m.placedTokens n.placedTokens) ∧
      (∀ weaker : Comparison, (weaker.offsets = true → how.offsets = true) →
        (weaker.comments = true → how.comments = true) → m.agrees how n = true → m.agrees weaker n = true) ∧
      ∀ via : Shortcuts, m.agreesVia via how n = m.agrees how n := by
  refine ⟨⟨fun n => ?_, fun {m n} h => ?_, fun {l m n} h h' => ?_⟩, fun m n hm hn => ⟨?_, ?_, fun via => ?_⟩⟩
  · exact (agrees_iff_matches n.2 n.2).2 (.refl how n.1)
  · exact (agrees_iff_matches n.2 m.2).2 ((agrees_iff_matches m.2 n.2).1 h).symm
  · exact (agrees_iff_matches l.2 n.2).2 (((agrees_iff_matches l.2 m.2).1 h).trans ((agrees_iff_matches m.2 n.2).1 h'))
  · rw [agrees_iff_matches hm hn, matches_iff]
  · intro weaker hoffsets hcomments h
    exact (agrees_iff_matches hm hn).2 (((agrees_iff_matches hm hn).1 h).mono hoffsets hcomments)
  · rw [Bool.eq_iff_iff, agreesVia_iff hm hn, agrees_iff_matches hm hn]

/-- A name with a blank behind it has the same structure as one without, unless offsets are compared. -/
theorem Node.agrees_exact_name : ∃ (m n : Node) (store : ObjectId → Node), m.StoredIn store ∧ n.StoredIn store ∧
    m.skeleton = n.skeleton ∧
    List.Forall₂ (PlacedToken.Corresponds ⟨false, true⟩) m.placedTokens n.placedTokens ∧
    m.agrees ⟨false, false⟩ n = true ∧ n.agrees ⟨false, true⟩ m = true ∧
    m.agreesVia ⟨false, false⟩ ⟨true, false⟩ n = false := by
  let m : Node := .mk 2 .identifierName [.token ⟨0, .realized .identifier .empty ['x'] .none .empty⟩]
  let n : Node := .mk 3 .identifierName
    [.token ⟨1, .realized .identifier .empty ['x'] .none (.ofList [⟨.whitespace, [' ']⟩])⟩]
  have hall : m.all ++ n.all = [m, n] := rfl
  obtain ⟨store, hm, hn⟩ := Node.exists_store (m := m) (n := n) (by
    rw [hall]
    simp [m, n, Node.id])
  have hagrees : m.agrees ⟨false, true⟩ n = true := by decide
  obtain ⟨hequivalence, hpair⟩ := Node.agrees_exact store ⟨false, true⟩
  obtain ⟨hiff, hweaker, -⟩ := hpair m n hm hn
  obtain ⟨hskeleton, htokens⟩ := hiff.1 hagrees
  obtain ⟨-, -, hvia⟩ := (Node.agrees_exact store ⟨true, false⟩).2 m n hm hn
  have hplain := hweaker ⟨false, false⟩ (fun h => h) (fun h => by cases h) hagrees
  refine ⟨m, n, store, hm, hn, hskeleton, htokens, hplain, ?_, ?_⟩
  · exact hequivalence.symm (x := ⟨m, hm⟩) (y := ⟨n, hn⟩) hagrees
  · rw [hvia]
    decide

end Downlevel
