import Downlevel.Proofs.Tree.Answers
import Downlevel.Proofs.Tree.Checked
import Downlevel.Tree.Cursor
import Downlevel.Tree.Positions
import Mathlib.Data.List.Nodup
import Mathlib.Logic.Relation
/-!
# Proofs.Tree.Places — where the nodes and tokens of a tree stand

Offsets are added up in three ways: along the places below a place, along the tokens of a tree, and by cutting the text.
What ties them together is `Cursor.Row`: nodes with their offsets, in between the tokens in front of which they stand.
So a place stands where its tokens stand among those of the tree (`Cursor.StandsIn`), its offsets cut its text out of
the text of the tree, and the places that are met on the way down are, one by one, the positions of the tree
(`Node.places_exact`).
-/
namespace Downlevel

variable {n m : Node} {s : Slot} {t : Token} {ns : List Node} {ts us : List Token} {first : Nat}

/-! ## Cuts -/

/-- **The middle of a text is cut out of it.** -/
theorem Text.slice?_middle (before middle behind : List Char) :
    slice? (width before) (width before + width middle) (before ++ middle ++ behind) = some middle := by
  have hfirst : splitAtByte? (before ++ middle ++ behind) (width before) = some (before, middle ++ behind) := by
    rw [List.append_assoc]
    exact splitAtByte?_append _ _
  have hlast : splitAtByte? (middle ++ behind) (width before + width middle - width before) =
      some (middle, behind) := by
    rw [Nat.add_sub_cancel_left]
    exact splitAtByte?_append _ _
  unfold slice?
  rw [hfirst]
  simp only [Option.bind_eq_bind, Option.bind_some, hlast, Nat.le_add_right, if_true]

/-- Tokens are cut out of the text of a row by the widths in front of them. -/
theorem Token.slice?_texts (before middle behind : List Token) :
    Text.slice? (widths before) (widths before + widths middle) (texts (before ++ middle ++ behind)) =
      some (texts middle) := by
  rw [texts_append, texts_append, widths_eq, widths_eq]
  exact Text.slice?_middle _ _ _

theorem Node.fullWidth_eq_widths (n : Node) : n.fullWidth = Token.widths n.tokens := by
  rw [Node.fullWidth_eq, Node.fullText, Token.widths_eq]

theorem Slot.fullWidth_eq_widths (s : Slot) : s.fullWidth = Token.widths s.tokens := by
  rw [Slot.fullWidth_eq, Slot.fullText, Token.widths_eq]

/-! ## Nodes among tokens -/

namespace Cursor

variable {c d : Cursor} {row row' : List (Node × Nat)}

/-- From an offset on, nodes with their offsets stand among tokens, each in front of its own. -/
inductive Row : Nat → List (Node × Nat) → List Token → Prop
  | nil (first : Nat) : Row first [] []
  | token {first : Nat} {row : List (Node × Nat)} {ts : List Token} (t : Token)
    (rest : Row (first + t.fullWidth) row ts) : Row first row (t :: ts)
  | node {first : Nat} {row : List (Node × Nat)} {ts : List Token} (n : Node)
    (rest : Row (first + n.fullWidth) row ts) : Row first ((n, first) :: row) (n.tokens ++ ts)

namespace Row

/-- A row behind another one. -/
theorem append (h : Row first row ts) (h' : Row (first + Token.widths ts) row' us) :
    Row first (row ++ row') (ts ++ us) := by
  induction h with
  | nil => simpa [Token.widths] using h'
  | token t _ ih =>
    rw [Token.widths, ← Nat.add_assoc] at h'
    exact .token t (ih h')
  | node n _ ih =>
    rw [Check.widths_append, ← n.fullWidth_eq_widths, ← Nat.add_assoc] at h'
    rw [List.append_assoc]
    exact .node n (ih h')

theorem ofTokens : ∀ {first : Nat} {ts : List Token}, Row first [] ts
  | first, [] => .nil first
  | _, t :: _ => .token t ofTokens

/-- **Each node of a row stands where its tokens stand.** -/
theorem split (h : Row first row ts) : ∀ p ∈ row, ∃ before behind,
    ts = before ++ p.1.tokens ++ behind ∧ p.2 = first + Token.widths before := by
  induction h with
  | nil => exact fun p hp => by cases hp
  | token t _ ih =>
    intro p hp
    obtain ⟨before, behind, hts, hstart⟩ := ih p hp
    refine ⟨t :: before, behind, by rw [hts]; rfl, ?_⟩
    rw [hstart, Token.widths, Nat.add_assoc]
  | node n _ ih =>
    intro p hp
    rcases List.mem_cons.1 hp with rfl | hp
    · exact ⟨[], _, rfl, rfl⟩
    · obtain ⟨before, behind, hts, hstart⟩ := ih p hp
      refine ⟨n.tokens ++ before, behind, by rw [hts]; simp only [List.append_assoc], ?_⟩
      rw [hstart, Check.widths_append, n.fullWidth_eq_widths, Nat.add_assoc]

/-- The nodes of a row lie between its ends. -/
theorem within (h : Row first row ts) : ∀ p ∈ row, first ≤ p.2 ∧ p.2 + p.1.fullWidth ≤ first + Token.widths ts := by
  intro p hp
  obtain ⟨before, behind, hts, hstart⟩ := h.split p hp
  rw [hts, Check.widths_append, Check.widths_append, p.1.fullWidth_eq_widths]
  omega

/-- **The nodes of a row stand one behind the other.** -/
theorem ordered (h : Row first row ts) : row.Pairwise (fun p q => p.2 + p.1.fullWidth ≤ q.2) := by
  induction h with
  | nil => exact .nil
  | token _ _ ih => exact ih
  | node n hrest ih => exact .cons (fun q hq => (hrest.within q hq).1) ih

end Row

theorem row_placed : ∀ (first : Nat) (ns : List Node), Row first (placed first ns) (ns.flatMap Node.tokens)
  | first, [] => .nil first
  | first, n :: ns => by
    rw [placed, List.flatMap_cons]
    exact .node n (row_placed _ ns)

theorem row_placedSeparated : ∀ (first : Nat) (ns : List Node) (ts : List Token),
    Row first (placedSeparated first ns ts) (Slot.separated ns ts).tokens
  | _, [], ts => by
    rw [placedSeparated]
    exact .ofTokens
  | first, n :: ns, [] => by
    have hrest := row_placedSeparated (first + n.fullWidth) ns []
    simp only [Slot.tokens_separated, List.map_nil, interleave_nil_right, List.map_cons, List.flatten_cons] at hrest ⊢
    rw [placedSeparated]
    exact .node n hrest
  | first, n :: ns, t :: ts => by
    have hrest := row_placedSeparated (first + n.fullWidth + t.fullWidth) ns ts
    simp only [Slot.tokens_separated, List.map_cons, interleave, List.flatten_cons] at hrest ⊢
    rw [placedSeparated]
    exact .node n (.token t hrest)

theorem row_placedSlot (first : Nat) (s : Slot) : Row first (placedSlot first s) s.tokens := by
  cases s with
  | absent => exact .nil first
  | token t => exact .ofTokens
  | node n =>
    have hrow := Row.node n (.nil (first + n.fullWidth))
    rwa [List.append_nil] at hrow
  | list ns =>
    rw [Slot.tokens_list]
    exact row_placed first ns
  | separated ns ts => exact row_placedSeparated first ns ts

/-- **The nodes of a row of slots stand among the tokens of the slots.** -/
theorem row_placedSlots : ∀ (first : Nat) (slots : List Slot),
    Row first (placedSlots first slots) (slots.flatMap Slot.tokens)
  | first, [] => .nil first
  | first, s :: slots => by
    rw [placedSlots, List.flatMap_cons]
    refine (row_placedSlot first s).append ?_
    rw [← s.fullWidth_eq_widths]
    exact row_placedSlots _ slots

/-! ## Places below a place -/

theorem map_fst_placed : ∀ (first : Nat) (ns : List Node), (placed first ns).map Prod.fst = ns
  | _, [] => rfl
  | _, n :: ns => congrArg (n :: ·) (map_fst_placed _ ns)

theorem map_fst_placedSeparated : ∀ (first : Nat) (ns : List Node) (ts : List Token),
    (placedSeparated first ns ts).map Prod.fst = ns
  | _, [], _ => rfl
  | _, n :: ns, [] => congrArg (n :: ·) (map_fst_placedSeparated _ ns [])
  | _, n :: ns, _ :: ts => congrArg (n :: ·) (map_fst_placedSeparated _ ns ts)

theorem map_fst_placedSlots : ∀ (first : Nat) (slots : List Slot),
    (placedSlots first slots).map Prod.fst = slots.flatMap Slot.nodes
  | _, [] => rfl
  | first, s :: slots => by
    have hslot : (placedSlot first s).map Prod.fst = s.nodes := by
      cases s with
      | list ns => exact map_fst_placed _ _
      | separated ns ts => exact map_fst_placedSeparated _ _ _
      | _ => rfl
    rw [placedSlots, List.map_append, List.flatMap_cons, hslot, map_fst_placedSlots]

/-- **The places directly below hold the nodes directly below**, one by one. -/
theorem map_node_children (c : Cursor) : c.children.map node = c.node.children := by
  rw [children, List.map_map, Node.children, ← map_fst_placedSlots c.start]
  rfl

theorem node_mem_children (h : d ∈ c.children) : d.node ∈ c.node.children := by
  rw [← map_node_children]
  exact List.mem_map_of_mem h

theorem row_children (c : Cursor) : Row c.start (c.children.map (fun d => (d.node, d.start))) c.node.tokens := by
  have hrow := row_placedSlots c.start c.node.slots
  rw [← Node.tokens_eq] at hrow
  rw [children, List.map_map]
  exact (List.map_id _).symm ▸ hrow

/-- **The places directly below lie one behind the other.** -/
theorem ordered_children (c : Cursor) : c.children.Pairwise (fun d e => d.stop ≤ e.start) :=
  List.pairwise_map.1 c.row_children.ordered

theorem within_children (h : d ∈ c.children) : c.start ≤ d.start ∧ d.stop ≤ c.stop := by
  have hwithin := c.row_children.within (d.node, d.start) (List.mem_map.2 ⟨d, h, rfl⟩)
  rwa [← Node.fullWidth_eq_widths] at hwithin

/-! ## Places in a tree -/

/-- The node of the place stands, at its offset, in the tree. -/
def StandsIn (n : Node) (c : Cursor) : Prop := ∃ before behind,
  n.tokens = before ++ c.node.tokens ++ behind ∧ c.start = Token.widths before

theorem standsIn_root (n : Node) : (root n).StandsIn n := ⟨[], [], (List.append_nil _).symm, rfl⟩

theorem StandsIn.child (h : c.StandsIn n) (hd : d ∈ c.children) : d.StandsIn n := by
  obtain ⟨before, behind, htokens, hstart⟩ := h
  obtain ⟨before', behind', htokens', hstart'⟩ :=
    c.row_children.split (d.node, d.start) (List.mem_map.2 ⟨d, hd, rfl⟩)
  refine ⟨before ++ before', behind' ++ behind, ?_, ?_⟩
  · rw [htokens, htokens']
    simp only [List.append_assoc]
  · rw [Check.widths_append, ← hstart]
    exact hstart'

/-- **The offsets of a place cut the text of its node out of the text of the tree.** -/
theorem StandsIn.slice? (h : c.StandsIn n) : Text.slice? c.start c.stop n.fullText = some c.node.fullText := by
  obtain ⟨before, behind, htokens, hstart⟩ := h
  rw [stop, hstart, Node.fullText, htokens, Node.fullWidth_eq_widths]
  exact Token.slice?_texts _ _ _

/-- A place is reached from another one by moving down to a child, any number of times. -/
def Reaches (c d : Cursor) : Prop := Relation.ReflTransGen (fun c d => d ∈ c.children) c d

theorem Reaches.standsIn (h : (root n).Reaches c) : c.StandsIn n := by
  induction h with
  | refl => exact standsIn_root n
  | tail _ hd ih => exact ih.child hd

/-! ## Positions -/

/-- The place that is reached by moving down to the children of the given numbers. -/
def follow? : Cursor → List Nat → Option Cursor
  | c, [] => some c
  | c, i :: path => c.children[i]?.bind (fun d => d.follow? path)

/-- All places on so many levels from a place down, each with the numbers of the children that lead to it: a place in
front of the places below it. -/
def walkUpTo : Nat → Cursor → List (List Nat × Cursor)
  | 0, _ => []
  | levels + 1, c =>
    ([], c) :: c.children.zipIdx.flatMap (fun (d, i) => (walkUpTo levels d).map (fun (path, e) => (i :: path, e)))

/-- **All places from a place down**, each with the numbers of the children that lead to it. -/
def walk (c : Cursor) : List (List Nat × Cursor) := walkUpTo c.node.height c

end Cursor

/-- The node at a position: the numbers of the children to go down to. -/
def Node.at? : Node → List Nat → Option Node
  | n, [] => some n
  | n, i :: path => n.children[i]?.bind (fun m => m.at? path)

namespace Cursor

variable {c d : Cursor} {path : List Nat} {levels : Nat}

/-- **Places are reached as the nodes of the tree are**, by the same children. -/
theorem map_node_follow? : ∀ (path : List Nat) (c : Cursor), (c.follow? path).map node = c.node.at? path
  | [], _ => rfl
  | i :: path, c => by
    rw [follow?, Node.at?, ← map_node_children, List.getElem?_map]
    cases c.children[i]? with
    | none => rfl
    | some d => exact map_node_follow? path d

theorem reaches_of_follow? : ∀ {path : List Nat} {c d : Cursor}, c.follow? path = some d → c.Reaches d
  | [], c, d, h => by
    cases h
    exact .refl
  | i :: path, c, d, h => by
    obtain ⟨e, he, hpath⟩ := Option.bind_eq_some_iff.1 h
    exact .head (List.mem_of_getElem? he) (reaches_of_follow? hpath)

theorem Reaches.follow? (h : c.Reaches d) : ∃ path, c.follow? path = some d := by
  induction h using Relation.ReflTransGen.head_induction_on with
  | refl => exact ⟨[], rfl⟩
  | head hd _ ih =>
    obtain ⟨path, hpath⟩ := ih
    obtain ⟨i, hi⟩ := List.mem_iff_getElem?.1 hd
    exact ⟨i :: path, by rw [Cursor.follow?, hi]; exact hpath⟩

/-- **A walk goes where children lead.** -/
theorem mem_walkUpTo : ∀ {levels : Nat} {c : Cursor}, c.node.height ≤ levels → ∀ {path : List Nat} {d : Cursor},
    (path, d) ∈ walkUpTo levels c ↔ c.follow? path = some d
  | 0, c, h, _, _ => absurd h (by cases hc : c.node; simp [Node.height])
  | levels + 1, c, h, path, d => by
    have hchild : ∀ e ∈ c.children, e.node.height ≤ levels := fun e he =>
      Nat.le_of_lt_succ (Nat.lt_of_lt_of_le (Node.height_lt_of_mem_children (node_mem_children he)) h)
    simp only [walkUpTo, List.mem_cons, List.mem_flatMap, List.mem_map, Prod.exists, Prod.mk.injEq]
    constructor
    · rintro (⟨rfl, rfl⟩ | ⟨e, i, he, path', d', hd, rfl, rfl⟩)
      · rfl
      · have hi : c.children[i]? = some e := (List.mem_zipIdx_iff_getElem?.1 he)
        rw [follow?, hi]
        exact (mem_walkUpTo (hchild e (List.mem_of_getElem? hi))).1 hd
    · intro hpath
      cases path with
      | nil => cases hpath; exact .inl ⟨rfl, rfl⟩
      | cons i path =>
        obtain ⟨e, he, hpath⟩ := Option.bind_eq_some_iff.1 hpath
        refine .inr ⟨e, i, List.mem_zipIdx_iff_getElem?.2 he, path, d, ?_, rfl, rfl⟩
        exact (mem_walkUpTo (hchild e (List.mem_of_getElem? he))).2 hpath

/-- **A walk meets no position twice.** -/
theorem nodup_walkUpTo : ∀ (levels : Nat) (c : Cursor), ((walkUpTo levels c).map Prod.fst).Nodup
  | 0, _ => List.nodup_nil
  | levels + 1, c => by
    rw [walkUpTo, List.map_cons, List.map_flatMap, List.nodup_cons]
    refine ⟨?_, List.nodup_flatMap.2 ⟨fun p _ => ?_, ?_⟩⟩
    · simp
    · rw [List.map_map]
      have hcons : Prod.fst ∘ (fun (q : List Nat × Cursor) => (p.2 :: q.1, q.2)) = (p.2 :: ·) ∘ Prod.fst := rfl
      rw [hcons, ← List.map_map]
      exact (nodup_walkUpTo levels p.1).map (List.cons_injective)
    · have hnumbers : (c.children.zipIdx.map Prod.snd).Nodup := by
        rw [List.zipIdx_map_snd]
        exact List.nodup_range'
      refine (List.pairwise_map.1 hnumbers).imp (fun {p q} hne => List.disjoint_left.2 (fun path hp hq => hne ?_))
      simp only [List.map_map, List.mem_map, Function.comp_apply] at hp hq
      obtain ⟨_, -, rfl⟩ := hp
      obtain ⟨_, -, hhead⟩ := hq
      exact (List.cons.inj hhead).1.symm

theorem mem_walk : (path, d) ∈ c.walk ↔ c.follow? path = some d := mem_walkUpTo (Nat.le_refl _)

/-- **A walk meets every position of the tree**, and nothing else. -/
theorem mem_map_fst_walk : path ∈ c.walk.map Prod.fst ↔ (c.node.at? path).isSome = true := by
  rw [← map_node_follow?, Option.isSome_map, Option.isSome_iff_exists, List.mem_map]
  constructor
  · rintro ⟨⟨_, d⟩, hd, rfl⟩
    exact ⟨d, mem_walk.1 hd⟩
  · rintro ⟨d, hd⟩
    exact ⟨(path, d), mem_walk.2 hd, rfl⟩

end Cursor

/-! ## Tokens -/

namespace Positions

/-- A token object that was not met before is looked up at the width of the tokens in front of it. -/
theorem lookup_offsetsFrom : ∀ {first : Nat} {before behind : List Token} {t : Token}, t.id ∉ before.map Token.id →
    (offsetsFrom first (before ++ t :: behind)).lookup t.id = some (first + Token.widths before)
  | first, [], behind, t, _ => by
    rw [List.nil_append, offsetsFrom, List.lookup_cons_self]
    rfl
  | first, u :: before, behind, t, h => by
    rw [List.map_cons, List.mem_cons, not_or] at h
    rw [List.cons_append, offsetsFrom, List.lookup_cons, beq_false_of_ne h.1]
    dsimp only
    rw [lookup_offsetsFrom h.2, Token.widths, Nat.add_assoc]

variable {o : LayoutOptions} {before behind : List Token}

/-- **The offset of a token is the width of the tokens in front of it**, if no token object stands at two places. -/
theorem fullStart?_ofTree (hdistinct : (n.tokens.map Token.id).Nodup) (h : n.tokens = before ++ t :: behind) :
    (ofTree n o).fullStart? t = some (Token.widths before) := by
  have hnew : t.id ∉ before.map Token.id := by
    rw [h, List.map_append, List.map_cons, List.nodup_middle, List.nodup_cons] at hdistinct
    exact fun hmem => hdistinct.1 (List.mem_append_left _ hmem)
  rw [fullStart?, ofTree, h, lookup_offsetsFrom hnew, Nat.zero_add]

end Positions

/-- The characters of a token are cut out of the text of a row in which it stands. -/
theorem Token.slice?_text (before behind : List Token) (t : Token) :
    Text.slice? (widths before + t.leading.fullWidth) (widths before + t.leading.fullWidth + t.width)
      (texts (before ++ t :: behind)) = some t.text := by
  have hcut := Text.slice?_middle (texts before ++ t.leading.fullText) t.text (t.trailing.fullText ++ texts behind)
  rw [Text.width_append, ← widths_eq, ← TriviaList.fullWidth_eq_width_fullText] at hcut
  have htext : texts (before ++ t :: behind) =
      texts before ++ t.leading.fullText ++ t.text ++ (t.trailing.fullText ++ texts behind) := by
    rw [texts_append]
    simp [texts, Token.fullText, Lexeme.fullText, Token.leading, Token.trailing, Token.text]
  rw [htext]
  exact hcut

/-- **Positions are exact.**  Every place that is reached from the root cuts the text of its node out of the text of the
tree.  The places below a place lie in it, one behind the other.  A walk meets the positions of the tree and nothing
else, each once, and at each the place of the node that stands there.  And if no token object stands at two places, each
token has three offsets, which cut its full text and its characters out of the same text, where it stands. -/
theorem Node.places_exact (n : Node) (o : LayoutOptions) :
    (∀ c, (Cursor.root n).Reaches c → Text.slice? c.start c.stop n.fullText = some c.node.fullText ∧
      c.children.Pairwise (fun d e => d.stop ≤ e.start) ∧ ∀ d ∈ c.children, c.start ≤ d.start ∧ d.stop ≤ c.stop) ∧
    (∀ c, (Cursor.root n).Reaches c ↔ ∃ path, (path, c) ∈ (Cursor.root n).walk) ∧
    ((Cursor.root n).walk.map Prod.fst).Nodup ∧
    (∀ path, path ∈ (Cursor.root n).walk.map Prod.fst ↔ (n.at? path).isSome = true) ∧
    (∀ path c, (path, c) ∈ (Cursor.root n).walk → (Cursor.root n).follow? path = some c ∧ n.at? path = some c.node) ∧
    ((n.tokens.map Token.id).Nodup → (Positions.ofTree n o).text = n.fullText ∧
      ∀ before t behind, n.tokens = before ++ t :: behind → ∃ full start stop,
        (Positions.ofTree n o).fullStart? t = some full ∧ (Positions.ofTree n o).start? t = some start ∧
          (Positions.ofTree n o).stop? t = some stop ∧ full = Text.width (Token.texts before) ∧
          Text.slice? full (full + t.fullWidth) n.fullText = some t.fullText ∧
          Text.slice? start stop n.fullText = some t.text) := by
  refine ⟨fun c hc => ⟨hc.standsIn.slice?, c.ordered_children, fun d hd => Cursor.within_children hd⟩,
    fun c => ⟨fun hc => ?_, fun hc => ?_⟩, Cursor.nodup_walkUpTo _ _, fun path => Cursor.mem_map_fst_walk,
    fun path c hc => ?_, fun hdistinct => ⟨rfl, fun before t behind h => ?_⟩⟩
  · obtain ⟨path, hpath⟩ := hc.follow?
    exact ⟨path, Cursor.mem_walk.2 hpath⟩
  · obtain ⟨path, hpath⟩ := hc
    exact Cursor.reaches_of_follow? (Cursor.mem_walk.1 hpath)
  · have hpath := Cursor.mem_walk.1 hc
    refine ⟨hpath, ?_⟩
    have hat := Cursor.map_node_follow? path (Cursor.root n)
    rw [hpath] at hat
    exact hat.symm
  · have hfull := Positions.fullStart?_ofTree (o := o) hdistinct h
    have hstart : (Positions.ofTree n o).start? t = some (Token.widths before + t.leading.fullWidth) := by
      rw [Positions.start?, hfull]
      rfl
    have hstop : (Positions.ofTree n o).stop? t = some (Token.widths before + t.leading.fullWidth + t.width) := by
      rw [Positions.stop?, hstart]
      rfl
    refine ⟨_, _, _, hfull, hstart, hstop, Token.widths_eq before, ?_, ?_⟩
    · have hcut := Token.slice?_texts before [t] behind
      rw [List.append_assoc, List.singleton_append, ← h] at hcut
      simpa [Token.widths, Token.texts, Node.fullText] using hcut
    · rw [Node.fullText, h]
      exact Token.slice?_text before behind t

/-- In `é + π` the second name stands behind four characters of five bytes. -/
theorem Node.places_exact_sum : ∃ (n : Node) (t : Token), (n.tokens.map Token.id).Nodup ∧ t ∈ n.tokens ∧
    (Positions.ofTree n ⟨4, true, ['\n']⟩).start? t = some 5 ∧ (Positions.ofTree n ⟨4, true, ['\n']⟩).stop? t = some 7 ∧
    Text.slice? 5 7 n.fullText = some ['π'] := by
  let left : Token := ⟨0, .realized .identifier .empty ['é'] .none (.ofList [⟨.whitespace, [' ']⟩])⟩
  let plus : Token := ⟨1, .realized (.punctuation .plus) .empty ['+'] .none (.ofList [⟨.whitespace, [' ']⟩])⟩
  let right : Token := ⟨2, .realized .identifier .empty ['π'] .none .empty⟩
  let n : Node := .mk 5 .binaryExpression
    [.node (.mk 3 .identifierName [.token left]), .token plus, .node (.mk 4 .identifierName [.token right])]
  have hdistinct : (n.tokens.map Token.id).Nodup := by decide
  obtain ⟨-, -, -, -, -, htokens⟩ := n.places_exact ⟨4, true, ['\n']⟩
  obtain ⟨full, start, stop, -, hstart, hstop, -, -, hcut⟩ := (htokens hdistinct).2 [left, plus] right [] rfl
  obtain rfl : 5 = start := Option.some.inj hstart
  obtain rfl : 7 = stop := Option.some.inj hstop
  exact ⟨n, right, hdistinct, by simp [n, right, Node.tokens, Node.tokensOnto, Slot.allTokensOnto, Slot.tokensOnto],
    hstart, hstop, hcut⟩

end Downlevel
