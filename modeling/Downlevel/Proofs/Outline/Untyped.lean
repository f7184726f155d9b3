import Downlevel.Proofs.Outline.Gives
/-!
# Proofs.Outline.Untyped — a tree without its types

Erasing types leaves out what is written about types only: annotations, the type of a cast, the question mark of a
parameter, interfaces, what is declared to be elsewhere, functions without a body, and the word `export`
(`Node.untyped`).  A form that is plain code once that is gone is bare (`Node.isBare`).  Nothing is erased of a tree that
is in no need of lowering (`Node.untyped_of_not_isSpecific`).
-/
namespace Downlevel

/-! ## What is written -/

/-- The kinds and characters of those tokens that have characters. -/
def Token.spellings (ts : List Token) : List (TokenKind × List Char) :=
  (ts.filter (fun t => !t.text.isEmpty)).map (fun t => (t.kind, t.text))

/-- The kinds and characters of the tokens of a tree that have characters, in document order. -/
def Node.spelling (n : Node) : List (TokenKind × List Char) := Token.spellings n.tokens

/-- The kinds and characters of the tokens of a slot that have characters, in document order. -/
def Slot.spelling (s : Slot) : List (TokenKind × List Char) := Token.spellings s.tokens

namespace Token

@[simp] theorem spellings_nil : spellings [] = [] := rfl

@[simp] theorem spellings_append (ts us : List Token) : spellings (ts ++ us) = spellings ts ++ spellings us := by
  simp [spellings]

theorem spellings_flatMap {α : Type} (f : α → List Token) (as : List α) :
    spellings (as.flatMap f) = as.flatMap (fun a => spellings (f a)) := by
  induction as with
  | nil => rfl
  | cons a as ih => rw [List.flatMap_cons, spellings_append, ih, List.flatMap_cons]

theorem spellings_cons_of_text {t : Token} (h : t.text ≠ []) (ts : List Token) :
    spellings (t :: ts) = (t.kind, t.text) :: spellings ts := by
  rw [spellings, List.filter_cons_of_pos (by simpa using h)]
  rfl

theorem spellings_outline (ts : List Token) : spellings (ts.map outline) = spellings ts := by
  induction ts with
  | nil => rfl
  | cons t ts ih =>
    by_cases ht : t.text = []
    · rw [List.map_cons, spellings, spellings, List.filter_cons_of_neg (by simp [ht]),
        List.filter_cons_of_neg (by simp [ht])]
      exact ih
    · rw [List.map_cons, spellings_cons_of_text (by simpa using ht), spellings_cons_of_text ht, ih]
      rfl

end Token

namespace Slot

@[simp] theorem spelling_absent : Slot.absent.spelling = [] := rfl

@[simp] theorem spelling_noToken : (Slot.ofToken? none).spelling = [] := rfl

@[simp] theorem spelling_node (n : Node) : (Slot.node n).spelling = n.spelling := rfl

@[simp] theorem spelling_list (ns : List Node) : (Slot.list ns).spelling = ns.flatMap Node.spelling := by
  rw [spelling, tokens_list, Token.spellings_flatMap]
  rfl

theorem spelling_separated (ns : List Node) (ts : List Token) : (Slot.separated ns ts).spelling =
    (interleave (ns.map Node.spelling) (ts.map (fun t => Token.spellings [t]))).flatten := by
  rw [spelling, tokens_separated, ← List.flatMap_id, Token.spellings_flatMap, List.flatMap_def, map_interleave,
    List.map_map, List.map_map]
  rfl

@[simp] theorem spelling_ofNode? (o : Option Node) : (Slot.ofNode? o).spelling = o.toList.flatMap Node.spelling := by
  cases o <;> simp [ofNode?]

end Slot

@[simp] theorem Node.spelling_mk (id : ObjectId) (kind : NodeKind) (slots : List Slot) :
    (Node.mk id kind slots).spelling = slots.flatMap Slot.spelling := by
  rw [Node.spelling, Node.tokens_mk, Token.spellings_flatMap]
  rfl

/-- A new node is written as the slots of its view. -/
theorem spelling_toNode {α : Type} [NodeView α] (v : α) (i : ObjectId) :
    (NodeView.toNode v i).1.spelling = (NodeView.toSlots v).flatMap Slot.spelling := Node.spelling_mk ..

theorem Node.spelling_eq (n : Node) : n.spelling = n.slots.flatMap Slot.spelling := by
  cases n
  exact Node.spelling_mk ..

theorem Node.spelling_outline (n : Node) : n.outline.spelling = n.spelling := by
  rw [Node.spelling, Node.tokens_outline, Token.spellings_outline]
  rfl

/-! ## Erasing types -/

/-- Nothing of the node is kept: it says something about types, or declares what is elsewhere, or has no body. -/
def Node.isErased (n : Node) : Bool :=
  match n.kind with
  | .typeClause | .interfaceDeclaration => true
  | .variableStatement | .classDeclaration | .enumDeclaration | .moduleDeclaration => n.has 1
  | .functionDeclaration => n.has 1 || !n.has 5
  | _ => false

/-- The slots of a kind that are left out: the angle brackets of a cast and what is between them, the question mark of a
parameter, and the word `export`. -/
def NodeKind.leavesOut : NodeKind → Nat → Bool
  | .castExpression, index => index < 3
  | .parameter, index => index == 3
  | .functionDeclaration, index => index == 0
  | .variableStatement, index => index == 0
  | _, _ => false

mutual

/-- **The tree without its types.** -/
def Node.untyped : Node → Node
  | .mk id kind slots => .mk id kind (Slot.untypedFrom kind 0 slots)

/-- The slots of a node of a kind from the one with the given number on, without types. -/
def Slot.untypedFrom (kind : NodeKind) : Nat → List Slot → List Slot
  | _, [] => []
  | index, slot :: slots =>
    (if kind.leavesOut index then .absent else slot.untyped) :: Slot.untypedFrom kind (index + 1) slots

/-- A slot without types. -/
def Slot.untyped : Slot → Slot
  | .absent => .absent
  | .token t => .token t
  | .node n => if n.isErased then .absent else .node n.untyped
  | .list members => .list (Node.eachUntyped members)
  | .separated members separators => .separated (Node.eachUntyped members) separators

/-- The nodes of a list of which something is kept, without types. -/
def Node.eachUntyped : List Node → List Node
  | [] => []
  | n :: ns => if n.isErased then Node.eachUntyped ns else n.untyped :: Node.eachUntyped ns

end

mutual

/-- The leftmost part of an expression is a cast. -/
def Node.opensWithCast : Node → Bool
  | .mk _ kind slots => kind == .castExpression || Slot.firstOpensWithCast slots

/-- The first slot of a row opens with a cast. -/
def Slot.firstOpensWithCast : List Slot → Bool
  | [] => false
  | slot :: _ => slot.opensWithCast

/-- The slot holds a node that opens with a cast. -/
def Slot.opensWithCast : Slot → Bool
  | .node n => n.opensWithCast
  | _ => false

end

/-- Without types the form is plain code: no class, enum or namespace, no arrow function, no reference to the base class,
no parameter with more than a name, and no statement that opens with a cast. -/
def Node.isBare (n : Node) : Bool :=
  match n.kind with
  | .classDeclaration | .enumDeclaration | .moduleDeclaration => false
  | .simpleArrowFunctionExpression | .parenthesizedArrowFunctionExpression | .superExpression => false
  | .parameter => !(n.has 0 || n.has 1 || n.has 5)
  | .expressionStatement => !n.opensWithCast
  | _ => true

/-- What is written of the node once types are erased. -/
def Node.leftSpelling (n : Node) : List (TokenKind × List Char) := if n.isErased then [] else n.untyped.spelling

section Untyped

variable {n : Node} {ns : List Node} {kind : NodeKind} {slots : List Slot}

theorem Node.leftSpelling_of_isErased (h : n.isErased = true) : n.leftSpelling = [] := if_pos h

theorem Node.leftSpelling_of_not_isErased (h : n.isErased = false) : n.leftSpelling = n.untyped.spelling :=
  if_neg (by simp [h])

@[simp] theorem Node.kind_untyped (n : Node) : n.untyped.kind = n.kind := by
  cases n
  rfl

@[simp] theorem Node.slots_untyped (n : Node) : n.untyped.slots = Slot.untypedFrom n.kind 0 n.slots := by
  cases n
  rfl

theorem Node.eachUntyped_eq (ns : List Node) :
    Node.eachUntyped ns = (ns.filter (fun n => !n.isErased)).map Node.untyped := by
  induction ns with
  | nil => rfl
  | cons n ns ih =>
    rw [Node.eachUntyped, ih]
    cases h : n.isErased <;> simp [h]

theorem Node.mem_eachUntyped (hn : n ∈ ns) (h : n.isErased = false) : n.untyped ∈ Node.eachUntyped ns := by
  rw [Node.eachUntyped_eq]
  exact List.mem_map.2 ⟨n, List.mem_filter.2 ⟨hn, by simp [h]⟩, rfl⟩

@[simp] theorem Node.spelling_eachUntyped (ns : List Node) :
    (Node.eachUntyped ns).flatMap Node.spelling = ns.flatMap Node.leftSpelling := by
  induction ns with
  | nil => rfl
  | cons n ns ih =>
    rw [Node.eachUntyped, List.flatMap_cons, ← ih]
    cases h : n.isErased with
    | true => rw [if_pos rfl, Node.leftSpelling_of_isErased h, List.nil_append]
    | false => rw [if_neg Bool.false_ne_true, Node.leftSpelling_of_not_isErased h, List.flatMap_cons]

theorem Node.eachUntyped_of_kept (h : ∀ n ∈ ns, n.isErased = false) : Node.eachUntyped ns = ns.map Node.untyped := by
  rw [Node.eachUntyped_eq, List.filter_eq_self.2 (fun n hn => by simp [h n hn])]

namespace Slot

@[simp] theorem untyped_token (t : Token) : (Slot.token t).untyped = .token t := rfl

@[simp] theorem untyped_absent : Slot.absent.untyped = .absent := rfl

@[simp] theorem untyped_ofToken? (o : Option Token) : (Slot.ofToken? o).untyped = .ofToken? o := by cases o <;> rfl

@[simp] theorem untyped_list (ns : List Node) : (Slot.list ns).untyped = .list (Node.eachUntyped ns) := rfl

@[simp] theorem untyped_separated (ns : List Node) (ts : List Token) :
    (Slot.separated ns ts).untyped = .separated (Node.eachUntyped ns) ts := rfl

theorem untyped_of_isErased (h : n.isErased = true) : (Slot.node n).untyped = .absent := if_pos h

theorem untyped_of_not_isErased (h : n.isErased = false) : (Slot.node n).untyped = .node n.untyped :=
  if_neg (by simp [h])

@[simp] theorem spelling_untyped_node (n : Node) : (Slot.node n).untyped.spelling = n.leftSpelling := by
  cases h : n.isErased with
  | true => rw [untyped_of_isErased h, Node.leftSpelling_of_isErased h, spelling_absent]
  | false => rw [untyped_of_not_isErased h, Node.leftSpelling_of_not_isErased h, spelling_node]

@[simp] theorem spelling_untyped_list (ns : List Node) :
    (Slot.list ns).untyped.spelling = ns.flatMap Node.leftSpelling := by
  rw [untyped_list, spelling_list, Node.spelling_eachUntyped]

/-- Members that are written as what is left of others, each of which is kept, are written so with separators too. -/
theorem spelling_separated_of_kept {ms : List Node} {ts : List Token} (h : ∀ n ∈ ns, n.isErased = false)
    (hms : ms.map Node.spelling = ns.map Node.leftSpelling) :
    (Slot.separated ms ts).spelling = (Slot.separated ns ts).untyped.spelling := by
  have hkept : ns.map Node.leftSpelling = (ns.map Node.untyped).map Node.spelling := by
    rw [List.map_map]
    exact List.map_congr_left (fun n hn => Node.leftSpelling_of_not_isErased (h n hn))
  rw [untyped_separated, Node.eachUntyped_of_kept h, spelling_separated, spelling_separated, hms, hkept]

/-- A kind that leaves out no slot leaves types to what stands in the slots. -/
theorem untypedFrom_eq_map (h : ∀ i, kind.leavesOut i = false) :
    ∀ (index : Nat) (slots : List Slot), Slot.untypedFrom kind index slots = slots.map Slot.untyped
  | _, [] => rfl
  | index, s :: slots => by
    rw [Slot.untypedFrom, h, if_neg Bool.false_ne_true, untypedFrom_eq_map h (index + 1) slots, List.map_cons]

/-- A slot that is not left out is there without types. -/
theorem untyped_mem_untypedFrom {s : Slot} : ∀ {slots : List Slot} {index i : Nat}, slots[i]? = some s →
    kind.leavesOut (index + i) = false → s.untyped ∈ Slot.untypedFrom kind index slots
  | _ :: slots, index, 0, hs, hi => by
    rw [Slot.untypedFrom, show kind.leavesOut index = false from hi, if_neg Bool.false_ne_true]
    obtain rfl := Option.some.inj hs
    exact List.mem_cons_self ..
  | _ :: slots, index, i + 1, hs, hi => by
    rw [Slot.untypedFrom]
    refine List.mem_cons_of_mem _ (untyped_mem_untypedFrom (i := i) hs ?_)
    rw [show index + 1 + i = index + (i + 1) by omega]
    exact hi

/-- What is kept in a slot stands there without types. -/
theorem untyped_mem_nodes {s : Slot} (hn : n ∈ s.nodes) (h : n.isErased = false) : n.untyped ∈ s.untyped.nodes := by
  cases s with
  | absent => cases hn
  | token t => cases hn
  | node m =>
    obtain rfl := List.mem_singleton.1 hn
    rw [untyped_of_not_isErased h]
    exact List.mem_singleton.2 rfl
  | list ms => exact Node.mem_eachUntyped hn h
  | separated ms ts => exact Node.mem_eachUntyped hn h

end Slot

/-- **What is kept in a slot that is not left out is a child of the tree without types.** -/
theorem Node.untyped_mem_children {s : Slot} {m : Node} {i : Nat} (hs : n.slots[i]? = some s)
    (hi : n.kind.leavesOut i = false) (hm : m ∈ s.nodes) (h : m.isErased = false) :
    m.untyped ∈ n.untyped.children := by
  refine List.mem_flatMap.2 ⟨s.untyped, ?_, Slot.untyped_mem_nodes hm h⟩
  rw [Node.slots_untyped]
  exact Slot.untyped_mem_untypedFrom hs (by rwa [Nat.zero_add])

theorem Node.has_of_slots {i : Nat} {o : Option Token} (h : n.slots[i]? = some (.ofToken? o)) :
    n.has i = o.isSome := by
  unfold Node.has
  rw [h]
  cases o <;> rfl

theorem Node.has_of_nodeSlot {i : Nat} {o : Option Node} (h : n.slots[i]? = some (.ofNode? o)) :
    n.has i = o.isSome := by
  unfold Node.has
  rw [h]
  cases o <;> rfl

end Untyped

/-! ## Outlines -/

theorem Node.isErased_outline (n : Node) : n.outline.isErased = n.isErased := by
  unfold Node.isErased
  simp only [Node.kind_outline, Node.has_outline]

theorem Node.opensWithCast_outline (n : Node) : n.outline.opensWithCast = n.opensWithCast := by
  induction n using Node.induction with
  | step n ih =>
    obtain ⟨id, kind, slots⟩ := n
    rw [Node.outline_mk, Node.opensWithCast, Node.opensWithCast]
    congr 1
    rcases slots with _ | ⟨s, slots⟩
    · rfl
    · rw [List.map_cons, Slot.firstOpensWithCast, Slot.firstOpensWithCast]
      cases s with
      | node m => exact ih m (List.mem_flatMap.2 ⟨_, List.mem_cons_self .., List.mem_singleton.2 rfl⟩)
      | list ms => rw [Slot.outline_list, Slot.opensWithCast, Slot.opensWithCast] <;> exact fun _ h => by cases h
      | separated ms ts =>
        rw [Slot.outline_separated, Slot.opensWithCast, Slot.opensWithCast] <;> exact fun _ h => by cases h
      | _ => rfl

theorem Node.isBare_outline (n : Node) : n.outline.isBare = n.isBare := by
  unfold Node.isBare
  simp only [Node.kind_outline, Node.has_outline, Node.opensWithCast_outline]

/-- **An outline without types is the outline of the tree without types.** -/
theorem Node.untyped_outline (n : Node) : n.outline.untyped = n.untyped.outline := by
  have hmembers : ∀ ms : List Node, (∀ m ∈ ms, m.outline.untyped = m.untyped.outline) →
      Node.eachUntyped (ms.map Node.outline) = (Node.eachUntyped ms).map Node.outline := by
    intro ms hms
    induction ms with
    | nil => rfl
    | cons m ms ih =>
      obtain ⟨hm, hms⟩ := List.forall_mem_cons.1 hms
      rw [List.map_cons, Node.eachUntyped, Node.eachUntyped, Node.isErased_outline, ih hms, hm]
      split <;> rfl
  have hslot : ∀ s : Slot, (∀ m ∈ s.nodes, m.outline.untyped = m.untyped.outline) →
      s.outline.untyped = s.untyped.outline := by
    intro s hs
    cases s with
    | absent => rfl
    | token t => rfl
    | node m =>
      cases h : m.isErased with
      | true =>
        rw [Slot.outline_node, Slot.untyped_of_isErased ((Node.isErased_outline m).trans h),
          Slot.untyped_of_isErased h, Slot.outline_absent]
      | false =>
        rw [Slot.outline_node, Slot.untyped_of_not_isErased ((Node.isErased_outline m).trans h),
          Slot.untyped_of_not_isErased h, Slot.outline_node, hs m (List.mem_singleton.2 rfl)]
    | list ms => rw [Slot.outline_list, Slot.untyped_list, hmembers ms hs, Slot.untyped_list, Slot.outline_list]
    | separated ms ts =>
      rw [Slot.outline_separated, Slot.untyped_separated, hmembers ms hs, Slot.untyped_separated,
        Slot.outline_separated]
  -- The index is general in the induction: which slots are left out is told by where they stand.
  have hrow : ∀ (kind : NodeKind) (slots : List Slot) (index : Nat),
      (∀ s ∈ slots, ∀ m ∈ s.nodes, m.outline.untyped = m.untyped.outline) →
        Slot.untypedFrom kind index (slots.map Slot.outline) = (Slot.untypedFrom kind index slots).map Slot.outline := by
    intro kind slots
    induction slots with
    | nil => exact fun _ _ => rfl
    | cons s slots ih =>
      intro index hs
      obtain ⟨hs, hslots⟩ := List.forall_mem_cons.1 hs
      rw [List.map_cons, Slot.untypedFrom, Slot.untypedFrom, List.map_cons, ih _ hslots, hslot s hs]
      split <;> rfl
  induction n using Node.induction with
  | step n ih =>
    obtain ⟨id, kind, slots⟩ := n
    rw [Node.outline_mk, Node.untyped, Node.untyped, Node.outline_mk,
      hrow kind slots 0 (fun s hs m hm => ih m (List.mem_flatMap.2 ⟨s, hs, hm⟩))]

/-! ## Trees in no need of lowering -/

theorem Node.isErased_of_plain {n : Node} (h : n.isDialectForm = false) : n.isErased = false := by
  unfold Node.isDialectForm at h
  unfold Node.isErased
  split at h <;> simp_all

theorem Node.absent_of_leavesOut {n : Node} {i : Nat} (h : n.isDialectForm = false) (hi : n.kind.leavesOut i = true) :
    n.has i = false := by
  unfold NodeKind.leavesOut at hi
  unfold Node.isDialectForm at h
  split at hi <;> simp_all

/-- **Nothing is erased of a tree that is in no need of lowering.** -/
theorem Node.untyped_of_not_isSpecific {n : Node} (h : n.isSpecific = false) : n.untyped = n := by
  have hplain : n.Every PlainForm := Node.isSpecific_eq_false_iff.1 h
  clear h
  induction n using Node.induction with
  | step n ih =>
    have hchildren : ∀ s ∈ n.slots, ∀ m ∈ s.nodes, m.isErased = false ∧ m.untyped = m := fun s hs m hm =>
      have hmem : m ∈ n.children := List.mem_flatMap.2 ⟨s, hs, hm⟩
      ⟨Node.isErased_of_plain (hplain.child hmem).self, ih m hmem (hplain.child hmem)⟩
    have hslot : ∀ s ∈ n.slots, s.untyped = s := by
      intro s hs
      have heach : ∀ ms : List Node, (∀ m ∈ ms, m.isErased = false ∧ m.untyped = m) → Node.eachUntyped ms = ms :=
        fun ms hms => by
          rw [Node.eachUntyped_of_kept (fun m hm => (hms m hm).1)]
          exact (List.map_congr_left (fun m hm => (hms m hm).2)).trans (List.map_id ms)
      cases s with
      | absent => rfl
      | token t => rfl
      | node m =>
        obtain ⟨hkept, hm⟩ := hchildren _ hs m (List.mem_singleton.2 rfl)
        rw [Slot.untyped_of_not_isErased hkept, hm]
      | list ms => rw [Slot.untyped_list, heach ms (hchildren _ hs)]
      | separated ms ts => rw [Slot.untyped_separated, heach ms (hchildren _ hs)]
    -- A row further on in the node is told by its index, since only with it is a slot known to be one of the node.
    have hrow : ∀ (slots : List Slot) (index : Nat), (∀ i s, slots[i]? = some s → n.slots[index + i]? = some s) →
        Slot.untypedFrom n.kind index slots = slots := by
      intro slots
      induction slots with
      | nil => exact fun _ _ => rfl
      | cons s slots ihrow =>
        intro index hget
        have hs : n.slots[index]? = some s := hget 0 s rfl
        rw [Slot.untypedFrom, ihrow (index + 1) (fun i s' hs' => by
          rw [show index + 1 + i = index + (i + 1) by omega]
          exact hget (i + 1) s' hs')]
        congr 1
        split
        · rename_i hout
          have hhas := Node.absent_of_leavesOut hplain.self hout
          unfold Node.has at hhas
          rw [hs] at hhas
          cases s <;> first | rfl | cases hhas
        · exact hslot s (List.mem_of_getElem? hs)
    have hall := hrow n.slots 0 (fun i s hs => by rwa [Nat.zero_add])
    obtain ⟨id, kind, slots⟩ := n
    rw [Node.untyped]
    exact congrArg _ hall

end Downlevel
