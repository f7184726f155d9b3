import Downlevel.Proofs.Tree.Checked
import Downlevel.Proofs.Tree.Schematic
import Downlevel.Proofs.Tree.Stands
/-!
# Proofs.Tree.Faults — the check finds the first fault

Where shapes match, only two things can be wrong with a tree: the arity of a separated list, at the start of the list,
and a token object that was met before, at the token.  `Node.checkpoints` has these points in document order.  The check
of a schematic tree is the check of its places one after the other (`Node.check_eq`): the widths that it measures on the
way are always right.  So it ends well exactly if no place is at fault, and else it tells of the first one that is.
-/
namespace Downlevel

/-- A point of a tree that may be at fault, with the kind of the node that owns it. -/
inductive Checkpoint where
  /-- The start of a separated list. -/
  | list (owner : NodeKind) (members separators : Nat)
  | token (owner : NodeKind) (token : Token)

mutual

/-- The places of a tree in document order. -/
def Node.checkpoints : Node → List Checkpoint
  | .mk _ kind slots => Slot.allCheckpoints kind slots

/-- The places of a row of slots of a node. -/
def Slot.allCheckpoints (owner : NodeKind) : List Slot → List Checkpoint
  | [] => []
  | slot :: slots => slot.checkpoints owner ++ Slot.allCheckpoints owner slots

def Slot.checkpoints (owner : NodeKind) : Slot → List Checkpoint
  | .absent => []
  | .token t => [.token owner t]
  | .node n => n.checkpoints
  | .list members => (Node.checkpointsOfEach members).flatten
  | .separated members separators =>
    .list owner members.length separators.length
      :: (interleave (Node.checkpointsOfEach members) (separators.map (fun t => [.token owner t]))).flatten

def Node.checkpointsOfEach : List Node → List (List Checkpoint)
  | [] => []
  | n :: ns => n.checkpoints :: Node.checkpointsOfEach ns

end

namespace Checkpoint

/-- The node that has the list or token. -/
def owner : Checkpoint → NodeKind
  | list owner _ _ => owner
  | token owner _ => owner

def token? : Checkpoint → Option Token
  | list _ _ _ => none
  | token _ t => some t

def tokens (places : List Checkpoint) : List Token := places.filterMap token?

/-- What is wrong with a place that comes after others. -/
def faultAfter (before : List Checkpoint) : Checkpoint → Option Fault
  | list _ members separators =>
    if ¬ (members = 0 ∧ separators = 0) ∧ members ≠ separators + 1 then some (.arity members separators) else none
  | token _ t => if t.id ∈ (tokens before).map Token.id then some (.repeatedToken t) else none

/-- No place is at fault, the first one coming after others. -/
def FaultFree (before : List Checkpoint) : List Checkpoint → Prop
  | [] => True
  | p :: places => p.faultAfter before = none ∧ FaultFree (before ++ [p]) places

/-- The part of the check that is about a place. -/
def check : Checkpoint → Check Unit
  | list owner members separators => Check.arity owner members separators
  | token owner t => Check.token owner t

@[simp] theorem tokens_nil : tokens [] = [] := rfl

@[simp] theorem tokens_append (ps qs : List Checkpoint) : tokens (ps ++ qs) = tokens ps ++ tokens qs :=
  List.filterMap_append

@[simp] theorem tokens_list (owner : NodeKind) (members separators : Nat) (ps : List Checkpoint) :
    tokens (list owner members separators :: ps) = tokens ps := rfl

@[simp] theorem tokens_token (owner : NodeKind) (t : Token) (ps : List Checkpoint) :
    tokens (token owner t :: ps) = t :: tokens ps := rfl

/-- The state of a check that has passed these places. -/
def passed (places : List Checkpoint) : CheckState :=
  ⟨((tokens places).map Token.id).reverse, Token.widths (tokens places)⟩

end Checkpoint

theorem Node.checkpointsOfEach_eq (ns : List Node) : Node.checkpointsOfEach ns = ns.map Node.checkpoints := by
  induction ns with
  | nil => rfl
  | cons n ns ih => rw [Node.checkpointsOfEach, ih, List.map_cons]

theorem Slot.allCheckpoints_eq (owner : NodeKind) (slots : List Slot) :
    Slot.allCheckpoints owner slots = slots.flatMap (Slot.checkpoints owner) := by
  induction slots with
  | nil => rfl
  | cons slot slots ih => rw [Slot.allCheckpoints, ih, List.flatMap_cons]

/-! ## The places have all tokens and all separated lists -/

theorem Checkpoint.tokens_interleave (owner : NodeKind) : ∀ (ns : List Node) (ts : List Token),
    (∀ n ∈ ns, Checkpoint.tokens n.checkpoints = n.tokens) →
      Checkpoint.tokens (interleave (ns.map Node.checkpoints) (ts.map (fun t => [Checkpoint.token owner t]))).flatten
        = (interleave (ns.map Node.tokens) (ts.map (fun t => [t]))).flatten
  | [], [], _ => rfl
  | [], t :: ts, h => by
    have ih := Checkpoint.tokens_interleave owner [] ts h
    simp only [List.map_nil, interleave, List.map_cons, List.flatten_cons, Checkpoint.tokens_append] at ih ⊢
    rw [ih]
    rfl
  | n :: ns, [], h => by
    have ih := Checkpoint.tokens_interleave owner ns [] (fun m hm => h m (List.mem_cons_of_mem _ hm))
    simp only [List.map_nil, interleave_nil_right, List.map_cons, List.flatten_cons, Checkpoint.tokens_append] at ih ⊢
    rw [ih, h n List.mem_cons_self]
  | n :: ns, t :: ts, h => by
    have ih := Checkpoint.tokens_interleave owner ns ts (fun m hm => h m (List.mem_cons_of_mem _ hm))
    simp only [interleave, List.map_cons, List.flatten_cons, Checkpoint.tokens_append] at ih ⊢
    rw [ih, h n List.mem_cons_self]
    rfl

theorem Checkpoint.tokens_flatMap {α : Type} (places : α → List Checkpoint) (toks : α → List Token) (as : List α)
    (h : ∀ a ∈ as, tokens (places a) = toks a) : tokens (as.flatMap places) = as.flatMap toks := by
  induction as with
  | nil => rfl
  | cons a as ih =>
    rw [List.flatMap_cons, List.flatMap_cons, Checkpoint.tokens_append, h a List.mem_cons_self,
      ih (fun b hb => h b (List.mem_cons_of_mem _ hb))]

/-- **The tokens at the places of a tree are its tokens.** -/
theorem Node.tokens_checkpoints (n : Node) : Checkpoint.tokens n.checkpoints = n.tokens := by
  induction n using Node.induction with
  | step n ih =>
    obtain ⟨id, kind, slots⟩ := n
    rw [Node.checkpoints, Slot.allCheckpoints_eq, Node.tokens_mk]
    refine Checkpoint.tokens_flatMap _ _ _ (fun s hs => ?_)
    have hbelow : ∀ c ∈ s.nodes, Checkpoint.tokens c.checkpoints = c.tokens := fun c hc =>
      ih c (List.mem_flatMap.2 ⟨s, hs, hc⟩)
    cases s with
    | absent => rfl
    | token t => rfl
    | node c => exact hbelow c (List.mem_singleton.2 rfl)
    | list ns =>
      rw [Slot.checkpoints, Node.checkpointsOfEach_eq, ← List.flatMap_def, Slot.tokens_list]
      exact Checkpoint.tokens_flatMap _ _ _ hbelow
    | separated ns ts =>
      rw [Slot.checkpoints, Node.checkpointsOfEach_eq, Checkpoint.tokens_list, Slot.tokens_separated]
      exact Checkpoint.tokens_interleave kind ns ts hbelow

/-- A node has the list or token of a place itself. -/
def Checkpoint.HeldBy (m : Node) : Checkpoint → Prop
  | list owner members separators =>
    m.kind = owner ∧ ∃ ns ts, .separated ns ts ∈ m.slots ∧ ns.length = members ∧ ts.length = separators
  | token owner t => m.kind = owner ∧ ∃ s ∈ m.slots, t ∈ s.ownTokens

theorem Checkpoint.HeldBy.owner_eq {m : Node} {p : Checkpoint} (h : p.HeldBy m) : p.owner = m.kind := by
  cases p with
  | list owner members separators => exact h.1.symm
  | token owner t => exact h.1.symm

/-- A place of a slot is one of the slot itself or of a node in it. -/
theorem Slot.mem_checkpoints {owner : NodeKind} {s : Slot} {p : Checkpoint} :
    p ∈ s.checkpoints owner ↔
      (∃ ns ts, s = .separated ns ts ∧ p = .list owner ns.length ts.length) ∨
      (∃ t ∈ s.ownTokens, p = .token owner t) ∨ ∃ c ∈ s.nodes, p ∈ c.checkpoints := by
  cases s with
  | absent => simp [Slot.checkpoints, Slot.ownTokens]
  | token t => simp [Slot.checkpoints, Slot.ownTokens]
  | node c => simp [Slot.checkpoints, Slot.ownTokens]
  | list ns => simp [Slot.checkpoints, Slot.ownTokens, Node.checkpointsOfEach_eq]
  | separated ns ts =>
    simp only [Slot.checkpoints, Node.checkpointsOfEach_eq, List.mem_cons, List.mem_flatten, mem_interleave,
      List.mem_map, Slot.nodes_separated, Slot.ownTokens, Slot.separated.injEq]
    constructor
    · rintro (h | ⟨row, ⟨c, hc, rfl⟩ | ⟨t, ht, rfl⟩, h⟩)
      · exact .inl ⟨ns, ts, ⟨rfl, rfl⟩, h⟩
      · exact .inr (.inr ⟨c, hc, h⟩)
      · exact .inr (.inl ⟨t, ht, List.mem_singleton.1 h⟩)
    · rintro (⟨ms, us, ⟨rfl, rfl⟩, h⟩ | ⟨t, ht, h⟩ | ⟨c, hc, h⟩)
      · exact .inl h
      · exact .inr ⟨[.token owner t], .inr ⟨t, ht, rfl⟩, List.mem_singleton.2 h⟩
      · exact .inr ⟨c.checkpoints, .inl ⟨c, hc, rfl⟩, h⟩

theorem Checkpoint.heldBy_iff {m : Node} {p : Checkpoint} :
    p.HeldBy m ↔ ∃ s ∈ m.slots, (∃ ns ts, s = .separated ns ts ∧ p = .list m.kind ns.length ts.length) ∨
      ∃ t ∈ s.ownTokens, p = .token m.kind t := by
  cases p with
  | list owner members separators =>
    constructor
    · rintro ⟨rfl, ns, ts, hs, rfl, rfl⟩
      exact ⟨_, hs, .inl ⟨ns, ts, rfl, rfl⟩⟩
    · rintro ⟨s, hs, ⟨ns, ts, rfl, h⟩ | ⟨t, -, h⟩⟩
      · cases h
        exact ⟨rfl, ns, ts, hs, rfl, rfl⟩
      · cases h
  | token owner t =>
    constructor
    · rintro ⟨rfl, s, hs, ht⟩
      exact ⟨s, hs, .inr ⟨t, ht, rfl⟩⟩
    · rintro ⟨s, hs, ⟨ns, ts, -, h⟩ | ⟨u, hu, h⟩⟩
      · cases h
      · cases h
        exact ⟨rfl, s, hs, hu⟩

/-- **The places of a tree are those that its nodes hold.** -/
theorem Node.mem_checkpoints {n : Node} {p : Checkpoint} : p ∈ n.checkpoints ↔ ∃ m ∈ n.all, p.HeldBy m := by
  induction n using Node.induction with
  | step n ih =>
    obtain ⟨id, kind, slots⟩ := n
    rw [Node.checkpoints, Slot.allCheckpoints_eq, Node.all_eq]
    simp only [List.mem_flatMap, List.mem_cons, Slot.mem_checkpoints]
    constructor
    · rintro ⟨s, hs, h | h | ⟨c, hc, h⟩⟩
      · exact ⟨_, .inl rfl, Checkpoint.heldBy_iff.2 ⟨s, hs, .inl h⟩⟩
      · exact ⟨_, .inl rfl, Checkpoint.heldBy_iff.2 ⟨s, hs, .inr h⟩⟩
      · have hcn : c ∈ (Node.mk id kind slots).children := List.mem_flatMap.2 ⟨s, hs, hc⟩
        obtain ⟨m, hm, h⟩ := (ih c hcn).1 h
        exact ⟨m, .inr ⟨c, hcn, hm⟩, h⟩
    · rintro ⟨m, rfl | ⟨c, hcn, hm⟩, h⟩
      · obtain ⟨s, hs, h | h⟩ := Checkpoint.heldBy_iff.1 h
        · exact ⟨s, hs, .inl h⟩
        · exact ⟨s, hs, .inr (.inl h)⟩
      · obtain ⟨s, hs, hc⟩ := List.mem_flatMap.1 hcn
        exact ⟨s, hs, .inr (.inr ⟨c, hc, (ih c hcn).2 ⟨m, hm, h⟩⟩)⟩

/-! ## The check of a place and of a row of places -/

/-- A token is passed, or it was met before. -/
theorem Check.token_eq (kind : NodeKind) (t : Token) (s : CheckState) :
    Check.token kind t s = if t.id ∈ s.seen then .error ⟨.repeatedToken t, kind, s.offset⟩
      else .ok ((), ⟨t.id :: s.seen, s.offset + t.fullWidth⟩) := by
  have hrun : Check.token kind t s = (if s.seen.contains t.id then
      (Check.fault kind (.repeatedToken t) >>= fun (_ : Unit) =>
        set (⟨t.id :: s.seen, s.offset + t.fullWidth⟩ : CheckState))
    else set (⟨t.id :: s.seen, s.offset + t.fullWidth⟩ : CheckState) : Check Unit) s := rfl
  rw [hrun]
  by_cases h : t.id ∈ s.seen
  · rw [if_pos (List.contains_iff_mem.2 h), if_pos h]
    rfl
  · rw [if_neg (fun hc => h (List.contains_iff_mem.1 hc)), if_neg h]
    rfl

namespace Checkpoint

theorem passed_append_list (before : List Checkpoint) (owner : NodeKind) (members separators : Nat) :
    passed (before ++ [list owner members separators]) = passed before := by
  unfold passed
  rw [tokens_append, tokens_list, tokens_nil, List.append_nil]

theorem passed_append_token (before : List Checkpoint) (owner : NodeKind) (t : Token) :
    passed (before ++ [token owner t]) = ⟨t.id :: (passed before).seen, (passed before).offset + t.fullWidth⟩ := by
  unfold passed
  rw [tokens_append, tokens_token, tokens_nil, Check.widths_append]
  simp [Token.widths]

/-- **A place is checked in the light of those before it**: it is passed, or its fault is told. -/
theorem check_passed (before : List Checkpoint) (p : Checkpoint) :
    p.check (passed before) = match p.faultAfter before with
      | none => .ok ((), passed (before ++ [p]))
      | some fault => .error ⟨fault, p.owner, (passed before).offset⟩ := by
  cases p with
  | list owner members separators =>
    rw [passed_append_list]
    by_cases h : ¬ (members = 0 ∧ separators = 0) ∧ members ≠ separators + 1
    · rw [check, Check.arity, if_pos h, faultAfter, if_pos h]
      rfl
    · rw [check, Check.arity, if_neg h, faultAfter, if_neg h]
      rfl
  | token owner t =>
    rw [passed_append_token]
    have hmem : t.id ∈ (passed before).seen ↔ t.id ∈ (tokens before).map Token.id := List.mem_reverse
    rw [check, faultAfter, Check.token_eq]
    by_cases h : t.id ∈ (tokens before).map Token.id
    · rw [if_pos (hmem.2 h), if_pos h]
      rfl
    · rw [if_neg (fun hm => h (hmem.1 hm)), if_neg h]

/-- The check of a row of places. -/
def checkAll (ps : List Checkpoint) : Check Unit := forM ps check

/-- The first place is checked, then the others. -/
theorem checkAll_cons (p : Checkpoint) (ps : List Checkpoint) (s : CheckState) :
    checkAll (p :: ps) s = match p.check s with
      | .ok (_, s') => checkAll ps s'
      | .error v => .error v := by
  show (p.check s >>= fun r => checkAll ps r.2) = _
  cases p.check s <;> rfl

theorem checkAll_append (ps qs : List Checkpoint) :
    checkAll (ps ++ qs) = (do checkAll ps; checkAll qs) := List.forM_append

/-- **Places are all passed exactly if none of them is at fault.** -/
theorem checkAll_passed : ∀ (ps before : List Checkpoint),
    checkAll ps (passed before) = .ok ((), passed (before ++ ps)) ∧ FaultFree before ps ∨
      ∃ v, checkAll ps (passed before) = .error v ∧ ∃ mid p behind, ps = mid ++ p :: behind ∧
        FaultFree before mid ∧ p.faultAfter (before ++ mid) = some v.fault ∧ v.kind = p.owner ∧
          v.offset = (passed (before ++ mid)).offset
  | [], before => .inl ⟨by rw [List.append_nil]; rfl, trivial⟩
  | p :: ps, before => by
    have hp := check_passed before p
    rw [checkAll_cons]
    cases hfault : p.faultAfter before with
    | some fault =>
      rw [hfault] at hp
      rw [hp]
      refine .inr ⟨_, rfl, [], p, ps, rfl, trivial, ?_, rfl, ?_⟩
      · rw [List.append_nil]; exact hfault
      · rw [List.append_nil]
    | none =>
      rw [hfault] at hp
      simp only [hp]
      rcases checkAll_passed ps (before ++ [p]) with ⟨hrun, hfree⟩ | ⟨v, hrun, mid, q, behind, rfl, hfree, h⟩
      · exact .inl ⟨by rw [hrun, List.append_assoc]; rfl, hfault, hfree⟩
      · refine .inr ⟨v, hrun, p :: mid, q, behind, rfl, ⟨hfault, hfree⟩, ?_⟩
        rw [List.append_assoc] at h
        exact h

/-- A row of places that is passed has moved on by the widths of its tokens. -/
theorem offset_of_checkAll : ∀ {ps : List Checkpoint} {s s' : CheckState}, checkAll ps s = .ok ((), s') →
    s'.offset = s.offset + Token.widths (tokens ps)
  | [], s, s', h => by
    cases h
    rfl
  | p :: ps, s, s', h => by
    rw [checkAll_cons] at h
    cases hp : p.check s with
    | error v => rw [hp] at h; cases h
    | ok r =>
      rw [hp] at h
      have ih := offset_of_checkAll h
      cases p with
      | list owner members separators =>
        rw [check, Check.arity] at hp
        split at hp
        · cases hp
        · cases hp
          exact ih
      | token owner t =>
        rw [check, Check.token_eq] at hp
        split at hp
        · cases hp
        · cases hp
          have hw : Token.widths (t :: tokens ps) = t.fullWidth + Token.widths (tokens ps) := by simp [Token.widths]
          rw [tokens_token, hw, ih, Nat.add_assoc]

/-- What follows a row of places may look at how far the row has come, and finds what it expects. -/
theorem checkAll_measured {ps : List Checkpoint} {after : Nat → Check Unit}
    (h : ∀ start s, s.offset = start + Token.widths (tokens ps) → after start s = .ok ((), s)) :
    (do let start ← Check.offset; checkAll ps; after start) = checkAll ps := by
  funext s
  show (checkAll ps s >>= fun r => after s.offset r.2) = _
  cases hrun : checkAll ps s with
  | error v => rfl
  | ok r => exact h s.offset r.2 (offset_of_checkAll hrun)

end Checkpoint

/-! ## The check of a tree is the check of its places -/

mutual

/-- **The check of a schematic tree is the check of its places.** -/
theorem Node.check_eq : ∀ {n : Node}, n.Schematic → Node.check n = Checkpoint.checkAll n.checkpoints
  | .mk id kind slots, h => by
    have hslots := Slot.checkAll_eq kind kind.schema slots (Node.schematic_mk.1 h).1 (Node.schematic_mk.1 h).2
    have hlength : kind.schema.length = slots.length := by
      rw [← (Node.schematic_mk.1 h).1.length_eq, NodeKind.shapes, List.length_map]
    have htokens := Node.tokens_checkpoints (.mk id kind slots)
    rw [Node.checkpoints] at htokens ⊢
    simp only [Node.check, hlength, ne_eq, not_true_eq_false, if_false, hslots]
    refine Checkpoint.checkAll_measured (fun start s hs => ?_)
    have hmeasured : s.offset - start = (Node.mk id kind slots).fullWidth := by
      rw [htokens, Token.widths_eq] at hs
      rw [Node.fullWidth_eq, Node.fullText]
      omega
    rw [Check.offset_bind, hmeasured, if_neg (fun hne => hne rfl)]
    rfl

theorem Slot.checkAll_eq (kind : NodeKind) : ∀ (schema : List (String × SlotShape)) (slots : List Slot),
    Slot.FitAll (schema.map Prod.snd) slots → (∀ s ∈ slots, ∀ c ∈ s.nodes, c.Schematic) →
      Slot.checkAll kind schema slots = Checkpoint.checkAll (Slot.allCheckpoints kind slots)
  | [], slots, hfit, _ => by
    cases hfit
    rfl
  | (name, shape) :: schema, slots, hfit, hbelow => by
    cases hfit with
    | @cons _ slot _ slots hslot hrest =>
      have ih := Slot.checkAll_eq kind schema slots hrest (fun s hs => hbelow s (List.mem_cons_of_mem _ hs))
      have hhere := Slot.check_eq kind slot (hbelow slot List.mem_cons_self)
      rw [Slot.allCheckpoints, Checkpoint.checkAll_append, ← hhere, ← ih]
      cases slot with
      | absent =>
        have hopt : shape.isOptional = true := hslot
        rw [Slot.checkAll, Check.absentSlot, if_neg (not_not.2 hopt)]
        rfl
      | _ => rfl

theorem Slot.check_eq (kind : NodeKind) : ∀ slot : Slot, (∀ c ∈ slot.nodes, c.Schematic) →
    Slot.check kind slot = Checkpoint.checkAll (slot.checkpoints kind)
  | .absent, _ => rfl
  | .token t, _ => by
    rw [Slot.check, Slot.checkpoints]
    exact (bind_pure _).symm
  | .node n, h => by
    rw [Slot.check, Slot.checkpoints]
    exact Node.check_eq (h n (List.mem_singleton.2 rfl))
  | .list ns, h => by
    have hlist := Node.checkList_eq ns h
    have htokens := Checkpoint.tokens_flatMap Node.checkpoints Node.tokens ns (fun n _ => Node.tokens_checkpoints n)
    rw [Slot.check, Slot.checkpoints, hlist]
    refine Checkpoint.checkAll_measured (fun start s hs => ?_)
    rw [Node.checkpointsOfEach_eq, ← List.flatMap_def, htokens] at hs
    exact Check.listWidth_eq _ _ _ _ (by rw [hs, Node.listFullWidth_eq, Token.widths_eq])
  | .separated ns ts, h => by
    have hitems := Node.checkSeparated_eq kind ns ts h
    have htokens := Checkpoint.tokens_interleave kind ns ts (fun n _ => Node.tokens_checkpoints n)
    have hmeasured : (do
        let start ← Check.offset
        Node.checkSeparated kind ns ts
        Check.listWidth kind start (Node.listFullWidth ns + Token.widths ts)) = Node.checkSeparated kind ns ts := by
      rw [hitems]
      refine Checkpoint.checkAll_measured (fun start s hs => ?_)
      rw [Node.checkpointsOfEach_eq, htokens] at hs
      exact Check.listWidth_eq _ _ _ _ (by
        rw [hs, Node.listFullWidth_eq, Token.widths_eq, Token.width_interleave, List.flatMap_def])
    rw [Slot.check, hmeasured, hitems]
    rfl

theorem Node.checkList_eq : ∀ ns : List Node, (∀ n ∈ ns, n.Schematic) →
    Node.checkList ns = Checkpoint.checkAll (Node.checkpointsOfEach ns).flatten
  | [], _ => rfl
  | n :: ns, h => by
    have ih := Node.checkList_eq ns (fun m hm => h m (List.mem_cons_of_mem _ hm))
    rw [Node.checkList, Node.checkpointsOfEach, List.flatten_cons, Checkpoint.checkAll_append, ← ih,
      Node.check_eq (h n List.mem_cons_self)]

theorem Node.checkSeparated_eq (kind : NodeKind) : ∀ (ns : List Node) (ts : List Token), (∀ n ∈ ns, n.Schematic) →
    Node.checkSeparated kind ns ts = Checkpoint.checkAll
      (interleave (Node.checkpointsOfEach ns) (ts.map (fun t => [.token kind t]))).flatten
  | [], ts, _ => by
    rw [Node.checkSeparated, Node.checkpointsOfEach, interleave]
    induction ts with
    | nil => rfl
    | cons t ts ih =>
      rw [List.map_cons, List.flatten_cons, Checkpoint.checkAll_append, ← ih]
      exact (congrArg (· >>= fun _ => ts.forM (Check.token kind)) (bind_pure (Check.token kind t))).symm
  | n :: ns, [], h => by
    have ih := Node.checkSeparated_eq kind ns [] (fun m hm => h m (List.mem_cons_of_mem _ hm))
    rw [List.map_nil, interleave_nil_right] at ih ⊢
    rw [Node.checkSeparated, Node.checkpointsOfEach, List.flatten_cons, Checkpoint.checkAll_append, ← ih,
      Node.check_eq (h n List.mem_cons_self)]
  | n :: ns, t :: ts, h => by
    have ih := Node.checkSeparated_eq kind ns ts (fun m hm => h m (List.mem_cons_of_mem _ hm))
    rw [Node.checkSeparated, Node.checkpointsOfEach, List.map_cons, interleave, List.flatten_cons, List.flatten_cons,
      Checkpoint.checkAll_append, Checkpoint.checkAll_append, ← ih, Node.check_eq (h n List.mem_cons_self)]
    exact congrArg (Checkpoint.checkAll n.checkpoints >>= ·) (funext fun _ =>
      (congrArg (· >>= fun _ => Node.checkSeparated kind ns ts) (bind_pure (Check.token kind t))).symm)

end

/-! ## The first fault -/

namespace Checkpoint

theorem faultFree_append : ∀ {ps before qs : List Checkpoint},
    FaultFree before (ps ++ qs) ↔ FaultFree before ps ∧ FaultFree (before ++ ps) qs
  | [], before, qs => by rw [List.nil_append, List.append_nil, FaultFree, true_and]
  | p :: ps, before, qs => by
    rw [List.cons_append, FaultFree, FaultFree, faultFree_append, and_assoc, List.append_assoc, List.singleton_append]

/-- **No place is at fault exactly if the arities are right and no token is met twice.** -/
theorem faultFree_iff : ∀ {ps before : List Checkpoint}, ((tokens before).map Token.id).Nodup →
    (FaultFree before ps ↔
      (∀ owner members separators, list owner members separators ∈ ps →
        members = 0 ∧ separators = 0 ∨ members = separators + 1) ∧ ((tokens (before ++ ps)).map Token.id).Nodup)
  | [], before, hbefore => by simpa [FaultFree] using hbefore
  | list owner members separators :: ps, before, hbefore => by
    have hb : ((tokens (before ++ [list owner members separators])).map Token.id).Nodup := by simpa using hbefore
    have ih := @faultFree_iff ps _ hb
    rw [List.append_assoc] at ih
    rw [FaultFree, ih, faultAfter, ite_eq_right_iff]
    constructor
    · rintro ⟨hhere, harity, hnodup⟩
      refine ⟨fun k m i hmem => ?_, hnodup⟩
      rcases List.mem_cons.1 hmem with heq | hmem
      · cases heq
        by_contra hwrong
        exact nomatch hhere ⟨fun hz => hwrong (.inl hz), fun hs => hwrong (.inr hs)⟩
      · exact harity k m i hmem
    · rintro ⟨harity, hnodup⟩
      refine ⟨fun hwrong => ?_, fun k m i hmem => harity k m i (List.mem_cons_of_mem _ hmem), hnodup⟩
      rcases harity owner members separators List.mem_cons_self with hz | hs
      · exact absurd hz hwrong.1
      · exact absurd hs hwrong.2
  | token owner t :: ps, before, hbefore => by
    rw [FaultFree, faultAfter, ite_eq_right_iff]
    have hlists : (∀ k m i, list k m i ∈ token owner t :: ps → m = 0 ∧ i = 0 ∨ m = i + 1) ↔
        ∀ k m i, list k m i ∈ ps → m = 0 ∧ i = 0 ∨ m = i + 1 := by simp
    rw [hlists]
    -- What was met before is general in the induction, so a repeated token is told where it is met again.
    by_cases hmet : t.id ∈ (tokens before).map Token.id
    · refine ⟨fun h => (nomatch h.1 hmet), fun h => ?_⟩
      have hnodup := h.2
      rw [tokens_append, List.map_append, List.nodup_append] at hnodup
      exact absurd rfl (hnodup.2.2 t.id hmet t.id (by simp))
    · have hb : ((tokens (before ++ [token owner t])).map Token.id).Nodup := by
        rw [tokens_append, List.map_append]
        refine List.nodup_append.2 ⟨hbefore, by simp, fun i hi j hj hij => hmet ?_⟩
        rw [tokens_token, tokens_nil, List.map_singleton, List.mem_singleton] at hj
        rw [← hj, ← hij]
        exact hi
      have ih := @faultFree_iff ps _ hb
      rw [List.append_assoc] at ih
      exact ⟨fun h => ih.1 h.2, fun h => ⟨fun hm => absurd hm hmet, ih.2 h⟩⟩

/-- A row of places has one first fault at most. -/
theorem first_unique : ∀ {ps qs before behind rest : List Checkpoint} {p q : Checkpoint},
    ps ++ p :: behind = qs ++ q :: rest → FaultFree before ps → FaultFree before qs →
      p.faultAfter (before ++ ps) ≠ none → q.faultAfter (before ++ qs) ≠ none → ps = qs ∧ p = q
  | [], [], before, behind, rest, p, q, h, _, _, _, _ => ⟨rfl, (List.cons.inj h).1⟩
  | [], r :: qs, before, behind, rest, p, q, h, _, hqs, hp, _ => by
    obtain ⟨rfl, -⟩ := List.cons.inj h
    rw [List.append_nil] at hp
    exact absurd hqs.1 hp
  | r :: ps, [], before, behind, rest, p, q, h, hps, _, _, hq => by
    obtain ⟨rfl, -⟩ := List.cons.inj h
    rw [List.append_nil] at hq
    exact absurd hps.1 hq
  | r :: ps, r' :: qs, before, behind, rest, p, q, h, hps, hqs, hp, hq => by
    obtain ⟨rfl, hrest⟩ := List.cons.inj h
    rw [List.append_cons] at hp hq
    obtain ⟨rfl, rfl⟩ := @first_unique ps qs (before ++ [r]) _ _ _ _ hrest hps.2 hqs.2 hp hq
    exact ⟨rfl, rfl⟩

/-- The violation is that of the first place of a row that is at fault. -/
def FirstFault (places : List Checkpoint) (v : Violation) : Prop :=
  ∃ before p behind, places = before ++ p :: behind ∧ FaultFree [] before ∧ p.faultAfter before = some v.fault ∧
    v.kind = p.owner ∧ v.offset = Text.width (Token.texts (tokens before))

theorem FirstFault.not_faultFree {places : List Checkpoint} {v : Violation} (h : FirstFault places v) :
    ¬ FaultFree [] places := by
  obtain ⟨before, p, behind, rfl, -, hp, -⟩ := h
  intro hfree
  have hnone : p.faultAfter before = none := (faultFree_append.1 hfree).2.1
  rw [hnone] at hp
  cases hp

theorem FirstFault.unique {places : List Checkpoint} {v w : Violation} (hv : FirstFault places v)
    (hw : FirstFault places w) : v = w := by
  obtain ⟨before, p, behind, rfl, hbefore, hp, hkind, hoffset⟩ := hv
  obtain ⟨before', q, behind', heq, hbefore', hq, hkind', hoffset'⟩ := hw
  obtain ⟨rfl, rfl⟩ := first_unique heq hbefore hbefore' (by simp [hp]) (by simp [hq])
  cases v
  cases w
  simp_all

end Checkpoint

/-- The separated lists among the places are those of the nodes of the tree. -/
theorem Node.arities_iff {n : Node} :
    (∀ owner members separators, .list owner members separators ∈ n.checkpoints →
      members = 0 ∧ separators = 0 ∨ members = separators + 1) ↔
    ∀ m ∈ n.all, ∀ ns ts, .separated ns ts ∈ m.slots → ns = [] ∧ ts = [] ∨ ns.length = ts.length + 1 := by
  constructor
  · intro h m hm ns ts hs
    have harity := h m.kind _ _ (Node.mem_checkpoints.2 ⟨m, hm, rfl, ns, ts, hs, rfl, rfl⟩)
    rwa [List.length_eq_zero_iff, List.length_eq_zero_iff] at harity
  · intro h owner members separators hmem
    obtain ⟨m, hm, rfl, ns, ts, hs, rfl, rfl⟩ := Node.mem_checkpoints.1 hmem
    rw [List.length_eq_zero_iff, List.length_eq_zero_iff]
    exact h m hm ns ts hs

/-- The check of a schematic tree ends well with no place at fault, or tells of the first one that is. -/
theorem Node.checkInvariants_cases {n : Node} (h : n.Schematic) :
    n.checkInvariants = .ok () ∧ Checkpoint.FaultFree [] n.checkpoints ∨
      ∃ v, n.checkInvariants = .error v ∧ Checkpoint.FirstFault n.checkpoints v := by
  have hrun : n.checkInvariants = (Checkpoint.checkAll n.checkpoints (Checkpoint.passed []) >>= fun _ => pure ()) := by
    rw [← Node.check_eq h]
    rfl
  rw [hrun]
  rcases Checkpoint.checkAll_passed n.checkpoints [] with ⟨hok, hfree⟩ | ⟨v, herr, before, p, behind, h⟩
  · exact .inl ⟨by rw [hok]; rfl, hfree⟩
  · obtain ⟨hsplit, hbefore, hp, hkind, hoffset⟩ := h
    exact .inr ⟨v, by rw [herr]; rfl, before, p, behind, hsplit, hbefore, hp, hkind,
      hoffset.trans (Token.widths_eq _)⟩

/-- **The check is sound, complete and precise.**  A schematic tree passes it exactly if every separated list of it is
empty or has one member more than separators and no token object stands at two places.  A violation is told exactly if
it is the fault of the first place in document order that has one, with the kind of the node that holds the place and
the number of bytes in front of it. -/
theorem Node.checkInvariants_exact {n : Node} (h : n.Schematic) :
    (n.checkInvariants = .ok () ↔
      (∀ m ∈ n.all, ∀ ns ts, .separated ns ts ∈ m.slots → ns = [] ∧ ts = [] ∨ ns.length = ts.length + 1) ∧
        (n.tokens.map Token.id).Nodup) ∧
    ∀ v, n.checkInvariants = .error v ↔ ∃ before p behind, n.checkpoints = before ++ p :: behind ∧
      Checkpoint.FaultFree [] before ∧ p.faultAfter before = some v.fault ∧
      (∃ m ∈ n.all, p.HeldBy m ∧ v.kind = m.kind) ∧
      n.tokens = Checkpoint.tokens before ++ Checkpoint.tokens (p :: behind) ∧
      v.offset = Text.width (Token.texts (Checkpoint.tokens before)) := by
  have hfree : Checkpoint.FaultFree [] n.checkpoints ↔
      (∀ m ∈ n.all, ∀ ns ts, .separated ns ts ∈ m.slots → ns = [] ∧ ts = [] ∨ ns.length = ts.length + 1) ∧
        (n.tokens.map Token.id).Nodup := by
    rw [@Checkpoint.faultFree_iff n.checkpoints [] List.nodup_nil, Node.arities_iff, List.nil_append,
      Node.tokens_checkpoints]
  have hfirst : ∀ v, Checkpoint.FirstFault n.checkpoints v ↔ ∃ before p behind,
      n.checkpoints = before ++ p :: behind ∧ Checkpoint.FaultFree [] before ∧ p.faultAfter before = some v.fault ∧
      (∃ m ∈ n.all, p.HeldBy m ∧ v.kind = m.kind) ∧
      n.tokens = Checkpoint.tokens before ++ Checkpoint.tokens (p :: behind) ∧
      v.offset = Text.width (Token.texts (Checkpoint.tokens before)) := by
    intro v
    constructor
    · rintro ⟨before, p, behind, hsplit, hbefore, hp, hkind, hoffset⟩
      have hmem : p ∈ n.checkpoints := by rw [hsplit]; simp
      obtain ⟨m, hm, hheld⟩ := Node.mem_checkpoints.1 hmem
      refine ⟨before, p, behind, hsplit, hbefore, hp, ⟨m, hm, hheld, hkind.trans hheld.owner_eq⟩, ?_, hoffset⟩
      rw [← Node.tokens_checkpoints, hsplit, Checkpoint.tokens_append]
    · rintro ⟨before, p, behind, hsplit, hbefore, hp, ⟨m, -, hheld, hkind⟩, -, hoffset⟩
      exact ⟨before, p, behind, hsplit, hbefore, hp, hkind.trans hheld.owner_eq.symm, hoffset⟩
  rw [← hfree]
  rcases Node.checkInvariants_cases h with ⟨hok, hnone⟩ | ⟨w, herr, hw⟩
  · refine ⟨⟨fun _ => hnone, fun _ => hok⟩, fun v => ?_⟩
    rw [← hfirst, hok]
    exact ⟨fun herr => (nomatch herr), fun hv => absurd hnone hv.not_faultFree⟩
  · refine ⟨⟨fun hok => ?_, fun hnone => absurd hnone hw.not_faultFree⟩, fun v => ?_⟩
    · rw [herr] at hok
      cases hok
    · rw [← hfirst, herr]
      exact ⟨fun hv => Except.error.inj hv ▸ hw, fun hv => congrArg _ (hw.unique hv)⟩

/-- One object for both parentheses of an empty list of parameters. -/
def Token.sharedParen : Token := ⟨0, .realized (.punctuation .openParen) .empty ['('] .none .empty⟩

theorem Node.checkInvariants_exact_sharedParen :
    (Node.mk 1 .parameterList [.token .sharedParen, .separated [] [], .token .sharedParen]).Schematic ∧
    (Node.mk 1 .parameterList [.token .sharedParen, .separated [] [], .token .sharedParen]).checkInvariants =
      .error ⟨.repeatedToken .sharedParen, .parameterList, 1⟩ := by
  have h : (Node.mk 1 .parameterList [.token .sharedParen, .separated [] [], .token .sharedParen]).Schematic :=
    Node.schematic_mk.2 ⟨.cons rfl (.cons rfl (.cons rfl .nil)), by simp [Slot.nodes]⟩
  refine ⟨h, ((Node.checkInvariants_exact h).2 _).2
    ⟨[.token .parameterList .sharedParen, .list .parameterList 0 0], .token .parameterList .sharedParen, [], rfl,
      ⟨rfl, rfl, trivial⟩, rfl, ⟨_, Node.mem_all_self _, ⟨rfl, _, List.mem_cons_self, ?_⟩, rfl⟩, rfl, rfl⟩⟩
  exact List.mem_singleton.2 rfl

end Downlevel
