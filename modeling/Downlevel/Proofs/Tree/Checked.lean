import Downlevel.Proofs.Tree.Sorts
import Downlevel.Tree.Invariants
/-!
# Proofs.Tree.Checked — well-formed trees of distinct tokens pass the check

A part of the check passes tokens (`Check.Passes`) when, from any state in which none of them was met, it ends without
a fault, has met them all and has moved on by their widths.  Each part of a well-formed tree passes the tokens of that
part, so a well-formed tree whose token objects are distinct has no fault (`Node.checkInvariants_eq_ok`).
-/
namespace Downlevel

namespace Check

/-- The check passes these tokens, in this order, if they are distinct and none of them was met before. -/
def Passes (c : Check Unit) (ts : List Token) : Prop :=
  ∀ seen offset, (ts.map Token.id).Nodup → (∀ t ∈ ts, t.id ∉ seen) →
    c ⟨seen, offset⟩ = .ok ((), ⟨(ts.map Token.id).reverse ++ seen, offset + Token.widths ts⟩)

theorem widths_append (ts us : List Token) : Token.widths (ts ++ us) = Token.widths ts + Token.widths us := by
  simp [Token.widths_eq]

namespace Passes

theorem nil : Passes (pure ()) [] := fun _ _ _ _ => rfl

theorem token (kind : NodeKind) (t : Token) : Passes (Check.token kind t) [t] := by
  intro seen offset _ hseen
  have ht : t.id ∉ seen := hseen t (List.mem_singleton.2 rfl)
  simp [Check.token, ht, bind, StateT.bind, Except.bind, pure, Except.pure, get, getThe, MonadStateOf.get, StateT.get,
    Token.widths]
  rfl

theorem append {c d : Check Unit} {ts us : List Token} (hc : Passes c ts) (hd : Passes d us) :
    Passes (do c; d) (ts ++ us) := by
  intro seen offset hnd hseen
  rw [List.map_append, List.nodup_append] at hnd
  obtain ⟨hts, hus, hdisj⟩ := hnd
  have h₁ := hc seen offset hts (fun t ht => hseen t (List.mem_append_left _ ht))
  have h₂ := hd ((ts.map Token.id).reverse ++ seen) (offset + Token.widths ts) hus (fun u hu hmem => by
    rcases List.mem_append.1 hmem with h | h
    · exact hdisj _ (List.mem_reverse.1 h) _ (List.mem_map_of_mem hu) rfl
    · exact hseen u (List.mem_append_right _ hu) h)
  show (c ⟨seen, offset⟩ >>= fun p => d p.2) = _
  rw [h₁]
  show d _ = _
  rw [h₂, List.map_append, List.reverse_append, List.append_assoc, widths_append, Nat.add_assoc]

theorem tokens (kind : NodeKind) : ∀ ts : List Token, Passes (ts.forM (Check.token kind)) ts
  | [] => nil
  | t :: ts => (token kind t).append (tokens kind ts)

/-- What follows a part may look at how far the part has come. -/
theorem measured {c : Check Unit} {ts : List Token} (hc : Passes c ts) {after : Nat → Check Unit}
    (h : ∀ start s, s.offset = start + Token.widths ts → after start s = .ok ((), s)) :
    Passes (do let start ← Check.offset; c; after start) ts := by
  intro seen offset hnd hseen
  show (c ⟨seen, offset⟩ >>= fun p => after offset p.2) = _
  rw [hc seen offset hnd hseen]
  exact h offset _ rfl

end Passes

theorem offset_bind {α : Type} (f : Nat → Check α) (s : CheckState) : (Check.offset >>= f) s = f s.offset s := rfl

theorem listWidth_eq (kind : NodeKind) (start width : Nat) (s : CheckState) (h : s.offset = start + width) :
    Check.listWidth kind start width s = .ok ((), s) := by
  have hw : s.offset - start = width := by omega
  rw [Check.listWidth, offset_bind, hw, if_neg (fun hne => hne rfl)]
  rfl

theorem arity_eq (kind : NodeKind) {members separators : Nat}
    (h : members = 0 ∧ separators = 0 ∨ members = separators + 1) : Check.arity kind members separators = pure () := by
  unfold Check.arity
  rw [if_neg (by omega)]

end Check

mutual

theorem Node.check_passes : ∀ {n : Node}, n.WellFormed → (Node.check n).Passes n.tokens
  | .mk id kind slots, h => by
    have hfit : Node.FitsKind (.mk id kind slots) := Node.Every.self h
    have hslots := Slot.checkAll_passes kind kind.schema kind.sorts slots kind.map_shape_sorts hfit
      (Node.every_mk.1 h).2
    have hwidth : (Node.mk id kind slots).fullWidth = Token.widths (slots.flatMap Slot.tokens) := by
      rw [Node.fullWidth_eq, Token.widths_eq, Node.fullText, Node.tokens_mk]
    have hlen : kind.schema.length = slots.length := hfit.length_eq
    simp only [Node.check, Node.tokens_mk, hlen, ne_eq, not_true_eq_false, if_false]
    refine hslots.measured (fun start s hs => ?_)
    have hmeasured : s.offset - start = (Node.mk id kind slots).fullWidth := by omega
    rw [Check.offset_bind, hmeasured, if_neg (fun hne => hne rfl)]
    rfl

theorem Slot.checkAll_passes (kind : NodeKind) : ∀ (schema : List (String × SlotShape)) (sorts : List SlotSort)
    (slots : List Slot), sorts.map SlotSort.shape = schema.map Prod.snd → List.Forall₂ SlotSort.Admits sorts slots →
      (∀ s ∈ slots, ∀ c ∈ s.nodes, c.WellFormed) → (Slot.checkAll kind schema slots).Passes (slots.flatMap Slot.tokens)
  | [], _, slots, hsorts, hfit, _ => by
    rw [List.map_eq_nil_iff.1 (hsorts.trans rfl)] at hfit
    cases hfit
    exact Check.Passes.nil
  | (name, shape) :: schema, sorts, slots, hsorts, hfit, hbelow => by
    cases hfit with
    | nil => cases hsorts
    | @cons sort slot sorts slots hslot hrest =>
      obtain ⟨rfl, hsorts'⟩ := List.cons.inj hsorts
      have ih := Slot.checkAll_passes kind schema sorts slots hsorts' hrest
        (fun s hs => hbelow s (List.mem_cons_of_mem _ hs))
      have hhere := Slot.check_passes kind hslot (hbelow slot List.mem_cons_self)
      cases slot with
      | absent =>
        simp only [Slot.checkAll, Check.absentSlot, hslot.isOptional, not_true_eq_false, if_false]
        exact Check.Passes.nil.append ih
      | _ => simpa only [Slot.checkAll, List.flatMap_cons] using hhere.append ih

theorem Slot.check_passes (kind : NodeKind) : ∀ {sort : SlotSort} {slot : Slot}, sort.Admits slot →
    (∀ c ∈ slot.nodes, c.WellFormed) → (Slot.check kind slot).Passes slot.tokens
  | _, .absent, _, _ => Check.Passes.nil
  | _, .token t, _, _ => Check.Passes.token kind t
  | _, .node n, _, h => Node.check_passes (h n (List.mem_singleton.2 rfl))
  | _, .list ns, _, h => by
    rw [Slot.check, Slot.tokens_list]
    refine (Node.checkList_passes ns h).measured (fun start s hs => ?_)
    rw [Check.listWidth_eq]
    rw [hs, Node.listFullWidth_eq, Token.widths_eq]
  | _, .separated ns ts, hsort, h => by
    have harity := hsort.arity
    rw [Slot.check, Check.arity_eq kind (by simpa using harity), Slot.tokens_separated]
    refine Check.Passes.nil.append ((Node.checkSeparated_passes kind ns ts h).measured (fun start s hs => ?_))
    rw [Check.listWidth_eq]
    rw [hs, Node.listFullWidth_eq, Token.widths_eq, Token.width_interleave, List.flatMap_def]

theorem Node.checkList_passes : ∀ (ns : List Node), (∀ n ∈ ns, n.WellFormed) →
    (Node.checkList ns).Passes (ns.flatMap Node.tokens)
  | [], _ => Check.Passes.nil
  | n :: ns, h => by
    rw [Node.checkList, List.flatMap_cons]
    exact (Node.check_passes (h n List.mem_cons_self)).append
      (Node.checkList_passes ns (fun m hm => h m (List.mem_cons_of_mem _ hm)))

theorem Node.checkSeparated_passes (kind : NodeKind) : ∀ (ns : List Node) (ts : List Token),
    (∀ n ∈ ns, n.WellFormed) →
      (Node.checkSeparated kind ns ts).Passes (interleave (ns.map Node.tokens) (ts.map (fun t => [t]))).flatten
  | [], ts, _ => by
    rw [Node.checkSeparated, List.map_nil, interleave, flatten_map_singleton]
    exact Check.Passes.tokens kind ts
  | n :: ns, [], h => by
    have ih := Node.checkSeparated_passes kind ns [] (fun m hm => h m (List.mem_cons_of_mem _ hm))
    rw [Node.checkSeparated]
    simpa using (Node.check_passes (h n List.mem_cons_self)).append ih
  | n :: ns, t :: ts, h => by
    have ih := Node.checkSeparated_passes kind ns ts (fun m hm => h m (List.mem_cons_of_mem _ hm))
    rw [Node.checkSeparated]
    exact (Node.check_passes (h n List.mem_cons_self)).append ((Check.Passes.token kind t).append ih)

end

/-- **A well-formed tree whose token objects are distinct has no fault.** -/
theorem Node.checkInvariants_eq_ok {n : Node} (h : n.WellFormed) (hdistinct : (n.tokens.map Token.id).Nodup) :
    n.checkInvariants = .ok () := by
  have hrun := Node.check_passes h [] 0 hdistinct (fun t _ => List.not_mem_nil)
  show (do let _ ← Node.check n ⟨[], 0⟩; pure ()) = _
  rw [hrun]
  rfl

end Downlevel
