import Downlevel.Proofs.Grammar.Yields
/-!
# Proofs.Outline.Agrees — trees with the same structure have one outline

Trees that look the same have the same structure (`Node.agrees_of_outline_eq`).  The other way round, two trees that have
no object in common have the same structure only if their kinds and the kinds and characters of their tokens are the
same, and then their tokens denote the same, so the trees look the same (`Node.outline_eq_of_agrees`).
-/
namespace Downlevel

/-- Nothing is compared but the structure. -/
def Comparison.plain : Comparison := ⟨false, false⟩

variable {m n : Node} {s t : Slot} {u v : Token}

/-! ## Row by row -/

theorem forall₂_mono_of_mem {α β : Type} {R S : α → β → Prop} {as : List α} {bs : List β} (h : List.Forall₂ R as bs)
    (himp : ∀ a ∈ as, ∀ b ∈ bs, R a b → S a b) : List.Forall₂ S as bs := by
  rw [List.forall₂_iff_zip] at h ⊢
  exact ⟨h.1, fun hab => himp _ (List.of_mem_zip hab).1 _ (List.of_mem_zip hab).2 (h.2 hab)⟩

theorem map_eq_map_iff_forall₂ {α β γ : Type} {f : α → γ} {g : β → γ} {as : List α} {bs : List β} :
    as.map f = bs.map g ↔ List.Forall₂ (fun a b => f a = g b) as bs := by
  rw [← List.forall₂_eq_eq_eq, List.forall₂_map_left_iff, List.forall₂_map_right_iff]

section Rows

variable {how : Comparison}

theorem Token.allAgree_iff : ∀ {us vs : List Token},
    Token.allAgree how us vs = true ↔ List.Forall₂ (fun u v => u.agrees how v = true) us vs
  | [], [] => by simp [Token.allAgree]
  | [], _ :: _ => by simp [Token.allAgree]
  | _ :: _, [] => by simp [Token.allAgree]
  | u :: us, v :: vs => by
    rw [Token.allAgree, Bool.and_eq_true, List.forall₂_cons, Token.allAgree_iff]

theorem Node.listAgrees_iff : ∀ {ms ns : List Node},
    Node.listAgrees how ms ns = true ↔ List.Forall₂ (fun m n => m.agrees how n = true) ms ns
  | [], [] => by simp [Node.listAgrees]
  | [], _ :: _ => by simp [Node.listAgrees]
  | _ :: _, [] => by simp [Node.listAgrees]
  | m :: ms, n :: ns => by
    rw [Node.listAgrees, Bool.and_eq_true, List.forall₂_cons, Node.listAgrees_iff]

theorem Slot.allAgree_iff : ∀ {ss ts : List Slot},
    Slot.allAgree how ss ts = true ↔ List.Forall₂ (fun s t => s.agrees how t = true) ss ts
  | [], [] => by simp [Slot.allAgree]
  | [], _ :: _ => by simp [Slot.allAgree]
  | _ :: _, [] => by simp [Slot.allAgree]
  | s :: ss, t :: ts => by
    rw [Slot.allAgree, Bool.and_eq_true, List.forall₂_cons, Slot.allAgree_iff]

end Rows

theorem Token.agrees_iff : u.agrees .plain v = true ↔ u.kind = v.kind ∧ u.text = v.text := by
  simp [Token.agrees, Comparison.plain]

/-- Nodes agree if they are one object, or their kinds are the same and their slots agree. -/
theorem Node.agrees_iff : m.agrees .plain n = true ↔
    m.id = n.id ∨ m.kind = n.kind ∧ List.Forall₂ (fun s t => s.agrees .plain t = true) m.slots n.slots := by
  obtain ⟨i, k, ss⟩ := m
  obtain ⟨j, l, ts⟩ := n
  rw [Node.agrees, ← Slot.allAgree_iff]
  simp [Comparison.plain, Node.id, Node.kind, Node.slots]

/-! ## Outlines and structure -/

theorem Token.agrees_of_outline_eq (h : u.outline = v.outline) : u.agrees .plain v = true := by
  rw [Token.agrees_iff, ← u.kind_outline, h, ← u.text_outline, h]
  exact ⟨rfl, rfl⟩

theorem Slot.agrees_of_outline_eq (h : s.outline = t.outline)
    (hnodes : ∀ c ∈ s.nodes, ∀ d ∈ t.nodes, c.outline = d.outline → c.agrees .plain d = true) :
    s.agrees .plain t = true := by
  have htokens : ∀ {us vs : List Token}, us.map Token.outline = vs.map Token.outline →
      Token.allAgree .plain us vs = true := fun h =>
    Token.allAgree_iff.2 ((map_eq_map_iff_forall₂.1 h).imp (fun _ _ => Token.agrees_of_outline_eq))
  have hlist : ∀ {ms ns : List Node}, ms.map Node.outline = ns.map Node.outline →
      (∀ c ∈ ms, ∀ d ∈ ns, c.outline = d.outline → c.agrees .plain d = true) → Node.listAgrees .plain ms ns = true :=
    fun h hnodes => Node.listAgrees_iff.2 (forall₂_mono_of_mem (map_eq_map_iff_forall₂.1 h) hnodes)
  cases s <;> cases t <;> simp only [Slot.outline_absent, Slot.outline_token, Slot.outline_node, Slot.outline_list,
    Slot.outline_separated, reduceCtorEq, Slot.token.injEq, Slot.node.injEq, Slot.list.injEq, Slot.separated.injEq] at h
  case absent.absent => rfl
  case token.token => exact Token.agrees_of_outline_eq h
  case node.node => exact hnodes _ (List.mem_singleton.2 rfl) _ (List.mem_singleton.2 rfl) h
  case list.list => exact hlist h hnodes
  case separated.separated => rw [Slot.agrees, hlist h.1 hnodes, htokens h.2, Bool.and_self]

/-- **Trees that look the same have the same structure.** -/
theorem Node.agrees_of_outline_eq (h : m.outline = n.outline) : m.agrees .plain n = true := by
  induction m using Node.induction generalizing n with
  | step m ih =>
    rw [m.outline_eq, n.outline_eq] at h
    injection h with _ hkind hslots
    refine Node.agrees_iff.2 (.inr ⟨hkind, forall₂_mono_of_mem (map_eq_map_iff_forall₂.1 hslots) ?_⟩)
    exact fun s hs t _ hst =>
      Slot.agrees_of_outline_eq hst (fun c hc _ _ hcd => ih c (List.mem_flatMap.2 ⟨s, hs, hc⟩) hcd)

def Node.ProperTokens (n : Node) : Prop := ∀ s ∈ n.slots, ∀ t ∈ s.ownTokens, t.lexeme.Proper

theorem Token.outline_eq_of_agrees (hu : u.lexeme.Proper) (hv : v.lexeme.Proper) (h : u.agrees .plain v = true) :
    u.outline = v.outline := by
  obtain ⟨hkind, htext⟩ := Token.agrees_iff.1 h
  unfold Token.outline
  rw [hkind, htext, show u.value = v.value from hu.value_eq hv hkind htext]

theorem Slot.outline_eq_of_agrees (hs : ∀ u ∈ s.ownTokens, u.lexeme.Proper) (ht : ∀ v ∈ t.ownTokens, v.lexeme.Proper)
    (hnodes : ∀ c ∈ s.nodes, ∀ d ∈ t.nodes, c.agrees .plain d = true → c.outline = d.outline)
    (h : s.agrees .plain t = true) : s.outline = t.outline := by
  have hlist : ∀ {ms ns : List Node}, Node.listAgrees .plain ms ns = true →
      (∀ c ∈ ms, ∀ d ∈ ns, c.agrees .plain d = true → c.outline = d.outline) →
        ms.map Node.outline = ns.map Node.outline :=
    fun h hnodes => map_eq_map_iff_forall₂.2 (forall₂_mono_of_mem (Node.listAgrees_iff.1 h) hnodes)
  cases s <;> cases t <;> simp only [Slot.agrees, Bool.false_eq_true] at h
  case absent.absent => rfl
  case token.token =>
    exact congrArg Slot.token
      (Token.outline_eq_of_agrees (hs _ (List.mem_singleton.2 rfl)) (ht _ (List.mem_singleton.2 rfl)) h)
  case node.node =>
    exact congrArg Slot.node (hnodes _ (List.mem_singleton.2 rfl) _ (List.mem_singleton.2 rfl) h)
  case list.list => rw [Slot.outline_list, Slot.outline_list, hlist h hnodes]
  case separated.separated =>
    obtain ⟨hmembers, hseparators⟩ := Bool.and_eq_true_iff.1 h
    rw [Slot.outline_separated, Slot.outline_separated, hlist hmembers hnodes]
    refine congrArg _ (map_eq_map_iff_forall₂.2 (forall₂_mono_of_mem (Token.allAgree_iff.1 hseparators) ?_))
    exact fun u hu v hv huv => Token.outline_eq_of_agrees (hs u hu) (ht v hv) huv

/-- **Trees with the same structure look the same** if they have no object in common and their tokens are proper. -/
theorem Node.outline_eq_of_agrees (hm : m.Every Node.ProperTokens) (hn : n.Every Node.ProperTokens)
    (hapart : ∀ a ∈ m.all, ∀ b ∈ n.all, a.id ≠ b.id) (h : m.agrees .plain n = true) : m.outline = n.outline := by
  induction m using Node.induction generalizing n with
  | step m ih =>
    obtain ⟨hkind, hslots⟩ := (Node.agrees_iff.1 h).resolve_left (hapart m m.mem_all_self n n.mem_all_self)
    rw [m.outline_eq, n.outline_eq, hkind]
    refine congrArg _ (map_eq_map_iff_forall₂.2 (forall₂_mono_of_mem hslots (fun s hs t ht hst => ?_)))
    refine Slot.outline_eq_of_agrees (hm.self s hs) (hn.self t ht) (fun c hc d hd hcd => ?_) hst
    have hcm : c ∈ m.children := List.mem_flatMap.2 ⟨s, hs, hc⟩
    have hdn : d ∈ n.children := List.mem_flatMap.2 ⟨t, ht, hd⟩
    refine ih c hcm (hm.child hcm) (hn.child hdn) (fun a ha b hb => hapart a ?_ b ?_) hcd
    · rw [Node.all_eq]
      exact List.mem_cons_of_mem _ (List.mem_flatMap.2 ⟨c, hcm, ha⟩)
    · rw [Node.all_eq]
      exact List.mem_cons_of_mem _ (List.mem_flatMap.2 ⟨d, hdn, hb⟩)

end Downlevel
