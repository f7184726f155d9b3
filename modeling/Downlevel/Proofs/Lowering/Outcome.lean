import Downlevel.Proofs.Grammar.Fidelity
import Downlevel.Proofs.Lowering.Program
import Downlevel.Proofs.Outline.Helper
import Downlevel.Proofs.Tree.Copies
/-!
# Proofs.Lowering.Outcome — when a parsed tree is lowered

A tree that was read from a text is lowered exactly if it is intact or holds nothing of the dialect
(`lower_eq_ok_iff`).  What comes out is plain code with every token object at one place, so both checks behind the rules
pass, and the helper for derived classes can be put in front.  Whatever is asked of the tokens of the text and of those
that lowering makes holds of the tokens that come out (`lower_meets`).
-/
namespace Downlevel

variable {L : Demand} {o : LayoutOptions} {k next : Nat} {n tree : Node}

/-! ## The tree that is given -/

/-- A parsed tree whose nodes have a form is sound. -/
theorem IsProgram.stands {F : Node → Prop} {text : List Char} {i : ObjectId} (h : IsProgram text i k tree)
    (hform : tree.Every F) (htokens : ∀ t ∈ tree.tokens, t.Meets L k) : tree.Stands F L (.only .sourceUnit) k :=
  ⟨beq_iff_eq.2 h.kind, Node.sound_of h.wellFormed hform (h.nodes.mono (fun _ hm => hm.2)) htokens⟩

/-- **A parsed tree can be given to the rules.** -/
theorem IsProgram.given {text : List Char} {i : ObjectId} (h : IsProgram text i k tree)
    (htokens : ∀ t ∈ tree.tokens, t.Meets L k) : tree.Given L (.only .sourceUnit) k :=
  h.stands (fun _ hm => ⟨fun _ hx hid => List.inj_on_of_nodup_map h.apart (Node.mem_all_trans hm hx) hm hid⟩) htokens

/-! ## The helper -/

/-- The helper of the layout reads as plain code. -/
def LayoutOptions.HelperReads (o : LayoutOptions) (L : Demand) : Prop := ∀ k,
  Makes k (parseFresh o.extendsHelper) (fun j r => ∃ helper, r = .ok helper ∧ helper.Plain L (.only .sourceUnit) j)

/-- As it is laid out if nothing else is asked for, the helper is plain code. -/
theorem standardHelper_plain : ∃ helper, (parseFrom LayoutOptions.standard.extendsHelper 0).1 = .ok helper ∧
    helper.isSpecific = false := by
  have hok : (parseFrom LayoutOptions.standard.extendsHelper 0).1.toOption.any (fun n => !n.isSpecific) = true := by
    decide +kernel
  cases h : (parseFrom LayoutOptions.standard.extendsHelper 0).1 with
  | error e =>
    rw [h] at hok
    cases hok
  | ok helper =>
    rw [h] at hok
    exact ⟨helper, rfl, by simpa [Except.toOption] using hok⟩

/-- **The helper reads as plain code however it is laid out**, if lines end as lines do. -/
theorem LayoutOptions.helperReads (hend : ∃ e : LineEnding, o.newLine = e.text)
    (htokens : ∀ i j helper, IsProgram o.extendsHelper i j helper → ∀ t ∈ helper.tokens, t.Meets L j) :
    o.HelperReads L := by
  intro k i _
  obtain ⟨standard, hstandard, hplain⟩ := standardHelper_plain
  have halike : ReadAlike (parseFrom o.extendsHelper i).1 (parseFrom LayoutOptions.standard.extendsHelper 0).1 :=
    readAlike_extendsHelper hend ⟨.lf, rfl⟩ i 0
  rw [hstandard] at halike
  show i ≤ (parseFrom o.extendsHelper i).2 ∧ ∃ helper, (parseFrom o.extendsHelper i).1 = .ok helper ∧
    helper.Plain L (.only .sourceUnit) (parseFrom o.extendsHelper i).2
  rcases hread : parseFrom o.extendsHelper i with ⟨r, j⟩
  rw [hread] at halike
  cases halike with
  | @ok helper _ hlook =>
    obtain ⟨hle, hprogram⟩ := parseFrom_isProgram hread
    have hspecific : helper.isSpecific = false := by
      rw [← helper.isSpecific_outline, hlook, standard.isSpecific_outline, hplain]
    exact ⟨hle, helper, rfl, hprogram.stands (Node.isSpecific_eq_false_iff.1 hspecific) (htokens _ _ _ hprogram)⟩

theorem ends_withExtendsHelper (hhelper : o.HelperReads L) (hn : n.Plain L (.only .sourceUnit) k) :
    Ends IsRefusal k (n.withExtendsHelper o) True (fun j m => m.Plain L (.only .sourceUnit) j) := by
  obtain ⟨v, hv, -, helements, hend⟩ := hn.sourceUnit hn.kind_eq
  unfold Node.withExtendsHelper
  rw [hv]
  have hreads := hhelper k
  -- the text is set aside, which nothing may start to read here
  generalize parseFresh o.extendsHelper = helper at hreads ⊢
  refine .make hreads (fun i₁ h₁ r hr => ?_)
  obtain ⟨helper, rfl, hplain⟩ := hr
  obtain ⟨w, hw, -, helpers, -⟩ := hplain.sourceUnit hplain.kind_eq
  dsimp only
  rw [Lowering.view_eq hw, pure_bind]
  have hall : ∀ m ∈ w.elements ++ v.elements, m.Plain L .element i₁ := fun m hm => by
    rcases List.mem_append.1 hm with hm | hm
    · exact helpers m hm
    · exact (helements m hm).up (by omega)
  have hnode : Slot.Row PlainForm L i₁ NodeKind.sourceUnit.sorts
      (NodeView.toSlots (SourceUnit.mk (w.elements ++ v.elements) v.endOfFile)) :=
    .cons (Slot.stands_list.2 hall) (.cons (hend.slot (by omega)) .nil)
  exact .lift (makes_node hnode (fun _ => rfl) rfl)

/-! ## Lowering a tree -/

/-- **A tree of the dialect is lowered exactly if it is intact**, with every token object at one place. -/
theorem ends_lowerSpecific {options : LoweringOptions} (hL : L.Suits options.layout)
    (hhelper : options.layout.HelperReads L) (hn : n.Given L (.only .sourceUnit) k) :
    Ends IsRefusal k (n.lowerSpecific options) (n.Intact LoweringFault.maxTreeDepth)
      (fun j u => u.Plain L (.only .sourceUnit) j ∧ (u.tokens.map Token.id).Nodup) := by
  have hsound : (LoweringContext.ofTree n options.layout).Sound L LoweringFault.maxTreeDepth :=
    LoweringContext.sound_visitUpTo hL _
  unfold Node.lowerSpecific
  refine (hsound.lower hn rfl).thenSure (fun i₁ h₁ lowered hlowered => ?_)
  extract_lets finish
  have hfinish : ∀ j, k ≤ j → ∀ lowered : Node, lowered.Plain L (.only .sourceUnit) j →
      Ends IsRefusal j (finish lowered) True
        (fun l u => u.Plain L (.only .sourceUnit) l ∧ (u.tokens.map Token.id).Nodup) := by
    intro j hj lowered hlowered
    refine (Ends.ofTransformed (makes_uniqueTokens hlowered (by omega))).sureThen (fun l hl unique hunique => ?_)
    obtain ⟨hplain, hdistinct⟩ := hunique
    have hspecific : unique.isSpecific = false :=
      Node.isSpecific_eq_false_iff.2 (hplain.sound.mono (fun _ hm => hm.form))
    rw [Node.checkInvariants_eq_ok hplain.sound.wellFormed hdistinct]
    dsimp only
    rw [hspecific, if_neg Bool.false_ne_true]
    exact .pure (fun l' hl' => ⟨hplain.up (by omega), hdistinct⟩)
  refine .own (fun state => ?_)
  split
  · exact (ends_withExtendsHelper hhelper hlowered).sureThen (fun l hl => hfinish l (by omega))
  · exact .sureThen (.pure (fun l hl => hlowered.up (by omega))) (fun l hl => hfinish l (by omega))

section Whole

variable {text : List Char} {i : ObjectId} {options : LoweringOptions} {u : Node}

/-- What is lowered is a tree of the dialect; any other tree comes out as it is. -/
theorem Node.lower_eq_ok (h : (tree.lower options next).1 = .ok u) :
    (tree.isSpecific = true ∧ ∃ s, tree.lowerSpecific options ⟨next, .initial⟩ = .ok u s) ∨
      (tree.isSpecific = false ∧ u = tree) := by
  unfold Node.lower at h
  split at h
  · cases h
  · split at h
    · rename_i hspecific
      cases hrun : tree.lowerSpecific options ⟨next, .initial⟩ with
      | error e s => simp only [Work.runFrom, hrun, reduceCtorEq] at h
      | ok u' s =>
        simp only [Work.runFrom, hrun, Except.ok.injEq] at h
        exact .inl ⟨hspecific, s, h ▸ rfl⟩
    · rename_i hspecific
      exact .inr ⟨Bool.eq_false_iff.2 hspecific, (Except.ok.inj h).symm⟩

/-- A parsed tree of the dialect goes through the rules, and any other one is given back. -/
theorem IsProgram.lower_eq (h : IsProgram text i k tree) : (tree.lower options next).1 =
    if tree.isSpecific then ((tree.lowerSpecific options).runFrom .initial next).1 else .ok tree := by
  unfold Node.lower
  rw [Node.checkInvariants_eq_ok h.wellFormed h.distinct]
  dsimp only
  split <;> rfl

/-- **Tokens that come out of lowering are what the tokens of the text are and what a layout writes.** -/
theorem lower_meets (hparse : parseFrom text i = (.ok tree, k)) (hnext : k ≤ next) (hL : L.Suits options.layout)
    (hhelper : options.layout.HelperReads L) (htokens : ∀ t ∈ tree.tokens, t.Meets L k)
    (hlower : (tree.lower options next).1 = .ok u) : ∃ j, ∀ t ∈ u.tokens, t.Meets L j := by
  have hprogram := (parseFrom_isProgram hparse).2
  rcases Node.lower_eq_ok hlower with ⟨-, s, hrun⟩ | ⟨-, rfl⟩
  · have hends := ends_lowerSpecific hL hhelper (hprogram.given htokens) ⟨next, .initial⟩ hnext
    rw [hrun] at hends
    exact ⟨_, hends.2.2.1.sound.tokens⟩
  · exact ⟨k, htokens⟩

/-- Something is asked of trivia only. -/
def Demand.onTrivia (P : Trivia → Prop) : Demand := ⟨P, fun _ _ => True⟩

theorem Demand.onTrivia_suits {P : Trivia → Prop} {o : LayoutOptions} (hblank : ∀ text, P ⟨.whitespace, text⟩)
    (hline : P ⟨.newLine, o.newLine⟩) : (Demand.onTrivia P).Suits o where
  blank text _ := hblank text
  newLine := hline
  fixed _ := trivial
  asName _ _ _ := trivial
  word _ _ := trivial
  natural _ := trivial
  number _ _ := trivial
  string _ := trivial

/-- Nothing is asked for. -/
def Demand.none : Demand := .onTrivia (fun _ => True)

theorem IsProgram.meets_none (h : IsProgram text i k tree) : ∀ t ∈ tree.tokens, t.Meets .none k :=
  fun t ht => ⟨(h.tokens t ht).2, fun _ _ => trivial, fun _ _ => trivial, trivial⟩

/-- **When lowering succeeds.**  A tree that was read from a text is lowered exactly if it holds nothing of the dialect or
is intact: the rules reach no more levels than they may, they drop no node that must stay, and they meet no name of a
namespace that has too many parts. -/
theorem lower_eq_ok_iff (hparse : parseFrom text i = (.ok tree, k)) (hnext : k ≤ next)
    (hend : ∃ e : LineEnding, options.layout.newLine = e.text) :
    (∃ u, (tree.lower options next).1 = .ok u) ↔
      (tree.isSpecific = true → tree.Intact LoweringFault.maxTreeDepth) := by
  have hprogram := (parseFrom_isProgram hparse).2
  rw [hprogram.lower_eq]
  cases hspecific : tree.isSpecific with
  | false => exact iff_of_true ⟨tree, rfl⟩ (fun h => by cases h)
  | true =>
    have hhelper : options.layout.HelperReads .none := LayoutOptions.helperReads hend (fun _ _ _ h => h.meets_none)
    have hsuits : Demand.none.Suits options.layout := Demand.onTrivia_suits (fun _ => trivial) trivial
    have hends := ends_lowerSpecific hsuits hhelper (hprogram.given hprogram.meets_none) ⟨next, .initial⟩ hnext
    rw [if_pos rfl]
    unfold Work.runFrom
    cases hrun : tree.lowerSpecific options ⟨next, .initial⟩ with
    | error e s =>
      rw [hrun] at hends
      exact iff_of_false (fun ⟨u, hu⟩ => by cases hu) (fun h => hends.1 (h rfl))
    | ok u s =>
      rw [hrun] at hends
      exact iff_of_true ⟨u, rfl⟩ (fun _ => hends.1)

/-! ## Texts that are lowered -/

/-- The text reads as a program that is lowered, and the two trees pass a test. -/
def lowersInto (options : LoweringOptions) (test : Node → Node → Bool) (text : List Char) : Bool :=
  match parseFrom text 0 with
  | (.ok tree, k) => (tree.lower options k).1.toOption.any (test tree)
  | _ => false

theorem exists_of_lowersInto (options : LoweringOptions) (test : Node → Node → Bool) (text : List Char)
    (h : lowersInto options test text = true) : ∃ tree k u, parseFrom text 0 = (.ok tree, k) ∧
      (tree.lower options k).1 = .ok u ∧ test tree u = true := by
  unfold lowersInto at h
  split at h
  · rename_i tree k hparse
    cases hlower : (tree.lower options k).1 with
    | error e =>
      rw [hlower] at h
      cases h
    | ok u =>
      rw [hlower] at h
      exact ⟨tree, k, u, hparse, hlower, h⟩
  · cases h

end Whole

end Downlevel
