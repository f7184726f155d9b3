import Downlevel.Proofs.Outline.Agrees
import Downlevel.Proofs.Outline.Helper
import Downlevel.Proofs.Outline.Shaped
import Downlevel.Proofs.Tree.Copies
import Downlevel.Proofs.Tree.Faults
/-!
# Proofs.Outline.Twice — layout does not influence what lowering does

Two runs end alike (`EndsAlike`) if both fail, or the trees that come of them look the same.  Trees that look the same
have one draft, and the rules follow it whatever the layout of the tree and of what is written; the helper for derived
classes is read alike; and what the checks look at is in the outline.  So trees that were read and have the same
structure are lowered alike (`lower_layout_blind`).
-/
namespace Downlevel

variable {m n n' u : Node} {i j k l next next' : ObjectId} {s s' : Supplied LoweringState} {W W' : Registry}
  {o o' : LoweringOptions} {text text' : List Char} {tree tree' : Node}

/-! ## Runs that end alike -/

/-- How a run ends. -/
abbrev LoweringEnd := EStateM.Result LoweringError (Supplied LoweringState) Node

/-- Both runs fail, or what comes of them is known and looks the same, and a derived class was met in both or in none. -/
inductive EndsAlike : LoweringEnd → LoweringEnd → Prop
  | ok {W W' : Registry} {n n' : Node} {s s' : Supplied LoweringState} (next : s.next = W.next)
    (next' : s'.next = W'.next) (known : n.Known W) (known' : n'.Known W') (outline : n.outline = n'.outline)
    (derived : s.own.derived = s'.own.derived) : EndsAlike (.ok n s) (.ok n' s')
  | error {e e' : LoweringError} {s s' : Supplied LoweringState} : EndsAlike (.error e s) (.error e' s')

/-- Known trees that look the same lead to runs that end alike. -/
def KeepsAlike (f f' : Node → Lowering Node) : Prop :=
  ∀ {W W' : Registry} {n n' : Node} {s s' : Supplied LoweringState}, s.next = W.next → s'.next = W'.next →
    n.Known W → n'.Known W' → n.outline = n'.outline → s.own.derived = s'.own.derived →
      EndsAlike (f n s) (f' n' s')

theorem EndsAlike.bind {w w' : Lowering Node} {f f' : Node → Lowering Node} (hw : EndsAlike (w s) (w' s'))
    (hf : KeepsAlike f f') : EndsAlike ((w >>= f) s) ((w' >>= f') s') := by
  generalize hr : w s = r at hw
  generalize hr' : w' s' = r' at hw
  cases hw with
  | error =>
    rw [Work.bind_of_error hr, Work.bind_of_error hr']
    exact .error
  | ok hs hs' hn hn' houtline hderived =>
    rw [Work.bind_of_ok hr, Work.bind_of_ok hr']
    exact hf hs hs' hn hn' houtline hderived

/-! ## The rules -/

/-- **Programs that look the same are lowered alike by the rules**, whatever is laid out. -/
theorem endsAlike_lowerByRules (hn : n.Held W) (hn' : n'.Held W') (hk : n.kind = .sourceUnit)
    (h : n.outline = n'.outline) (layout layout' : LayoutOptions) :
    EndsAlike (n.lowerByRules layout ⟨W.next, .initial⟩) (n'.lowerByRules layout' ⟨W'.next, .initial⟩) := by
  have hk' : n'.kind = .sourceUnit := by rw [← n'.kind_outline, ← h, n.kind_outline, hk]
  have hfollows := hn.follows_lowerByRules hk layout .initial false
  have hfollows' := hn'.follows_lowerByRules hk' layout' .initial false
  rw [← h] at hfollows'
  generalize n.lowerByRules layout ⟨W.next, .initial⟩ = r at hfollows
  generalize n'.lowerByRules layout' ⟨W'.next, .initial⟩ = r' at hfollows'
  generalize Draft.ofTree n.outline false = d at hfollows hfollows'
  cases hfollows with
  | error =>
    cases hfollows'
    exact .error
  | ok _ hs hshows hown =>
    cases hfollows' with
    | ok _ hs' hshows' hown' =>
      refine .ok hs hs' hshows.known hshows'.known (hshows.outline.trans hshows'.outline.symm) ?_
      rw [hown, hown']

/-! ## The helper -/

theorem SourceUnit.outline_after (program helper : SourceUnit) :
    OutlineView.outline (program.after helper) = (OutlineView.outline program).after (OutlineView.outline helper) := by
  show SourceUnit.mk _ _ = SourceUnit.mk _ _
  simp [SourceUnit.after, OutlineView.outline]

/-- Programs that look the same read as views with one outline. -/
theorem view?_of_outline_eq {α : Type} [NodeView α] [OutlineView α] [OutlineView.Total α] (h : n.outline = n'.outline) :
    (n.view? α).map OutlineView.outline = (n'.view? α).map OutlineView.outline := by
  rw [← n.view?_outline, h, n'.view?_outline]

/-- A program with another one in front, as a run makes it. -/
def SourceUnit.putAfter (program : SourceUnit) (helper : Node) : Lowering Node := do
  let helper ← Lowering.view SourceUnit helper
  NodeView.toNode (program.after helper)

/-- **Putting programs that look the same in front of programs that look the same.** -/
theorem endsAlike_putAfter {program program' : SourceUnit} {helper helper' : Node} (hn : n.Known W) (hn' : n'.Known W')
    (hv : n.view? SourceUnit = some program) (hv' : n'.view? SourceUnit = some program')
    (hprogram : OutlineView.outline program = OutlineView.outline program') (hm : helper.Known W)
    (hm' : helper'.Known W') (hhelper : helper.outline = helper'.outline) (hs : s.next = W.next)
    (hs' : s'.next = W'.next) (hderived : s.own.derived = s'.own.derived) :
    EndsAlike (program.putAfter helper s) (program'.putAfter helper' s') := by
  have hviews := view?_of_outline_eq (α := SourceUnit) hhelper
  unfold SourceUnit.putAfter Lowering.view
  cases hw : helper.view? SourceUnit with
  | none =>
    rw [hw] at hviews
    rw [Option.map_eq_none_iff.1 hviews.symm]
    exact .error
  | some v =>
    rw [hw] at hviews
    obtain ⟨v', hw', houtline⟩ := Option.map_eq_some_iff.1 hviews.symm
    rw [hw']
    obtain ⟨W₁, -, hnext, hknown⟩ := SourceUnit.known_after hn hm hv hw
    obtain ⟨W₁', -, hnext', hknown'⟩ := SourceUnit.known_after hn' hm' hv' hw'
    obtain ⟨next, own⟩ := s
    obtain ⟨next', own'⟩ := s'
    obtain rfl : next = W.next := hs
    obtain rfl : next' = W'.next := hs'
    refine @EndsAlike.ok W₁ W₁' _ _ _ _ hnext.symm hnext'.symm hknown hknown' ?_ hderived
    rw [Node.outline_mk, Node.outline_mk, OutlineView.toSlots_outline, OutlineView.toSlots_outline,
      SourceUnit.outline_after, SourceUnit.outline_after, hprogram, houtline]

/-- The helper is read behind what there is, and put in front of a program. -/
theorem Node.withExtendsHelper_eq (n : Node) (o : LayoutOptions) : n.withExtendsHelper o = (match n.view? SourceUnit with
    | none => pure n
    | some program => do
      match ← parseFresh o.extendsHelper with
      | .error e => Work.fail (.onNothing (.helper e.shown))
      | .ok helper => program.putAfter helper) := rfl

/-- **The helper is put in front alike, however it is laid out.** -/
theorem keepsAlike_withExtendsHelper {layout layout' : LayoutOptions} (h : ∃ e : LineEnding, layout.newLine = e.text)
    (h' : ∃ e : LineEnding, layout'.newLine = e.text) :
    KeepsAlike (fun n => n.withExtendsHelper layout) (fun n => n.withExtendsHelper layout') := by
  intro W W' n n' s s' hs hs' hn hn' houtline hderived
  have hread := readAlike_extendsHelper h h' s.next s'.next
  have hviews := view?_of_outline_eq (α := SourceUnit) houtline
  simp only [Node.withExtendsHelper_eq]
  -- nothing may start to read the texts here
  generalize layout.extendsHelper = text at hread ⊢
  generalize layout'.extendsHelper = text' at hread ⊢
  cases hv : n.view? SourceUnit with
  | none =>
    rw [hv] at hviews
    rw [Option.map_eq_none_iff.1 hviews.symm]
    exact .ok hs hs' hn hn' houtline hderived
  | some program =>
    rw [hv] at hviews
    obtain ⟨program', hv', hprogram⟩ := Option.map_eq_some_iff.1 hviews.symm
    rw [hv']
    have hlift : ∀ (t : List Char) (s : Supplied LoweringState), (liftM (parseFresh t) : Lowering _) s =
        .ok (parseFrom t s.next).1 ⟨(parseFrom t s.next).2, s.own⟩ := fun _ _ => rfl
    dsimp only
    rw [Work.bind_of_ok (hlift text s), Work.bind_of_ok (hlift text' s')]
    rcases hp : parseFrom text s.next with ⟨r, k⟩
    rcases hp' : parseFrom text' s'.next with ⟨r', k'⟩
    rw [hp, hp'] at hread
    dsimp only at hread ⊢
    cases hread with
    | error => exact .error
    | ok hm =>
      rw [hs] at hp
      rw [hs'] at hp'
      obtain ⟨W₁, hle, rfl, hheld⟩ := Registry.held_parse hp
      obtain ⟨W₁', hle', rfl, hheld'⟩ := Registry.held_parse hp'
      exact endsAlike_putAfter (hn.up hle) (hn'.up hle') hv hv' hprogram.symm hheld.known hheld'.known hm rfl rfl hderived

/-! ## The checks -/

/-- Every separated list of the tree is empty or has one member more than separators. -/
def Node.Arities (n : Node) : Prop :=
  ∀ m ∈ n.all, ∀ ns ts, .separated ns ts ∈ m.slots → ns = [] ∧ ts = [] ∨ ns.length = ts.length + 1

theorem Node.arities_outline : n.outline.Arities ↔ n.Arities := by
  unfold Node.Arities
  simp only [Node.all_outline, List.forall_mem_map, Node.slots_outline]
  refine forall₂_congr (fun m _ => ⟨fun h ns ts hs => ?_, fun h ns ts hs => ?_⟩)
  · have hmapped := h _ _ (List.mem_map.2 ⟨_, hs, Slot.outline_separated ns ts⟩)
    simpa using hmapped
  · obtain ⟨s, hmem, heq⟩ := List.mem_map.1 hs
    cases s <;> simp only [Slot.outline_absent, Slot.outline_token, Slot.outline_node, Slot.outline_list,
      Slot.outline_separated, reduceCtorEq, Slot.separated.injEq] at heq
    obtain ⟨rfl, rfl⟩ := heq
    simpa using h _ _ hmem

/-- A known tree has the shapes that its kinds ask for. -/
theorem Node.Known.schematic (h : n.Known W) : n.Schematic := h.nodes.mono (fun m hm => by
  rw [← Node.matchesSchema_outline, ← hm.2]
  exact W.fits m.id)

theorem Node.Known.olderThan (h : n.Known W) : n.OlderThan W.next :=
  ⟨h.nodes.mono (fun _ hm => hm.1), fun t ht => (h.tokens t ht).id_lt⟩

/-- **A known tree passes the checks exactly if its outline has nothing to object to.** -/
theorem Node.Known.finished (hn : n.Known W) (hs : s.next = W.next) :
    (∃ u W₁ s₁, n.finished s = .ok u s₁ ∧ s₁.next = W₁.next ∧ s₁.own = s.own ∧ u.Shows W₁ n ∧
        n.outline.Arities ∧ n.outline.isSpecific = false) ∨
      (∃ e s₁, n.finished s = .error e s₁) ∧ ¬ (n.outline.Arities ∧ n.outline.isSpecific = false) := by
  obtain ⟨u, k, hrun, hdistinct, -⟩ := Node.withUniqueTokens_exact hn.schematic hn.olderThan
  obtain ⟨W₁, -, hnext, m, hm, hshows⟩ := records_uniqueTokens hn
  rw [hrun] at hnext hm
  cases hm
  have hlift : (Lowering.ofTransformed n.withUniqueTokens : Lowering Node) s = .ok u ⟨k, s.own⟩ := by
    rw [← hs] at hrun
    have hmade : (liftM n.withUniqueTokens : Lowering _) s =
        .ok (n.withUniqueTokens s.next).1 ⟨(n.withUniqueTokens s.next).2, s.own⟩ := rfl
    unfold Lowering.ofTransformed
    rw [Work.bind_of_ok hmade, hrun]
    rfl
  unfold Node.finished
  rw [Work.bind_of_ok hlift, ← hshows.outline, u.isSpecific_outline, Node.arities_outline]
  have hchecked : u.checkInvariants = .ok () ↔ u.Arities :=
    (Node.checkInvariants_exact hshows.known.schematic).1.trans (and_iff_left hdistinct)
  cases hcheck : u.checkInvariants with
  | error v =>
    rw [hcheck] at hchecked
    exact .inr ⟨⟨_, _, rfl⟩, fun h => by cases hchecked.2 h.1⟩
  | ok =>
    rw [hcheck] at hchecked
    have harities : u.Arities := hchecked.1 rfl
    dsimp only
    cases hspecific : u.isSpecific with
    | true => exact .inr ⟨⟨_, _, rfl⟩, fun h => by cases h.2⟩
    | false => exact .inl ⟨u, W₁, _, rfl, hnext, rfl, hshows, harities, rfl⟩

/-- **Trees that look the same pass the checks alike.** -/
theorem keepsAlike_finished : KeepsAlike Node.finished Node.finished := by
  intro W W' n n' s s' hs hs' hn hn' houtline hderived
  rcases hn.finished hs with ⟨u, W₁, s₁, hrun, hnext, hown, hshows, hok⟩ | ⟨⟨e, s₁, hrun⟩, hnot⟩
  all_goals rcases hn'.finished hs' with ⟨u', W₁', s₁', hrun', hnext', hown', hshows', hok'⟩ | ⟨⟨e', s₁', hrun'⟩, hnot'⟩
  · rw [hrun, hrun']
    refine .ok hnext hnext' hshows.known hshows'.known ?_ (by rw [hown, hown', hderived])
    rw [hshows.outline, houtline, hshows'.outline]
  · exact absurd (houtline ▸ hok) hnot'
  · exact absurd (houtline ▸ hok') hnot
  · rw [hrun, hrun']
    exact .error

/-! ## Whole trees -/

/-- What is done behind the rules: the helper where it is asked for, and the checks. -/
def Node.helpedAndFinished (o : LoweringOptions) (lowered : Node) : Lowering Node := do
  let helped ← if o.emitHelpers && (← Work.own).derived then lowered.withExtendsHelper o.layout else pure lowered
  helped.finished

theorem keepsAlike_helpedAndFinished (h : ∃ e : LineEnding, o.layout.newLine = e.text)
    (h' : ∃ e : LineEnding, o'.layout.newLine = e.text) (hemit : o.emitHelpers = o'.emitHelpers) :
    KeepsAlike (Node.helpedAndFinished o) (Node.helpedAndFinished o') := by
  intro W W' n n' s s' hs hs' hn hn' houtline hderived
  have hown : ∀ (o : LoweringOptions) (n : Node) (s : Supplied LoweringState), n.helpedAndFinished o s =
      ((if o.emitHelpers && s.own.derived then n.withExtendsHelper o.layout else pure n) >>= Node.finished) s :=
    fun o n s => by
      have hrun : (Work.own : Lowering LoweringState) s = .ok s.own s := rfl
      unfold Node.helpedAndFinished
      rw [Work.bind_of_ok hrun]
      dsimp only
      split <;> rfl
  rw [hown, hown, ← hemit, ← hderived]
  refine EndsAlike.bind ?_ keepsAlike_finished
  split
  · exact keepsAlike_withExtendsHelper h h' hs hs' hn hn' houtline hderived
  · exact .ok hs hs' hn hn' houtline hderived

/-- A tree that was read is held by the registry of its objects. -/
theorem held_of_parse (hparse : parseFrom text i = (.ok tree, k)) (hnext : k ≤ next) :
    ∃ W : Registry, W.next = next ∧ tree.Held W :=
  have hprogram := parseFrom_isProgram hparse
  ⟨Registry.empty.withTree tree next (Nat.zero_le _), rfl,
    hprogram.2.held ((parseFrom_formed hparse).mono (fun _ hm => hm.opens)) (Nat.zero_le _) hnext (Nat.zero_le _)⟩

/-- **Programs that look the same are lowered alike.** -/
theorem lower_of_outline_eq (hparse : parseFrom text i = (.ok tree, j)) (hparse' : parseFrom text' k = (.ok tree', l))
    (hnext : j ≤ next) (hnext' : l ≤ next') (h : tree.outline = tree'.outline)
    (hline : ∃ e : LineEnding, o.layout.newLine = e.text) (hline' : ∃ e : LineEnding, o'.layout.newLine = e.text)
    (hemit : o.emitHelpers = o'.emitHelpers) :
    (∃ e e', (tree.lower o next).1 = .error e ∧ (tree'.lower o' next').1 = .error e') ∨
      ∃ u u', (tree.lower o next).1 = .ok u ∧ (tree'.lower o' next').1 = .ok u' ∧ u.outline = u'.outline := by
  have hprogram := (parseFrom_isProgram hparse).2
  have hprogram' := (parseFrom_isProgram hparse').2
  unfold Node.lower
  rw [Node.checkInvariants_eq_ok hprogram.wellFormed hprogram.distinct,
    Node.checkInvariants_eq_ok hprogram'.wellFormed hprogram'.distinct, ← tree'.isSpecific_outline, ← h,
    tree.isSpecific_outline]
  dsimp only
  split
  · obtain ⟨W, rfl, hheld⟩ := held_of_parse hparse hnext
    obtain ⟨W', rfl, hheld'⟩ := held_of_parse hparse' hnext'
    have hends : EndsAlike (tree.lowerSpecific o ⟨W.next, .initial⟩) (tree'.lowerSpecific o' ⟨W'.next, .initial⟩) :=
      (endsAlike_lowerByRules hheld hheld' hprogram.kind h o.layout o'.layout).bind
        (keepsAlike_helpedAndFinished hline hline' hemit)
    unfold Work.runFrom
    generalize tree.lowerSpecific o ⟨W.next, .initial⟩ = r at hends
    generalize tree'.lowerSpecific o' ⟨W'.next, .initial⟩ = r' at hends
    cases hends with
    | error => exact .inl ⟨_, _, rfl, rfl⟩
    | ok _ _ _ _ houtline _ => exact .inr ⟨_, _, rfl, rfl, houtline⟩
  · exact .inr ⟨_, _, rfl, rfl, h⟩

/-- The two texts read, one behind the other, as programs that pass a test. -/
def bothRead (test : Node → ObjectId → Node → ObjectId → Bool) (text text' : List Char) : Bool :=
  match parseFrom text 0 with
  | (.ok tree, j) => match parseFrom text' j with
    | (.ok tree', l) => test tree j tree' l
    | _ => false
  | _ => false

theorem exists_of_bothRead (test : Node → ObjectId → Node → ObjectId → Bool) (text text' : List Char)
    (h : bothRead test text text' = true) : ∃ tree j tree' l, parseFrom text 0 = (.ok tree, j) ∧
      parseFrom text' j = (.ok tree', l) ∧ test tree j tree' l = true := by
  unfold bothRead at h
  split at h
  · rename_i tree j hparse
    split at h
    · rename_i tree' l hparse'
      exact ⟨tree, j, tree', l, hparse, hparse', h⟩
    · cases h
  · cases h

/-- **Layout does not influence what lowering does.**  Two texts are read, one behind the other, as trees of the same
structure, and the trees are lowered with layouts of which nothing is asked but that lines end as lines may.  Then both
trees cannot be lowered, or what comes of them has the same structure, whichever numbers its objects have. -/
theorem lower_layout_blind (a b : List Char) (o o' : LoweringOptions) (e e' : LineEnding) (x y : Node)
    (i j k l next next' : ObjectId) (hx : parseFrom a i = (.ok x, j)) (hy : parseFrom b k = (.ok y, l)) (hjk : j ≤ k)
    (hnext : j ≤ next) (hnext' : l ≤ next') (hagree : x.agrees .plain y = true) (ho : o.layout.newLine = e.text)
    (ho' : o'.layout.newLine = e'.text) (hemit : o.emitHelpers = o'.emitHelpers) :
    (∃ f f', (x.lower o next).1 = .error f ∧ (y.lower o' next').1 = .error f') ∨
      ∃ u v, (x.lower o next).1 = .ok u ∧ (y.lower o' next').1 = .ok v ∧ u.agrees .plain v = true ∧
        u.outline = v.outline := by
  have hprogram := (parseFrom_isProgram hx).2
  have hprogram' := (parseFrom_isProgram hy).2
  have houtline : x.outline = y.outline := by
    refine Node.outline_eq_of_agrees ((parseFrom_formed hx).mono (fun _ hm => hm.proper))
      ((parseFrom_formed hy).mono (fun _ hm => hm.proper)) (fun m hm n hn heq => ?_) hagree
    have hlow : m.id < j := (hprogram.nodes m hm).2
    have hhigh : k ≤ n.id := (hprogram'.nodes n hn).1
    exact Nat.ne_of_lt (Nat.lt_of_lt_of_le hlow (Nat.le_trans hjk hhigh)) heq
  rcases lower_of_outline_eq hx hy hnext hnext' houtline ⟨e, ho⟩ ⟨e', ho'⟩ hemit with h | ⟨u, v, hu, hv, h⟩
  · exact .inl h
  · exact .inr ⟨u, v, hu, hv, Node.agrees_of_outline_eq h, h⟩

/-- An arrow function on one line and on three, lowered with spaces and with tabs. -/
theorem lower_layout_blind_arrow : ∃ x j y l u v, parseFrom "f=y=>-<any>y;".toList 0 = (.ok x, j) ∧
    parseFrom "f =\n\ty => // body\n\t\t- <any> y ;\n".toList j = (.ok y, l) ∧
    (x.lower ⟨⟨4, false, LineEnding.lf.text⟩, true⟩ l).1 = .ok u ∧
    (y.lower ⟨⟨2, true, LineEnding.crlf.text⟩, true⟩ l).1 = .ok v ∧ u.agrees .plain v = true ∧ u.outline = v.outline := by
  have hok : bothRead (fun x j y l => x.agrees .plain y && decide (j ≤ l) &&
      (x.lower ⟨⟨4, false, LineEnding.lf.text⟩, true⟩ l).1.isOk) "f=y=>-<any>y;".toList
      "f =\n\ty => // body\n\t\t- <any> y ;\n".toList = true := by decide +kernel
  obtain ⟨x, j, y, l, hx, hy, htest⟩ := exists_of_bothRead _ _ _ hok
  simp only [Bool.and_eq_true, decide_eq_true_eq] at htest
  obtain ⟨⟨hagree, hjl⟩, hlower⟩ := htest
  rcases lower_layout_blind _ _ ⟨⟨4, false, LineEnding.lf.text⟩, true⟩ ⟨⟨2, true, LineEnding.crlf.text⟩, true⟩
    .lf .crlf x y 0 j j l l l hx hy le_rfl hjl le_rfl hagree rfl rfl rfl with ⟨f, f', hf, -⟩ | ⟨u, v, hu, hv, h⟩
  · rw [hf] at hlower
    cases hlower
  · exact ⟨x, j, y, l, u, v, hx, hy, hu, hv, h⟩

end Downlevel
