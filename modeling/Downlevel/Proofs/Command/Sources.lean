import Mathlib.Data.List.Pairwise
import Downlevel.Command.Run
import Downlevel.Proofs.Command.Collisions
import Downlevel.Proofs.Disk.Sound
/-!
# Proofs.Command.Sources — what a run takes for its sources, and where it writes

The sources of a run have different paths (`Disk.areDistinct_sources`), so the outputs of a run are different too
(`Arguments.outcomes_outputs`).  An output may still be the path of a source.  On a sound disk that source was named
directly and has the extension of outputs (`Arguments.outcomes_overwrite`): what is found below folders is never
overwritten, nor is any source of another extension.
-/
namespace Downlevel

/-! ## The order of paths -/

namespace PathStep

theorem key_injective : Function.Injective key := by
  intro s t h
  cases s <;> cases t <;> first | rfl | cases h | skip
  rename_i m n
  have hnames : m.map Char.toNat = n.map Char.toNat := (List.cons.inj h).2
  rw [List.map_injective_iff.2 (fun _ _ hc => Char.toNat_inj.1 hc) hnames]

end PathStep

namespace FilePath

theorem atMost_trans (p q r : FilePath) (hpq : p.atMost q = true) (hqr : q.atMost r = true) : p.atMost r = true :=
  Std.TransOrd.isLE_trans hpq hqr

theorem atMost_total (p q : FilePath) : (p.atMost q || q.atMost p) = true := by
  unfold atMost
  rw [Std.OrientedOrd.eq_swap, Ordering.isLE_swap]
  cases compare (q.steps.map PathStep.key) (p.steps.map PathStep.key) <;> rfl

/-- Paths that come no later than each other are the same. -/
theorem same_of_atMost {p q : FilePath} (hpq : p.atMost q = true) (hqp : q.atMost p = true) : p.same q = true := by
  have hkeys : p.steps.map PathStep.key = q.steps.map PathStep.key :=
    Std.LawfulEqOrd.eq_of_compare (Std.OrientedCmp.isLE_antisymm hpq hqp)
  exact same_iff.2 (List.map_injective_iff.2 PathStep.key_injective hkeys)

end FilePath

/-! ## The sources of a run -/

theorem withoutRepeats_sublist (sources : List Source) : (withoutRepeats sources).Sublist sources := by
  induction sources with
  | nil => exact .slnil
  | cons s rest ih =>
    rw [withoutRepeats]
    split
    · exact (List.nil_sublist rest).cons_cons s
    · rename_i t others hrest
      rw [hrest] at ih
      split
      · exact (List.sublist_of_cons_sublist ih).cons_cons s
      · exact ih.cons_cons s

/-- Sources in the order of their paths have different ones once the repeats are taken out. -/
theorem areDistinct_withoutRepeats {sources : List Source}
    (h : sources.Pairwise (fun s t => s.path.atMost t.path = true)) : Source.AreDistinct (withoutRepeats sources) := by
  induction sources with
  | nil => exact .nil
  | cons s rest ih =>
    obtain ⟨hs, hrest⟩ := List.pairwise_cons.1 h
    have hdistinct := ih hrest
    have hsorted := hrest.sublist (withoutRepeats_sublist rest)
    have hfirst : ∀ t ∈ withoutRepeats rest, s.path.atMost t.path = true :=
      fun t ht => hs t ((withoutRepeats_sublist rest).mem ht)
    rw [withoutRepeats]
    split
    · exact List.pairwise_singleton _ s
    · rename_i t others hcons
      rw [hcons] at hdistinct hsorted hfirst
      obtain ⟨htothers, hothers⟩ := List.pairwise_cons.1 hdistinct
      split
      · rename_i hsame
        -- `s` spells the path of `t`, which those behind do not
        refine List.pairwise_cons.2 ⟨fun u hu => ?_, hothers⟩
        rw [FilePath.same, FilePath.same_iff.1 hsame]
        exact htothers u hu
      · rename_i hne
        refine List.pairwise_cons.2 ⟨fun u hu => ?_, hdistinct⟩
        obtain rfl | hu := List.mem_cons.1 hu
        · exact eq_false_of_ne_true hne
        · -- `t` stands between `s` and `u`: were those the same, `t` would be that too
          refine eq_false_of_ne_true fun hsame => hne (FilePath.same_of_atMost (hfirst t List.mem_cons_self) ?_)
          have htu : t.path.atMost u.path = true := (List.pairwise_cons.1 hsorted).1 u hu
          rw [FilePath.atMost, FilePath.same_iff.1 hsame]
          exact htu

/-- The lists that a fallible function gives for the members of a list. -/
theorem mem_of_mapM {ε α β : Type} {f : α → Except ε β} {as : List α} {bs : List β} (h : as.mapM f = .ok bs) {b : β}
    (hb : b ∈ bs) : ∃ a ∈ as, f a = .ok b := by
  induction as generalizing bs with
  | nil =>
    cases h
    cases hb
  | cons a as ih =>
    rw [List.mapM_cons] at h
    cases ha : f a with
    | error e => rw [ha] at h; cases h
    | ok first =>
      rw [ha] at h
      cases has : as.mapM f with
      | error e => rw [has] at h; cases h
      | ok others =>
        rw [has] at h
        cases h
        obtain rfl | hb := List.mem_cons.1 hb
        · exact ⟨a, List.mem_cons_self, ha⟩
        · obtain ⟨c, hc, hfc⟩ := ih has hb
          exact ⟨c, List.mem_cons_of_mem _ hc, hfc⟩

variable {d : Disk} {inputs : List FilePath} {sources : List Source} {s t : Source}

theorem Disk.sources_eq_ok (h : d.sources inputs = .ok sources) : ∃ found, inputs.mapM d.sourcesAt = .ok found ∧
    sources = withoutRepeats (found.flatten.mergeSort (fun s t => s.path.atMost t.path)) := by
  unfold Disk.sources at h
  cases hfound : inputs.mapM d.sourcesAt with
  | error e => rw [hfound] at h; cases h
  | ok found =>
    rw [hfound] at h
    cases h
    exact ⟨found, rfl, rfl⟩

/-- **The sources of a run have different paths.** -/
theorem Disk.areDistinct_sources (h : d.sources inputs = .ok sources) : Source.AreDistinct sources := by
  obtain ⟨found, -, rfl⟩ := sources_eq_ok h
  exact areDistinct_withoutRepeats (List.pairwise_mergeSort
    (fun s t u => FilePath.atMost_trans s.path t.path u.path) (fun s t => FilePath.atMost_total s.path t.path) _)

theorem Disk.found_of_mem_sources (h : d.sources inputs = .ok sources) (hs : s ∈ sources) :
    ∃ input ∈ inputs, ∃ found, d.sourcesAt input = .ok found ∧ s ∈ found := by
  obtain ⟨lists, hlists, rfl⟩ := sources_eq_ok h
  have hmem := List.mem_mergeSort.1 ((withoutRepeats_sublist _).mem hs)
  obtain ⟨found, hfound, hs⟩ := List.mem_flatten.1 hmem
  obtain ⟨input, hinput, heq⟩ := mem_of_mapM hlists hfound
  exact ⟨input, hinput, found, heq, hs⟩

/-! ## Where sources stand -/

/-- A source ends with this name, by its path and by where it was found. -/
def Source.IsNamed (s : Source) (name : List Char) : Prop :=
  s.path.fileName? = some name ∧ s.relative.fileName? = some name

theorem Disk.Sound.isName_of_mem_filesBelow (h : d.Sound) {folder names : Place}
    (hnames : names ∈ d.filesBelow folder) : ∀ name ∈ names, FilePath.isName name = true ∧ '/' ∉ name := by
  obtain ⟨⟨place, content⟩, hfile, hcut⟩ := List.mem_filterMap.1 hnames
  obtain ⟨-, hdrop⟩ := Option.ite_none_right_eq_some.1 hcut
  obtain rfl := Option.some_inj.1 hdrop
  exact fun name hname => h.names _ hfile name (List.mem_of_mem_drop hname)

/-- A path of names ends with the last of them. -/
theorem FilePath.fileName?_ofPieces {names : List (List Char)} (h : ∀ name ∈ names, isName name = true ∧ '/' ∉ name)
    {name : List Char} (hlast : names.getLast? = some name) : (ofPieces names).fileName? = some name := by
  obtain ⟨before, rfl⟩ := List.getLast?_eq_some_iff.1 hlast
  refine fileName?_eq_some.2 ⟨before, splitName?_eq_some.2 ⟨?_, [], ?_, nofun⟩⟩
  · exact (h name (List.mem_append_right _ (List.mem_singleton_self name))).1
  · exact pieces_ofPieces (List.append_ne_nil_of_right_ne_nil _ (List.cons_ne_nil _ _)) fun x hx => (h x hx).2

/-- **A source has a name; one that was not named directly has the extension of the dialect.** -/
theorem Disk.Sound.isNamed (hd : d.Sound) (h : d.sources inputs = .ok sources) (hs : s ∈ sources) :
    ∃ name, s.IsNamed name ∧ (s.path ∈ inputs ∨ isLowerable name = true) := by
  obtain ⟨input, hinput, found, hfound, hs⟩ := found_of_mem_sources h hs
  unfold Disk.sourcesAt at hfound
  split at hfound
  · cases hfound
  rename_i place hfind
  split at hfound
  · -- the input is a folder, and the source stands below it
    cases hfound
    obtain ⟨names, hnames, rfl⟩ := List.mem_map.1 hs
    obtain ⟨hbelow, hany⟩ := List.mem_filter.1 hnames
    obtain ⟨name, hlast, hlowerable⟩ := (Option.any_eq_true _ _).1 hany
    have hrelative := FilePath.fileName?_ofPieces (hd.isName_of_mem_filesBelow hbelow) hlast
    exact ⟨name, ⟨FilePath.fileName?_join input hrelative, hrelative⟩, .inr hlowerable⟩
  · rename_i hplace
    cases hfound
    obtain rfl := List.mem_singleton.1 hs
    obtain ⟨name, hname⟩ := hd.fileName?_of_find hfind (eq_false_of_ne_true hplace)
    refine ⟨name, ⟨hname, ?_⟩, .inl hinput⟩
    obtain ⟨before, hsplit⟩ := FilePath.fileName?_eq_some.1 hname
    obtain ⟨hproper, behind, hpieces, -⟩ := FilePath.splitName?_eq_some.1 hsplit
    have hslash : '/' ∉ name := FilePath.slash_not_mem (hpieces ▸ List.mem_append_right _ List.mem_cons_self)
    refine FilePath.fileName?_eq_some.2 ⟨[], FilePath.splitName?_eq_some.2 ⟨hproper, [], ?_, nofun⟩⟩
    rw [hname]
    exact FilePath.piecesOf_of_not_mem hslash

/-! ## Outputs -/

theorem Source.IsNamed.fileName?_output {name : List Char} (h : s.IsNamed name) (outDir : Option FilePath) :
    (s.output outDir).fileName? = some (FilePath.stem name ++ ".js".toList) := by
  cases outDir with
  | none => exact FilePath.fileName?_withExtension (by decide) (by decide) h.1
  | some dir => exact FilePath.fileName?_withExtension (by decide) (by decide) (FilePath.fileName?_join dir h.2)

theorem not_isLowerable_output (stem : List Char) : isLowerable (stem ++ ".js".toList) = false := by
  have hsuffix : ".ts".toList.isSuffixOf (stem ++ ".js".toList) = false := by
    refine eq_false_of_ne_true fun h => ?_
    obtain ⟨front, hfront⟩ := List.isSuffixOf_iff_suffix.1 h
    exact absurd (List.append_inj_right' hfront rfl) (by decide)
  rw [isLowerable, hsuffix, Bool.false_and]

/-- **An output that is the path of a source takes the place of one that was named directly, with the extension of
outputs.** -/
theorem Disk.Sound.overwritten (hd : d.Sound) (h : d.sources inputs = .ok sources) (hs : s ∈ sources) (ht : t ∈ sources)
    {outDir : Option FilePath} (hsame : (s.output outDir).same t.path = true) :
    t.path ∈ inputs ∧ ∃ stem, t.path.fileName? = some (stem ++ ".js".toList) := by
  obtain ⟨name, hname, -⟩ := hd.isNamed h hs
  obtain ⟨other, hother, hplace⟩ := hd.isNamed h ht
  have hnames : t.path.fileName? = some (FilePath.stem name ++ ".js".toList) :=
    (FilePath.fileName?_of_same hsame).symm.trans (hname.fileName?_output outDir)
  obtain rfl : other = FilePath.stem name ++ ".js".toList := Option.some_inj.1 (hother.1.symm.trans hnames)
  refine ⟨hplace.resolve_right ?_, _, hnames⟩
  rw [not_isLowerable_output]
  exact Bool.false_ne_true

/-- An output beside its source takes the place of that very source exactly when this has the extension of outputs. -/
theorem Source.IsNamed.overwrites_itself_iff {name : List Char} (h : s.IsNamed name) :
    s.path.same (s.output none) = true ↔ ∃ stem, stem ≠ [] ∧ name = stem ++ ".js".toList :=
  FilePath.same_withExtension_iff (by decide) (by decide) (by decide) h.1

/-! ## The products of a run -/

/-- What a run puts on the disk. -/
def products (outcomes : List Outcome) : List Product := outcomes.filterMap (·.result.toOption)

theorem Source.output_of_lowerOn {o : LoweringOptions} {outDir : Option FilePath} {p : Product}
    (h : (s.lowerOn d o outDir).toOption = some p) : p.output = s.output outDir := by
  unfold Source.lowerOn at h
  split at h
  · cases h
  · split at h
    · cases h
      rfl
    · cases h

/-- The products of a run are those of the sources that are kept. -/
theorem Arguments.products_outcomes {a : Arguments} {outcomes : List Outcome} (h : a.outcomes d = .ok outcomes) :
    ∃ o sources, d.sources a.inputs = .ok sources ∧ products outcomes =
      (splitCollisions a.outDir sources).1.filterMap (fun s => (s.lowerOn d o a.outDir).toOption) := by
  unfold Arguments.outcomes at h
  cases ho : a.options d with
  | error e => rw [ho] at h; cases h
  | ok o =>
    cases hsources : d.sources a.inputs with
    | error e => rw [ho, hsources] at h; cases h
    | ok sources =>
      rw [ho, hsources] at h
      refine ⟨o, sources, rfl, ?_⟩
      have houtcomes : (splitCollisions a.outDir sources).2.map (fun c => ⟨c.source.path, .error (.collision c)⟩) ++
          (splitCollisions a.outDir sources).1.map (fun s => ⟨s.path, s.lowerOn d o a.outDir⟩) = outcomes :=
        Except.ok.inj h
      have hcollisions : ((splitCollisions a.outDir sources).2.map fun c => (⟨c.source.path, .error (.collision c)⟩ :
          Outcome)).filterMap (·.result.toOption) = [] := by
        refine List.filterMap_eq_nil_iff.2 fun outcome hmem => ?_
        obtain ⟨c, -, rfl⟩ := List.mem_map.1 hmem
        rfl
      rw [products, ← houtcomes, List.filterMap_append, hcollisions, List.nil_append, List.filterMap_map]
      rfl

/-- **No output of a run takes the place of another.** -/
theorem Arguments.outcomes_outputs {a : Arguments} {outcomes : List Outcome} (h : a.outcomes d = .ok outcomes) :
    (products outcomes).Pairwise (fun p q => p.output.same q.output = false) := by
  obtain ⟨o, sources, hsources, hproducts⟩ := a.products_outcomes h
  rw [hproducts]
  refine List.Pairwise.filterMap _ (fun s t hst p hp q hq => ?_) (Disk.areDistinct_sources hsources).pairwise_output_kept
  rw [Source.output_of_lowerOn hp, Source.output_of_lowerOn hq]
  exact hst

/-- **On a sound disk an output of a run takes the place of no source** but of one that was named directly and has the
extension of outputs. -/
theorem Arguments.outcomes_overwrite {a : Arguments} {outcomes : List Outcome} (hd : d.Sound)
    (h : a.outcomes d = .ok outcomes) (hsources : d.sources a.inputs = .ok sources) {p : Product}
    (hp : p ∈ products outcomes) (ht : t ∈ sources) (hsame : p.output.same t.path = true) :
    t.path ∈ a.inputs ∧ ∃ stem, t.path.fileName? = some (stem ++ ".js".toList) := by
  obtain ⟨o, found, hfound, hproducts⟩ := a.products_outcomes h
  obtain rfl : found = sources := Except.ok.inj (hfound.symm.trans hsources)
  rw [hproducts] at hp
  obtain ⟨s, hs, hlowered⟩ := List.mem_filterMap.1 hp
  rw [Source.output_of_lowerOn hlowered] at hsame
  exact hd.overwritten hsources ((Disk.areDistinct_sources hsources).mem_kept.1 hs).1 ht hsame

end Downlevel
