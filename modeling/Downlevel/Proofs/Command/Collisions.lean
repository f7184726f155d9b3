import Mathlib.Data.List.Pairwise
import Downlevel.Command.Sources
/-!
# Proofs.Command.Collisions — which sources have their outputs to themselves

The table of outputs holds in the row of an output the paths of exactly the sources that have it, in their order
(`OutputTable.writers_ofSources`).  Among sources of different paths, then, a source is set aside when and only when
another one has its output, and its message names those others.
-/
namespace Downlevel

namespace FilePath

@[simp] theorem same_refl (p : FilePath) : p.same p = true := beq_self_eq_true p.steps

theorem same_iff {p q : FilePath} : p.same q = true ↔ p.steps = q.steps := beq_iff_eq

theorem same_comm (p q : FilePath) : p.same q = q.same p := Bool.beq_comm

end FilePath

/-! ## The table of outputs -/

namespace OutputTable

theorem writers_cons (output : FilePath) (paths : List FilePath) (table : OutputTable) (wanted : FilePath) :
    writers ((output, paths) :: table) wanted = if output.same wanted then paths else writers table wanted := by
  unfold writers
  rw [List.find?_cons]
  cases output.same wanted <;> rfl

/-- A path that is put into a table comes behind the others of its output, and the other rows stay. -/
theorem writers_add (output path wanted : FilePath) (table : OutputTable) :
    writers (add output path table) wanted =
      if output.same wanted then writers table wanted ++ [path] else writers table wanted := by
  induction table with
  | nil => exact writers_cons output [path] [] wanted
  | cons row table ih =>
    obtain ⟨other, paths⟩ := row
    by_cases hrow : other.same output = true
    · have hwanted : other.same wanted = output.same wanted := by
        unfold FilePath.same
        rw [FilePath.same_iff.1 hrow]
      rw [add, if_pos hrow, writers_cons, writers_cons, hwanted]
      split <;> rfl
    · rw [add, if_neg hrow, writers_cons, writers_cons, ih]
      by_cases hother : other.same wanted = true
      · have houtput : ¬ output.same wanted = true := fun h =>
          hrow (FilePath.same_iff.2 ((FilePath.same_iff.1 hother).trans (FilePath.same_iff.1 h).symm))
        rw [if_pos hother, if_pos hother, if_neg houtput]
      · rw [if_neg hother, if_neg hother]

/-- **The row of an output holds the paths of the sources that have it, in their order.** -/
theorem writers_ofSources (outDir : Option FilePath) (sources : List Source) (wanted : FilePath) :
    (ofSources outDir sources).writers wanted =
      (sources.filter (fun s => (s.output outDir).same wanted)).map Source.path := by
  -- the rows of the sources so far are general in the induction: the table is filled from the front
  suffices h : ∀ table : OutputTable,
      (sources.foldl (fun table s => table.add (s.output outDir) s.path) table).writers wanted =
        table.writers wanted ++ (sources.filter (fun s => (s.output outDir).same wanted)).map Source.path from
    h []
  induction sources with
  | nil => exact fun table => (List.append_nil _).symm
  | cons s sources ih =>
    intro table
    rw [List.foldl_cons, ih, writers_add, List.filter_cons]
    by_cases hs : (s.output outDir).same wanted = true
    · rw [if_pos hs, if_pos hs, List.map_cons, List.append_assoc, List.singleton_append]
    · rw [if_neg hs, if_neg hs]

end OutputTable

/-! ## Sources of different paths -/

/-- No path stands twice, however it is spelled. -/
def Source.AreDistinct (sources : List Source) : Prop := sources.Pairwise (fun s t => s.path.same t.path = false)

instance (sources : List Source) : Decidable (Source.AreDistinct sources) :=
  inferInstanceAs (Decidable (sources.Pairwise _))

namespace Source

variable {outDir : Option FilePath} {sources : List Source} {s t : Source}

/-- The sources among these other than `s` that have its output. -/
def sharing (outDir : Option FilePath) (sources : List Source) (s : Source) : List Source :=
  sources.filter (fun t => t ≠ s ∧ (t.output outDir).same (s.output outDir))

theorem mem_sharing :
    t ∈ sharing outDir sources s ↔ t ∈ sources ∧ t ≠ s ∧ (t.output outDir).same (s.output outDir) := by
  rw [sharing, List.mem_filter, decide_eq_true_iff]

theorem sharing_ne_nil :
    sharing outDir sources s ≠ [] ↔ ∃ t ∈ sources, t ≠ s ∧ (t.output outDir).same (s.output outDir) := by
  rw [ne_eq, List.eq_nil_iff_forall_not_mem, not_forall_not]
  exact exists_congr fun t => mem_sharing

theorem ne_of_path (h : s.path.same t.path = false) : s ≠ t := by
  rintro rfl
  exact Bool.false_ne_true (h.symm.trans (FilePath.same_refl _))

namespace AreDistinct

theorem same_iff_eq (h : AreDistinct sources) (ht : t ∈ sources) (hs : s ∈ sources) :
    t.path.same s.path = true ↔ t = s := by
  refine ⟨fun hsame => Classical.byContradiction fun hne => ?_, fun heq => heq ▸ FilePath.same_refl _⟩
  have : Std.Symm (fun s t : Source => s.path.same t.path = false) :=
    ⟨fun _ _ hab => (FilePath.same_comm _ _).trans hab⟩
  have hfalse : t.path.same s.path = false := List.Pairwise.forall h ht hs hne
  exact Bool.false_ne_true (hfalse.symm.trans hsame)

/-- The rivals of a source are the paths of the other sources that have its output. -/
theorem rivals_eq (h : AreDistinct sources) (hs : s ∈ sources) :
    s.rivals outDir (.ofSources outDir sources) = (sharing outDir sources s).map path := by
  rw [rivals, OutputTable.writers_ofSources, List.filter_map, List.filter_filter, sharing]
  congr 1
  refine List.filter_congr fun t ht => ?_
  rw [Bool.eq_iff_iff, Bool.and_eq_true, Function.comp_apply, Bool.not_eq_true', ← Bool.not_eq_true,
    h.same_iff_eq ht hs, decide_eq_true_iff]

theorem rivals_isEmpty (h : AreDistinct sources) (hs : s ∈ sources) :
    (s.rivals outDir (.ofSources outDir sources)).isEmpty = true ↔ sharing outDir sources s = [] := by
  rw [h.rivals_eq hs, List.isEmpty_map, List.isEmpty_iff]

/-- The sources that have their outputs to themselves, in their order. -/
theorem kept_eq (h : AreDistinct sources) :
    (splitCollisions outDir sources).1 = sources.filter (fun s => sharing outDir sources s = []) := by
  rw [splitCollisions, List.partition_eq_filter_filter]
  refine List.filter_congr fun s hs => ?_
  rw [Bool.eq_iff_iff, h.rivals_isEmpty hs, decide_eq_true_iff]

/-- The sources that are set aside, in their order, each with its output and the paths of the others that have it. -/
theorem collisions_eq (h : AreDistinct sources) :
    (splitCollisions outDir sources).2 =
      (sources.filter (fun s => sharing outDir sources s ≠ [])).map
        (fun s => ⟨s, s.output outDir, (sharing outDir sources s).map path⟩) := by
  have hothers : sources.filter (fun s => !(s.rivals outDir (.ofSources outDir sources)).isEmpty) =
      sources.filter (fun s => sharing outDir sources s ≠ []) := by
    refine List.filter_congr fun s hs => ?_
    rw [Bool.eq_iff_iff, Bool.not_eq_true', ← Bool.not_eq_true, h.rivals_isEmpty hs, decide_eq_true_iff]
  rw [splitCollisions, List.partition_eq_filter_filter]
  refine (congrArg (List.map _) hothers).trans (List.map_congr_left fun s hs => ?_)
  exact congrArg (Collision.mk s (s.output outDir)) (h.rivals_eq (List.mem_filter.1 hs).1)

theorem mem_kept (h : AreDistinct sources) :
    s ∈ (splitCollisions outDir sources).1 ↔ s ∈ sources ∧ sharing outDir sources s = [] := by
  rw [h.kept_eq, List.mem_filter, decide_eq_true_iff]

theorem mem_collisions (h : AreDistinct sources) {c : Collision} :
    c ∈ (splitCollisions outDir sources).2 ↔ c.source ∈ sources ∧ sharing outDir sources c.source ≠ [] ∧
      c.output = c.source.output outDir ∧ c.rivals = (sharing outDir sources c.source).map path := by
  rw [h.collisions_eq, List.mem_map]
  refine ⟨?_, fun ⟨hmem, hshares, houtput, hrivals⟩ => ?_⟩
  · rintro ⟨s, hs, rfl⟩
    exact ⟨(List.mem_filter.1 hs).1, of_decide_eq_true (List.mem_filter.1 hs).2, rfl, rfl⟩
  · exact ⟨c.source, List.mem_filter.2 ⟨hmem, decide_eq_true hshares⟩, by rw [← houtput, ← hrivals]⟩

/-- A collision names its output and the other sources that have it. -/
theorem message_eq (h : AreDistinct sources) {c : Collision} (hc : c ∈ (splitCollisions outDir sources).2) :
    c.message = "output ".toList ++ (c.source.output outDir).text ++ " would also be written by ".toList ++
      Text.join [',', ' '] ((sharing outDir sources c.source).map (·.path.text)) := by
  obtain ⟨-, -, houtput, hrivals⟩ := h.mem_collisions.1 hc
  have htexts : c.rivals.map (·.text) = (sharing outDir sources c.source).map (·.path.text) := by
    rw [hrivals, List.map_map]
    rfl
  unfold Collision.message
  rw [houtput, htexts]

theorem output_ne_of_kept (h : AreDistinct sources) (hs : s ∈ (splitCollisions outDir sources).1)
    (ht : t ∈ sources) (hne : t ≠ s) : (s.output outDir).same (t.output outDir) = false := by
  refine eq_false_of_ne_true fun hsame => ?_
  have hmem : t ∈ sharing outDir sources s := mem_sharing.2 ⟨ht, hne, (FilePath.same_comm _ _).trans hsame⟩
  rw [((mem_kept h).1 hs).2] at hmem
  exact List.not_mem_nil hmem

theorem kept (h : AreDistinct sources) : AreDistinct (splitCollisions outDir sources).1 := by
  rw [h.kept_eq]
  exact List.Pairwise.filter _ h

/-- No two sources that are kept have one output. -/
theorem pairwise_output_kept (h : AreDistinct sources) :
    (splitCollisions outDir sources).1.Pairwise (fun s t => (s.output outDir).same (t.output outDir) = false) :=
  h.kept.imp_of_mem fun hs ht hpaths => h.output_ne_of_kept hs ((mem_kept h).1 ht).1 (ne_of_path hpaths).symm

end AreDistinct

end Source

open Source in
/-- **Collisions are separated exactly.**  Among sources of different paths, those whose output no other source has are
kept and the others are set aside, both in their order; what is set aside names exactly the other sources that have its
output; and no two of the outputs that are kept are the same, nor is one of them the output of a source set aside. -/
theorem splitCollisions_exact (outDir : Option FilePath) (sources : List Source) (h : AreDistinct sources) :
    (splitCollisions outDir sources).1 =
      sources.filter (fun s => ¬ ∃ t ∈ sources, t ≠ s ∧ (t.output outDir).same (s.output outDir)) ∧
    (splitCollisions outDir sources).2.map (·.source) =
      sources.filter (fun s => ∃ t ∈ sources, t ≠ s ∧ (t.output outDir).same (s.output outDir)) ∧
    (∀ c ∈ (splitCollisions outDir sources).2,
      c.message = "output ".toList ++ (c.source.output outDir).text ++ " would also be written by ".toList ++
        Text.join [',', ' '] ((sources.filter (fun t =>
          t ≠ c.source ∧ (t.output outDir).same (c.source.output outDir))).map (·.path.text))) ∧
    (splitCollisions outDir sources).1.Pairwise (fun s t => (s.output outDir).same (t.output outDir) = false) ∧
    ∀ s ∈ (splitCollisions outDir sources).1, ∀ c ∈ (splitCollisions outDir sources).2,
      (s.output outDir).same (c.source.output outDir) = false := by
  refine ⟨?_, ?_, fun c hc => h.message_eq hc, h.pairwise_output_kept, fun s hs c hc => ?_⟩
  · rw [h.kept_eq]
    exact List.filter_congr fun s _ => decide_eq_decide.2 (by rw [← sharing_ne_nil, ne_eq, not_not])
  · rw [h.collisions_eq, List.map_map]
    exact (List.map_id _).trans (List.filter_congr fun s _ => decide_eq_decide.2 sharing_ne_nil)
  · obtain ⟨hmem, hshares, -⟩ := h.mem_collisions.1 hc
    refine h.output_ne_of_kept hs hmem ?_
    rintro rfl
    exact hshares (h.mem_kept.1 hs).2

/-- Of `a/x.ts`, `c.ts` and `b/x.ts`, given by their names, the two `x.ts` share `out/x.js`. -/
theorem splitCollisions_exact_shared :
    let a : Source := ⟨⟨"a/x.ts".toList⟩, ⟨"x.ts".toList⟩⟩
    let b : Source := ⟨⟨"b/x.ts".toList⟩, ⟨"x.ts".toList⟩⟩
    let c : Source := ⟨⟨"c.ts".toList⟩, ⟨"c.ts".toList⟩⟩
    Source.AreDistinct [a, c, b] ∧
    (splitCollisions (some ⟨"out".toList⟩) [a, c, b]).1 = [c] ∧
    (splitCollisions (some ⟨"out".toList⟩) [a, c, b]).2.map (·.source) = [a, b] := by
  intro a b c
  have hdistinct : Source.AreDistinct [a, c, b] := by decide
  obtain ⟨hkept, hfailed, -⟩ := splitCollisions_exact (some ⟨"out".toList⟩) [a, c, b] hdistinct
  exact ⟨hdistinct, hkept.trans (by decide), hfailed.trans (by decide)⟩

end Downlevel
