import Downlevel.Disk.Basic
import Downlevel.Proofs.Disk.Names
/-!
# Proofs.Disk.Sound — disks whose folders stand in folders

On a sound disk every folder but the top stands in a folder and every file has a place of names.  What is made with
`withFolder` and `withFile` is sound.  A path that leads to a file ends with a name (`Sound.fileName?_of_find`): idle
pieces and steps upwards lead to folders.
-/
namespace Downlevel

open FilePath (isIdle isName)

namespace Disk

/-- The working folder is there, folders stand in folders, and the places of files are made of names. -/
structure Sound (d : Disk) : Prop where
  working : d.hasFolder d.working = true
  folders : ∀ folder ∈ d.folders, d.hasFolder folder.dropLast = true
  names : ∀ file ∈ d.files, ∀ name ∈ file.1, isName name = true ∧ '/' ∉ name

variable {d : Disk} {place folder : Place}

theorem hasFolder_iff : d.hasFolder place = true ↔ place = [] ∨ place ∈ d.folders := by
  rw [hasFolder, Bool.or_eq_true, List.isEmpty_iff, List.contains_iff_mem]

theorem Sound.dropLast (h : d.Sound) (hplace : d.hasFolder place = true) : d.hasFolder place.dropLast = true := by
  obtain rfl | hmem := hasFolder_iff.1 hplace
  · exact hplace
  · exact h.folders place hmem

/-! ## Disks that are made -/

theorem mem_above : folder ∈ above place ↔ ∃ i < place.length, place.take i = folder := by
  rw [above, List.mem_map]
  exact exists_congr fun i => and_congr_left fun _ => List.mem_range

theorem dropLast_mem_above (hplace : place ≠ []) : place.dropLast ∈ above place :=
  mem_above.2 ⟨place.length - 1, Nat.sub_one_lt (mt List.length_eq_zero_iff.1 hplace), List.dropLast_eq_take.symm⟩

theorem dropLast_mem_above_of_mem (h : folder ∈ above place) (hfolder : folder ≠ []) :
    folder.dropLast ∈ above place := by
  obtain ⟨i, hi, rfl⟩ := mem_above.1 h
  refine mem_above.2 ⟨i - 1, Nat.lt_of_le_of_lt (Nat.sub_le i 1) hi, ?_⟩
  rw [List.dropLast_eq_take, List.take_take, List.length_take, Nat.min_eq_left (Nat.le_of_lt hi),
    Nat.min_eq_left (Nat.sub_le i 1)]

/-- The folders of a disk, and those of these that are missing. -/
def adding (d : Disk) (new : List Place) : List Place := d.folders ++ new.filter (fun folder => !d.hasFolder folder)

/-- A folder that is asked for is there afterwards, whether it is new or not. -/
theorem hasFolder_adding {new : List Place} (files : List (Place × FileContent))
    (h : d.hasFolder folder = true ∨ folder ∈ new) : Disk.hasFolder ⟨d.working, d.adding new, files⟩ folder = true := by
  rw [hasFolder_iff]
  cases hold : d.hasFolder folder with
  | true => exact (hasFolder_iff.1 hold).imp_right (List.mem_append_left _)
  | false =>
    have hnew := h.resolve_left (by rw [hold]; exact Bool.false_ne_true)
    exact .inr (List.mem_append_right _ (List.mem_filter.2 ⟨hnew, by rw [hold]; rfl⟩))

/-- Folders stand in folders if those that are added stand in old ones or in each other. -/
theorem hasFolder_dropLast_adding {new : List Place} (files : List (Place × FileContent))
    (hold : ∀ folder ∈ d.folders, d.hasFolder folder.dropLast = true)
    (hnew : ∀ folder ∈ new, folder ≠ [] → folder.dropLast ∈ new) (h : folder ∈ d.adding new) :
    Disk.hasFolder ⟨d.working, d.adding new, files⟩ folder.dropLast = true := by
  obtain hmem | hmem := List.mem_append.1 h
  · exact hasFolder_adding files (.inl (hold folder hmem))
  · by_cases hnil : folder = []
    · rw [hnil]
      exact hasFolder_iff.2 (.inl rfl)
    · exact hasFolder_adding files (.inr (hnew folder (List.mem_filter.1 hmem).1 hnil))

theorem dropLast_mem_way (h : folder ∈ above place ++ [place]) (hfolder : folder ≠ []) :
    folder.dropLast ∈ above place ++ [place] := by
  refine List.mem_append_left _ ?_
  obtain habove | hplace := List.mem_append.1 h
  · exact dropLast_mem_above_of_mem habove hfolder
  · rw [List.mem_singleton.1 hplace] at hfolder ⊢
    exact dropLast_mem_above hfolder

theorem Sound.withFolder (h : d.Sound) (place : Place) : (d.withFolder place).Sound :=
  ⟨hasFolder_adding _ (.inl h.working),
    fun _ => hasFolder_dropLast_adding _ h.folders (fun _ => dropLast_mem_way), h.names⟩

theorem Sound.withFile (h : d.Sound) (hplace : ∀ name ∈ place, isName name = true ∧ '/' ∉ name)
    (content : FileContent) : (d.withFile place content).Sound := by
  refine ⟨hasFolder_adding _ (.inl h.working),
    fun _ => hasFolder_dropLast_adding _ h.folders (fun _ => dropLast_mem_above_of_mem), fun file hfile => ?_⟩
  obtain hold | hnew := List.mem_append.1 hfile
  · exact h.names file (List.mem_filter.1 hold).1
  · rw [List.mem_singleton.1 hnew]
    exact hplace

theorem sound_blank (working : Place) : (blank working).Sound :=
  ⟨hasFolder_adding [] (.inr (List.mem_append_right _ (List.mem_singleton_self working))),
    fun _ => hasFolder_dropLast_adding [] nofun (fun _ => dropLast_mem_way), nofun⟩

/-! ## Paths that lead to files -/

theorem walk_append (d : Disk) (place : Place) (before behind : List (List Char)) :
    d.walk place (before ++ behind) = (d.walk place before).bind (d.walk · behind) := by
  induction before generalizing place with
  | nil => rfl
  | cons piece rest ih =>
    rw [List.cons_append, walk, walk]
    split
    · rfl
    split
    · exact ih _
    split
    · exact ih _
    split
    · exact ih _
    · rfl

/-- Pieces that lead to no folder end with a name. -/
theorem Sound.isName_of_walk (h : d.Sound) {start : Place} {before : List (List Char)} {piece : List Char}
    (hwalk : d.walk start (before ++ [piece]) = .ok place) (hplace : d.hasFolder place = false) :
    isName piece = true := by
  rw [walk_append] at hwalk
  cases hbefore : d.walk start before with
  | error fault => rw [hbefore] at hwalk; cases hwalk
  | ok at_ =>
    rw [hbefore, Except.bind, walk] at hwalk
    split at hwalk
    · cases hwalk
    rename_i hfolder
    rw [Bool.not_eq_true', ← Bool.not_eq_true, not_not] at hfolder
    split at hwalk
    · cases hwalk
      exact absurd hfolder (ne_true_of_eq_false hplace)
    rename_i hidle
    split at hwalk
    · cases hwalk
      exact absurd (h.dropLast hfolder) (ne_true_of_eq_false hplace)
    rename_i hup
    exact FilePath.isName_iff.2 ⟨eq_false_of_ne_true hidle, hup⟩

/-- **A path that leads to no folder ends with a name.** -/
theorem Sound.fileName?_of_find (h : d.Sound) {p : FilePath} (hfind : d.find p = .ok place)
    (hplace : d.hasFolder place = false) : ∃ name, p.fileName? = some name := by
  have hpieces : p.pieces = p.pieces.dropLast ++ [p.pieces.getLast (FilePath.piecesOf_ne_nil p.text)] :=
    (List.dropLast_append_getLast _).symm
  unfold find at hfind
  split at hfind
  · cases hfind
  · rw [hpieces] at hfind
    have hname := h.isName_of_walk hfind hplace
    exact ⟨_, FilePath.fileName?_eq_some.2 ⟨_, FilePath.splitName?_eq_some.2 ⟨hname, [], hpieces, nofun⟩⟩⟩

end Disk

end Downlevel
