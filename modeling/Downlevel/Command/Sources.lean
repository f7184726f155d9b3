import Downlevel.Command.Settings
/-!
# Command.Sources — the files to lower, and where their outputs go

An input that is a file is a source; an input that is a folder stands for the files below it that are written in the
dialect and are no declarations.  Sources are in the order of their paths, each path once.  A source whose output
another source has too is set aside (`splitCollisions`), so no output takes the place of another.
-/
namespace Downlevel

/-- A file to lower. -/
structure Source where
  path : FilePath
  /-- The path below the input that the file was found in. -/
  relative : FilePath
  deriving DecidableEq, Repr

/-! ## Finding sources -/

/-- A file of this name holds code of the dialect. -/
def isLowerable (name : List Char) : Bool := ".ts".toList.isSuffixOf name && !".d.ts".toList.isSuffixOf name

/-- The sources that an input stands for. -/
def Disk.sourcesAt (d : Disk) (input : FilePath) : Except RunError (List Source) :=
  match d.find input with
  | .error _ => .error (.noInput input)
  | .ok place =>
    if d.hasFolder place then
      let below := (d.filesBelow place).filter (fun names => names.getLast?.any isLowerable)
      .ok (below.map (fun names => ⟨input.join (.ofPieces names), .ofPieces names⟩))
    else .ok [⟨input, ⟨input.fileName?.getD input.text⟩⟩]

/-- The items without those that have the path of the item before them. -/
def withoutRepeats : List Source → List Source
  | [] => []
  | s :: rest =>
    match withoutRepeats rest with
    | [] => [s]
    | t :: others => if s.path.same t.path then s :: others else s :: t :: others

/-- **The sources that the inputs stand for.** -/
def Disk.sources (d : Disk) (inputs : List FilePath) : Except RunError (List Source) := do
  let found ← inputs.mapM d.sourcesAt
  return withoutRepeats (found.flatten.mergeSort (fun s t => s.path.atMost t.path))

/-! ## Outputs -/

/-- Where the output of a source goes: beside it, or at its relative path below a folder. -/
def Source.output (outDir : Option FilePath) (s : Source) : FilePath :=
  match outDir with
  | some dir => (dir.join s.relative).withExtension "js".toList
  | none => s.path.withExtension "js".toList

/-- The paths of the sources that have an output, in the order of the sources; one row for each output. -/
abbrev OutputTable := List (FilePath × List FilePath)

namespace OutputTable

/-- Puts a path behind the others that have its output. -/
def add (output path : FilePath) : OutputTable → OutputTable
  | [] => [(output, [path])]
  | (other, paths) :: rest =>
    if other.same output then (other, paths ++ [path]) :: rest else (other, paths) :: add output path rest

def ofSources (outDir : Option FilePath) (sources : List Source) : OutputTable :=
  sources.foldl (fun table s => table.add (s.output outDir) s.path) []

def writers (table : OutputTable) (output : FilePath) : List FilePath :=
  ((table.find? (·.1.same output)).map (·.2)).getD []

end OutputTable

/-- The paths in the row of a source's output, its own left out. -/
def Source.rivals (outDir : Option FilePath) (table : OutputTable) (s : Source) : List FilePath :=
  (table.writers (s.output outDir)).filter (fun path => !path.same s.path)

/-- A source that is set aside, with its output and the paths of the sources that have it too. -/
structure Collision where
  source : Source
  output : FilePath
  rivals : List FilePath
  deriving DecidableEq, Repr

def Collision.message (c : Collision) : List Char :=
  "output ".toList ++ c.output.text ++ " would also be written by ".toList
    ++ Text.join [',', ' '] (c.rivals.map (·.text))

/-- **The sources that have their outputs to themselves, and the others.** -/
def splitCollisions (outDir : Option FilePath) (sources : List Source) : List Source × List Collision :=
  let table := OutputTable.ofSources outDir sources
  let (kept, others) := sources.partition (fun s => (s.rivals outDir table).isEmpty)
  (kept, others.map (fun s => ⟨s, s.output outDir, s.rivals outDir table⟩))

end Downlevel
