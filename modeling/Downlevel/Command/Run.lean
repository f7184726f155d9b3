import Downlevel.Command.Sources
import Downlevel.Lowering.Program
/-!
# Command.Run — lowering the sources of a run

Sources are lowered one by one, and a source that fails does not stop the others.  `outcomes` says what becomes of each
of them; `carryOut` puts the outputs on the disk and reports what was written and what failed.
-/
namespace Downlevel

/-- Why a source has no output. -/
inductive FileFault where
  | collision (c : Collision)
  | noText (path : FilePath)
  | notLowered (error : SourceError)
  | noFolder (folder : FilePath) (fault : DiskFault)
  | notWritten (output : FilePath) (fault : DiskFault)

def FileFault.message : FileFault → List Char
  | collision c => c.message
  | noText path => "failed to read ".toList ++ path.text ++ ": stream did not contain valid UTF-8".toList
  | notLowered error => error.message
  | noFolder folder fault => "failed to create ".toList ++ folder.text ++ [':', ' '] ++ fault.message
  | notWritten output fault => "failed to write ".toList ++ output.text ++ [':', ' '] ++ fault.message

/-- A lowered text and where it goes. -/
structure Product where
  output : FilePath
  text : List Char
  deriving DecidableEq, Repr

/-- What becomes of a source. -/
structure Outcome where
  path : FilePath
  result : Except FileFault Product

/-- What a run did. -/
structure Report where
  /-- The outputs that were written, or that a run that only checks would write. -/
  lowered : List FilePath
  failures : List (FilePath × FileFault)

/-- No source failed. -/
def Report.isSuccess (r : Report) : Bool := r.failures.isEmpty

/-! ## Lowering -/

def Source.lowerOn (d : Disk) (o : LoweringOptions) (outDir : Option FilePath) (s : Source) :
    Except FileFault Product :=
  match d.read? s.path with
  | none => .error (.noText s.path)
  | some text =>
    match lowerText text o with
    | .ok lowered => .ok ⟨s.output outDir, lowered⟩
    | .error e => .error (.notLowered e)

/-- **What becomes of the sources of a run**, collisions first. -/
def Arguments.outcomes (a : Arguments) (d : Disk) : Except RunError (List Outcome) := do
  let o ← a.options d
  let sources ← d.sources a.inputs
  let (kept, collisions) := splitCollisions a.outDir sources
  return collisions.map (fun c => ⟨c.source.path, .error (.collision c)⟩)
    ++ kept.map (fun s => ⟨s.path, s.lowerOn d o a.outDir⟩)

/-! ## Writing -/

def Disk.put (d : Disk) (p : Product) : Except FileFault Disk :=
  let folder := p.output.parent
  match if folder.text.isEmpty then .ok d else d.makeFolders folder with
  | .error fault => .error (.noFolder folder fault)
  | .ok d =>
    match d.write p.output p.text with
    | .error fault => .error (.notWritten p.output fault)
    | .ok d => .ok d

/-- The disk with a product on it, or as it is for a run that only checks. -/
def Disk.putUnless (check : Bool) (d : Disk) (p : Product) : Except FileFault Disk :=
  if check then .ok d else d.put p

/-- Writes the products of outcomes and reports them. -/
def carryOut (check : Bool) : Disk → List Outcome → Disk × Report
  | d, [] => (d, ⟨[], []⟩)
  | d, outcome :: rest =>
    match outcome.result.bind (fun p => (d.putUnless check p).map (p.output, ·)) with
    | .ok (output, d) =>
      let (d, report) := carryOut check d rest
      (d, { report with lowered := output :: report.lowered })
    | .error fault =>
      let (d, report) := carryOut check d rest
      (d, { report with failures := (outcome.path, fault) :: report.failures })

/-- **A run.** -/
def Arguments.run (a : Arguments) (d : Disk) : Except RunError (Disk × Report) := do
  return carryOut a.check d (← a.outcomes d)

end Downlevel
