import Downlevel.Command.Run
/-!
# Main — the command line

Reads the files that a run needs, hands them to `Arguments.outcomes`, and writes what comes back.
-/
namespace Downlevel.CommandLine

/-- A text as the system takes it. -/
def string (cs : List Char) : String := String.ofList cs

def contentOf (bytes : ByteArray) : FileContent :=
  match String.fromUTF8? bytes with
  | some t => .text t.toList
  | none => .bytes

/-- The disk with the sources below a folder; links are not followed. -/
partial def loadFolder (d : Disk) (p : FilePath) : IO Disk := do
  let mut d := d.withEntry p none
  let folder := (← IO.currentDir) / string p.text
  for entry in ← folder.readDir do
    let below := p.join ⟨entry.fileName.toList⟩
    match (← entry.path.symlinkMetadata).type with
    | .dir => d ← loadFolder d below
    | .file =>
      if isLowerable entry.fileName.toList then
        d := d.withEntry below (some (contentOf (← IO.FS.readBinFile entry.path)))
    | _ => pure ()
  return d

/-- The disk with what a path leads to. -/
def load (d : Disk) (p : FilePath) : IO Disk := do
  let entry := (← IO.currentDir) / string p.text
  if !(← entry.pathExists) then return d
  if ← entry.isDir then loadFolder d p
  else return d.withEntry p (some (contentOf (← IO.FS.readBinFile entry)))

/-- What a run reads. -/
def loadAll (a : Arguments) : IO Disk := do
  let working := Disk.placeFrom [] (FilePath.piecesOf (← IO.currentDir).toString.toList)
  (a.config.toList ++ a.inputs).foldlM load (Disk.blank working)

/-- Writes a product; the wording of what went wrong. -/
def put (p : Product) : IO (Option String) := do
  let folder := string p.output.parent.text
  let output := string p.output.text
  try
    if !folder.isEmpty then IO.FS.createDirAll folder
  catch e => return some ("failed to create " ++ folder ++ ": " ++ toString e)
  try
    IO.FS.writeFile output (string p.text)
    return none
  catch e => return some ("failed to write " ++ output ++ ": " ++ toString e)

/-- Carries an outcome out; the wording of what went wrong. -/
def finish (check : Bool) (outcome : Outcome) : IO (Option String) := do
  let failure ← match outcome.result with
    | .error fault => pure (some (string fault.message))
    | .ok product => if check then pure none else put product
  return failure.map (fun message => string outcome.path.text ++ ": " ++ message)

/-- Does what is asked for; the exit code is zero if every source was lowered. -/
def perform (a : Arguments) : IO UInt32 := do
  match a.outcomes (← loadAll a) with
  | .error e =>
    IO.eprintln ("Error: " ++ string e.message)
    return 1
  | .ok outcomes =>
    let failures ← outcomes.filterMapM (finish a.check)
    failures.forM IO.eprintln
    return if failures.isEmpty then 0 else 1

end Downlevel.CommandLine

/-- The command. -/
def main (words : List String) : IO UInt32 := do
  match Downlevel.Arguments.ofWords (words.map String.toList) with
  | .ok a => Downlevel.CommandLine.perform a
  | .error .helpWanted => IO.print Downlevel.Arguments.helpText; return 0
  | .error .versionWanted => IO.print Downlevel.Arguments.versionText; return 0
  | .error e =>
    IO.eprintln ("error: " ++ String.ofList e.message)
    return 2
