import Downlevel.Disk.FilePath
/-!
# Disk — folders and files

A disk says what stands at which place.  `walk` follows a path piece by piece and demands that every entry but the last
is a folder; `makeFolders` makes the folders of a path that are missing, and `write` puts a text in place.
-/
namespace Downlevel

/-- The names from the top of the disk down to an entry. -/
abbrev Place := List (List Char)

/-- What a file holds. -/
inductive FileContent where
  | text (t : List Char)
  /-- Bytes that are no text. -/
  | bytes
  deriving DecidableEq, Repr

/-- The folders and the files of a disk, and the folder that relative paths start at. -/
structure Disk where
  working : Place
  folders : List Place
  files : List (Place × FileContent)

/-- Why the disk refuses a request. -/
inductive DiskFault where
  | missing
  | taken
  | noFolder
  | folder
  deriving DecidableEq, Repr

/-- The wording of a refusal. -/
def DiskFault.message : DiskFault → List Char
  | missing => "No such file or directory (os error 2)".toList
  | taken => "File exists (os error 17)".toList
  | noFolder => "Not a directory (os error 20)".toList
  | folder => "Is a directory (os error 21)".toList

namespace Disk

/-! ## What is there -/

def hasFolder (d : Disk) (place : Place) : Bool := place.isEmpty || d.folders.contains place

def content? (d : Disk) (place : Place) : Option FileContent := d.files.lookup place

/-- There is a folder or a file at a place. -/
def hasEntry (d : Disk) (place : Place) : Bool := d.hasFolder place || (d.content? place).isSome

/-- The folders on the way down to a place, the place itself left out. -/
def above (place : Place) : List Place := (List.range place.length).map place.take

/-- The disk with a file, and with the folders above it. -/
def withFile (d : Disk) (place : Place) (content : FileContent) : Disk :=
  { d with
    folders := d.folders ++ (above place).filter (fun folder => !d.hasFolder folder)
    files := d.files.filter (·.1 != place) ++ [(place, content)] }

/-- The disk with a folder, and with the folders above it. -/
def withFolder (d : Disk) (place : Place) : Disk :=
  { d with folders := d.folders ++ (above place ++ [place]).filter (fun folder => !d.hasFolder folder) }

/-- Where a path starts. -/
def start (d : Disk) (p : FilePath) : Place := if p.isAbsolute then [] else d.working

/-- The place that a path names, whatever stands on the way. -/
def placeFrom (place : Place) : List (List Char) → Place
  | [] => place
  | piece :: rest =>
    if FilePath.isIdle piece then placeFrom place rest
    else if piece = ['.', '.'] then placeFrom place.dropLast rest
    else placeFrom (place ++ [piece]) rest

/-- The disk with a folder wherever a path passes through; the path itself is left out. -/
def withWay (d : Disk) (place : Place) : List (List Char) → Disk
  | [] => d
  | piece :: rest => withWay (d.withFolder place) (placeFrom place [piece]) rest

/-- A disk that holds the working folder only. -/
def blank (working : Place) : Disk := withFolder ⟨working, [], []⟩ working

/-- The files below a folder, by the names from the folder down. -/
def filesBelow (d : Disk) (folder : Place) : List Place :=
  d.files.filterMap (fun (place, _) =>
    if folder.isPrefixOf place && folder.length < place.length then some (place.drop folder.length) else none)

/-! ## Following a path -/

/-- The place reached from a place by pieces of a path. -/
def walk (d : Disk) (place : Place) : List (List Char) → Except DiskFault Place
  | [] => .ok place
  | piece :: rest =>
    if !d.hasFolder place then .error .noFolder
    else if FilePath.isIdle piece then walk d place rest
    else if piece = ['.', '.'] then walk d place.dropLast rest
    else if d.hasEntry (place ++ [piece]) then walk d (place ++ [piece]) rest
    else .error .missing

def find (d : Disk) (p : FilePath) : Except DiskFault Place :=
  if p.text.isEmpty then .error .missing else d.walk (d.start p) p.pieces

/-- The text of the file that a path leads to. -/
def read? (d : Disk) (p : FilePath) : Option (List Char) :=
  match d.find p with
  | .error _ => none
  | .ok place =>
    match d.content? place with
    | some (.text t) => some t
    | _ => none

/-! ## Changes -/

/-- Makes the folder `piece` in the folder that `before` leads to; one that is there stays. -/
def makeFolder (d : Disk) (start : Place) (before : List (List Char)) (piece : List Char) : Except DiskFault Disk := do
  let place ← d.walk start before
  if !d.hasFolder place then .error .noFolder
  else if piece = ['.', '.'] then .ok d
  else if d.hasFolder (place ++ [piece]) then .ok d
  else if d.hasEntry (place ++ [piece]) then .error .taken
  else .ok (d.withFolder (place ++ [piece]))

/-- Makes the folders of a path that are missing; the pieces of the path are given from the last one on. -/
def makeFoldersAt (d : Disk) (start : Place) : List (List Char) → Except DiskFault Disk
  | [] => .ok d
  | piece :: before =>
    if FilePath.isIdle piece then makeFoldersAt d start before
    else
      match d.makeFolder start before.reverse piece with
      | .error .missing => do
        let d ← makeFoldersAt d start before
        d.makeFolder start before.reverse piece
      | outcome => outcome

def makeFolders (d : Disk) (p : FilePath) : Except DiskFault Disk := d.makeFoldersAt (d.start p) p.pieces.reverse

/-- Puts a text where a path leads, in a folder that is there. -/
def write (d : Disk) (p : FilePath) (text : List Char) : Except DiskFault Disk := do
  match p.pieces.reverse with
  | [] => .error .missing
  | name :: before =>
    let folder ← d.walk (d.start p) before.reverse
    let place := folder ++ [name]
    if !d.hasFolder folder then .error .noFolder
    else if d.hasFolder place then .error .folder
    else .ok (d.withFile place (.text text))

/-- The disk with an entry that a path leads to, and with the folders on the way. -/
def withEntry (d : Disk) (p : FilePath) (content : Option FileContent) : Disk :=
  let way := d.withWay (d.start p) p.pieces
  let place := placeFrom (d.start p) p.pieces
  match content with
  | some content => way.withFile place content
  | none => way.withFolder place

/-- The files below the working folder that `old` does not hold in this form. -/
def changesFrom (old new : Disk) : List (Place × FileContent) :=
  (new.filesBelow new.working).filterMap (fun names =>
    match new.content? (new.working ++ names) with
    | some content => if old.content? (new.working ++ names) = some content then none else some (names, content)
    | none => none)

end Disk

end Downlevel
