import Downlevel.Text.Basic
/-!
# Disk.FilePath — paths by their text and by their steps

A path is a text whose pieces stand between slashes.  `steps` reads it: blank pieces and inner `.` pieces say nothing,
so two texts may spell one path (`same`).  Paths are ordered by their steps (`atMost`).  Joining and changing the extension
keep the spelling of what they keep.
-/
namespace Downlevel

/-- A path as it is spelled. -/
structure FilePath where
  text : List Char
  deriving DecidableEq, Repr

/-- A step on the way that a path describes. -/
inductive PathStep where
  /-- To the top of the disk. -/
  | root
  /-- Nowhere; only the first step says so. -/
  | here
  /-- To the folder above. -/
  | up
  /-- To the entry of that name. -/
  | name (n : List Char)
  deriving DecidableEq, Repr

namespace PathStep

/-- What steps are ordered by: their kind, then the name. -/
def key : PathStep → List Nat
  | root => [0]
  | here => [1]
  | up => [2]
  | name n => 3 :: n.map Char.toNat

/-- The step that a piece behind the first one describes. -/
def ofPiece? (piece : List Char) : Option PathStep :=
  if piece = [] ∨ piece = ['.'] then none else if piece = ['.', '.'] then some up else some (name piece)

end PathStep

namespace FilePath

/-! ## Reading a path -/

/-- The pieces of a text between its slashes. -/
def piecesOf : List Char → List (List Char)
  | [] => [[]]
  | c :: cs =>
    match piecesOf cs with
    | [] => [[c]]
    | piece :: rest => if c = '/' then [] :: piece :: rest else (c :: piece) :: rest

def pieces (p : FilePath) : List (List Char) := piecesOf p.text

def ofPieces (pieces : List (List Char)) : FilePath := ⟨Text.join ['/'] pieces⟩

/-- The path starts at the top of the disk. -/
def isAbsolute (p : FilePath) : Bool := p.text.head? == some '/'

def steps (p : FilePath) : List PathStep :=
  match p.pieces with
  | [] => []
  | first :: rest =>
    let behind := rest.filterMap PathStep.ofPiece?
    if p.isAbsolute then .root :: behind
    else if first = ['.'] then .here :: behind
    else (PathStep.ofPiece? first).toList ++ behind

/-- Both texts spell the same path. -/
def same (p q : FilePath) : Bool := p.steps == q.steps

/-- The first path comes no later than the second. -/
def atMost (p q : FilePath) : Bool := (compare (p.steps.map PathStep.key) (q.steps.map PathStep.key)).isLE

/-! ## The last name -/

/-- A piece that says nothing. -/
def isIdle (piece : List Char) : Bool := piece == [] || piece == ['.']

/-- The pieces without the idle ones at the end. -/
def trimmed (pieces : List (List Char)) : List (List Char) := (pieces.reverse.dropWhile isIdle).reverse

/-- The pieces before the last name, and that name; none if the path does not end with a name. -/
def splitName? (p : FilePath) : Option (List (List Char) × List Char) :=
  match (trimmed p.pieces).reverse with
  | [] => none
  | last :: before => if last = ['.', '.'] then none else some (before.reverse, last)

def fileName? (p : FilePath) : Option (List Char) := p.splitName?.map (·.2)

/-- The folder that holds the entry of the last name. -/
def parent (p : FilePath) : FilePath :=
  match p.splitName? with
  | none => p
  | some ([], _) => ⟨[]⟩
  | some (first :: rest, _) =>
    let kept := first :: trimmed rest
    if kept = [[]] then ⟨['/']⟩ else ofPieces kept

/-! ## New paths -/

/-- The path `p` seen from `base`; an absolute path stays as it is. -/
def join (base p : FilePath) : FilePath :=
  if p.isAbsolute then p
  else if base.text = [] ∨ base.text.getLast? = some '/' then ⟨base.text ++ p.text⟩
  else ⟨base.text ++ '/' :: p.text⟩

/-- A name without its extension; a point at its front does not start one. -/
def stem (name : List Char) : List Char :=
  let before := (name.reverse.dropWhile (· != '.')).tail.reverse
  if before = [] then name else before

/-- The path with another extension behind its last name, nothing kept behind it. -/
def withExtension (extension : List Char) (p : FilePath) : FilePath :=
  match p.splitName? with
  | none => p
  | some (before, name) => ofPieces (before ++ [stem name ++ '.' :: extension])

end FilePath

end Downlevel
