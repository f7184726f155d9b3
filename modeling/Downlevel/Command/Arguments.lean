import Downlevel.Disk.FilePath
import Downlevel.Json.Basic
import Downlevel.Layout.Options
/-!
# Command.Arguments — what a run is asked to do

The words of a command line name inputs, settings with a value and switches.  A setting takes the word behind it unless
its value stands behind `=`, and all words behind `--` are inputs.  A setting or a group of inputs is checked when
something else follows it; an unknown word is reported before what it follows is checked.
-/
namespace Downlevel

/-- What a run is asked to do. -/
structure Arguments where
  /-- Files, and folders to search. -/
  inputs : List FilePath
  /-- The folder for the outputs, which otherwise stand beside their sources. -/
  outDir : Option FilePath
  /-- The file with options. -/
  config : Option FilePath
  indentSize : Option Nat
  newLine : Option LineEnding
  useTabs : Bool
  noEmitHelpers : Bool
  /-- Nothing is written. -/
  check : Bool
  deriving DecidableEq, Repr

/-- Why a command line names no run. -/
inductive UsageError where
  | noInputs
  | unknown
  /-- A value is missing, is empty, or is none of the values to choose from. -/
  | badChoice
  /-- A value is no count. -/
  | badCount
  | repeated
  /-- A switch has a value. -/
  | needlessValue
  | helpWanted
  | versionWanted
  deriving DecidableEq, Repr

def UsageError.message : UsageError → List Char
  | noInputs => "no inputs are given".toList
  | unknown => "a word is not known".toList
  | badChoice => "a value is missing or is none to choose from".toList
  | badCount => "a value is not a count".toList
  | repeated => "a setting is repeated".toList
  | needlessValue => "a switch takes no value".toList
  | helpWanted => []
  | versionWanted => []

namespace Arguments

/-- Nothing asked for yet. -/
def none : Arguments := ⟨[], .none, .none, .none, .none, false, false, false⟩

/-- The settings, which have a value. -/
inductive Setting where
  | outDir
  | config
  | indentSize
  | newLine
  deriving DecidableEq, Repr

/-- The switches, which have none. -/
inductive Switch where
  | useTabs
  | noEmitHelpers
  | check
  | help
  | version
  deriving DecidableEq, Repr

/-- A word of a command line. -/
inductive Word where
  | plain (text : List Char)
  | setting (s : Setting) (value : Option (List Char))
  | switch (s : Switch) (value : Option (List Char))
  /-- All words behind it are inputs. -/
  | stop
  | unknown
  deriving DecidableEq, Repr

/-! ## Words -/

/-- The word that a long name makes. -/
def named (name : String) (value : Option (List Char)) : Word :=
  match name with
  | "out-dir" | "outDir" => .setting .outDir value
  | "config" => .setting .config value
  | "indent-size" | "indentSize" => .setting .indentSize value
  | "new-line" | "newLine" => .setting .newLine value
  | "use-tabs" | "useTabs" => .switch .useTabs value
  | "no-emit-helpers" | "noEmitHelpers" => .switch .noEmitHelpers value
  | "check" => .switch .check value
  | "help" => .switch .help value
  | "version" => .switch .version value
  | _ => .unknown

def Word.ofText : List Char → Word
  | ['-', '-'] => .stop
  | '-' :: '-' :: cs =>
    let (name, rest) := cs.span (· != '=')
    named (String.ofList name) (if rest.isEmpty then .none else some rest.tail)
  | '-' :: 'h' :: _ => .switch .help .none
  | '-' :: 'V' :: _ => .switch .version .none
  | '-' :: _ :: _ => .unknown
  | cs => .plain cs

/-! ## Values -/

/-- The count that a text spells, a plus sign allowed. -/
def count? (text : List Char) : Option Nat :=
  let digits := if text.head? = some '+' then text.tail else text
  if digits.isEmpty || !digits.all CharClass.isDigit then .none
  else
    let value := NumericLiteral.digitsValue digits
    if value < countLimit then some value else .none

/-- The end of line that a text names, in letters of either case. -/
def lineEnding? (text : List Char) : Option LineEnding :=
  let name := text.map Char.toLower
  if name = "crlf".toList then some .crlf else if name = "lf".toList then some .lf else .none

/-- The path that a text spells; the empty text spells none. -/
def path (text : List Char) : Except UsageError FilePath :=
  if text.isEmpty then .error .badChoice else .ok ⟨text⟩

/-- What has no value yet, given one. -/
def once {α : Type} (old : Option α) (new : Except UsageError α) : Except UsageError (Option α) :=
  if old.isSome then .error .repeated else new.map some

def set (a : Arguments) (s : Setting) (value : List Char) : Except UsageError Arguments :=
  match s with
  | .outDir => return { a with outDir := ← once a.outDir (path value) }
  | .config => return { a with config := ← once a.config (path value) }
  | .indentSize =>
    return { a with indentSize := ← once a.indentSize ((count? value).elim (.error .badCount) .ok) }
  | .newLine => return { a with newLine := ← once a.newLine ((lineEnding? value).elim (.error .badChoice) .ok) }

def turnOn (a : Arguments) (s : Switch) : Except UsageError Arguments :=
  match s with
  | .useTabs => if a.useTabs then .error .repeated else .ok { a with useTabs := true }
  | .noEmitHelpers => if a.noEmitHelpers then .error .repeated else .ok { a with noEmitHelpers := true }
  | .check => if a.check then .error .repeated else .ok { a with check := true }
  | .help => .error .helpWanted
  | .version => .error .versionWanted

def addInputs (a : Arguments) (texts : List (List Char)) : Except UsageError Arguments :=
  return { a with inputs := a.inputs ++ (← texts.mapM path) }

/-! ## Reading -/

/-- What was read last and is not checked yet. -/
inductive Held where
  | nothing
  | setting (s : Setting) (value : Option (List Char))
  | inputs (texts : List (List Char))
  deriving DecidableEq, Repr

/-- Checks what was read last. -/
def settle (a : Arguments) : Held → Except UsageError Arguments
  | .nothing => .ok a
  | .setting _ .none => .error .badChoice
  | .setting s (some value) => a.set s value
  | .inputs texts => a.addInputs texts

/-- Reads the words of a command line. -/
def readWords (a : Arguments) (held : Held) : List (List Char) → Except UsageError Arguments
  | [] => a.settle held
  | text :: texts =>
    match Word.ofText text with
    | .stop => do (← a.settle held).addInputs texts
    | .unknown => .error .unknown
    | .switch _ (some _) => .error .needlessValue
    | .switch s .none => do readWords (← (← a.settle held).turnOn s) .nothing texts
    | .setting s .none => do readWords (← a.settle held) (.setting s .none) texts
    | .setting s (some value) => do readWords (← (← a.settle held).set s value) .nothing texts
    | .plain text =>
      match held with
      | .setting s .none => readWords a (.setting s (some text)) texts
      | .inputs before => readWords a (.inputs (before ++ [text])) texts
      | held => do readWords (← a.settle held) (.inputs [text]) texts

/-- **What a command line asks for.** -/
def ofWords (texts : List (List Char)) : Except UsageError Arguments := do
  let a ← none.readWords .nothing texts
  if a.inputs.isEmpty then .error .noInputs else .ok a

/-! ## Help -/

/-- What can be asked for. -/
def helpText : String :=
  "Lower TypeScript-dialect sources to plain JavaScript\n\n"
    ++ "Usage: downlevel [OPTIONS] <INPUTS>...\n\n"
    ++ "  <INPUTS>...             source files, or folders searched for .ts files\n"
    ++ "  --out-dir <FOLDER>      folder for the outputs; beside the sources if left out\n"
    ++ "  --config <FILE>         JSON file with options\n"
    ++ "  --indent-size <COUNT>   columns of an indentation level\n"
    ++ "  --use-tabs              indent with tabs\n"
    ++ "  --new-line <crlf|lf>    end of written lines\n"
    ++ "  --no-emit-helpers       leave out the helper for derived classes\n"
    ++ "  --check                 lower every file but write nothing\n"
    ++ "  -h, --help              show this text\n"
    ++ "  -V, --version           show the version\n"

def versionText : String := "downlevel 0.1.0\n"

end Arguments

end Downlevel
