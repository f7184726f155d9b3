import Downlevel.Command.Arguments
import Downlevel.Disk.Basic
import Downlevel.Json.Reader
import Downlevel.Layout.Options
import Downlevel.Text.Quoted
/-!
# Command.Settings — the options of a run

The options come from the configuration file, or else are the standard ones with the helper; settings of the command
line go before both.  A run refuses options that it cannot lay code out with.

A configuration is a JSON record with at most four known fields; any other field is skipped.  A known field stands once
and has a value of its type, and a field that is left out has its standard value.
-/
namespace Downlevel

/-! ## Options written as JSON -/

/-- The value of a field: the standard one if the field is missing, none if it is repeated or of another type. -/
def configField {α : Type} (fields : List (List Char × Json)) (name : String) (read : Json → Option α) (standard : α) :
    Option α :=
  match fields.filter (fun field => field.1 == name.toList) with
  | [] => some standard
  | [(_, value)] => read value
  | _ => none

/-- **The options that a configuration sets.** -/
def LoweringOptions.ofConfig? (text : List Char) : Option LoweringOptions := do
  let .record fields ← Json.parse? text | none
  let standard := LoweringOptions.standard
  let indentSize ← configField fields "indentSize" Json.natural? standard.layout.indentSize
  let useTabs ← configField fields "useTabs" Json.boolean? standard.layout.useTabs
  let newLine ← configField fields "newLineCharacter" Json.text? standard.layout.newLine
  let emitHelpers ← configField fields "emitHelpers" Json.boolean? standard.emitHelpers
  return ⟨⟨indentSize, useTabs, newLine⟩, emitHelpers⟩

/-! ## The options of a run -/

/-- Why nothing is lowered at all. -/
inductive RunError where
  | noConfig (path : FilePath)
  | badConfig (path : FilePath)
  | badNewLine (text : List Char)
  | badIndentSize
  | noInput (path : FilePath)
  deriving DecidableEq, Repr

def RunError.message : RunError → List Char
  | noConfig path => "failed to read config ".toList ++ path.text
  | badConfig path => "failed to parse config ".toList ++ path.text
  | badNewLine text =>
    "unsupported newLineCharacter ".toList ++ Quoted.text text ++ "; expected \"\\n\" or \"\\r\\n\"".toList
  | badIndentSize => "indentSize must be at least 1".toList
  | noInput path => "cannot read input ".toList ++ path.text

def Disk.baseOptions (d : Disk) (config : Option FilePath) : Except RunError LoweringOptions :=
  match config with
  | none => .ok { LoweringOptions.standard with emitHelpers := true }
  | some path =>
    match d.read? path with
    | none => .error (.noConfig path)
    | some text =>
      match LoweringOptions.ofConfig? text with
      | none => .error (.badConfig path)
      | some o => .ok o

/-- The options with the settings of the command line. -/
def Arguments.override (a : Arguments) (o : LoweringOptions) : LoweringOptions where
  layout :=
    { indentSize := a.indentSize.getD o.layout.indentSize
      useTabs := a.useTabs || o.layout.useTabs
      newLine := (a.newLine.map LineEnding.text).getD o.layout.newLine }
  emitHelpers := o.emitHelpers && !a.noEmitHelpers

/-- Lines end with an end of line, and a level of indentation has a column. -/
def LoweringOptions.validate (o : LoweringOptions) : Except RunError LoweringOptions :=
  if (LineEnding.ofText? o.layout.newLine).isNone then .error (.badNewLine o.layout.newLine)
  else if o.layout.indentSize = 0 then .error .badIndentSize
  else .ok o

/-- **The options of a run.** -/
def Arguments.options (a : Arguments) (d : Disk) : Except RunError LoweringOptions := do
  (a.override (← d.baseOptions a.config)).validate

end Downlevel
