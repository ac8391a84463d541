import DialectBridge.Fault
import DialectBridge.Json.Reader

/-!
# Settings

Settings come as a JSON object with members in camel case, or as an object with such an object in
the section `coffeemap`. Unknown members are ignored; a known member with a value of the wrong kind
is a fault, the first one in the order of the members. The message of the fault shows the value, so
a value that cannot be shown leads to the fault of writing it.
-/

set_option autoImplicit false

namespace DialectBridge

/-- How much is logged. -/
inductive LogLevel where
  | info
  | debug
  deriving DecidableEq, Repr

/-- The name of a log level. -/
def LogLevel.name : LogLevel → String
  | .info => "INFO"
  | .debug => "DEBUG"

/-- The settings of the service. -/
structure Settings where
  /-- For how many seconds a result stays cached. -/
  cacheTtl : Binary64 := .ofDecimal false 180 3 0
  /-- How many seconds validation waits after a change. -/
  validationDelay : Binary64 := .ofDecimal false 2 1 (-1)
  /-- Codes of the language service that are never reported. -/
  ignoredErrorCodes : List Int := []
  fileExtensions : List String := ["coffee"]
  logLevel : LogLevel := .info
  /-- A compiler script in the place of the packaged one. -/
  compilerScript : Option String := none
  deriving DecidableEq, Repr

namespace Settings

/-- The section of editor settings that is read. -/
def sectionName : String := "coffeemap"

/-- The fault of a message that cannot show a value. -/
def showingFault : Json.Obstacle → Fault
  | .integerTooLong => .integerUnwritable
  | .tooDeep => .shownTooDeep

/-- The fault of a member whose value is of the wrong kind. -/
def refusal (key : String) (kind : SettingKind) (value : Json) : Fault :=
  match value.obstacle? Json.showingLimit with
  | none => .badSetting key kind value.display
  | some obstacle => showingFault obstacle

/-- A number of seconds; what is no number passes, since it is not negative. -/
def seconds (key : String) (value : Json) : Except Fault Binary64 :=
  match value with
  | .int n =>
    if n < 0 then .error (refusal key .seconds value)
    else
      match Binary64.ofInt? n with
      | some number => .ok number
      | none => .error .numberTooLarge
  | .float number =>
    if number.isNegative then .error (refusal key .seconds value) else .ok number
  | _ => .error (refusal key .seconds value)

/-- A list whose items are all of one kind. -/
def listOf {α : Type} (item? : Json → Option α) : Json → Option (List α)
  | .arr items => items.mapM item?
  | _ => none

/-- An integer. -/
def integer? : Json → Option Int
  | .int n => some n
  | _ => none

/-- A string. -/
def string? : Json → Option String
  | .str s => some s
  | _ => none

/-- A list of diagnostic codes. -/
def codes (key : String) (value : Json) : Except Fault (List Int) :=
  match listOf integer? value with
  | some codes => .ok codes
  | none => .error (refusal key .codes value)

/-- A file extension without the dots in front of it. -/
def withoutDots (extension : String) : String :=
  String.ofList (extension.toList.dropWhile (· == '.'))

/-- A list of file extensions. -/
def extensions (key : String) (value : Json) : Except Fault (List String) :=
  match listOf string? value with
  | some extensions => .ok (extensions.map withoutDots)
  | none => .error (refusal key .extensions value)

/-- The capital form of a letter as far as names of log levels are concerned: of the letters beyond
ASCII only the dotless i has one of theirs as its capital. -/
def capital (c : Char) : Char := if c == 'ı' then 'I' else c.toUpper

/-- The log level with a name, whatever the case of its letters. -/
def logLevelOf? (name : String) : Option LogLevel :=
  let capitals := String.ofList (name.toList.map capital)
  [LogLevel.info, .debug].find? fun level => level.name == capitals

/-- A log level. -/
def logLevelFrom (key : String) (value : Json) : Except Fault LogLevel :=
  match (string? value).bind logLevelOf? with
  | some level => .ok level
  | none => .error (refusal key .logLevel value)

/-- A path, where an empty one counts as none. -/
def optionalPath (key : String) (value : Json) : Except Fault (Option String) :=
  match value with
  | .null => .ok none
  | .str path => .ok (if path.isEmpty then none else some path)
  | _ => .error (refusal key .path value)

/-- The settings with one member taken into account. -/
def set (s : Settings) (key : String) (value : Json) : Except Fault Settings :=
  match key with
  | "cacheTtl" => do return { s with cacheTtl := ← seconds key value }
  | "validationDelay" => do return { s with validationDelay := ← seconds key value }
  | "ignoredErrorCodes" => do return { s with ignoredErrorCodes := ← codes key value }
  | "fileExtensions" => do return { s with fileExtensions := ← extensions key value }
  | "logLevel" => do return { s with logLevel := ← logLevelFrom key value }
  | "compilerScript" => do return { s with compilerScript := ← optionalPath key value }
  | _ => .ok s

/-- The members of the section, or of the object itself if it has no such section. -/
def sectionOf (value : Json) : Except Fault (List (String × Json)) :=
  match value with
  | .obj members =>
    match Json.get? members sectionName with
    | none => .ok members
    | some (.obj inner) => .ok inner
    | some _ => .error .sectionNotObject
  | _ => .error (.settingsNotObject value.kindName)

/-- The settings given by a JSON value. -/
def ofJson (value : Json) : Except Fault Settings := do
  (← sectionOf value).foldlM (fun s member => s.set member.1 member.2) {}

/-- The fault of a settings file that cannot be read. -/
def fileFault (path : String) : Json.Flaw → Fault
  | .malformed => .malformedSettingsFile path
  | .integerTooLong digits => .integerTooLong digits
  | .tooDeep nesting => .nestedTooDeep nesting

/-- The settings in a file with the given text. -/
def ofFile (path : String) (t : Text) : Except Fault Settings :=
  match Json.read t with
  | .ok value => ofJson value
  | .error flaw => .error (fileFault path flaw)

end Settings

end DialectBridge
