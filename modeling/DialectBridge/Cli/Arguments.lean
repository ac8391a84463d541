import DialectBridge.Number.Integer
import DialectBridge.Position

/-!
# Command line arguments

The arguments name a file and options in any order. Options with a value take the next argument,
whatever it looks like; a flag counts wherever it stands. The first argument that is no option is
the file.
-/

set_option autoImplicit false

namespace DialectBridge

namespace Cli

/-- What the command line asks for. -/
structure Options where
  file : Option String := none
  position : Option String := none
  settingsPath : Option String := none
  compilerScript : Option String := none
  showMap : Bool := false
  showDiagnostics : Bool := false
  verbose : Bool := false
  deriving DecidableEq, Repr

/-- Options that take a value. -/
def valueOptions : List String := ["--position", "--compiler-script", "--settings"]

/-- The options with the value of one set. -/
def Options.setValue (o : Options) (name value : String) : Options :=
  if name == "--position" then { o with position := some value }
  else if name == "--settings" then { o with settingsPath := some value }
  else { o with compilerScript := some value }

/-- The options with an argument that takes no value: the first one without two dashes is the
file. -/
def Options.setPlain (o : Options) (argument : String) : Options :=
  if argument.startsWith "--" || o.file.isSome then o else { o with file := some argument }

/-- Reads the arguments from left to right. Returned is the option whose value is missing, if there
is one. -/
def parseFrom (o : Options) : List String → Except String Options
  | [] => .ok o
  | [argument] =>
    if valueOptions.contains argument then .error argument else .ok (o.setPlain argument)
  | argument :: next :: rest =>
    if valueOptions.contains argument then parseFrom (o.setValue argument next) rest
    else parseFrom (o.setPlain argument) (next :: rest)

/-- The options of a command line. -/
def parse (arguments : List String) : Except String Options :=
  parseFrom
    { showMap := arguments.contains "--map"
      showDiagnostics := arguments.contains "--diagnostics"
      verbose := arguments.contains "--verbose" } arguments

/-- A position given as two integers with a colon between them. -/
def parsePosition (value : String) : Except Fault Position :=
  let malformed : Except Fault Position := .error (.malformedPosition value)
  match Text.splitOn ':' value.toList with
  | [line, character] =>
    match Integer.read? line, Integer.read? character with
    | some line, some character =>
      match Position.make line character with
      | .ok p => .ok p
      | .error _ => malformed
    | _, _ => malformed
  | _ => malformed

/-- The help text. -/
def usage : String :=
  "Usage: coffeemap <file.coffee> [options]\n" ++
  "\n" ++
  "Options:\n" ++
  "  --map                    Print all source map entries\n" ++
  "  --diagnostics            Print syntax errors, exit 1 if there are any\n" ++
  "  --position LINE:COL      Print the generated position of a source position (0-based)\n" ++
  "  --compiler-script PATH   Use a CoffeeScript browser bundle instead of the packaged one\n" ++
  "  --settings PATH          Read settings from a JSON file\n" ++
  "  --verbose                Show debug output\n" ++
  "  --version                Show the version\n"

/-- The version in the form in which it is shown. -/
def version : String := "coffeemap 0.1.0\n"

end Cli

end DialectBridge
