import DialectBridge.Compiler
import DialectBridge.Marker
import DialectBridge.Text.Identifier

/-!
# The line-by-line compiler

The simplest compiler of the dialect: every line becomes itself with a terminator, and every token
maps to its own column. Empty lines are dropped and comment lines become comments without mappings.
It rejects a member access without a member, a bare word below an object key, and brackets that are
not balanced over the whole text.
-/

set_option autoImplicit false

namespace DialectBridge

namespace LineByLine

/-- A line that is a comment. -/
def isComment (line : Text) : Bool := (Text.trimLeft line).head? == some '#'

/-- A line that ends where a member has to follow. -/
def isDangling (code : Text) : Bool :=
  Text.endsWith ['.'] code || Text.endsWith ['.', ';'] code || Text.endsWith ['['] code

/-- A line that is a single name. -/
def isBareName (line : Text) : Bool :=
  match Text.trimLeft line with
  | c :: rest => isIdentifierStart c && rest.all isIdentifier
  | [] => false

/-- A line that begins with a key. -/
def isKeyLine (line : Text) : Bool :=
  let code := Text.trimLeft line
  !(code.takeWhile isIdentifier).isEmpty &&
    (Text.trimLeft (code.dropWhile isIdentifier)).head? == some ':'

/-- What is wrong with a line, given the line above it. -/
def lineError? (above : Option Text) (number : Nat) (line : Text) : Option Rejection :=
  if Text.occursIn Marker.placeholder.text line || isComment line then none
  else
    let code := Text.trimRight line
    let column : Int := code.length - 1
    if isDangling code then some (.atPlace "unexpected end of input" number column)
    else if isBareName line && above.any isKeyLine then
      some (.atPlace "unexpected newline" number column)
    else none

/-- The first error of the lines from a number on. -/
def firstError? (above : Option Text) (number : Nat) : List Text → Option Rejection
  | [] => none
  | line :: rest =>
    match lineError? above number line with
    | some reason => some reason
    | none => firstError? (some line) (number + 1) rest

/-- The number of the last line with text, and that line; the first line if none has text. -/
def lastFilled (lines : List Text) : Nat × Text :=
  match (lines.zipIdx.filter fun entry => !Text.isEmptyLine entry.1).getLast? with
  | some (line, number) => (number, line)
  | none => (0, lines.headD [])

/-- What is wrong with the brackets of a text. -/
def bracketError? (t : Text) : Option Rejection :=
  if t.count '\x7b' == t.count '\x7d' && t.count '(' == t.count ')' then none
  else
    let (number, line) := lastFilled (Text.lines t)
    some (.atPlace "missing closing bracket" number ((line.length - 1 : Nat) : Int))

/-- The columns at which tokens begin: runs of identifier characters, and every other character
that is not white space. -/
def tokenColumns (inWord : Bool) (column : Nat) : Text → List Nat
  | [] => []
  | c :: rest =>
    if isIdentifier c then
      if inWord then tokenColumns true (column + 1) rest
      else column :: tokenColumns true (column + 1) rest
    else if isBlank c then tokenColumns false (column + 1) rest
    else column :: tokenColumns false (column + 1) rest

/-- A comment line in generated text. -/
def commentOutput (line : Text) : Text :=
  line.takeWhile (· != '#') ++ ['/', '/'] ++ (line.dropWhile (· != '#')).drop 1

/-- What a line becomes. -/
def lineOutput (line : Text) : Text :=
  if isComment line then commentOutput line else Text.trimRight line ++ [';']

/-- The mappings of a line. -/
def lineMappings (number output : Nat) (line : Text) : List Mapping :=
  if isComment line then []
  else (tokenColumns false 0 line).map fun (column : Nat) => ⟨number, column, output, column⟩

/-- The lines with text, with their numbers. -/
def filledLines (t : Text) : List (Text × Nat) :=
  (Text.lines t).zipIdx.filter fun entry => !Text.isEmptyLine entry.1

/-- The generated text. -/
def output (t : Text) : Text := Text.joinLines ((filledLines t).map fun entry => lineOutput entry.1)

/-- The mappings of the generated text. -/
def mappings (t : Text) : List Mapping :=
  (filledLines t).zipIdx.flatMap fun entry => lineMappings entry.1.2 entry.2 entry.1.1

/-- The verdict on a text: line errors first, then brackets. -/
def compile : Compiler := fun t =>
  match firstError? none 0 (Text.lines t) with
  | some reason => .rejected reason
  | none =>
    match bracketError? t with
    | some reason => .rejected reason
    | none => .compiled (output t) (.ofMappings (mappings t))

end LineByLine

end DialectBridge
