import DialectBridge.ColumnMap
import DialectBridge.Text.Basic

/-!
# Narrowing hoisted declarations

The compiler declares all variables of a block in one line at its top. A variable whose first
assignment stands in the same block at the same depth is declared there instead, so that its type
is the type of its first value; the others stay in the line at the top, which becomes empty when
none remain. The number of lines does not change, and mappings follow the inserted keyword.
-/

set_option autoImplicit false

namespace DialectBridge

/-- A variable of a hoisted declaration. -/
structure Declaration where
  name : Text
  /-- The width of the indentation of its line. -/
  indent : Nat
  line : Nat
  deriving DecidableEq, Repr

/-- A line with hoisted declarations. -/
structure DeclarationLine where
  line : Nat
  indentation : Text
  names : List Text
  deriving DecidableEq, Repr

/-- The variables of a line with hoisted declarations. -/
def DeclarationLine.declarations (d : DeclarationLine) : List Declaration :=
  d.names.map fun name => ⟨name, d.indentation.length, d.line⟩

/-- The first assignment of a variable, which is to declare it. -/
structure Narrowing where
  declaration : Declaration
  line : Nat
  column : Nat
  deriving DecidableEq, Repr

namespace Declarations

/-- The keyword of a declaration in place. -/
def keyword : Text := "let ".toList

/-- The pieces between commas that are followed by a space. -/
def splitNames : Text → List Text
  | [] => [[]]
  | ',' :: ' ' :: rest => [] :: splitNames rest
  | c :: rest =>
    match splitNames rest with
    | [] => [[c]]
    | name :: more => (c :: name) :: more

/-- Names with commas between them. -/
def joinNames : List Text → Text
  | [] => []
  | [name] => name
  | name :: more => name ++ ',' :: ' ' :: joinNames more

/-- The indentation and the names of a line with hoisted declarations. -/
def parse? (line : Text) : Option (Text × List Text) :=
  let indentation := Text.leadingBlank line
  match Text.dropFront? "var ".toList (line.drop indentation.length) with
  | some rest =>
    match Text.splitLast? rest with
    | some (names, ';') =>
      if names.isEmpty || names.contains '=' then none else some (indentation, splitNames names)
    | _ => none
  | none => none

/-- The lines with hoisted declarations from a line number on. -/
def findFrom (number : Nat) : List Text → List DeclarationLine
  | [] => []
  | line :: rest =>
    match parse? line with
    | some (indentation, names) => ⟨number, indentation, names⟩ :: findFrom (number + 1) rest
    | none => findFrom (number + 1) rest

/-- The lines with hoisted declarations. -/
def find (lines : List Text) : List DeclarationLine := findFrom 0 lines

/-- How an assignment to a variable begins. -/
def assignmentTo (name : Text) : Text := name ++ [' ', '=', ' ']

/-- The first assignment to a variable from a line number on. The search ends with the block of the
declaration, and an assignment in a deeper block cannot declare. -/
def searchFrom (d : Declaration) (number : Nat) : List Text → Option Narrowing
  | [] => none
  | line :: rest =>
    if Text.isEmptyLine line then searchFrom d (number + 1) rest
    else
      let indent := (Text.leadingBlank line).length
      if indent < d.indent then none
      else if Text.startsWith (assignmentTo d.name) (Text.trimLeft line) then
        if d.indent < indent then none else some ⟨d, number, indent⟩
      else searchFrom d (number + 1) rest

/-- The assignment that can declare a variable. -/
def firstAssignment? (lines : List Text) (d : Declaration) : Option Narrowing :=
  searchFrom d d.line (lines.drop d.line)

/-- All narrowings, in the order of the declarations. -/
def narrowings (lines : List Text) : List Narrowing :=
  ((find lines).flatMap (·.declarations)).filterMap (firstAssignment? lines)

/-! ## Carrying narrowings out -/

/-- The lines with the keyword inserted at a narrowing. -/
def insertKeyword (lines : List Text) (n : Narrowing) : List Text :=
  let line := lines.getD n.line []
  lines.set n.line (line.take n.column ++ keyword ++ line.drop n.column)

/-- The mappings after the keyword was inserted at a narrowing. -/
def insertKeywordMappings (mappings : List Mapping) (n : Narrowing) : List Mapping :=
  let (here, elsewhere) := mappings.partition fun m => m.outputLine == (n.line : Int)
  elsewhere ++ ColumnMap.insertColumns here n.column keyword.length

/-- The names of a declaration line that were not narrowed. -/
def remaining (narrowed : List Narrowing) (d : DeclarationLine) : List Text :=
  d.names.filter fun name =>
    !narrowed.any fun n => n.declaration.line == d.line && n.declaration.name == name

/-- A declaration line with its remaining names. -/
def remainingLine (narrowed : List Narrowing) (d : DeclarationLine) : Text :=
  match remaining narrowed d with
  | [] => []
  | names => d.indentation ++ "var ".toList ++ joinNames names ++ [';']

/-- The lines after narrowing. -/
def narrowLines (lines : List Text) : List Text :=
  let narrowed := narrowings lines
  if narrowed.isEmpty then lines
  else
    (find lines).foldl (fun lines d => lines.set d.line (remainingLine narrowed d))
      (narrowed.foldl insertKeyword lines)

/-- The map after narrowing. -/
def narrowMap (lines : List Text) (map : ColumnMap) : ColumnMap :=
  let narrowed := narrowings lines
  if narrowed.isEmpty then map
  else .ofMappings (narrowed.foldl insertKeywordMappings map.mappings)

end Declarations

end DialectBridge
