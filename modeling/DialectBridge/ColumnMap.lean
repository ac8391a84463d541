/-!
# Column maps

A column map relates places of the generated text to places of the source: for every generated line
the mappings of that line in the order of their columns. `ColumnMap.ofMappings` brings any list of
mappings into this form; where two mappings claim the same generated place the first one is kept,
and mappings to negative lines have no place at all.
-/

set_option autoImplicit false

namespace DialectBridge

/-- One entry: a place of the source and its place in the generated text, counted from zero. -/
structure Mapping where
  sourceLine : Int
  sourceColumn : Int
  outputLine : Int
  outputColumn : Int
  deriving DecidableEq, Repr

/-- A mapping in one line of text. -/
def Mapping.display (m : Mapping) : String :=
  s!"ColumnMapping(out L{m.outputLine}:{m.outputColumn} -> src L{m.sourceLine}:{m.sourceColumn})"

/-- The mappings of one generated line, in the order of their output columns. -/
structure LineMap where
  line : Nat
  columns : List Mapping
  deriving DecidableEq, Repr

namespace LineMap

/-- The mapping at an output column. -/
def at? (l : LineMap) (column : Int) : Option Mapping :=
  l.columns.find? fun m => m.outputColumn == column

/-- The mapping with the least output column. -/
def first? (l : LineMap) : Option Mapping := l.columns.head?

/-- The mapping with the greatest output column, the first one if several have it. -/
def rightmost? : List Mapping → Option Mapping
  | [] => none
  | m :: rest =>
    match rightmost? rest with
    | some later => if m.outputColumn < later.outputColumn then some later else some m
    | none => some m

/-- The mapping with the greatest output column that is not behind the given one. -/
def closestBefore? (l : LineMap) (column : Int) : Option Mapping :=
  rightmost? (l.columns.filter fun m => m.outputColumn ≤ column)

end LineMap

/-- The mappings of a generated text, line by line. -/
structure ColumnMap where
  lines : List LineMap
  deriving DecidableEq, Repr

namespace ColumnMap

/-- Puts a mapping at its place in an ordered line; a column that is taken stays as it is. -/
def insertColumn (ordered : List Mapping) (m : Mapping) : List Mapping :=
  match ordered with
  | [] => [m]
  | x :: rest =>
    if m.outputColumn < x.outputColumn then m :: x :: rest
    else if m.outputColumn = x.outputColumn then x :: rest
    else x :: insertColumn rest m

/-- The ordered mappings of one output line. -/
def columnsOf (line : Int) (mappings : List Mapping) : List Mapping :=
  (mappings.filter fun m => m.outputLine == line).foldl insertColumn []

/-- One more than the largest output line. -/
def height (mappings : List Mapping) : Nat :=
  mappings.foldl (fun h m => max h (m.outputLine + 1).toNat) 0

/-- Groups mappings by output line and orders every line by column; the first mapping of a place
is kept. -/
def ofMappings (mappings : List Mapping) : ColumnMap where
  lines := (List.range (height mappings)).map fun line => ⟨line, columnsOf line mappings⟩

/-- All mappings, line after line and column after column. -/
def mappings (map : ColumnMap) : List Mapping := map.lines.flatMap (·.columns)

/-- The mappings of an output line, if the map reaches so far. -/
def line? (map : ColumnMap) (line : Int) : Option LineMap :=
  if line < 0 then none else map.lines[line.toNat]?

/-- The mappings of a source line. -/
def forSourceLine (map : ColumnMap) (line : Int) : List Mapping :=
  map.mappings.filter fun m => m.sourceLine == line

/-- The map after a source line was put as a whole in the place of an output line: only the
relation of the two lines is kept, at the beginning of both. -/
def collapse (map : ColumnMap) (sourceLine outputLine : Int) : ColumnMap :=
  ofMappings ((map.mappings.filter fun m => m.sourceLine != sourceLine) ++
    [⟨sourceLine, 0, outputLine, 0⟩])

/-- The mappings of one generated line after `length` characters were inserted at `column`:
everything from there on moves right, and the new characters map to where the first of the moved
ones did. With a negative length everything moves left, and there are no new characters. -/
def insertColumns (mappings : List Mapping) (column length : Int) : List Mapping :=
  let moved := mappings.map fun m =>
    if column ≤ m.outputColumn then { m with outputColumn := m.outputColumn + length } else m
  match mappings.find? fun m => m.outputColumn == column with
  | none => moved
  | some first =>
    moved ++ (List.range length.toNat).map fun (i : Nat) =>
      { first with outputColumn := column + i }

end ColumnMap

end DialectBridge
