import DialectBridge.Generated
import DialectBridge.LineContent
import DialectBridge.Mapping.Cursor
import DialectBridge.Sketch
import DialectBridge.Text.Split

/-!
# From source to generated text

The entries of a source line that fit the column best give a set of targets in the generated text.
Narrowing by word, by line, by character and by the kind of character picks among them, each step
only where it leaves something, and of what remains the bottom right is taken. On a line that was
replaced by its sketch, the map only tells the line; the column is the source column, shifted by
what the sketch inserted before it. Inside a comment on one line, and on lines without entries, the
content of the line decides.
-/

set_option autoImplicit false

namespace DialectBridge

/-- A place of the generated text. -/
structure Target where
  line : Int
  column : Int
  deriving DecidableEq, Repr

namespace Target

/-- The target of an entry. -/
def ofMapping (m : Mapping) : Target := ⟨m.outputLine, m.outputColumn⟩

/-- The offset of a target, which has to be addressable. -/
def offset (generated : Document) (t : Target) : Except Fault Nat := do
  return generated.offsetAt (← Position.make t.line t.column)

/-- The character at a target. -/
def char (generated : Document) (t : Target) : Except Fault (Option Char) := do
  return generated.charAt (← t.offset generated)

/-- The word at a target. -/
def word (generated : Document) (t : Target) : Except Fault Word := do
  Text.wordAround generated.text (← t.offset generated)

/-- The reading order of targets. -/
def before (a b : Target) : Bool :=
  a.line < b.line || (a.line == b.line && a.column < b.column)

end Target

namespace ToOutput

/-! ## Entries that fit -/

/-- The first of several lists that is not empty, and the last one if all are. -/
def firstNonempty {α : Type} : List (List α) → List α
  | [] => []
  | [last] => last
  | list :: rest => if list.isEmpty then firstNonempty rest else list

/-- The elements that pass a test which may fail, in order. -/
def filterE {α : Type} (test : α → Except Fault Bool) : List α → Except Fault (List α)
  | [] => .ok []
  | a :: rest => do
    let passed ← test a
    let kept ← filterE test rest
    return if passed then a :: kept else kept

/-- Entries for the beginning of the word that the cursor stands behind, where the generated text
has the same word. -/
def sameWord (generated : Document) (c : Cursor) (line : List Mapping) :
    Except Fault (List Mapping) :=
  filterE (fun m => do
    if m.sourceColumn == (c.wordColumn : Int) then
      return (← (Target.ofMapping m).word generated).text == c.word.text
    else return false) line

/-- The greatest source column that is not behind the given one. -/
def closestColumn? (line : List Mapping) (column : Int) : Option Int :=
  ((line.map (·.sourceColumn)).filter (· ≤ column)).max?

/-- Entries that stand in for a column without entries of its own, in the order in which they are
considered: those behind a member access, those behind the end of the line, those of an opening
brace before the cursor, those of the closest column before it, and finally all. -/
def substitutes (c : Cursor) (line : List Mapping) : List (List Mapping) :=
  let column : Int := c.position.character
  let ofColumn (column : Int) := line.filter fun m => m.sourceColumn == column
  [ if c.char == some '.' then ofColumn (column + 1) else [],
    if c.char.isNone then line.filter fun m => column < m.sourceColumn else [],
    match c.previousFilled? with
    | some previous => if c.line[previous]? == some '\x7b' then ofColumn previous else []
    | none => [],
    match closestColumn? line column with
    | some closest => ofColumn closest
    | none => [],
    line ]

/-- The entries of the cursor's line that fit its column best. -/
def fitting (map : ColumnMap) (c : Cursor) (generated : Document) :
    Except Fault (List Mapping) := do
  let line := map.forSourceLine c.position.line
  let precise := line.filter fun m => m.sourceColumn == (c.position.character : Int)
  if line.isEmpty then return []
  else if !precise.isEmpty then return precise
  else
    let same ← if c.atEndOfWord then sameWord generated c line else pure []
    return firstNonempty (same :: substitutes c line)

/-! ## Narrowing -/

/-- A narrowing step; it does not apply when nothing is left. -/
abbrev Narrower := List Target → Cursor → Document → Except Fault (List Target)

/-- The target moved onto the cursor's word, if the word stands there or one column further. A
cursor behind its word wants the end of the word. -/
def onWord? (c : Cursor) (generated : Document) (t : Target) : Except Fault (Option Target) := do
  let offset ← t.offset generated
  let found ← Text.wordAround generated.text offset
  if found.text == c.word.text then return some (settle t offset found)
  else
    let found ← Text.wordAround generated.text (offset + 1)
    if found.text == c.word.text then
      return some (settle ⟨t.line, t.column + 1⟩ (offset + 1) found)
    else return none
where
  /-- The end of the word, if the cursor wants it and the target is at the beginning. -/
  settle (t : Target) (offset : Nat) (found : Word) : Target :=
    if c.atEndOfWord && found.offset == offset then ⟨t.line, t.column + c.word.text.length⟩ else t

/-- The targets on which the generated word is the word at the cursor. -/
def byWord : Narrower := fun targets c generated =>
  if c.word.text.isEmpty then .ok []
  else do return (← targets.mapM (onWord? c generated)).filterMap id

/-- The targets on lines in which the word at the cursor occurs. -/
def byLineWithWord : Narrower := fun targets c generated =>
  if c.word.text.isEmpty then .ok []
  else .ok (targets.filter fun t => Text.occursIn c.word.text (generated.lineAt t.line))

/-- The targets with the character of the cursor. -/
def byChar : Narrower := fun targets c generated =>
  if c.char.isNone then .ok []
  else filterE (fun t => do return (← t.char generated) == c.char) targets

/-- The targets on identifiers, when the cursor is on one. -/
def byIdentifier : Narrower := fun targets c generated =>
  if !Text.isIdentifierAt c.char then .ok []
  else filterE (fun t => do return Text.isIdentifierAt (← t.char generated)) targets

/-- The narrowing steps in their order. -/
def narrowers : List Narrower := [byWord, byLineWithWord, byChar, byIdentifier]

/-- Makes narrowing steps, each only where it leaves something. -/
def narrow (c : Cursor) (generated : Document) :
    List Narrower → List Target → Except Fault (List Target)
  | [], targets => .ok targets
  | step :: rest, targets => do
    let left ← step targets c generated
    narrow c generated rest (if left.isEmpty then targets else left)

/-- The last of the targets in reading order; later code for the same token is usually the more
specific one. -/
def bottomRight? : List Target → Option Target
  | [] => none
  | t :: rest => some (rest.foldl (fun best t => if best.before t then t else best) t)

/-- The target that is chosen among several. -/
def choose? (c : Cursor) (generated : Document) (targets : List Target) :
    Except Fault (Option Target) :=
  if targets.isEmpty then .ok none
  else do return bottomRight? (← narrow c generated narrowers targets)

/-! ## Comments on one line -/

/-- A comment between fences on one line. -/
structure InlineComment where
  /-- The column from which on positions count as inside. -/
  start : Nat
  content : Text
  deriving DecidableEq, Repr

/-- The end of a comment's content: a character that is no comment sign, and three signs after
it. -/
def isContentEnd (before after : Text) : Bool :=
  before.getLast?.any (· != '#') && Text.startsWith ['#', '#', '#'] after

/-- The comment whose opening fence begins at a place of the text up to the end of the content. The
fence has two signs or more; if only one character is left behind three signs or more, the last
sign is content too. -/
def openedAt? (front : Text) (place : Nat) : Option InlineComment :=
  let fence := ((front.drop place).takeWhile (· == '#')).length
  let content := front.drop (place + fence)
  if (front.take place).getLast? == some '#' || fence < 2 then none
  else if 2 ≤ content.length then some ⟨place + 4, content⟩
  else if content.length == 1 && 3 ≤ fence then some ⟨place + 4, '#' :: content⟩
  else none

/-- The comment of a line: its content ends as far to the right as possible, and then it begins as
far to the right as possible. -/
def inlineComment? (line : Text) : Option InlineComment := do
  let (front, _) ← Text.lastPlace? isContentEnd line
  (List.range front.length).reverse.findSome? (openedAt? front)

/-- The position inside a comment on one line, found by the content of the comment. -/
def commentPosition? (c : Cursor) (generated : Document) : Except Fault (Option Position) :=
  match inlineComment? c.line with
  | none => .ok none
  | some comment =>
    let character := c.position.character
    if comment.start ≤ character && character ≤ comment.start + comment.content.length then
      match generated.lines.zipIdx.find? fun entry => Text.occursIn comment.content entry.1 with
      | none => .ok none
      | some (line, number) =>
        let column : Int := character - ((Text.find? comment.content c.line).getD 0 : Nat) +
          ((Text.find? comment.content line).getD 0 : Nat)
        (Position.make number column).map some
    else .ok none

/-! ## The way of a position -/

/-- How a source position was mapped. -/
inductive Route where
  /-- There is no map to follow. -/
  | noMap
  /-- By the content of a comment. -/
  | inComment (position : Position)
  /-- By the map or by the content of the line. -/
  | mapped (position : Position)
  /-- Not at all. -/
  | unmapped
  deriving DecidableEq, Repr

/-- Where a route ends. -/
def Route.position? : Route → Option Position
  | .inComment p | .mapped p => some p
  | .noMap | .unmapped => none

/-- The column on a target. On a sketched line it is the source column behind what the sketch
inserted. -/
def columnOn (g : Generated) (generated : Document) (c : Cursor) (t : Target) : Int :=
  let character := c.position.character
  if g.fakeLine == some (c.position.line : Int) && g.mechanism == some .sourceInOutput then
    let keyword := if Text.startsWith Sketch.declarationKeyword (generated.lineAt t.line) then
      Sketch.declarationKeyword.length else 0
    (character + keyword + receiverExpansion c.line character : Nat)
  else t.column

/-- The route of a source position, given the generated text and its map. -/
def routeOn (g : Generated) (js : Text) (map : ColumnMap) (p : Position) (source : Document) :
    Except Fault Route := do
  let generated : Document := ⟨js, ""⟩
  let c ← Cursor.ofPosition source p
  match ← commentPosition? c generated with
  | some found => return .inComment found
  | none =>
    let entries ← fitting map c generated
    match ← choose? c generated (entries.map .ofMapping) with
    | some t => return .mapped (← Position.make t.line (columnOn g generated c t))
    | none =>
      match ← LineContent.position? p.character c.line js with
      | some found => return .mapped found
      | none => return .unmapped

end ToOutput

namespace Generated

open ToOutput

/-- The route of a source position. -/
def route (g : Generated) (p : Position) (source : Document) : Except Fault Route :=
  match g.js, g.map with
  | some js, some map => routeOn g js map p source
  | _, _ => .ok .noMap

/-- Where a source position ended up in the generated text. -/
def toOutput (g : Generated) (p : Position) (source : Document) : Except Fault (Option Position) :=
  return (← g.route p source).position?

/-- Where a source range ended up; an inverted range counts as unavailable. -/
def rangeToOutput (g : Generated) (r : Range) (source : Document) :
    Except Fault (Option Range) := do
  let start ← g.toOutput r.start source
  let stop ← g.toOutput r.stop source
  match start, stop with
  | some start, some stop => return if stop.before start then none else some ⟨start, stop⟩
  | _, _ => return none

end Generated

namespace ToOutput

/-- A position in remarks. -/
def place (p : Position) : String := s!"{p.line}:{p.character}"

/-- What is remarked about the route of a position. -/
def Route.remarks (p : Position) : Route → List String
  | .noMap => []
  | .inComment q => [s!"mapped source => output as inline comment: {place p} => {place q}"]
  | .mapped q => [s!"mapped source => output: {place p} => {place q}"]
  | .unmapped => [s!"could not map source => output: {place p}"]

end ToOutput

end DialectBridge
