import DialectBridge.Marker
import DialectBridge.Preparation.Edit
import DialectBridge.Text.Identifier
import DialectBridge.Text.Split

/-!
# Gentle edits

Edits that leave complete source as it is and give unfinished source a form the dialect compiler
accepts, or at least rejects on the right line. Characters stay in their columns: what is added
stands at the end of a line, and the only character that is replaced becomes another single one.
A receiver on its own is the exception, since it has to become an expression.
-/

set_option autoImplicit false

namespace DialectBridge

namespace Preparation

/-- Neither a comment sign nor a carriage return: such a stretch of a line is code. -/
def isPlain (t : Text) : Bool := t.all fun c => c != '#' && c != '\r'

/-! ## A receiver on its own -/

/-- What may stand in front of a receiver on its own: nothing, or code and one character that
neither continues a word nor ends a line. -/
def admitsReceiver (before : Text) : Bool :=
  match Text.splitLast? before with
  | none => true
  | some (front, c) => isPlain front && !isIdentifierStart c && c != '\r'

/-- A receiver on its own: nothing or white space follows it. -/
def isLoneReceiver (before after : Text) : Bool :=
  match after with
  | '@' :: rest => rest.head?.all isBlank && admitsReceiver before
  | _ => false

/-- The last receiver on its own becomes its marker. -/
def markReceiver? (line : Text) : Option Text :=
  (Text.lastPlace? isLoneReceiver line).map fun (before, after) =>
    before ++ Marker.receiver.text ++ after.drop 1

/-- A receiver on its own does not compile; its marker does. -/
def receiverEdit : Edit :=
  .onEachLine "transform lone @ to receiver sentinel" markReceiver?

/-! ## A dot at the end -/

/-- What may stand in front of a dangling dot. -/
def admitsDot (before : Text) : Bool :=
  match Text.splitLast? before with
  | none => true
  | some (front, c) => isPlain front && c != '.'

/-- A line whose code ends in a single dot gets a terminator behind it. -/
def terminateDot? (line : Text) : Option Text :=
  match Text.splitLast? (Text.body line) with
  | some (before, '.') =>
    if admitsDot before then some (before ++ ['.', ';'] ++ Text.tail line) else none
  | _ => none

/-- A line with nothing but a dot gets its terminator together with the line above it, which then
keeps its own dot; in all other places lines are treated one by one. -/
def terminateDots : List Text → List EditedLine
  | [] => []
  | [line] => [.become line (terminateDot? line)]
  | line :: next :: rest =>
    if isPlain line && Text.body next == ['.'] then
      .keep line :: ⟨['.', ';'] ++ Text.tail next, true⟩ :: terminateDots rest
    else .become line (terminateDot? line) :: terminateDots (next :: rest)

/-- Without a terminator a dangling dot would take the next line as its member. -/
def dotEdit : Edit := .onLines "terminate dangling dot" terminateDots

/-! ## A word below an object key -/

/-- Words that may stand below an object key as statements. -/
def statementWords : List Text :=
  ["return".toList, "break".toList, "continue".toList, "debugger".toList]

/-- The indentation of a line that gives a key and a value. -/
def keyIndentation? (line : Text) : Option Text :=
  let indentation := line.takeWhile isIndent
  let key := line.dropWhile isIndent
  match key.takeWhile isIdentifier, (key.dropWhile isIdentifier).dropWhile isIndent with
  | _ :: _, ':' :: rest =>
    let value := Text.body rest
    if !value.isEmpty && !value.contains '\r' then some indentation else none
  | _, _ => none

/-- The word that is all there is on a line of the given indentation. -/
def loneWord? (indentation line : Text) : Option Text :=
  match Text.dropFront? indentation line with
  | some rest =>
    let word := Text.body rest
    if !word.isEmpty && word.all isIdentifier && !statementWords.contains word then some word
    else none
  | none => none

/-- A word on its own below a key becomes a key with itself as its value. -/
def completeKey? (above line : Text) : Option Text := do
  let word ← loneWord? (← keyIndentation? above) line
  return Text.body line ++ ':' :: word ++ Text.tail line

/-- Completes the words below keys, given the line above the first one. -/
def completeKeysBelow (above : Text) : List Text → List EditedLine
  | [] => []
  | line :: rest => .become line (completeKey? above line) :: completeKeysBelow line rest

/-- Completes the words below keys. -/
def completeKeys : List Text → List EditedLine
  | [] => []
  | line :: rest => .keep line :: completeKeysBelow line rest

/-- A bare word below a key would be reported one line too early. -/
def keyEdit : Edit := .onLines "complete bare identifier below object key" completeKeys

/-! ## Room for new properties -/

/-- Code that ends in one space. -/
def endsInOneSpace (code : Text) : Bool :=
  match Text.splitLast? code with
  | some (front, ' ') => front.getLast?.any (· != ' ') && isPlain front
  | _ => false

/-- A single space at the end of a line gets a property behind it. -/
def markTrailingSpace? (line : Text) : Option Text :=
  if endsInOneSpace (Text.body line) then
    some (Text.body line ++ Marker.newProperty.text ++ ':' :: Marker.newProperty.text ++
      Text.tail line)
  else none

/-- A space at the end of a line is where a property or an argument will be typed. -/
def spaceEdit : Edit := .onEachLine "mark trailing space" markTrailingSpace?

/-- The space behind a comma with nothing but white space up to a closing brace is marked. -/
def markTrailingComma : ReplacementRule := fun _ t =>
  match t with
  | ',' :: ' ' :: rest =>
    let gap := rest.takeWhile isBlank
    if (rest.drop gap.length).head? == some '}' then
      some ⟨gap.length + 3, ',' :: Marker.newProperty.text ++ gap ++ ['}']⟩
    else none
  | _ => none

/-- A comma in front of a closing brace is where a property will be typed. -/
def commaEdit : Edit := .scanning "mark trailing comma before closing brace" markTrailingComma

/-- The gentle edits in their order. -/
def gentleEdits : List Edit := [receiverEdit, dotEdit, keyEdit, spaceEdit, commaEdit]

end Preparation

end DialectBridge
