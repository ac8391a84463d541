import DialectBridge.Text.Identifier
import DialectBridge.Text.Scan
import DialectBridge.Text.Split
import DialectBridge.Text.WordChar

/-!
# Sketches

A sketch is what a source roughly becomes, without compiling it and without a map: it is what a
language service gets to see when nothing compiles, and what stands in generated text in the place
of a single line that does not. The passes are made one after the other; they keep every line a
line and most characters in their columns.
-/

set_option autoImplicit false

namespace DialectBridge

namespace Sketch

/-- How the receiver is written in the source. -/
def receiverSign : Char := '@'

/-- How the receiver is written in generated text. -/
def receiverText : Text := "this.".toList

/-- The keyword that makes an assignment a declaration. -/
def declarationKeyword : Text := "let ".toList

/-- What closes a call that was opened for the rest of a line; the spaces keep room for what is
still to be typed. -/
def callEnd : Text := "   )".toList

/-! ## Calls -/

/-- Every receiver sign is written out. -/
def expandReceivers (t : Text) : Text :=
  t.flatMap fun c => if c == receiverSign then receiverText else [c]

/-- A space in front of a parenthesis that is not the last character of the line. -/
def isCallbackGap (_ after : Text) : Bool :=
  match after with
  | ' ' :: '(' :: _ :: _ => true
  | _ => false

/-- The first parenthesised argument without parentheses around it gets them. -/
def enclosesCallback (line : Text) : Text :=
  match Text.firstPlace? isCallbackGap line with
  | some (before, after) => before ++ '(' :: after.drop 1 ++ callEnd
  | none => line

/-- A character that can end the name of what is called. -/
def endsCallee (c : Char) : Bool := isIdentifier c || c == ']' || c == ')'

/-- A character that can begin an argument. -/
def startsArgument (c : Char) : Bool :=
  isIdentifier c || c == receiverSign || c == '[' || c == '\x7b' || c == '"' || c == '\x27'

/-- A space between what can be called and what can be its argument. -/
def isArgumentGap (before after : Text) : Bool :=
  match after with
  | ' ' :: c :: _ => before.getLast?.any endsCallee && startsArgument c
  | _ => false

/-- Lines that bring in other files have no calls without parentheses. -/
def bringsIn (line : Text) : Bool :=
  Text.startsWith "import ".toList line || Text.occursIn "require(".toList line

/-- The last call without parentheses gets them. -/
def enclosesArgument (line : Text) : Text :=
  match Text.lastPlace? isArgumentGap line with
  | some (before, after) =>
    if bringsIn line then line else before ++ '(' :: after.drop 1 ++ callEnd
  | none => line

/-! ## Objects and keywords -/

/-- A key at the beginning of the text: a name, perhaps a space, a colon and a space. Returned is
the key up to its colon. -/
def key? (t : Text) : Option Text :=
  match t with
  | c :: _ =>
    if isIdentifierStart c then
      let name := t.takeWhile isIdentifier
      match t.drop name.length with
      | ' ' :: ':' :: ' ' :: _ => some (name ++ [' ', ':'])
      | ':' :: ' ' :: _ => some (name ++ [':'])
      | _ => none
    else none
  | [] => none

/-- An object without braces behind a space or an opening parenthesis gets its opening brace. -/
def openObject : ReplacementRule := fun _ t =>
  match t with
  | c :: gap :: rest =>
    if !isBlank c && c != '\x7b' && (gap == ' ' || gap == '(') then
      (key? rest).map fun key => ⟨key.length + 3, c :: gap :: '\x7b' :: key⟩
    else none
  | _ => none

/-- Words the generated language cannot make sense of. -/
def foreignWords : List Text :=
  ["unless".toList, "not".toList, "and".toList, "is".toList, "isnt".toList, "then".toList]

/-- A whole word that the generated language does not know becomes an operator of the same
width. -/
def replaceForeignWord : ReplacementRule := fun before t =>
  let word := t.takeWhile isWordChar
  if foreignWords.contains word && !before.any isWordChar then
    some ⟨word.length, Text.padRight word.length ['&', '&']⟩
  else none

/-! ## Declarations and comments -/

/-- A line that begins with an assignment to a name. -/
def isAssignment (line : Text) : Bool :=
  let name := line.dropWhile isIndent
  match name.takeWhile isIdentifier, (name.dropWhile isIdentifier).dropWhile isIndent with
  | _ :: _, '=' :: rest => rest.head? != some '='
  | _, _ => false

/-- An assignment becomes a declaration. -/
def declare (line : Text) : Text :=
  if isAssignment line then declarationKeyword ++ line else line

/-- Whether nothing or something other than a comment sign follows. -/
def endsFence (rest : Text) : Bool := rest.head? != some '#'

/-- Exactly three comment signs begin a block comment; their neighbours are taken with them, so a
neighbour serves only one of two fences. -/
def openBlockComment : ReplacementRule := fun before t =>
  match before, t with
  | none, '#' :: '#' :: '#' :: rest =>
    if endsFence rest then some ⟨3 + (rest.take 1).length, ['/', '*'] ++ rest.take 1⟩ else none
  | _, c :: '#' :: '#' :: '#' :: rest =>
    if c != '#' && endsFence rest then
      some ⟨4 + (rest.take 1).length, c :: '/' :: '*' :: rest.take 1⟩
    else none
  | _, _ => none

/-- A line that brings in another file. -/
def isImportLine (line : Text) : Bool :=
  let code := Text.trimLeft line
  Text.startsWith "import".toList code || Text.startsWith "require".toList code

/-- Strings with values in them become templates, except where files are brought in. -/
def templates (line : Text) : Text :=
  if isImportLine line then line
  else
    Text.replaceAll ['#', '\x7b'] ['$', '\x7b']
      (line.map fun c => if c == '"' then '\x60' else c)

/-- The passes in their order. -/
def passes : List (Text → Text) :=
  [ expandReceivers,
    Text.mapLines enclosesCallback,
    Text.mapLines enclosesArgument,
    Text.scan openObject,
    Text.scan replaceForeignWord,
    Text.mapLines declare,
    Text.mapLines (Text.scan openBlockComment),
    Text.mapLines templates,
    Text.replaceAll [' ', '#'] ['/', '/'] ]

end Sketch

/-- The sketch of a source. -/
def sketch (t : Text) : Text := Sketch.passes.foldl (fun t pass => pass t) t

/-- How many columns a sketched line has gained before a character by writing out receivers. A
negative character number counts from the end of the line. -/
def receiverExpansion (line : Text) (character : Int) : Nat :=
  let stop := if character < 0 then (line.length + character).toNat else character.toNat
  (line.take stop).count Sketch.receiverSign * (Sketch.receiverText.length - 1)

end DialectBridge
