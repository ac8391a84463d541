import DialectBridge.Compiler
import DialectBridge.Document
import DialectBridge.Marker
import DialectBridge.Sketch

/-!
# Recovering from a syntax error

When a text is rejected, its erroneous line is replaced by ever more invasive substitutes until the
text compiles: first the line without the end that most often is at fault, then placeholders of
several shapes. A substitute is padded to the length of the line, so nothing else moves. In the
output the placeholder is found again and the line is put back there, either with the end that was
cut off or as a sketch.
-/

set_option autoImplicit false

namespace DialectBridge

/-- The line on which a syntax error was reported. -/
structure ErrorLine where
  line : Nat
  /-- The offset of its first character. -/
  offset : Nat
  text : Text
  indentation : Text
  deriving DecidableEq, Repr

/-- A substitute for an erroneous line. -/
structure Candidate where
  content : Text
  mechanism : Mechanism
  /-- What was cut off the line. -/
  removed : Text := []
  deriving DecidableEq, Repr

namespace ErrorLine

/-- The offset of the line break behind the line, or of the end of the text. -/
def stop (e : ErrorLine) : Nat := e.offset + e.text.length

/-- The erroneous line of a document; a line number outside stands for the nearest line. -/
def locate (source : Document) (line : Int) : ErrorLine :=
  let number := min line.toNat (source.lineCount - 1)
  let text := source.lineText number
  ⟨number, source.offsetOf number 0, text, Text.leadingBlank text⟩

/-- The source with the line replaced: the indentation stays, and the content is padded with spaces
to the length of the line. -/
def substitute (e : ErrorLine) (source content : Text) : Text :=
  source.take e.offset ++ e.indentation ++
    Text.padRight (e.text.length - e.indentation.length) content ++ source.drop e.stop

/-! ## Substitutes -/

/-- Ends of a line after which a member is missing. -/
def memberEnds : List Text := [['.', ';'], ['[']]

/-- The end of a line after which a member is missing, together with a question mark before it. -/
def memberEnd? (line : Text) : Option Text :=
  (memberEnds.find? fun ending => Text.endsWith ending line).map fun ending =>
    if Text.endsWith ('?' :: ending) line then '?' :: ending else ending

/-- A line that begins with an object key, which may be computed. -/
def isObjectKey (line : Text) : Bool :=
  let code := Text.trimLeft line
  let isKeyChar (c : Char) : Bool := isIdentifier c || c == '[' || c == ']'
  !(code.takeWhile isKeyChar).isEmpty &&
    (Text.trimLeft (code.dropWhile isKeyChar)).head? == some ':'

/-- The line with the placeholder as its last member. -/
def memberCandidate (line ending : Text) : Candidate where
  content := Text.trim (line.take (line.length - ending.length) ++ '.' :: Marker.placeholder.text)
  mechanism := .modifiedSource
  removed := ending

/-- The placeholder as a key and its value. -/
def keyCandidate : Candidate where
  content := Marker.placeholder.text ++ ':' :: Marker.placeholder.text
  mechanism := .sourceInOutput

/-- The placeholder as a statement. -/
def plainCandidate : Candidate where
  content := Marker.placeholder.text
  mechanism := .sourceInOutput

/-- The placeholder as a condition, for a line with a deeper block below it. -/
def conditionCandidate : Candidate where
  content := "if ".toList ++ Marker.placeholder.text
  mechanism := .sourceInOutput

/-- The substitutes for a line, the most specific first. In an object the key form comes before
the plain one, elsewhere it is the last resort. -/
def candidates (e : ErrorLine) : List Candidate :=
  (memberEnd? e.text).toList.map (memberCandidate e.text) ++
    if isObjectKey e.text then [keyCandidate, plainCandidate, conditionCandidate]
    else [plainCandidate, conditionCandidate, keyCandidate]

end ErrorLine

namespace Recovery

/-! ## Putting the line back -/

/-- The lines above a place, nearest first, with the terminator of the nearest line that has text
turned into a space. -/
def releaseTerminator : List Text → List Text
  | [] => []
  | line :: above =>
    if Text.isEmptyLine line then line :: releaseTerminator above
    else if Text.endsWith [';'] line then (line.dropLast ++ [' ']) :: above
    else line :: above

/-- Drops the terminator of the statement above a line, which might continue on it. -/
def joinPrevious (lines : List Text) (line : Int) : List Text :=
  (releaseTerminator (lines.take line.toNat).reverse).reverse ++ lines.drop line.toNat

/-- Drops the terminator of the statement above a line that may be any number; there is no line
above one that is further than directly behind the last. -/
def joinPreviousAt (lines : List Text) (line : Int) : Except Fault (List Text) :=
  if (lines.length : Int) < line then .error .linePastEnd else .ok (joinPrevious lines line)

/-- The number of the first line with the placeholder. -/
def placeholderLine? (lines : List Text) : Option Nat :=
  lines.findIdx? fun line => Text.occursIn Marker.placeholder.text line

/-- The generated line with the end that was cut off in the place of the placeholder. A terminator
behind the placeholder goes; anything else behind it stays. -/
def restoreEnd? (line removed : Text) : Option Text :=
  let mark := '.' :: Marker.placeholder.text
  (Text.find? mark line).map fun index =>
    let after := line.drop (index + mark.length)
    line.take index ++ removed.filter (· != ';') ++ (if after == [';'] then [] else after)

/-- The outcome of a compilation with a substitute, with the line put back in its place. -/
def reconstruct (js : Text) (map : ColumnMap) (candidate : Candidate) (e : ErrorLine)
    (diagnostic : Diagnostic) (uri : String) : Except Fault Generated := do
  let lines := Text.lines js
  match placeholderLine? lines with
  | none => .error (.placeholderMissing uri)
  | some number =>
    let (line, map) ←
      match candidate.mechanism with
      | .sourceInOutput => pure (sketch e.text, map.collapse e.line number)
      | .modifiedSource =>
        match restoreEnd? (lines.getD number []) candidate.removed with
        | some line => pure (line, map)
        | none => .error (.placeholderDetached uri)
    Draft.check {
      js := some (Text.joinLines (joinPrevious (lines.set number line) number))
      map := some map
      diagnostics := some [diagnostic]
      fakeLine := some e.line
      mechanism := some candidate.mechanism }

/-! ## Trying substitutes -/

/-- A substitute that compiled, with what it compiled to. -/
structure Success where
  candidate : Candidate
  /-- The generated text, unless the answer had none. -/
  js : Option Text
  map : ColumnMap

/-- Tries substitutes in order, up to the first that compiles. -/
def firstSuccess (compiler : Compiler) (e : ErrorLine) (source : Text) :
    List Candidate → Run Event (Option Success)
  | [] => .done none
  | candidate :: rest =>
    (compiler.ask (e.substitute source candidate.content)).andThen fun attempt =>
      match attempt with
      | .compiled js map => .done (some ⟨candidate, some js, map⟩)
      | .textless map => .done (some ⟨candidate, none, map⟩)
      | .failed _ => firstSuccess compiler e source rest

/-- Compiles a text, with substitutes for its erroneous line if it is rejected. When nothing
compiles, only the diagnostic of the text itself is left. -/
def compile (compiler : Compiler) (source : Text) (uri : String) : Run Event Generated := do
  match ← compiler.ask source with
  | .compiled js map =>
    .note (.remark ("successful simple compilation " ++ uri))
    .ofExcept (Draft.check { js := some js, map := some map })
  | .textless map =>
    .note (.remark ("successful simple compilation " ++ uri))
    .ofExcept (Draft.check { map := some map })
  | .failed diagnostic =>
    let e := ErrorLine.locate ⟨source, uri⟩ diagnostic.range.start.line
    .note (.remark s!"compilation failed at line {e.line}, trying fake lines {uri}")
    match ← firstSuccess compiler e source e.candidates with
    | none =>
      .note (.remark ("no fake line compiled " ++ uri))
      .ofExcept (Draft.check { diagnostics := some [diagnostic] })
    | some found =>
      let content := Text.toString found.candidate.content
      .note (.remark s!"successful compilation with fake content '{content}' {uri}")
      match found.js with
      | some js => .ofExcept (reconstruct js found.map found.candidate e diagnostic uri)
      | none => .ofExcept (.error (.nullField .js))

end Recovery

end DialectBridge
