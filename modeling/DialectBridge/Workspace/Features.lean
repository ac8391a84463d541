import DialectBridge.Mapping.ToOutput
import DialectBridge.Mapping.ToSource
import DialectBridge.Workspace

/-!
# Language features

Every request position is mapped into the generated text, and every position in an answer is mapped
back to the source. A request is journalled when the service is asked.
-/

set_option autoImplicit false

namespace DialectBridge

/-- A completion for the editor. -/
structure CompletionItem where
  label : Text
  kind : Option Int
  sortText : Option String
  insertText : Option Text
  /-- What is replaced, and by what. -/
  edit : Option (Range × Text)
  deriving DecidableEq, Repr

/-- A note at a range, in Markdown. -/
structure Hover where
  value : String
  range : Range
  deriving DecidableEq, Repr

/-- A range of a document. -/
structure Location where
  uri : String
  range : Range
  deriving DecidableEq, Repr

namespace Source

/-! ## The source on its own -/

/-- At least one character from a position on, extended over identifier characters. -/
def wordRange (source : Document) (start : Position) : Except Fault Range := do
  let line := source.lineText start.line
  let word := (line.drop (start.character + 1)).takeWhile isIdentifier
  let stop ← Position.make start.line (start.character + 1 + word.length : Nat)
  return ⟨start, stop⟩

/-- Where a line assigns to a word, if it begins with such an assignment. -/
def assignmentColumn? (word line : Text) : Option Nat :=
  match Text.dropFront? word (Text.trimLeft line) with
  | some rest =>
    match Text.trimLeft rest with
    | '=' :: more => if more.head? == some '=' then none else some (Text.leadingBlank line).length
    | _ => none
  | none => none

/-- The closest assignment to a word among lines given from below to above, with their numbers; the
search ends at an empty line. -/
def searchAssignment (word : Text) : List (Text × Nat) → Option (Nat × Nat)
  | [] => none
  | (line, number) :: above =>
    if Text.isEmptyLine line then none
    else
      match assignmentColumn? word line with
      | some column => some (number, column)
      | none => searchAssignment word above

/-- The lines from the first one to the given one, from below to above. -/
def linesUpTo (source : Document) (line : Nat) : List (Text × Nat) :=
  ((List.range (line + 1)).map fun n => (source.lineText n, n)).reverse

/-- The range of the word in the closest assignment to it at or above a position in its block. -/
def assignmentAbove? (source : Document) (p : Position) : Except Fault (Option Range) := do
  let word ← Text.wordAround source.text (source.offsetAt p)
  if word.text.isEmpty || source.lineCount ≤ p.line then return none
  else
    match searchAssignment word.text (linesUpTo source p.line) with
    | some (line, column) =>
      return some (← Range.make line column line (column + word.text.length : Nat))
    | none => return none

/-- How many lines around a place are shown when it cannot be mapped. -/
def contextLines : Nat := 2

/-- The lines around a line. -/
def context (generated : Document) (line : Int) : Text :=
  let first := (line - contextLines).toNat
  let last := min (line + contextLines) (generated.lineCount - 1 : Nat)
  Text.joinLines ((List.range (last - first + 1).toNat).map fun (i : Nat) =>
    generated.lineText (first + i))

end Source

namespace Workspace

variable {τ : Type}

/-! ## Positions in requests and answers -/

/-- The offset in generated text that stands for a source position. Without a map the generated
text is a sketch, which is close enough to the source. -/
def requestOffset (r : Ready) (p : Position) : Except Fault (Option Nat) :=
  if r.generated.hasMap then do
    return (← r.generated.toOutput p r.document).map r.output.offsetAt
  else .ok (some (r.output.offsetAt p))

/-- The source range of a span of any file the service knows. A place that cannot be mapped back
stands for the position of the request, if one is given. -/
def responseRange (w : Workspace τ) (service : LanguageService) (file : String) (span : Span)
    (request : Option Position) : Except Fault (Option Range) :=
  match w.uriOfFile? file with
  | none =>
    match service.readFile file with
    | none => .ok none
    | some content => do return some (← Document.rangeAt ⟨content, ""⟩ span.start span.stop)
  | some uri =>
    match w.ready? uri with
    | none => .ok none
    | some r => do
      let range ← r.output.rangeAt span.start span.stop
      if r.generated.hasMap then
        let mapped ← r.generated.rangeToSource range r.document.text
        return mapped.or (request.map Range.caret)
      else return some range

/-- The location of a span of a file. -/
def location? (w : Workspace τ) (service : LanguageService) (l : SpanLocation) :
    Except Fault (Option Location) := do
  match ← w.responseRange service l.file l.span none with
  | none => return none
  | some range =>
    match w.uriOfFile? l.file with
    | some uri => return some ⟨if uri.isEmpty then Address.ofPath l.file else uri, range⟩
    | none => return some ⟨Address.ofPath l.file, range⟩

/-- The locations of several spans, as far as they have one. -/
def locations (w : Workspace τ) (service : LanguageService) (found : List SpanLocation) :
    Except Fault (List Location) := do
  return (← found.mapM (w.location? service)).filterMap id

/-! ## Completions -/

/-- The character after which members are completed. -/
def trigger : Char := '.'

/-- The value of a receiver on its own in generated text. -/
def receiverCall : Text := "this.valueOf()".toList

/-- The offset at which completions are asked for: a receiver on its own that begins at the offset
or one character further is asked for its members. -/
def memberOffset (js : Text) (offset : Nat) : Nat :=
  if js.length < offset then offset
  else if Text.startsWith receiverCall (js.drop offset) then offset + 5
  else if Text.startsWith receiverCall (js.drop (offset + 1)) then offset + 6
  else offset

/-- The position one character to the left. -/
def leftOf (p : Position) : Except Fault Position :=
  Position.make p.line ((p.character : Int) - 1)

/-- What a completion replaces at a position when its own span is of no use: nothing, or the dot
before the position if the completion brings its own access. -/
def fallbackRange (p : Position) (afterTrigger : Bool) (entry : CompletionEntry) :
    Except Fault Range :=
  let inserted := entry.insertText.getD []
  if afterTrigger &&
      (Text.startsWith ['?', '.'] inserted || Text.startsWith ['['] inserted) then do
    return ⟨← leftOf p, p⟩
  else .ok (.caret p)

/-- The completion for the editor. -/
def completionItem (w : Workspace τ) (service : LanguageService) (file : String) (p : Position)
    (afterTrigger : Bool) (entry : CompletionEntry) : Except Fault CompletionItem := do
  let edit ← match entry.span with
    | none => pure none
    | some span => do
      let range ← match ← w.responseRange service file span none with
        | some range =>
          if range.containsOnLine p then pure range else fallbackRange p afterTrigger entry
        | none => fallbackRange p afterTrigger entry
      let inserted := entry.insertText.getD []
      pure (some (range, if inserted.isEmpty then entry.name else inserted))
  return ⟨entry.name, entry.kind, entry.sortText, entry.insertText, edit⟩

/-- The completions that fit the word typed so far. -/
def fittingEntries (r : Ready) (offset : Nat) (last : Option Char)
    (entries : List CompletionEntry) : Except Fault (List CompletionEntry) := do
  if Text.isIdentifierAt last then
    let word ← Text.wordAround r.document.text offset
    return entries.filter fun entry => Text.occursIn word.text entry.name
  else return entries

/-- Completions at a position. The dot before the position is left out when the position is mapped,
since a map knows nothing of a dot without a member, and put back afterwards. -/
def completions (w : Workspace τ) (service : LanguageService) (uri : String) (p : Position) :
    Run Request (List CompletionItem) :=
  match w.ready? uri with
  | none => .done []
  | some r => do
    let offset := r.document.offsetAt p
    let last := r.document.charAt ((offset : Int) - 1)
    let afterTrigger := last == some trigger
    let skipDot := afterTrigger && r.generated.hasMap
    let request ← .ofExcept (if skipDot then leftOf p else .ok p)
    match ← .ofExcept (requestOffset r request) with
    | none => return []
    | some target =>
      let target := memberOffset r.js (if skipDot then target + 1 else target)
      let file ← .ofExcept (virtualFileName uri)
      .note ⟨.completions, file, some target⟩
      let entries ← .ofExcept (fittingEntries r offset last (service.completions file target))
      .ofExcept (entries.mapM (w.completionItem service file p afterTrigger))

/-! ## Hover, definitions, references -/

/-- The note for a place, in Markdown. -/
def hoverText (info : QuickInfo) : String :=
  "\x60\x60\x60ts\n" ++ info.text ++ "\n\x60\x60\x60" ++
    (if info.documentation.isEmpty then "" else "\n\n" ++ info.documentation)

/-- What there is to say about a position. -/
def hover (w : Workspace τ) (service : LanguageService) (uri : String) (p : Position) :
    Run Request (Option Hover) :=
  match w.ready? uri with
  | none => .done none
  | some r => do
    match ← .ofExcept (requestOffset r p) with
    | none => return none
    | some target =>
      let file ← .ofExcept (virtualFileName uri)
      .note ⟨.hover, file, some target⟩
      match service.hover file target with
      | none => return none
      | some info =>
        let range ← .ofExcept (w.responseRange service file info.span (some p))
        return some ⟨hoverText info, range.getD (.caret p)⟩

/-- The definitions the service knows for a position. -/
def serviceDefinitions (w : Workspace τ) (service : LanguageService) (uri : String) (r : Ready)
    (p : Position) : Run Request (List Location) := do
  match ← .ofExcept (requestOffset r p) with
  | none => return []
  | some target =>
    let file ← .ofExcept (virtualFileName uri)
    .note ⟨.definitions, file, some target⟩
    .ofExcept (w.locations service (service.definitions file target))

/-- The definitions of what stands at a position. Variables are declared by their first assignment,
so when the service knows none, the closest assignment above in the same block is taken. -/
def definitions (w : Workspace τ) (service : LanguageService) (uri : String) (p : Position) :
    Run Request (List Location) :=
  match w.ready? uri with
  | none => .done []
  | some r => do
    let found ← w.serviceDefinitions service uri r p
    if found.isEmpty then
      let assignment ← .ofExcept (Source.assignmentAbove? r.document p)
      return assignment.toList.map fun range => ⟨uri, range⟩
    else return found

/-- The places that refer to what stands at a position. -/
def references (w : Workspace τ) (service : LanguageService) (uri : String) (p : Position) :
    Run Request (List Location) :=
  match w.ready? uri with
  | none => .done []
  | some r => do
    match ← .ofExcept (requestOffset r p) with
    | none => return []
    | some target =>
      let file ← .ofExcept (virtualFileName uri)
      .note ⟨.references, file, some target⟩
      .ofExcept (w.locations service (service.references file target))

/-! ## Validation -/

/-- Whether a validation is cancelled, at its beginning and once the service has answered. -/
structure Cancellation where
  atStart : Bool := false
  afterAnswer : Bool := false
  deriving DecidableEq, Repr

/-- Messages about what forceful preparation puts in. -/
def ignoredMessages : List String :=
  ["Parameter '_' implicitly has an 'any' type.",
    "'_' is declared but its value is never read."]

/-- The origin named in diagnostics of the language service. -/
def diagnosticOrigin : String := "coffeemap [ts]"

/-- The message of a diagnostic whose place has no source. -/
def unmappedMessage (r : Ready) (line : Nat) (message : String) : String :=
  message ++ "\n\nThe position of this error could not be mapped back to the source. " ++
    "Generated context:\n\n" ++ Text.toString (Source.context r.output line)

/-- The message and the range of a diagnostic in terms of the source; the range is never
inverted. -/
def sourceReport (r : Ready) (d : ServiceDiagnostic) : Except Fault (String × Range) := do
  let range ← r.output.rangeAt d.span.start d.span.stop
  if r.generated.hasMap then
    match ← r.generated.rangeToSource range r.document.text with
    | none => return (unmappedMessage r range.start.line d.message, .caret .origin)
    | some mapped =>
      if mapped.isInverted then
        return (d.message, ← Source.wordRange r.document mapped.start)
      else return (d.message, mapped)
  else return (d.message, range)

/-- A diagnostic of the service as one of the source. -/
def toSourceDiagnostic (r : Ready) (d : ServiceDiagnostic) : Except Fault Diagnostic := do
  let (message, range) ← sourceReport r d
  return {
    range, message, severity := some d.severity, code := some (.number d.code)
    source := some diagnosticOrigin, tags := some d.tags }

/-- Whether a diagnostic of the service is reported at all. -/
def isReported (w : Workspace τ) (d : ServiceDiagnostic) : Bool :=
  !(w.settings.ignoredErrorCodes.contains d.code || ignoredMessages.contains d.message)

/-- The diagnostics of a document. As long as the source itself has syntax errors only these count,
since those of the service would mostly follow from them. -/
def validate (w : Workspace τ) (service : LanguageService) (uri : String) (c : Cancellation) :
    Run Request (List Diagnostic) :=
  if c.atStart then .done []
  else
    match w.ready? uri with
    | none =>
      .done (((w.cache.latest.get? uri).bind fun result => result.value.diagnostics).getD [])
    | some r =>
      match r.generated.diagnostics with
      | some (d :: more) => .done (d :: more)
      | _ => do
        let file ← .ofExcept (virtualFileName uri)
        .note ⟨.diagnostics, file, none⟩
        if c.afterAnswer then return []
        else
          .ofExcept (((service.diagnostics file).filter w.isReported).mapM
            (toSourceDiagnostic r))

end Workspace

end DialectBridge
