import DialectBridge.Cli.Arguments
import DialectBridge.FileTree
import DialectBridge.Mapping.ToOutput
import DialectBridge.Pipeline
import DialectBridge.Settings
import DialectBridge.Utf8

/-!
# The command line

The command line generates text from a file and prints it, or its map, or its diagnostics, or the
place of one position. What it does is a script that asks for the content of files and ends in a
report; whoever runs the script reads the files and prints the report.
-/

set_option autoImplicit false

namespace DialectBridge

namespace Cli

/-! ## Scripts and reports -/

/-- Something that may need the content of files before it is done; a file that cannot be read has a
flaw instead. -/
inductive Script (α : Type) where
  | done (a : α)
  | read (name : String) (next : Except FileFlaw (List UInt8) → Script α)

/-- The end of a script in the directory of a file tree. -/
def Script.run {α : Type} (tree : FileTree) : Script α → α
  | .done a => a
  | .read name next => (next (tree.read name)).run tree

/-- What a run of the command line leaves behind. -/
structure Report where
  /-- The exit code, or a fault that nothing is prepared for. -/
  outcome : Except Fault Nat
  stdout : String := ""
  stderr : String := ""
  /-- The compiler scripts that were started. -/
  scripts : List String := []

/-- How the dialect is compiled. -/
structure Backend where
  compiler : Compiler
  /-- The runtime that a compiler script runs on, if there is one. -/
  runtime : Option String := none
  /-- The compiler script that is used when none is given. -/
  packagedScript : String := ""

/-! ## Files -/

/-- Line breaks of any kind as line feeds. -/
def unifyLineBreaks : Text → Text
  | [] => []
  | '\r' :: '\n' :: rest => '\n' :: unifyLineBreaks rest
  | '\r' :: rest => '\n' :: unifyLineBreaks rest
  | c :: rest => c :: unifyLineBreaks rest

/-- The report of a run that ends with a message and exit code one. -/
def failure (message stderr : String) : Report :=
  { outcome := .ok 1, stderr := stderr ++ "Error: " ++ message ++ "\n" }

/-- Faults that the command line reports by itself: those about settings, about the position, about
a fake line that got lost, and about a file that does not exist. -/
def isReported : Fault → Bool
  | .settingsNotObject _ | .sectionNotObject | .badSetting _ _ _ | .malformedSettingsFile _ => true
  | .malformedPosition _ | .placeholderMissing _ | .placeholderDetached _ => true
  | .unreadableFile _ flaw => flaw == .missing
  | _ => false

/-- The report of a run that ends with a fault. -/
def faulty (fault : Fault) (stderr : String) (scripts : List String) : Report :=
  if isReported fault then { failure fault.message stderr with scripts }
  else { outcome := .error fault, stderr, scripts }

/-- Goes on with the text of a file. -/
def withText (name : String) (next : Text → Script Report) : Script Report :=
  .read name fun content =>
    match content with
    | .error flaw => .done (faulty (.unreadableFile name flaw) "" [])
    | .ok bytes =>
      match Utf8.decode? bytes with
      | some t => next (unifyLineBreaks t)
      | none => .done (faulty .undecodableFile "" [])

/-- Goes on with settings, from a file if a path is given. -/
def withSettings (path : Option String) (next : Settings → Script Report) : Script Report :=
  match path.filter (!·.isEmpty) with
  | none => next {}
  | some path =>
    withText path fun t =>
      match Settings.ofFile path t with
      | .ok settings => next settings
      | .error fault => .done (faulty fault "" [])

/-- Goes on with the compiler script that a runtime starts: the one of a file that is given, unless
it is empty, and otherwise the packaged one. -/
def withScript (backend : Backend) (path : Option String) (next : String → Script Report) :
    Script Report :=
  match backend.runtime, path.filter (!·.isEmpty) with
  | some _, some path => withText path fun t =>
      next (if t.isEmpty then backend.packagedScript else Text.toString t)
  | _, _ => next backend.packagedScript

/-! ## Output -/

/-- A remark in the log. -/
def logLine (message : String) : String := "[coffeemap] " ++ message ++ "\n"

/-- The log of a journal. A runtime is started when the compiler is first asked. -/
def logJournal (runtime : Option String) : List Event → String
  | [] => ""
  | .remark message :: rest => logLine message ++ logJournal runtime rest
  | .asked _ :: rest =>
    (match runtime with
      | some name => logLine ("creating CoffeeScript context on " ++ name)
      | none => "") ++ logJournal none rest

/-- The diagnostics of an outcome, with places counted from one. -/
def diagnosticLines (file : String) (g : Generated) : List String :=
  (g.diagnostics.getD []).map fun d =>
    s!"{file}:{d.range.start.line + 1}:{d.range.start.character + 1}: error: {d.message}"

/-- The entries of a map. -/
def mapLines (g : Generated) : List String :=
  match g.map with
  | none => ["no source map (pseudo compiled)"]
  | some map => map.mappings.map fun m =>
      s!"{m.outputLine}:{m.outputColumn} -> {m.sourceLine}:{m.sourceColumn}"

/-- The generated text with a line break at its end. -/
def textOutput (g : Generated) : String :=
  let js := g.js.getD []
  Text.toString (if js.getLast? == some '\n' then js else js ++ ['\n'])

/-- What is printed about an outcome, where `report` has the log so far. -/
def present (o : Options) (file : String) (source : Text) (g : Generated) (debug : Bool)
    (report : Report) : Report :=
  if o.showDiagnostics then
    let lines := diagnosticLines file g
    { report with
      outcome := .ok (if lines.isEmpty then 0 else 1)
      stderr := report.stderr ++ String.join (lines.map (· ++ "\n")) }
  else
    match o.position with
    | some value =>
      let routed : Except Fault (Position × ToOutput.Route) := do
        let p ← parsePosition value
        return (p, ← g.route p ⟨source, file⟩)
      match routed with
      | .error fault => faulty fault report.stderr report.scripts
      | .ok (p, route) =>
        let log := if debug then String.join ((route.remarks p).map logLine) else ""
        let answer := (route.position?.map ToOutput.place).getD "unavailable"
        { report with stdout := answer ++ "\n", stderr := report.stderr ++ log }
    | none =>
      if o.showMap then { report with stdout := "\n".intercalate (mapLines g) ++ "\n" }
      else { report with stdout := textOutput g }

/-- Generates text from a file and prints what is asked for. -/
def generateFile (backend : Backend) (o : Options) (file : String) : Script Report :=
  withSettings o.settingsPath fun settings =>
    let debug := o.verbose || settings.logLevel == .debug
    withText file fun source =>
      withScript backend ((o.compilerScript.filter (!·.isEmpty)).or settings.compilerScript)
        fun script =>
          let run := generate backend.compiler ⟨source, file⟩
          let journal := .remark ("Transpiling: " ++ file) :: run.journal
          let stderr := if debug then logJournal backend.runtime journal else ""
          let scripts := if backend.runtime.isSome && !(Event.askedTexts journal).isEmpty then
            [script] else []
          .done <| match run.outcome with
            | .error fault => faulty fault stderr scripts
            | .ok g => present o file source g debug { outcome := .ok 0, stderr, scripts }

/-- What a command line does. -/
def command (backend : Backend) (arguments : List String) : Script Report :=
  match arguments with
  | [] => .done { outcome := .ok 1, stderr := usage }
  | first :: _ =>
    if first == "-h" || first == "--help" then .done { outcome := .ok 1, stderr := usage }
    else if first == "--version" then .done { outcome := .ok 0, stdout := version }
    else
      match parse arguments with
      | .error option => .done (failure (option ++ " needs a value") "")
      | .ok o =>
        match o.file.filter (!·.isEmpty) with
        | none => .done (failure "No input file specified" "")
        | some file => generateFile backend o file

end Cli

end DialectBridge
