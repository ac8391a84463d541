import DialectBridge.Address
import DialectBridge.Cache
import DialectBridge.Digest
import DialectBridge.Generated
import DialectBridge.Document
import DialectBridge.Service
import DialectBridge.Settings

/-!
# Workspaces

A workspace holds the open documents, the latest outcome of each, and one virtual file per document
in the language service, which has the generated text. A document is taken up before its digest is
taken and its outcome is computed; the virtual file follows when there is one, with a version that
counts the changes of its content.
-/

set_option autoImplicit false

namespace DialectBridge

/-- An open document with the version its editor gave it. -/
structure OpenDocument where
  document : Document
  version : Int
  deriving DecidableEq, Repr

/-- The generated text of a document as the service knows it. -/
structure VirtualFile where
  name : String
  content : Text
  version : Int
  deriving DecidableEq, Repr

/-- Open documents and what became of them. -/
structure Workspace (τ : Type) where
  settings : Settings
  cache : Cache τ String Generated
  documents : Table String OpenDocument := {}
  virtualFiles : Table String VirtualFile := {}

/-- What a change of a workspace leads to: the new workspace, also when the change fails; what was
compiled on the way, what the service is told, and the answer. -/
structure Change (τ α : Type) where
  workspace : Workspace τ
  events : List Event := []
  notices : List FileNotice := []
  outcome : Except Fault α

/-- How documents become generated text. -/
abbrev Generator := Document → Run Event Generated

namespace Workspace

variable {τ : Type}

/-- A workspace without documents. -/
def empty (settings : Settings) (ttl : τ) : Workspace τ where
  settings
  cache := { ttl }

/-- Whether a document has one of the extensions of the settings. -/
def handles (w : Workspace τ) (uri : String) : Except Fault Bool := do
  let extension := Address.extension (← Address.toPath uri).toList
  return w.settings.fileExtensions.contains (String.ofList extension)

/-- The name of the virtual file of a document. -/
def virtualFileName (uri : String) : Except Fault String :=
  return (← Address.toPath uri) ++ ".ts"

/-- The virtual file of a document after its content was set, and what the service is told: a new
file has version zero, a changed one the next version, and an unchanged one is not mentioned. -/
def syncFile (current : Option VirtualFile) (name : String) (content : Text) :
    VirtualFile × List FileNotice :=
  match current with
  | none => (⟨name, content, 0⟩, [.updated name 0 content])
  | some file =>
    if file.content == content then (file, [])
    else
      let version := file.version + 1
      ({ file with content, version }, [.updated file.name version content])

/-- Takes up the new text of a document as it is received. The document has it also where it cannot
be encoded, or where there is no outcome for it. -/
def receive [Timeline τ] [LT τ] [DecidableLT τ] [LE τ] [DecidableLE τ] (w : Workspace τ)
    (generator : Generator) (now : τ) (uri : String) (text : Received) (version : Int) :
    Change τ (Option Generated) :=
  match w.handles uri with
  | .error fault => { workspace := w, outcome := .error fault }
  | .ok false => { workspace := w, outcome := .ok none }
  | .ok true =>
    let document : Document := ⟨text.shown, uri⟩
    let w := { w with documents := w.documents.put uri ⟨document, version⟩ }
    match text.digest with
    | .error fault => { workspace := w, outcome := .error fault }
    | .ok key =>
      let answer := w.cache.get key (some uri) now (generator document)
      let w := { w with cache := answer.cache }
      match answer.outcome, virtualFileName uri with
      | .error fault, _ | _, .error fault =>
        { workspace := w, events := answer.journal, outcome := .error fault }
      | .ok result, .ok name =>
        let (file, notices) :=
          syncFile (w.virtualFiles.get? uri) name (result.value.js.getD [])
        { workspace := { w with virtualFiles := w.virtualFiles.put uri file }
          events := answer.journal
          notices
          outcome := .ok (some result.value) }

/-- Takes up the new text of a document. -/
def change [Timeline τ] [LT τ] [DecidableLT τ] [LE τ] [DecidableLE τ] (w : Workspace τ)
    (generator : Generator) (now : τ) (uri : String) (text : Text) (version : Int) :
    Change τ (Option Generated) :=
  w.receive generator now uri (.ofText text) version

/-- Closes a document. -/
def close (w : Workspace τ) (uri : String) : Change τ Unit where
  workspace :=
    { w with
      documents := w.documents.erase uri
      cache := { w.cache with latest := w.cache.latest.erase uri }
      virtualFiles := w.virtualFiles.erase uri }
  notices := (w.virtualFiles.get? uri).toList.map fun file => .removed file.name
  outcome := .ok ()

/-- A document with its generated text. -/
structure Ready where
  document : Document
  generated : Generated
  js : Text

namespace Ready

/-- The generated text as a document. -/
def output (r : Ready) : Document := ⟨r.js, ""⟩

end Ready

/-- The document and its latest outcome, if it has generated text. -/
def ready? (w : Workspace τ) (uri : String) : Option Ready := do
  let opened ← w.documents.get? uri
  let result ← w.cache.latest.get? uri
  let js ← result.value.js
  return ⟨opened.document, result.value, js⟩

/-- The document whose virtual file has a name, the first one if there are several. -/
def uriOfFile? (w : Workspace τ) (name : String) : Option String :=
  (w.virtualFiles.entries.find? fun entry => entry.2.name == name).map (·.1)

end Workspace

end DialectBridge
