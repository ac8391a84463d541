import DialectBridge.Proofs.WorkspaceHistory
import Mathlib.Data.List.Destutter

/-!
# Virtual files and the service

A service knows only what it is told: that a file has a new content, with a version, or that it is
removed. The files it holds are the latest of these notices (`get?_held`), so all that has to be
said about a virtual file is which updates of it were sent.

The generated contents that a document had since it was opened determine them. A content that
repeats the one before it is not sent; the others are sent once each, and their versions count them
from zero (`numbered`). This needs documents whose virtual files have different names, as otherwise
two documents would write to one file, and a generator that comes to an outcome for every text.

Texts are taken here as they are received. One that cannot be encoded has no digest, so it comes to
no outcome, but its document is open from then on. A document therefore is open without a virtual
file exactly while none of its texts could be encoded; all else holds whatever is received.
-/

set_option autoImplicit false

namespace DialectBridge

namespace FileNotice

/-- The files that a service holds after some notices, the newest first. -/
def held (log : List FileNotice) : Table String (Text × Int) :=
  log.foldr (fun notice files => apply files notice) {}

/-- The contents and versions that a file was given since it was last removed, the newest first. -/
def updatesOf (name : String) : List FileNotice → List (Text × Int)
  | [] => []
  | .updated other version content :: log =>
    if other = name then (content, version) :: updatesOf name log else updatesOf name log
  | .removed other :: log => if other = name then [] else updatesOf name log

/-- A service holds the last update of every file. -/
theorem get?_held (log : List FileNotice) (name : String) :
    (held log).get? name = (updatesOf name log).head? := by
  induction log with
  | nil => rfl
  | cons notice log ih =>
    cases notice with
    | updated other version content =>
      have step : held (.updated other version content :: log) =
          (held log).put other (content, version) := rfl
      rw [step, Table.get?_put, updatesOf]
      by_cases here : other = name
      · rw [if_pos here.symm, if_pos here, List.head?_cons]
      · rw [if_neg (Ne.symm here), if_neg here, ih]
    | removed other =>
      have step : held (.removed other :: log) = (held log).erase other := rfl
      rw [step, Table.get?_erase, updatesOf]
      by_cases here : other = name
      · rw [if_pos here.symm, if_pos here, List.head?_nil]
      · rw [if_neg (Ne.symm here), if_neg here, ih]

/-- Contents, the newest first, with versions that count them from zero. -/
def numbered : List Text → List (Text × Int)
  | [] => []
  | content :: before => (content, (before.length : Int)) :: numbered before

theorem map_fst_numbered (contents : List Text) : (numbered contents).map (·.1) = contents := by
  induction contents with
  | nil => rfl
  | cons content before ih => rw [numbered, List.map_cons, ih]

theorem length_numbered (contents : List Text) : (numbered contents).length = contents.length := by
  rw [← List.length_map (·.1), map_fst_numbered]

theorem versions_numbered (contents : List Text) :
    ((numbered contents).map (·.2)).reverse =
      (List.range contents.length).map fun version : Nat => (version : Int) := by
  induction contents with
  | nil => rfl
  | cons content before ih =>
    rw [numbered, List.map_cons, List.reverse_cons, ih, List.length_cons, List.range_succ,
      List.map_append, List.map_singleton]

end FileNotice

/-- A text that repeats the one after it in a list counts once. -/
theorem destutter_cons_self (content : Text) (before : List Text) :
    (content :: content :: before).destutter (· ≠ ·) = (content :: before).destutter (· ≠ ·) := by
  rw [List.destutter_cons_cons, if_neg (not_not.2 rfl), List.destutter_cons']

theorem destutter_cons_of_ne {content last : Text} (apart : last ≠ content) (before : List Text) :
    (content :: last :: before).destutter (· ≠ ·) =
      content :: (last :: before).destutter (· ≠ ·) := by
  rw [List.destutter_cons_cons, if_pos apart.symm, List.destutter_cons']

theorem exists_destutter_cons (content : Text) (before : List Text) :
    ∃ earlier, (content :: before).destutter (· ≠ ·) = content :: earlier := by
  induction before with
  | nil => exact ⟨[], rfl⟩
  | cons last before ih =>
    by_cases same : last = content
    · rw [same, destutter_cons_self]
      exact ih
    · exact ⟨_, destutter_cons_of_ne same before⟩

namespace Workspace

open FileNotice

/-! ## Messages -/

/-- What an editor sends of its documents. To open a document is its first text. -/
inductive Message (τ : Type) where
  | write (now : τ) (uri : String) (text : Received) (version : Int)
  | close (uri : String)

namespace Message

variable {τ : Type}

/-- The document of a message. -/
def uri : Message τ → String
  | .write _ uri _ _ => uri
  | .close uri => uri

/-- An edit as it is sent. -/
def ofEdit : Edit τ → Message τ
  | .change now uri text version => .write now uri (.ofText text) version
  | .close uri => .close uri

/-- The texts that were received for a document since it was last closed, the newest first. -/
def textsOf (uri : String) : List (Message τ) → List Received
  | [] => []
  | .write _ other text _ :: past =>
    if other = uri then text :: textsOf uri past else textsOf uri past
  | .close other :: past => if other = uri then [] else textsOf uri past

/-- All texts of some messages can be encoded. -/
def Encodable (history : List (Message τ)) : Prop :=
  ∀ now uri text version, .write now uri text version ∈ history → text.text?.isSome

theorem mem_of_mem_textsOf {uri : String} {text : Received} {history : List (Message τ)}
    (h : text ∈ textsOf uri history) :
    ∃ now version, .write now uri text version ∈ history := by
  induction history with
  | nil => cases h
  | cons message past ih =>
    have later : text ∈ textsOf uri past →
        ∃ now version, .write now uri text version ∈ message :: past := by
      intro old
      obtain ⟨now, version, member⟩ := ih old
      exact ⟨now, version, List.mem_cons_of_mem _ member⟩
    cases message with
    | write now other new version =>
      unfold textsOf at h
      split at h
      · next own =>
        subst own
        rcases List.mem_cons.1 h with rfl | old
        · exact ⟨now, version, List.mem_cons_self⟩
        · exact later old
      · exact later h
    | close other =>
      unfold textsOf at h
      split at h
      · cases h
      · exact later h

/-- Where all texts can be encoded, a document with a text has one that can be. -/
theorem Encodable.exists_iff {history : List (Message τ)} (encodable : Encodable history)
    (uri : String) :
    (∃ text ∈ textsOf uri history, text.text?.isSome) ↔ textsOf uri history ≠ [] := by
  constructor
  · rintro ⟨text, member, -⟩
    exact List.ne_nil_of_mem member
  · intro some
    obtain ⟨text, member⟩ := List.exists_mem_of_ne_nil _ some
    obtain ⟨now, version, sent⟩ := mem_of_mem_textsOf member
    exact ⟨text, member, encodable now uri text version sent⟩

end Message

/-- Some documents whose virtual files have different names. -/
def NamesApart (uris : List String) : Prop :=
  ∀ uri ∈ uris, ∀ other ∈ uris, ∀ name,
    virtualFileName uri = .ok name → virtualFileName other = .ok name → uri = other

variable {τ : Type} [Add τ] [LT τ] [DecidableLT τ] [LE τ] [DecidableLE τ]
  (generator : Generator) (settings : Settings) (ttl : τ)

/-- What a message leads to. -/
def hear (w : Workspace τ) : Message τ → Change τ (Option Generated)
  | .write now uri text version => w.receive generator now uri text version
  | .close uri => w.edit generator (.close uri)

/-- The workspace after some messages, the newest first, which begins without documents. -/
def heard : List (Message τ) → Workspace τ
  | [] => .empty settings ttl
  | message :: past => ((heard past).hear generator message).workspace

/-- Edits lead to the same workspace when their texts are sent. -/
theorem heard_map_ofEdit (past : List (Edit τ)) :
    heard generator settings ttl (past.map .ofEdit) = after generator settings ttl past := by
  induction past with
  | nil => rfl
  | cons e past ih =>
    rw [List.map_cons, heard, ih, after]
    cases e <;> rfl

/-- What the service was told, the newest first. -/
def told : List (Message τ) → List FileNotice
  | [] => []
  | message :: past =>
    ((heard generator settings ttl past).hear generator message).notices.reverse ++ told past

/-- The generated contents of a document since it was last closed, the newest first. -/
def contents (uri : String) : List (Message τ) → List Text
  | [] => []
  | .write now other text version :: past =>
    if other = uri then
      match
        ((heard generator settings ttl past).receive generator now other text version).outcome with
      | .ok (some generated) => generated.js.getD [] :: contents uri past
      | _ => contents uri past
    else contents uri past
  | .close other :: past => if other = uri then [] else contents uri past

/-! ## One text -/

section Taken

variable (w : Workspace τ) (now : τ) (uri : String) (text : Received) (version : Int)

/-- The three ways in which a text is taken up when there is an outcome for every text: its document
is passed over, it is only kept since it cannot be encoded, or its outcome and its virtual file are
set. -/
inductive TakenUp : Prop
  | passed (other : w.handles uri ≠ .ok true) (outcome : Except Fault (Option Generated))
      (nothing : ∀ g, outcome ≠ .ok (some g))
      (taken : w.receive generator now uri text version = { workspace := w, outcome })
  | unencoded (handled : w.handles uri = .ok true) (flawed : text.text? = none)
      (taken : w.receive generator now uri text version =
        { workspace := { w with documents := w.documents.put uri ⟨⟨text.shown, uri⟩, version⟩ }
          outcome := .error text.flaw })
  | done (t : Text) (result : Computed Generated) (name : String)
      (handled : w.handles uri = .ok true) (encoded : text.text? = some t)
      (named : virtualFileName uri = .ok name)
      (made : (w.cache.get (digest t) (some uri) now (generator ⟨t, uri⟩)).outcome = .ok result)
      (taken : w.receive generator now uri text version =
        let answer := w.cache.get (digest t) (some uri) now (generator ⟨t, uri⟩)
        let sync := syncFile (w.virtualFiles.get? uri) name (result.value.js.getD [])
        { workspace :=
            { w with
              documents := w.documents.put uri ⟨⟨t, uri⟩, version⟩
              cache := answer.cache
              virtualFiles := w.virtualFiles.put uri sync.1 }
          events := answer.journal
          notices := sync.2
          outcome := .ok (some result.value) })

theorem takenUp (succeeds : ∀ d, ∃ g, (generator d).outcome = .ok g) :
    TakenUp generator w now uri text version := by
  cases encoded : text.text? with
  | none =>
    cases handled : w.handles uri with
    | error fault =>
      exact .passed (by simp [handled]) (.error fault) (by simp) (by simp only [receive, handled])
    | ok b =>
      cases b with
      | false =>
        exact .passed (by simp [handled]) (.ok none) (by simp) (by simp only [receive, handled])
      | true =>
        refine .unencoded handled encoded ?_
        simp only [receive, handled, Received.digest_of_text?_eq_none encoded]
  | some t =>
    obtain rfl := Received.eq_ofText_of_text? encoded
    cases w.changed generator now uri t version with
    | unreadable fault address changed =>
      exact .passed (by simp [address]) (.error fault) (by simp) changed
    | ignored other changed => exact .passed (by simp [other]) (.ok none) (by simp) changed
    | failed fault handled made changed =>
      obtain ⟨g, success⟩ := succeeds ⟨t, uri⟩
      rw [made] at success
      cases success
    | done result name handled named made changed =>
      exact .done t result name handled encoded named made changed

end Taken

/-! ## Open documents -/

section Open

variable {generator settings ttl} (succeeds : ∀ d, ∃ g, (generator d).outcome = .ok g)
include succeeds

theorem settings_heard (past : List (Message τ)) :
    (heard generator settings ttl past).settings = settings := by
  induction past with
  | nil => rfl
  | cons message past ih =>
    cases message with
    | close uri => exact ih
    | write now uri text version =>
      rw [heard, hear]
      cases takenUp generator (heard generator settings ttl past) now uri text version succeeds with
      | passed other outcome nothing taken => rwa [taken]
      | unencoded handled flawed taken => rwa [taken]
      | done t result name handled encoded named made taken => rwa [taken]

/-- Which documents are handled does not change. -/
theorem handles_heard (past : List (Message τ)) (uri : String) :
    (heard generator settings ttl past).handles uri =
      (empty settings ttl : Workspace τ).handles uri := by
  unfold handles
  rw [settings_heard succeeds past]
  rfl

/-- A text opens its document, if that is handled. -/
theorem isSome_documents_receive (w : Workspace τ) (now : τ) (uri : String) (text : Received)
    (version : Int) (other : String) :
    ((w.receive generator now uri text version).workspace.documents.get? other).isSome ↔
      w.handles uri = .ok true ∧ uri = other ∨ (w.documents.get? other).isSome := by
  have put : w.handles uri = .ok true → ∀ document : OpenDocument,
      (((w.documents.put uri document).get? other).isSome ↔
        w.handles uri = .ok true ∧ uri = other ∨ (w.documents.get? other).isSome) := by
    intro handled document
    rw [Table.get?_put]
    by_cases own : uri = other
    · simp [own, ← handled]
    · rw [if_neg (Ne.symm own), or_iff_right fun both => own both.2]
  cases takenUp generator w now uri text version succeeds with
  | passed absent outcome nothing taken => rw [taken, or_iff_right fun both => absent both.1]
  | unencoded handled flawed taken =>
    rw [taken]
    exact put handled _
  | done t result name handled encoded named made taken =>
    rw [taken]
    exact put handled _

/-- A document is open if it is handled and there was a text for it. -/
theorem documents_heard_iff (past : List (Message τ)) (uri : String) :
    ((heard generator settings ttl past).documents.get? uri).isSome ↔
      (empty settings ttl : Workspace τ).handles uri = .ok true ∧ Message.textsOf uri past ≠ [] := by
  induction past with
  | nil => simp [heard, empty, Table.get?, Message.textsOf]
  | cons message past ih =>
    cases message with
    | close other =>
      rw [heard, hear, edit, Message.textsOf]
      simp only [Workspace.close, Table.get?_erase]
      by_cases own : other = uri
      · simp [own]
      · rw [if_neg (Ne.symm own), if_neg own, ih]
    | write now other text version =>
      rw [heard, hear, isSome_documents_receive succeeds, handles_heard succeeds, ih,
        Message.textsOf]
      by_cases own : other = uri
      · subst own
        by_cases handled : (empty settings ttl : Workspace τ).handles other = .ok true
        · simp [handled]
        · simp [handled]
      · rw [if_neg own, or_iff_right fun both => own both.2]

/-- A document has contents if it is handled and one of its texts can be encoded. -/
theorem contents_ne_nil_iff (past : List (Message τ)) (uri : String) :
    contents generator settings ttl uri past ≠ [] ↔
      (empty settings ttl : Workspace τ).handles uri = .ok true ∧
        ∃ text ∈ Message.textsOf uri past, text.text?.isSome := by
  induction past with
  | nil => simp [contents, Message.textsOf]
  | cons message past ih =>
    cases message with
    | close other =>
      rw [contents, Message.textsOf]
      by_cases own : other = uri
      · simp [own]
      · rw [if_neg own, if_neg own, ih]
    | write now other text version =>
      rw [contents, Message.textsOf]
      by_cases own : other = uri
      · subst own
        rw [if_pos rfl, if_pos rfl]
        cases takenUp generator (heard generator settings ttl past) now other text version
          succeeds with
        | passed absent outcome nothing taken =>
          rw [handles_heard succeeds] at absent
          rw [taken]
          split
          · next g some => exact absurd some (nothing g)
          · simp [ih, absent]
        | unencoded handled flawed taken => simp [taken, ih, flawed]
        | done t result name handled encoded named made taken =>
          rw [handles_heard succeeds] at handled
          simp [taken, handled, encoded]
      · rw [if_neg own, if_neg own, ih]

end Open

/-! ## One document -/

/-- How a document stands: without any content; or with a virtual file of its last content, whose
version counts the contents before it. -/
inductive Stands (uri : String) (file : Option VirtualFile)
    (latest : Option (Computed Generated)) (contents : List Text) : Prop
  | blank (unwritten : file = none) (forgotten : latest = none) (none_yet : contents = [])
  | filled (written : VirtualFile) (result : Computed Generated) (before : List Text)
      (virtual : file = some written) (kept : latest = some result)
      (last : contents = written.content :: before) (named : virtualFileName uri = .ok written.name)
      (content : written.content = result.value.js.getD [])
      (version : written.version + 1 =
        ((written.content :: before).destutter (· ≠ ·)).length)

/-- Setting the content of a virtual file sends exactly the update that is missing. -/
theorem Stands.sync {uri name : String} {file : Option VirtualFile}
    {latest : Option (Computed Generated)} {before : List Text} {log : List FileNotice}
    (h : Stands uri file latest before) (named : virtualFileName uri = .ok name)
    (sent : updatesOf name log = numbered (before.destutter (· ≠ ·)))
    (result : Computed Generated) :
    let sync := syncFile file name (result.value.js.getD [])
    Stands uri (some sync.1) (some result) (result.value.js.getD [] :: before) ∧
      updatesOf name (sync.2.reverse ++ log) =
        numbered ((result.value.js.getD [] :: before).destutter (· ≠ ·)) ∧
      ∀ other ≠ name, updatesOf other (sync.2.reverse ++ log) = updatesOf other log := by
  intro sync
  cases h with
  | blank unwritten forgotten none_yet =>
    subst unwritten none_yet
    refine ⟨.filled _ result [] rfl rfl rfl named rfl rfl, ?_, fun other apart => ?_⟩
    · simp [sync, syncFile, updatesOf, sent, numbered]
    · simp [sync, syncFile, updatesOf, Ne.symm apart]
  | filled file latest before virtual kept last own content version =>
    subst virtual last
    have same : file.name = name := Except.ok.inj (own.symm.trans named)
    by_cases repeated : file.content = result.value.js.getD []
    · have silent : sync = (file, []) := by
        simp only [sync, syncFile, beq_iff_eq, if_pos repeated]
      rw [silent, ← repeated]
      refine ⟨.filled file result _ rfl rfl rfl own repeated ?_, ?_, fun other apart => rfl⟩
      · rw [destutter_cons_self, version]
      · rw [destutter_cons_self, List.reverse_nil, List.nil_append, sent]
    · have spoken : sync =
          (⟨file.name, result.value.js.getD [], file.version + 1⟩,
            [.updated file.name (file.version + 1) (result.value.js.getD [])]) := by
        simp only [sync, syncFile, beq_iff_eq, if_neg repeated]
      rw [spoken]
      refine ⟨.filled _ result _ rfl rfl rfl own rfl ?_, ?_, fun other apart => ?_⟩
      · rw [destutter_cons_of_ne repeated, List.length_cons, version]
        rfl
      · simp only [List.reverse_singleton, List.singleton_append, updatesOf, if_pos same]
        rw [destutter_cons_of_ne repeated, numbered, sent, version]
      · simp only [List.reverse_singleton, List.singleton_append, updatesOf, same,
          if_neg (Ne.symm apart)]

/-! ## All documents -/

/-- The workspace and the service go with the history of the documents. -/
structure InStep (history : List (Message τ)) : Prop where
  once : (heard generator settings ttl history).cache.entries.keys.Nodup
  stands : ∀ uri,
    Stands uri ((heard generator settings ttl history).virtualFiles.get? uri)
      ((heard generator settings ttl history).cache.latest? uri)
      (contents generator settings ttl uri history)
  /-- Every document has sent what is due. -/
  sent : ∀ uri ∈ history.map Message.uri, ∀ name, virtualFileName uri = .ok name →
    updatesOf name (told generator settings ttl history) =
      numbered ((contents generator settings ttl uri history).destutter (· ≠ ·))
  /-- Every file that was sent is that of a document. -/
  owned : ∀ name, updatesOf name (told generator settings ttl history) ≠ [] →
    ∃ uri ∈ history.map Message.uri, virtualFileName uri = .ok name

theorem contents_of_ne {uri : String} (message : Message τ) (past : List (Message τ))
    (apart : uri ≠ message.uri) :
    contents generator settings ttl uri (message :: past) = contents generator settings ttl uri past := by
  cases message with
  | write now other text version => exact if_neg (Ne.symm apart)
  | close other => exact if_neg (Ne.symm apart)

/-- A document that does not occur has no contents. -/
theorem contents_of_not_mem {uri : String} {past : List (Message τ)}
    (absent : uri ∉ past.map Message.uri) : contents generator settings ttl uri past = [] := by
  induction past with
  | nil => rfl
  | cons message past ih =>
    rw [List.map_cons, List.mem_cons, not_or] at absent
    rw [contents_of_ne _ _ _ message past absent.1, ih absent.2]

variable {generator settings ttl} {past : List (Message τ)}

/-- What is due has been sent, also for a document that comes new to a history. -/
theorem InStep.sent_of_namesApart (h : InStep generator settings ttl past) {message : Message τ}
    (apart : NamesApart ((message :: past).map Message.uri)) {name : String}
    (named : virtualFileName message.uri = .ok name) :
    updatesOf name (told generator settings ttl past) =
      numbered ((contents generator settings ttl message.uri past).destutter (· ≠ ·)) := by
  by_cases known : message.uri ∈ past.map Message.uri
  · exact h.sent message.uri known name named
  · rw [contents_of_not_mem _ _ _ known]
    -- a file of that name would be that of another document
    by_contra sent
    obtain ⟨other, met, same⟩ := h.owned name sent
    have own : message.uri = other :=
      apart message.uri List.mem_cons_self other (List.mem_cons_of_mem _ met) name named same
    exact known (own ▸ met)

/-- A message is about one document. If that document is in step after it, and the other ones and
their files are left alone, all documents are. -/
theorem InStep.cons (h : InStep generator settings ttl past) {message : Message τ}
    (apart : NamesApart ((message :: past).map Message.uri))
    (once : (heard generator settings ttl (message :: past)).cache.entries.keys.Nodup)
    (others : ∀ other ≠ message.uri,
      (heard generator settings ttl (message :: past)).virtualFiles.get? other =
        (heard generator settings ttl past).virtualFiles.get? other ∧
      (heard generator settings ttl (message :: past)).cache.latest? other =
        (heard generator settings ttl past).cache.latest? other)
    (stands : Stands message.uri ((heard generator settings ttl (message :: past)).virtualFiles.get? message.uri)
      ((heard generator settings ttl (message :: past)).cache.latest? message.uri)
      (contents generator settings ttl message.uri (message :: past)))
    (sent : ∀ name, virtualFileName message.uri = .ok name →
      updatesOf name (told generator settings ttl (message :: past)) =
        numbered ((contents generator settings ttl message.uri (message :: past)).destutter (· ≠ ·)))
    (foreign : ∀ name, virtualFileName message.uri ≠ .ok name →
      updatesOf name (told generator settings ttl (message :: past)) =
        updatesOf name (told generator settings ttl past)) :
    InStep generator settings ttl (message :: past) where
  once := once
  stands := by
    intro uri
    by_cases own : uri = message.uri
    · rw [own]
      exact stands
    · obtain ⟨file, latest⟩ := others uri own
      rw [file, latest, contents_of_ne _ _ _ message past own]
      exact h.stands uri
  sent := by
    intro uri met name named
    by_cases own : uri = message.uri
    · rw [own] at named ⊢
      exact sent name named
    · have known : uri ∈ past.map Message.uri := by
        rw [List.map_cons, List.mem_cons] at met
        exact met.resolve_left own
      have other : virtualFileName message.uri ≠ .ok name := fun same =>
        own (apart uri met message.uri List.mem_cons_self name named same)
      rw [foreign name other, contents_of_ne _ _ _ message past own]
      exact h.sent uri known name named
  owned := by
    intro name some
    by_cases own : virtualFileName message.uri = .ok name
    · exact ⟨message.uri, List.mem_cons_self, own⟩
    · rw [foreign name own] at some
      obtain ⟨uri, met, named⟩ := h.owned name some
      exact ⟨uri, List.mem_cons_of_mem _ met, named⟩

/-- A text that comes to no outcome and leaves the outcomes and the files alone. -/
theorem InStep.pass (h : InStep generator settings ttl past) {now : τ} {uri : String}
    {text : Received} {version : Int}
    (apart : NamesApart ((Message.write now uri text version :: past).map Message.uri))
    {documents : Table String OpenDocument} {outcome : Except Fault (Option Generated)}
    (taken : (heard generator settings ttl past).receive generator now uri text version =
      { workspace := { heard generator settings ttl past with documents }, outcome })
    (nothing : ∀ g, outcome ≠ .ok (some g)) :
    InStep generator settings ttl (.write now uri text version :: past) := by
  have cache : (heard generator settings ttl (.write now uri text version :: past)).cache =
      (heard generator settings ttl past).cache := by
    simp only [heard, hear, taken]
  have files : (heard generator settings ttl (.write now uri text version :: past)).virtualFiles =
      (heard generator settings ttl past).virtualFiles := by
    simp only [heard, hear, taken]
  have same : contents generator settings ttl uri (.write now uri text version :: past) =
      contents generator settings ttl uri past := by
    simp only [contents, taken, if_true]
  have silent : told generator settings ttl (.write now uri text version :: past) =
      told generator settings ttl past := by
    simp only [told, hear, taken, List.reverse_nil, List.nil_append]
  refine h.cons apart ?_ (fun other _ => ?_) ?_ (fun name named => ?_) (fun name _ => ?_)
  · rw [cache]
    exact h.once
  · rw [cache, files]
    exact ⟨rfl, rfl⟩
  · rw [cache, files, Message.uri, same]
    exact h.stands uri
  · rw [silent, Message.uri, same]
    exact h.sent_of_namesApart apart named
  · rw [silent]

theorem InStep.close (h : InStep generator settings ttl past) {uri : String}
    (apart : NamesApart ((Message.close uri :: past).map Message.uri)) :
    InStep generator settings ttl (.close uri :: past) := by
  have ended : contents generator settings ttl uri (.close uri :: past) = [] := if_pos rfl
  have log : told generator settings ttl (.close uri :: past) =
      (((heard generator settings ttl past).virtualFiles.get? uri).toList.map fun file =>
        .removed file.name).reverse ++ told generator settings ttl past := rfl
  refine h.cons apart h.once (fun other away => ?_) ?_ (fun name named => ?_) (fun name away => ?_)
  · exact ⟨Table.get?_erase_of_ne _ away, Table.get?_erase_of_ne _ away⟩
  · simp only [heard, hear, edit, Workspace.close, Cache.latest?, Message.uri,
      Table.get?_erase_self, ended]
    exact .blank rfl rfl rfl
  · have due := h.sent_of_namesApart apart named
    simp only [Message.uri] at due named ⊢
    rw [log, ended]
    cases h.stands uri with
    | blank unwritten forgotten none_yet =>
      rw [unwritten]
      rw [none_yet] at due
      exact due
    | filled file result before virtual kept last own content version =>
      have same : file.name = name := Except.ok.inj (own.symm.trans named)
      rw [virtual]
      exact if_pos same
  · rw [log]
    cases h.stands uri with
    | blank unwritten forgotten none_yet =>
      rw [unwritten]
      rfl
    | filled file result before virtual kept last own content version =>
      have foreign : file.name ≠ name := fun same => away (same ▸ own)
      rw [virtual]
      exact if_neg foreign

/-- A text whose outcome is taken over. -/
theorem InStep.done (h : InStep generator settings ttl past) {now : τ} {uri : String}
    {text : Received} {version : Int}
    (apart : NamesApart ((Message.write now uri text version :: past).map Message.uri)) {t : Text}
    {result : Computed Generated} {name : String} (named : virtualFileName uri = .ok name)
    (made : ((heard generator settings ttl past).cache.get (digest t) (some uri) now
      (generator ⟨t, uri⟩)).outcome = .ok result)
    (taken : (heard generator settings ttl past).receive generator now uri text version =
      let w := heard generator settings ttl past
      let answer := w.cache.get (digest t) (some uri) now (generator ⟨t, uri⟩)
      let sync := syncFile (w.virtualFiles.get? uri) name (result.value.js.getD [])
      { workspace :=
          { w with
            documents := w.documents.put uri ⟨⟨t, uri⟩, version⟩
            cache := answer.cache
            virtualFiles := w.virtualFiles.put uri sync.1 }
        events := answer.journal
        notices := sync.2
        outcome := .ok (some result.value) }) :
    InStep generator settings ttl (.write now uri text version :: past) := by
  have returned := Cache.returned_of_get h.once made
  have latest := Cache.latest?_of_get made
  have due := h.sent_of_namesApart apart named
  obtain ⟨stands, sent, foreign⟩ := (h.stands uri).sync named due result
  have newest : contents generator settings ttl uri (.write now uri text version :: past) =
      result.value.js.getD [] :: contents generator settings ttl uri past := by
    simp only [contents, if_true, taken]
  refine h.cons apart ?_ (fun other (away : other ≠ uri) => ?_) ?_ (fun name' named' => ?_)
    (fun name' away => ?_)
  · simp only [heard, hear, taken]
    exact returned.once
  · simp only [heard, hear, taken]
    exact ⟨Table.get?_put_of_ne _ _ away,
      (latest other).trans (if_neg (by simpa using Ne.symm away))⟩
  · simp only [heard, hear, taken, Message.uri, Table.get?_put_self, newest, latest, if_true]
    exact stands
  · obtain rfl : name = name' := Except.ok.inj (named.symm.trans named')
    simp only [told, hear, taken, Message.uri, newest]
    exact sent
  · simp only [told, hear, taken]
    exact foreign name' fun same => away (same ▸ named)

/-- **Documents and files stay in step, message by message.** -/
theorem inStep_of_namesApart (succeeds : ∀ d, ∃ g, (generator d).outcome = .ok g)
    (apart : NamesApart (past.map Message.uri)) : InStep generator settings ttl past := by
  induction past with
  | nil =>
    refine ⟨List.nodup_nil, fun uri => .blank rfl rfl rfl, ?_, ?_⟩
    · intro uri met
      cases met
    · intro name some
      exact absurd rfl some
  | cons message past ih =>
    have before := ih fun uri met other met' =>
      apart uri (List.mem_cons_of_mem _ met) other (List.mem_cons_of_mem _ met')
    cases message with
    | close uri => exact before.close apart
    | write now uri text version =>
      cases takenUp generator (heard generator settings ttl past) now uri text version succeeds with
      | passed other outcome nothing taken => exact before.pass apart taken nothing
      | unencoded handled flawed taken => exact before.pass apart taken (by simp)
      | done t result name handled encoded named made taken =>
        exact before.done apart named made taken

namespace InStep

variable (h : InStep generator settings ttl past) (uri : String)
include h

/-- A document has a virtual file if it has contents. -/
theorem isSome_file_iff :
    ((heard generator settings ttl past).virtualFiles.get? uri).isSome ↔
      contents generator settings ttl uri past ≠ [] := by
  cases h.stands uri with
  | blank unwritten forgotten none_yet => simp [unwritten, none_yet]
  | filled file result before virtual kept last own content version => simp [virtual, last]

/-- A document has a latest result if it has contents. -/
theorem isSome_latest_iff :
    ((heard generator settings ttl past).cache.latest? uri).isSome ↔
      contents generator settings ttl uri past ≠ [] := by
  cases h.stands uri with
  | blank unwritten forgotten none_yet => simp [forgotten, none_yet]
  | filled file result before virtual kept last own content version => simp [kept, last]

/-- The service holds a virtual file as it is, and its content is that of the latest result. -/
theorem held_of_file {file : VirtualFile}
    (found : (heard generator settings ttl past).virtualFiles.get? uri = some file) :
    virtualFileName uri = .ok file.name ∧
      (held (told generator settings ttl past)).get? file.name =
        some (file.content, file.version) ∧
      ∃ result, (heard generator settings ttl past).cache.latest? uri = some result ∧
        file.content = result.value.js.getD [] := by
  cases h.stands uri with
  | blank unwritten forgotten none_yet =>
    rw [unwritten] at found
    cases found
  | filled written result before virtual kept last own content version =>
    obtain rfl : written = file := Option.some.inj (virtual.symm.trans found)
    refine ⟨own, ?_, result, kept, content⟩
    have met : uri ∈ past.map Message.uri := by
      by_contra absent
      rw [contents_of_not_mem _ _ _ absent] at last
      cases last
    obtain ⟨earlier, newest⟩ := exists_destutter_cons written.content before
    have counted : written.version = earlier.length := by
      rw [newest, List.length_cons] at version
      omega
    rw [get?_held, h.sent uri met _ own, last, newest, numbered, List.head?_cons, counted]

omit uri in
/-- The service holds no other files. -/
theorem exists_of_held {name : String}
    (known : ((held (told generator settings ttl past)).get? name).isSome) :
    ∃ uri, ((heard generator settings ttl past).virtualFiles.get? uri).isSome ∧
      virtualFileName uri = .ok name := by
  rw [get?_held] at known
  have some : updatesOf name (told generator settings ttl past) ≠ [] := by
    intro none
    rw [none] at known
    cases known
  obtain ⟨uri, met, named⟩ := h.owned name some
  refine ⟨uri, (h.isSome_file_iff uri).2 fun empty => ?_, named⟩
  rw [h.sent uri met name named, empty] at some
  exact some rfl

end InStep

end Workspace

end DialectBridge
