import DialectBridge.Compiler.Recorded
import DialectBridge.Proofs.CacheHistory
import DialectBridge.Proofs.Outcomes
import DialectBridge.Workspace

/-!
# Documents and their outcomes

A history of a workspace is the list of edits made in it, the newest first. A change of a document
can end in four ways (`Changed`), and every law of histories is read off from these.

A document is taken up before its outcome is computed. So where the computation fails, the workspace
has the new text beside the outcome of the text before it. That is the only way in which the two can
drift apart: the outcome of a document that has one is that of its text if and only if its last
change did not fail.
-/

set_option autoImplicit false

namespace DialectBridge

/-! ## Outcomes and addresses -/

theorem Fault.toOption_bind {α β : Type} (first : Except Fault α) (next : α → Except Fault β) :
    (first >>= next).toOption = first.toOption >>= fun a => (next a).toOption := by
  cases first <;> rfl

theorem Recovery.toOption_reconstruct (js : Text) (map : ColumnMap) (candidate : Candidate)
    (e : ErrorLine) (d : Diagnostic) (uri other : String) :
    (reconstruct js map candidate e d uri).toOption =
      (reconstruct js map candidate e d other).toOption := by
  dsimp only [reconstruct]
  split
  · rfl
  · split
    · rfl
    · split <;> rfl

theorem Recovery.toOption_compile (compiler : Compiler) (t : Text) (uri other : String) :
    (compile compiler t uri).outcome.toOption = (compile compiler t other).outcome.toOption := by
  simp only [compile, Run.outcome_bind, Fault.toOption_bind]
  refine bind_congr fun attempt => ?_
  cases attempt with
  | compiled js map => rfl
  | textless map => rfl
  | failed d =>
    dsimp only
    rw [Run.outcome_note_bind, Run.outcome_note_bind]
    simp only [Run.outcome_bind, Fault.toOption_bind]
    have same : ErrorLine.locate ⟨t, uri⟩ d.range.start.line =
        ErrorLine.locate ⟨t, other⟩ d.range.start.line := rfl
    rw [same]
    refine bind_congr fun found => ?_
    cases found with
    | none => rfl
    | some success =>
      obtain ⟨candidate, js, map⟩ := success
      cases js with
      | none => rfl
      | some js => exact toOption_reconstruct _ _ _ _ _ _ _

theorem Pipeline.toOption_compile (compiler : Compiler) (t : Text) (uri other : String) :
    (compile compiler t uri).outcome.toOption = (compile compiler t other).outcome.toOption := by
  simp only [compile, Run.outcome_bind, Fault.toOption_bind]
  rw [Recovery.toOption_compile compiler t uri other]
  refine bind_congr fun first => ?_
  split
  · rfl
  · rw [Run.outcome_notes_bind, Run.outcome_notes_bind]
    simp only [Run.outcome_bind, Fault.toOption_bind]
    rw [Recovery.toOption_compile compiler _ uri other]
    refine bind_congr fun second => ?_
    split <;> rfl

/-- **What a source becomes does not depend on its address**; only the wording of a fault does. -/
theorem toOption_generate (compiler : Compiler) (source : Document) :
    (generate compiler source).outcome.toOption =
      (generate compiler ⟨source.text, ""⟩).outcome.toOption := by
  dsimp only [generate]
  rw [Run.outcome_notes_bind, Run.outcome_notes_bind]
  simp only [Run.outcome_bind, Fault.toOption_bind]
  rw [Pipeline.toOption_compile compiler _ source.uri ""]
  refine bind_congr fun first => ?_
  refine bind_congr fun g => ?_
  by_cases mapped : g.hasMap = true
  · rw [Pipeline.outcome_finish_of_hasMap mapped, Pipeline.outcome_finish_of_hasMap mapped]
  · dsimp only [Pipeline.finish]
    rw [if_neg mapped, if_neg mapped]
    rfl

namespace Workspace

variable {τ : Type}

/-! ## One change -/

/-- Whoever knows whether a document is handled also knows the name of its virtual file. -/
theorem exists_virtualFileName {w : Workspace τ} {uri : String} {handled : Bool}
    (h : w.handles uri = .ok handled) : ∃ name, virtualFileName uri = .ok name := by
  unfold handles at h
  unfold virtualFileName
  cases resolved : Address.toPath uri with
  | ok path => exact ⟨path ++ ".ts", rfl⟩
  | error fault =>
    rw [resolved] at h
    cases h

/-- Where there is an outcome, there is a document and a latest result. -/
theorem exists_of_ready? {w : Workspace τ} {uri : String} {r : Ready}
    (h : w.ready? uri = some r) :
    ∃ d result, w.documents.get? uri = some d ∧ w.cache.latest? uri = some result ∧
      r.document = d.document ∧ r.generated = result.value := by
  unfold ready? at h
  obtain ⟨d, found, h⟩ := Option.bind_eq_some_iff.1 h
  obtain ⟨result, latest, h⟩ := Option.bind_eq_some_iff.1 h
  obtain ⟨js, -, h⟩ := Option.bind_eq_some_iff.1 h
  cases h
  exact ⟨d, result, found, latest, rfl, rfl⟩

/-- What is done with documents. To open a document is its first change. -/
inductive Edit (τ : Type) where
  | change (now : τ) (uri : String) (text : Text) (version : Int)
  | close (uri : String)

/-- The texts that documents were given in a history. -/
def texts (past : List (Edit τ)) : Set Text :=
  {text | ∃ now uri version, .change now uri text version ∈ past}

theorem texts_subset_cons (e : Edit τ) (past : List (Edit τ)) : texts past ⊆ texts (e :: past) := by
  rintro text ⟨now, uri, version, member⟩
  exact ⟨now, uri, version, List.mem_cons_of_mem _ member⟩

variable [Add τ] [LT τ] [DecidableLT τ] [LE τ] [DecidableLE τ]

/-- The four ways in which a change ends: its address cannot be read, it is none of the documents
that are handled, its text comes to no outcome, or its outcome and its virtual file are set. -/
inductive Changed (w : Workspace τ) (generator : Generator) (now : τ) (uri : String) (text : Text)
    (version : Int) : Prop
  | unreadable (fault : Fault) (address : w.handles uri = .error fault)
      (changed : w.change generator now uri text version =
        { workspace := w, outcome := .error fault })
  | ignored (other : w.handles uri = .ok false)
      (changed : w.change generator now uri text version = { workspace := w, outcome := .ok none })
  | failed (fault : Fault) (handled : w.handles uri = .ok true)
      (made : (generator ⟨text, uri⟩).outcome = .error fault)
      (changed : w.change generator now uri text version =
        { workspace := { w with documents := w.documents.put uri ⟨⟨text, uri⟩, version⟩ }
          events := (generator ⟨text, uri⟩).journal
          outcome := .error fault })
  | done (result : Computed Generated) (name : String) (handled : w.handles uri = .ok true)
      (named : virtualFileName uri = .ok name)
      (made : (w.cache.get (digest text) (some uri) now (generator ⟨text, uri⟩)).outcome =
        .ok result)
      (changed : w.change generator now uri text version =
        let answer := w.cache.get (digest text) (some uri) now (generator ⟨text, uri⟩)
        let sync := syncFile (w.virtualFiles.get? uri) name (result.value.js.getD [])
        { workspace :=
            { w with
              documents := w.documents.put uri ⟨⟨text, uri⟩, version⟩
              cache := answer.cache
              virtualFiles := w.virtualFiles.put uri sync.1 }
          events := answer.journal
          notices := sync.2
          outcome := .ok (some result.value) })

theorem changed (w : Workspace τ) (generator : Generator) (now : τ) (uri : String) (text : Text)
    (version : Int) : Changed w generator now uri text version := by
  cases handled : w.handles uri with
  | error fault => exact .unreadable fault handled (by simp only [change, receive, handled])
  | ok b =>
    cases b with
    | false => exact .ignored handled (by simp only [change, receive, handled])
    | true =>
      obtain ⟨name, named⟩ := exists_virtualFileName handled
      cases w.cache.answered (digest text) (some uri) now (generator ⟨text, uri⟩) with
      | found entry valid answer =>
        refine .done entry.result name handled named (by rw [answer]) ?_
        simp only [change, receive, handled, Received.shown_ofText, Received.digest_ofText, answer,
          named]
      | computed value invalid made answer =>
        refine .done ⟨value, w.cache.computed⟩ name handled named (by rw [answer]) ?_
        simp only [change, receive, handled, Received.shown_ofText, Received.digest_ofText, answer,
          named]
      | failed fault invalid made answer =>
        refine .failed fault handled made ?_
        simp only [change, receive, handled, Received.shown_ofText, Received.digest_ofText, answer]

/-! ## Histories -/

/-- One edit. -/
def edit (generator : Generator) (w : Workspace τ) : Edit τ → Change τ (Option Generated)
  | .change now uri text version => w.change generator now uri text version
  | .close uri =>
    { workspace := (w.close uri).workspace, notices := (w.close uri).notices, outcome := .ok none }

variable (generator : Generator) (settings : Settings) (ttl : τ)

/-- The workspace after a history, which begins without documents. -/
def after : List (Edit τ) → Workspace τ
  | [] => .empty settings ttl
  | e :: past => ((after past).edit generator e).workspace

/-- Whether the last change of a document that has not been closed since failed. -/
def lastFailed (uri : String) : List (Edit τ) → Bool
  | [] => false
  | .change now other text version :: past =>
    if other = uri then
      match
        ((after generator settings ttl past).change generator now other text version).outcome with
      | .ok _ => false
      | .error _ => true
    else lastFailed uri past
  | .close other :: past => if other = uri then false else lastFailed uri past

theorem lastFailed_of_ne {uri other : String} (apart : other ≠ uri) (now : τ) (text : Text)
    (version : Int) (past : List (Edit τ)) :
    lastFailed generator settings ttl uri (.change now other text version :: past) =
      lastFailed generator settings ttl uri past := by
  rw [lastFailed, if_neg apart]

/-! ## What a workspace has of its history -/

/-- The text of a document and its latest outcome go together: the outcome is that of the text, or,
where the last change failed, the text has none. -/
def Fits (transpile : Text → Option Generated) (failed : Bool) (text : Text)
    (latest : Option (Computed Generated)) : Prop :=
  if failed then transpile text = none
  else ∃ result, latest = some result ∧ transpile text = some result.value

/-- A workspace that goes with its history. -/
structure Keeps (transpile : Text → Option Generated) (past : List (Edit τ))
    (w : Workspace τ) : Prop where
  once : w.cache.entries.keys.Nodup
  entered : ∀ key entry, w.cache.entries.get? key = some entry →
    ∃ text ∈ texts past, digest text = key ∧ transpile text = some entry.result.value
  handled : ∀ uri d, w.documents.get? uri = some d → w.handles uri = .ok true
  fits : ∀ uri d, w.documents.get? uri = some d →
    Fits transpile (lastFailed generator settings ttl uri past) d.document.text
      (w.cache.latest? uri)

variable {generator settings ttl} {transpile : Text → Option Generated}
  {past : List (Edit τ)}

/-- The result of a request is that of its text, since no other text has its digest. -/
theorem Keeps.transpile_eq {w : Workspace τ} (h : Keeps generator settings ttl transpile past w)
    {now : τ} {uri : String} {text : Text} {version : Int}
    (follows : (generator ⟨text, uri⟩).outcome.toOption = transpile text)
    (distinct : Set.InjOn digest (texts (.change now uri text version :: past)))
    {result : Computed Generated} {next : Cache τ String Generated}
    (returned : w.cache.Returned (digest text) (some uri) (generator ⟨text, uri⟩) result next) :
    transpile text = some result.value := by
  rcases returned.source with ⟨entry, found, rfl⟩ | made
  · obtain ⟨other, asked, same, value⟩ := h.entered _ entry found
    have own : other = text := distinct (texts_subset_cons _ _ asked)
      ⟨now, uri, version, List.mem_cons_self⟩ same
    rw [← own, value]
  · rw [← follows, made]
    rfl

theorem Keeps.close {w : Workspace τ} (h : Keeps generator settings ttl transpile past w)
    (uri : String) :
    Keeps generator settings ttl transpile (.close uri :: past) (w.close uri).workspace where
  once := h.once
  entered := by
    intro key entry found
    obtain ⟨text, asked, value⟩ := h.entered key entry found
    exact ⟨text, texts_subset_cons _ _ asked, value⟩
  handled := by
    intro other d found
    simp only [Workspace.close, Table.get?_erase] at found
    split at found
    · cases found
    · exact h.handled other d found
  fits := by
    intro other d found
    simp only [Workspace.close, Table.get?_erase] at found
    split at found
    · cases found
    · next apart =>
      have before := h.fits other d found
      simp only [lastFailed, if_neg (Ne.symm apart), Workspace.close, Cache.latest?,
        Table.get?_erase, if_neg apart]
      exact before

/-- A change that is not taken up, of a document that is not open. -/
theorem Keeps.pass {w : Workspace τ} (h : Keeps generator settings ttl transpile past w) {now : τ}
    {uri : String} {text : Text} {version : Int} (absent : w.handles uri ≠ .ok true) :
    Keeps generator settings ttl transpile (.change now uri text version :: past) w where
  once := h.once
  entered := by
    intro key entry found
    obtain ⟨other, asked, value⟩ := h.entered key entry found
    exact ⟨other, texts_subset_cons _ _ asked, value⟩
  handled := h.handled
  fits := by
    intro other d found
    have apart : uri ≠ other := by
      rintro rfl
      exact absent (h.handled uri d found)
    rw [lastFailed_of_ne generator settings ttl apart]
    exact h.fits other d found

/-- A change that is taken up: the text of one document is new, and so may its outcome be. -/
theorem Keeps.takeUp {w : Workspace τ} (h : Keeps generator settings ttl transpile past w) {now : τ}
    {uri : String} {text : Text} {version : Int} {next : Workspace τ}
    (handled : w.handles uri = .ok true) (settled : next.settings = w.settings)
    (documents : next.documents = w.documents.put uri ⟨⟨text, uri⟩, version⟩)
    (once : next.cache.entries.keys.Nodup)
    (entered : ∀ key entry, next.cache.entries.get? key = some entry →
      w.cache.entries.get? key = some entry ∨
        key = digest text ∧ transpile text = some entry.result.value)
    (others : ∀ other ≠ uri, next.cache.latest? other = w.cache.latest? other)
    (own : Fits transpile
      (lastFailed generator settings ttl uri (.change now uri text version :: past)) text
      (next.cache.latest? uri)) :
    Keeps generator settings ttl transpile (.change now uri text version :: past) next where
  once := once
  entered := by
    intro key entry found
    rcases entered key entry found with old | ⟨rfl, value⟩
    · obtain ⟨other, asked, value⟩ := h.entered key entry old
      exact ⟨other, texts_subset_cons _ _ asked, value⟩
    · exact ⟨text, ⟨now, uri, version, List.mem_cons_self⟩, rfl, value⟩
  handled := by
    intro other d found
    rw [documents, Table.get?_put] at found
    have same : next.handles other = w.handles other := by rw [handles, settled, handles]
    rw [same]
    split at found
    · next here =>
      rw [here]
      exact handled
    · exact h.handled other d found
  fits := by
    intro other d found
    rw [documents, Table.get?_put] at found
    split at found
    · next here =>
      cases found
      rw [here]
      exact own
    · next apart =>
      rw [lastFailed_of_ne generator settings ttl (Ne.symm apart), others other apart]
      exact h.fits other d found

/-- A change keeps a workspace in line with its history, however it ends. -/
theorem Keeps.change {now : τ} {uri : String} {text : Text} {version : Int}
    (h : Keeps generator settings ttl transpile past (after generator settings ttl past))
    (follows : ∀ d, (generator d).outcome.toOption = transpile d.text)
    (distinct : Set.InjOn digest (texts (.change now uri text version :: past))) :
    Keeps generator settings ttl transpile (.change now uri text version :: past)
      ((after generator settings ttl past).change generator now uri text version).workspace := by
  cases (after generator settings ttl past).changed generator now uri text version with
  | unreadable fault address changed =>
    rw [changed]
    exact h.pass (by simp [address])
  | ignored other changed =>
    rw [changed]
    exact h.pass (by simp [other])
  | failed fault handled made changed =>
    rw [changed]
    refine h.takeUp handled rfl rfl h.once (fun key entry found => .inl found)
      (fun other apart => rfl) ?_
    have failed : lastFailed generator settings ttl uri (.change now uri text version :: past) =
        true := by
      simp only [lastFailed, changed, if_true]
    rw [Fits, if_pos failed, ← follows ⟨text, uri⟩, made]
    rfl
  | done result name handled named made changed =>
    have returned := Cache.returned_of_get h.once made
    have value := h.transpile_eq (follows _) distinct returned
    have latest := Cache.latest?_of_get made
    rw [changed]
    refine h.takeUp handled rfl rfl returned.once (fun key entry found => ?_)
      (fun other apart => ?_) ?_
    · refine (returned.entered key entry found).imp id fun own => ⟨own.1, ?_⟩
      rw [← follows ⟨text, uri⟩, own.2]
      rfl
    · exact (latest other).trans (if_neg (by simpa using Ne.symm apart))
    · have kept : lastFailed generator settings ttl uri (.change now uri text version :: past) =
          false := by
        simp only [lastFailed, changed, if_true]
      rw [Fits, kept, if_neg (by decide)]
      exact ⟨result, (latest uri).trans (if_pos rfl), value⟩

/-- **A workspace goes with its history, step by step.** -/
theorem keeps_after (follows : ∀ d, (generator d).outcome.toOption = transpile d.text)
    (distinct : Set.InjOn digest (texts past)) :
    Keeps generator settings ttl transpile past (after generator settings ttl past) := by
  induction past with
  | nil =>
    refine ⟨List.nodup_nil, ?_, ?_, ?_⟩
    · intro key entry found
      cases found
    · intro uri d found
      cases found
    · intro uri d found
      cases found
  | cons e past ih =>
    have before := ih (distinct.mono (texts_subset_cons e past))
    cases e with
    | close uri => exact before.close uri
    | change now uri text version => exact before.change follows distinct

/-- **Documents and outcomes drift apart only where a change fails.** In every history whose texts
have different digests, the outcome of a document that has one is that of its text if and only if
its last change did not fail. A change that fails leaves the outcomes and the virtual files as they
were and tells the service nothing; but the text is taken up, unless the address cannot be read. -/
theorem ready?_fits_iff (generator : Generator) (settings : Settings) (ttl : τ)
    (transpile : Text → Option Generated)
    (follows : ∀ d, (generator d).outcome.toOption = transpile d.text)
    {history : List (Edit τ)} (distinct : Set.InjOn digest (texts history)) :
    let w := after generator settings ttl history
    (∀ uri r, w.ready? uri = some r →
      (transpile r.document.text = some r.generated ↔
        lastFailed generator settings ttl uri history = false)) ∧
    ∀ now uri text version fault,
      (w.change generator now uri text version).outcome = .error fault →
        (w.change generator now uri text version).notices = [] ∧
        (w.handles uri = .error fault ∧ (w.change generator now uri text version).workspace = w ∨
          (generator ⟨text, uri⟩).outcome = .error fault ∧
            (w.change generator now uri text version).workspace =
              { w with documents := w.documents.put uri ⟨⟨text, uri⟩, version⟩ }) := by
  intro w
  constructor
  · intro uri r ready
    obtain ⟨d, result, found, latest, document, generated⟩ := exists_of_ready? ready
    have fits := (keeps_after follows distinct).fits uri d found
    rw [document, generated]
    cases last : lastFailed generator settings ttl uri history with
    | false =>
      rw [last, Fits, if_neg (by decide)] at fits
      obtain ⟨other, same, value⟩ := fits
      obtain rfl := Option.some.inj (same.symm.trans latest)
      exact ⟨fun _ => rfl, fun _ => value⟩
    | true =>
      rw [last, Fits, if_pos rfl] at fits
      rw [fits]
      exact ⟨nofun, nofun⟩
  · intro now uri text version fault failure
    cases w.changed generator now uri text version with
    | unreadable flaw address changed =>
      rw [changed] at failure ⊢
      cases failure
      exact ⟨rfl, .inl ⟨address, rfl⟩⟩
    | ignored other changed =>
      rw [changed] at failure
      cases failure
    | failed reason handled made changed =>
      rw [changed] at failure ⊢
      cases failure
      exact ⟨rfl, .inr ⟨made, rfl⟩⟩
    | done result name handled named made changed =>
      rw [changed] at failure
      cases failure

/-- Two documents with a compiler that breaks down at one text. The document whose last change did
not fail has the outcome of its text, also after a change of the other one that failed. -/
theorem ready?_fits_beside_failure :
    let compiler := recordedCompiler [
      ("a = 1".toList, .responded { js := .value "a = 1;".toList, rows := .value [⟨0, 0, 0, 0⟩] }),
      ("xx = 1".toList, .brokeDown "crashed")]
    let transpile := fun text => (generate compiler ⟨text, ""⟩).outcome.toOption
    let history : List (Edit Nat) := [.change 9 "file:///p/a.coffee" "xx = 1".toList 2,
      .change 1 "file:///p/b.coffee" "a = 1".toList 1,
      .change 0 "file:///p/a.coffee" "a = 1".toList 1]
    Set.InjOn digest (texts history) ∧
      lastFailed (generate compiler) {} 180 "file:///p/a.coffee" history = true ∧
      ∃ r, (after (generate compiler) {} 180 history).ready? "file:///p/b.coffee" = some r ∧
        transpile r.document.text = some r.generated := by
  intro compiler transpile history
  have distinct : Set.InjOn digest (texts history) := by
    have few : ∀ text ∈ texts history, text ∈ ["a = 1".toList, "xx = 1".toList] := by
      rintro text ⟨now, uri, version, given⟩
      simp only [history, List.mem_cons, Edit.change.injEq, List.not_mem_nil, or_false] at given
      rcases given with ⟨-, -, rfl, -⟩ | ⟨-, -, rfl, -⟩ | ⟨-, -, rfl, -⟩ <;> simp
    have apart : ∀ text ∈ ["a = 1".toList, "xx = 1".toList],
        ∀ other ∈ ["a = 1".toList, "xx = 1".toList],
          digest text = digest other → text = other := by decide +kernel
    exact fun text given other given' => apart text (few text given) other (few other given')
  have found : ((after (generate compiler) {} 180 history).ready? "file:///p/b.coffee").isSome := by
    decide +kernel
  obtain ⟨r, ready⟩ := Option.isSome_iff_exists.1 found
  refine ⟨distinct, by decide +kernel, r, ready, ?_⟩
  have law := ready?_fits_iff (generate compiler) {} 180 transpile (toOption_generate compiler)
    distinct
  exact (law.1 _ r ready).2 (by decide +kernel)

/-- When the compiler breaks down at a change, the workspace has the new text of the document beside
the outcome of its old text. -/
theorem ready?_after_failure :
    let compiler := recordedCompiler [
      ("a = 1".toList, .responded { js := .value "a = 1;".toList, rows := .value [⟨0, 0, 0, 0⟩] }),
      ("xx = 1".toList, .brokeDown "crashed")]
    let uri := "file:///p/a.coffee"
    let history : List (Edit Nat) :=
      [.change 0 uri "xx = 1".toList 2, .change 0 uri "a = 1".toList 1]
    ∃ r, (after (generate compiler) {} 180 history).ready? uri = some r ∧
      r.document.text = "xx = 1".toList ∧
      (generate compiler r.document).outcome = .error (.runtimeFailed "crashed") ∧
      (generate compiler ⟨"a = 1".toList, uri⟩).outcome = .ok r.generated := by
  intro compiler uri history
  have drifted : ((after (generate compiler) {} 180 history).ready? uri).any fun r =>
      r.document.text = "xx = 1".toList ∧
        (generate compiler r.document).outcome = .error (.runtimeFailed "crashed") ∧
        (generate compiler ⟨"a = 1".toList, uri⟩).outcome = .ok r.generated := by
    decide +kernel
  obtain ⟨r, ready, apart⟩ := (Option.any_eq_true _ _).1 drifted
  exact ⟨r, ready, of_decide_eq_true apart⟩

end Workspace

end DialectBridge
