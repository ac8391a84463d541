import DialectBridge.Proofs.Addressing
import DialectBridge.Proofs.ChosenTargets
import DialectBridge.Proofs.Completions

/-!
# Diagnostics of the service in the source

The diagnostics of a document without syntax errors are those of the service, without the ignored
ones. Each is reported once (`Reports`), in the order of the service, and its range comes from one
of four places (`Placed`): from the span itself where there is no map, from the ends of the span
where both can be mapped, from the word at the mapped start where the ends are mapped the wrong way
around, and from the first character of the source where an end has no source. None of these ranges
is inverted (`Placed.upright`). Offsets outside the generated text stand for its ends, and the
positions of later offsets are later.

Mapping aside, two things keep a report from being made (`Unplaceable`): an end of the span is at a
place that no position can have, or the word at the mapped start ends at such a place. The word has
at least one character, so this happens even on an empty line when the start is in the last column
there can be. Then there are no reports at all.
-/

set_option autoImplicit false

namespace DialectBridge

/-! ## Positions of offsets -/

namespace Document

variable {d : Document}

/-- The lines of later offsets are not above those of earlier ones. -/
theorem lineOf_mono {o o' : Nat} (le : o ≤ o') (inside : o' ≤ d.text.length) :
    d.lineOf o ≤ d.lineOf o' := by
  obtain ⟨-, begins, -⟩ := lineOf_separates (Nat.le_trans le inside)
  obtain ⟨-, -, ends⟩ := lineOf_separates inside
  refine Nat.le_of_not_lt fun below => ?_
  have := d.lineStart_mono (show d.lineOf o' + 1 ≤ d.lineOf o from below)
  omega

theorem clamp_mono (d : Document) {a b : Int} (le : a ≤ b) : d.clamp a ≤ d.clamp b := by
  unfold clamp
  omega

/-- The line and the column of an offset, which is moved into the text, can be addressed. -/
def Addressable (d : Document) (offset : Int) : Prop :=
  d.lineOf (d.clamp offset) ≤ Position.limit ∧
    d.clamp offset - d.lineStart (d.lineOf (d.clamp offset)) ≤ Position.limit

theorem positionAt_eq_ok_iff {offset : Int} {p : Position} :
    d.positionAt offset = .ok p ↔ p.line = d.lineOf (d.clamp offset) ∧
      p.character = d.clamp offset - d.lineStart (d.lineOf (d.clamp offset)) := by
  rw [positionAt_eq, Position.make_eq_ok_iff, Int.natCast_inj, Int.natCast_inj]

/-- An offset has a position exactly when its line and its column can be addressed. -/
theorem exists_positionAt_iff {offset : Int} :
    (∃ p, d.positionAt offset = .ok p) ↔ d.Addressable offset := by
  constructor
  · rintro ⟨p, made⟩
    obtain ⟨line, column⟩ := positionAt_eq_ok_iff.1 made
    exact ⟨line ▸ p.line_le, column ▸ p.character_le⟩
  · rintro ⟨line, column⟩
    exact ⟨⟨_, _, line, column⟩, positionAt_eq_ok_iff.2 ⟨rfl, rfl⟩⟩

/-- **Later offsets have later positions**, or the same one, also outside the text. -/
theorem positionAt_mono {a b : Int} (le : a ≤ b) {p q : Position} (first : d.positionAt a = .ok p)
    (second : d.positionAt b = .ok q) : q.before p = false := by
  obtain ⟨line, column⟩ := positionAt_eq_ok_iff.1 first
  obtain ⟨line', column'⟩ := positionAt_eq_ok_iff.1 second
  have offsets := d.clamp_mono le
  refine Position.before_eq_false_iff.2 ?_
  rw [line, line', column, column']
  rcases Nat.lt_or_eq_of_le (lineOf_mono offsets (Nat.min_le_right _ _)) with above | same
  · exact .inl above
  · rw [same]
    exact .inr ⟨rfl, Nat.sub_le_sub_right offsets _⟩

/-- The range between two offsets has their positions. -/
theorem rangeAt_eq_ok_iff {start stop : Int} {range : Range} :
    d.rangeAt start stop = .ok range ↔
      d.positionAt start = .ok range.start ∧ d.positionAt stop = .ok range.stop := by
  constructor
  · intro h
    obtain ⟨first, begins, h⟩ := exists_ok_of_bind h
    obtain ⟨last, ends, h⟩ := exists_ok_of_bind h
    cases h
    exact ⟨begins, ends⟩
  · rintro ⟨begins, ends⟩
    unfold rangeAt
    rw [begins, ends]
    rfl

theorem exists_rangeAt_iff {start stop : Int} :
    (∃ range, d.rangeAt start stop = .ok range) ↔ d.Addressable start ∧ d.Addressable stop := by
  rw [← exists_positionAt_iff, ← exists_positionAt_iff]
  constructor
  · rintro ⟨range, h⟩
    exact ⟨⟨_, (rangeAt_eq_ok_iff.1 h).1⟩, ⟨_, (rangeAt_eq_ok_iff.1 h).2⟩⟩
  · rintro ⟨⟨first, begins⟩, last, ends⟩
    exact ⟨⟨first, last⟩, rangeAt_eq_ok_iff.2 ⟨begins, ends⟩⟩

end Document

/-! ## The word at a position -/

namespace Source

/-- How many identifier characters there are behind the character at a position. -/
def following (source : Document) (p : Position) : Nat :=
  (((source.lineText p.line).drop (p.character + 1)).takeWhile isIdentifier).length

/-- The word at a position is on the line of the position, and has its character and those that
follow. -/
theorem wordRange_eq_ok_iff {source : Document} {p : Position} {range : Range} :
    wordRange source p = .ok range ↔ range.start = p ∧ range.stop.line = p.line ∧
      range.stop.character = p.character + 1 + following source p := by
  have stop : ∀ q : Position,
      Position.make p.line (p.character + 1 + following source p : Nat) = .ok q ↔
        q.line = p.line ∧ q.character = p.character + 1 + following source p := fun q => by
    rw [Position.make_eq_ok_iff, Int.natCast_inj, Int.natCast_inj]
  constructor
  · intro h
    obtain ⟨q, made, h⟩ := exists_ok_of_bind h
    cases h
    exact ⟨rfl, (stop q).1 made⟩
  · rintro ⟨rfl, ends⟩
    unfold wordRange
    change (Position.make range.start.line
      (range.start.character + 1 + following source range.start : Nat) >>= _) = _
    rw [(stop _).2 ends]
    rfl

theorem exists_wordRange_iff {source : Document} {p : Position} :
    (∃ range, wordRange source p = .ok range) ↔
      p.character + 1 + following source p ≤ Position.limit := by
  constructor
  · rintro ⟨range, h⟩
    exact (wordRange_eq_ok_iff.1 h).2.2 ▸ range.stop.character_le
  · intro short
    exact ⟨⟨p, p.line, _, p.line_le, short⟩, wordRange_eq_ok_iff.2 ⟨rfl, rfl, rfl⟩⟩

end Source

namespace Generated

variable {g : Generated} {range : Range} {text : Text}

/-- Without a map there are no source ranges. -/
theorem rangeToSource_of_mapless (mapless : g.hasMap = false) :
    g.rangeToSource range text = .ok none := by
  have nowhere : ∀ p, g.toSource p text = .ok none := fun p => by
    unfold toSource
    split
    · next js map own found => simp [hasMap, own, found] at mapless
    · rfl
  unfold rangeToSource
  rw [nowhere, nowhere]
  rfl

end Generated

namespace Workspace

/-! ## One diagnostic -/

section Reports

variable {r : Ready} {d : ServiceDiagnostic} {message : String} {range : Range}

/-- The four places from which the range of a diagnostic comes, with the message it then has. -/
inductive Placed (r : Ready) (d : ServiceDiagnostic) : String → Range → Prop
  | sketched {own : Range} (mapless : r.generated.hasMap = false)
      (span : r.output.rangeAt d.span.start d.span.stop = .ok own) : Placed r d d.message own
  | unmapped {own : Range} (mapped : r.generated.hasMap = true)
      (span : r.output.rangeAt d.span.start d.span.stop = .ok own)
      (nowhere : r.generated.rangeToSource own r.document.text = .ok none) :
      Placed r d (unmappedMessage r own.start.line d.message) (.caret .origin)
  | mapped {own there : Range} (span : r.output.rangeAt d.span.start d.span.stop = .ok own)
      (found : r.generated.rangeToSource own r.document.text = .ok (some there))
      (upright : there.isInverted = false) : Placed r d d.message there
  | widened {own there word : Range} (span : r.output.rangeAt d.span.start d.span.stop = .ok own)
      (found : r.generated.rangeToSource own r.document.text = .ok (some there))
      (inverted : there.isInverted = true)
      (wide : Source.wordRange r.document there.start = .ok word) : Placed r d d.message word

/-- A diagnostic for the editor with all that a diagnostic of the service says. -/
structure Reports (r : Ready) (d : ServiceDiagnostic) (report : Diagnostic) : Prop where
  placed : Placed r d report.message report.range
  severity : report.severity = some d.severity
  code : report.code = some (.number d.code)
  source : report.source = some diagnosticOrigin
  tags : report.tags = some d.tags

/-- Mapping the place of a diagnostic into the source does not fail; the place may have none. -/
def Mappable (r : Ready) (d : ServiceDiagnostic) : Prop :=
  ∀ own, r.output.rangeAt d.span.start d.span.stop = .ok own →
    ∃ answer, r.generated.rangeToSource own r.document.text = .ok answer

/-- The ways in which there is no range for a diagnostic whose place can be mapped. -/
inductive Unplaceable (r : Ready) (d : ServiceDiagnostic) : Prop
  /-- An end of its span cannot be addressed in the generated text. -/
  | far (beyond : ¬ (r.output.Addressable d.span.start ∧ r.output.Addressable d.span.stop))
  /-- Its ends are mapped the wrong way around, and the end of the word at the start cannot be
  addressed. -/
  | wide {own there : Range} (span : r.output.rangeAt d.span.start d.span.stop = .ok own)
      (found : r.generated.rangeToSource own r.document.text = .ok (some there))
      (inverted : there.isInverted = true)
      (beyond : Position.limit <
        there.start.character + 1 + Source.following r.document there.start)

theorem placed_of_sourceReport (h : sourceReport r d = .ok (message, range)) :
    Placed r d message range := by
  obtain ⟨own, span, h⟩ := exists_ok_of_bind h
  split at h
  · next mapped =>
    obtain ⟨answer, found, h⟩ := exists_ok_of_bind h
    cases answer with
    | none =>
      cases h
      exact .unmapped mapped span found
    | some there =>
      dsimp only at h
      split at h
      · next inverted =>
        obtain ⟨word, wide, h⟩ := exists_ok_of_bind h
        cases h
        exact .widened span found inverted wide
      · next upright =>
        cases h
        exact .mapped span found (Bool.eq_false_iff.2 upright)
  · next mapless =>
    cases h
    exact .sketched (Bool.eq_false_iff.2 mapless) span

/-- **No range is inverted**, wherever it comes from. -/
theorem Placed.upright (h : Placed r d message range) (length : 0 ≤ d.span.length) :
    range.isInverted = false := by
  unfold Range.isInverted
  cases h with
  | sketched mapless span =>
    obtain ⟨begins, ends⟩ := Document.rangeAt_eq_ok_iff.1 span
    have order : d.span.start ≤ d.span.stop := by
      unfold Span.stop
      omega
    exact Document.positionAt_mono order begins ends
  | unmapped => rfl
  | mapped span found upright => exact upright
  | widened span found inverted wide =>
    obtain ⟨start, line, character⟩ := Source.wordRange_eq_ok_iff.1 wide
    refine Position.before_eq_false_iff.2 (.inr ?_)
    rw [start, line, character]
    exact ⟨rfl, by omega⟩

/-- A diagnostic whose place can be mapped has a range unless it is unplaceable. -/
theorem exists_sourceReport_iff (mappable : Mappable r d) :
    (∃ report, sourceReport r d = .ok report) ↔ ¬ Unplaceable r d := by
  constructor
  · rintro ⟨⟨message, range⟩, h⟩ unplaceable
    have placed := placed_of_sourceReport h
    have addressed : r.output.Addressable d.span.start ∧ r.output.Addressable d.span.stop := by
      refine Document.exists_rangeAt_iff.1 ?_
      cases placed with
      | sketched _ span | unmapped _ span _ | mapped span _ _ | widened span _ _ _ =>
        exact ⟨_, span⟩
    cases unplaceable with
    | far beyond => exact beyond addressed
    | wide span found inverted beyond =>
      -- Only the word at the start is reported where a range is inverted.
      cases placed with
      | sketched mapless span' =>
        rw [Generated.rangeToSource_of_mapless mapless] at found
        cases found
      | unmapped _ span' nowhere =>
        obtain rfl := Except.ok.inj (span.symm.trans span')
        cases found.symm.trans nowhere
      | mapped span' found' upright =>
        obtain rfl := Except.ok.inj (span.symm.trans span')
        obtain rfl := Option.some.inj (Except.ok.inj (found.symm.trans found'))
        exact absurd inverted (Bool.eq_false_iff.1 upright)
      | widened span' found' _ word =>
        obtain rfl := Except.ok.inj (span.symm.trans span')
        obtain rfl := Option.some.inj (Except.ok.inj (found.symm.trans found'))
        exact absurd (Source.exists_wordRange_iff.1 ⟨_, word⟩) (Nat.not_le.2 beyond)
  · intro placeable
    have addressed := Classical.not_not.1 fun beyond => placeable (.far beyond)
    obtain ⟨own, span⟩ := Document.exists_rangeAt_iff.2 addressed
    obtain ⟨answer, found⟩ := mappable own span
    unfold sourceReport
    rw [span]
    dsimp only [bind, Except.bind]
    rw [found]
    cases answer with
    | none =>
      split
      · exact ⟨_, rfl⟩
      · exact ⟨_, rfl⟩
    | some there =>
      dsimp only
      split
      · split
        · next inverted =>
          obtain ⟨word, wide⟩ := Source.exists_wordRange_iff.2 (Nat.le_of_not_lt fun beyond =>
            placeable (.wide span found inverted beyond))
          rw [wide]
          exact ⟨_, rfl⟩
        · exact ⟨_, rfl⟩
      · exact ⟨_, rfl⟩

theorem reports_of_toSourceDiagnostic {report : Diagnostic}
    (h : toSourceDiagnostic r d = .ok report) : Reports r d report := by
  obtain ⟨⟨message, range⟩, placed, h⟩ := exists_ok_of_bind h
  cases h
  exact ⟨placed_of_sourceReport placed, rfl, rfl, rfl, rfl⟩

theorem exists_toSourceDiagnostic_iff :
    (∃ report, toSourceDiagnostic r d = .ok report) ↔ ∃ report, sourceReport r d = .ok report := by
  constructor
  · rintro ⟨report, h⟩
    obtain ⟨answer, placed, -⟩ := exists_ok_of_bind h
    exact ⟨answer, placed⟩
  · rintro ⟨answer, placed⟩
    unfold toSourceDiagnostic
    rw [placed]
    exact ⟨_, rfl⟩

end Reports

/-! ## All diagnostics of a document -/

section Validation

variable {τ : Type} {w : Workspace τ} {r : Ready} {uri file : String}

theorem ready?_eq {opened : OpenDocument} {result : Computed Generated} {js : Text}
    (found : w.documents.get? uri = some opened) (latest : w.cache.latest? uri = some result)
    (text : result.value.js = some js) :
    w.ready? uri = some ⟨opened.document, result.value, js⟩ := by
  unfold ready?
  rw [found]
  change (w.cache.latest? uri).bind _ = _
  rw [latest]
  change (result.value.js).bind _ = _
  rw [text]
  rfl

/-- A document that is ready and has no syntax errors has the diagnostics of the service that count,
each by itself. -/
theorem validate_eq (ready : w.ready? uri = some r)
    (quiet : r.generated.diagnostics.getD [] = []) (named : virtualFileName uri = .ok file)
    (service : LanguageService) :
    (w.validate service uri {}).outcome =
      ((service.diagnostics file).filter w.isReported).mapM (toSourceDiagnostic r) := by
  unfold validate
  rw [if_neg Bool.false_ne_true, ready]
  dsimp only
  split
  · next d more found =>
    rw [found] at quiet
    cases quiet
  · rw [named, Run.ofExcept_ok_bind, Run.outcome_note_bind, if_neg Bool.false_ne_true]
    rfl

variable [Add τ] [LT τ] [DecidableLT τ] [LE τ] [DecidableLE τ] {generator : Generator}
  {settings : Settings} {ttl : τ}

/-- Settings stay as they are. -/
theorem settings_after (past : List (Edit τ)) :
    (after generator settings ttl past).settings = settings := by
  induction past with
  | nil => rfl
  | cons e past ih =>
    cases e with
    | close uri => exact ih
    | change now uri text version =>
      change ((after generator settings ttl past).change generator now uri text
        version).workspace.settings = settings
      cases (after generator settings ttl past).changed generator now uri text version with
      | unreadable _ _ changed | ignored _ changed | failed _ _ _ changed
      | done _ _ _ _ _ changed =>
        rw [changed]
        exact ih

/-- **A document with a result is open**, and its virtual file has a name. -/
theorem opened_of_latest {past : List (Edit τ)} {result : Computed Generated}
    (latest : (after generator settings ttl past).cache.latest? uri = some result) :
    (∃ opened, (after generator settings ttl past).documents.get? uri = some opened) ∧
      ∃ file, virtualFileName uri = .ok file := by
  induction past generalizing result with
  | nil => cases latest
  | cons e past ih =>
    cases e with
    | close other =>
      simp only [after, edit, Workspace.close, Cache.latest?, Table.get?_erase] at latest ⊢
      split at latest
      · cases latest
      · next apart =>
        rw [if_neg apart]
        exact ih latest
    | change now other text version =>
      change ((after generator settings ttl past).change generator now other
        text version).workspace.cache.latest? uri = some result at latest
      change (∃ opened, ((after generator settings ttl past).change generator now other
        text version).workspace.documents.get? uri = some opened) ∧ _
      cases (after generator settings ttl past).changed generator now other text version with
      | unreadable fault address changed =>
        rw [changed] at latest ⊢
        exact ih latest
      | ignored _ changed =>
        rw [changed] at latest ⊢
        exact ih latest
      | failed fault handled made changed =>
        rw [changed] at latest ⊢
        obtain ⟨⟨opened, found⟩, named⟩ := ih latest
        refine ⟨?_, named⟩
        dsimp only
        rw [Table.get?_put]
        split
        · exact ⟨_, rfl⟩
        · exact ⟨opened, found⟩
      | done value name handled named made changed =>
        rw [changed] at latest ⊢
        dsimp only at latest ⊢
        rw [Table.get?_put]
        rw [Cache.latest?_of_get made] at latest
        split
        · next own =>
          exact ⟨⟨_, rfl⟩, name, own ▸ named⟩
        · next apart =>
          rw [if_neg fun same => apart (Option.some.inj same).symm] at latest
          exact ih latest

/-- **Every diagnostic of the service that counts is reported once, and never inverted.** After
every history, a document whose latest result has generated text and no syntax errors is validated
as follows, if the spans have no negative lengths and mapping their places does not fail. There are
reports exactly when no diagnostic that counts is unplaceable. They are then the reports of the
diagnostics that are ignored neither for their code nor for their message, one for each and in the
same order, and the range of each begins before it ends or where it ends. -/
theorem validate_reports (generator : Generator) (settings : Settings) (ttl : τ)
    {history : List (Edit τ)} {result : Computed Generated} {js : Text}
    (latest : (after generator settings ttl history).cache.latest? uri = some result)
    (text : result.value.js = some js) (quiet : result.value.diagnostics.getD [] = [])
    (service : LanguageService) :
    let w := after generator settings ttl history
    ∃ r file, w.ready? uri = some r ∧ r.generated = result.value ∧
      virtualFileName uri = .ok file ∧
      let counted := (service.diagnostics file).filter fun d =>
        d.code ∉ settings.ignoredErrorCodes ∧ d.message ∉ ignoredMessages
      (∀ d ∈ counted, 0 ≤ d.span.length ∧ Mappable r d) →
        ((∃ reports, (w.validate service uri {}).outcome = .ok reports) ↔
          ∀ d ∈ counted, ¬ Unplaceable r d) ∧
        ∀ reports, (w.validate service uri {}).outcome = .ok reports →
          List.Forall₂ (fun d report => Reports r d report ∧ report.range.isInverted = false)
            counted reports := by
  intro w
  obtain ⟨⟨opened, found⟩, file, named⟩ := opened_of_latest latest
  let r : Ready := ⟨opened.document, result.value, js⟩
  have ready : w.ready? uri = some r := ready?_eq found latest text
  refine ⟨r, file, ready, rfl, named, ?_⟩
  intro counted sound
  have reported : (service.diagnostics file).filter w.isReported = counted := by
    refine List.filter_congr fun d _ => ?_
    rw [isReported, settings_after]
    simp
  rw [validate_eq ready quiet named, reported]
  refine ⟨?_, fun reports made => ?_⟩
  · rw [exists_mapM_iff]
    refine forall₂_congr fun d member => ?_
    rw [exists_toSourceDiagnostic_iff, exists_sourceReport_iff (sound d member).2]
  · have each := (List.forall₂_and_left counted reports).2
      ⟨sound, ToOutput.mapM_eq_ok_iff.1 made⟩
    refine each.imp fun d report both => ?_
    have reports := reports_of_toSourceDiagnostic both.2
    exact ⟨reports, reports.placed.upright both.1.1⟩

/-- A statement whose ends are mapped the wrong way around is reported at the word to which its
beginning is mapped, and the unused parameter that preparation puts in is not reported. -/
theorem validate_reports_word :
    let g : Generated := ⟨{
      js := some "x;".toList
      map := some (.ofMappings [⟨0, 9, 0, 0⟩, ⟨0, 0, 0, 1⟩]) }, rfl⟩
    let uri := "file:///p/a.coffee"
    let w := after (fun _ => .done g) {} 180 [.change (0 : Nat) uri "abcdef = x1".toList 1]
    let bad : ServiceDiagnostic := { message := "bad", span := ⟨-3, 9⟩, code := 1 }
    let unused : ServiceDiagnostic :=
      { message := "'_' is declared but its value is never read.", span := ⟨0, 1⟩, code := 6133 }
    let service := CannedAnswers.toService { diagnostics := [unused, bad] }
    ∃ r report, w.ready? uri = some r ∧ (w.validate service uri {}).outcome = .ok [report] ∧
      Reports r bad report ∧ report.range.isInverted = false ∧
      report.range = ⟨.mk 0 9, .mk 0 11⟩ := by
  intro g uri w bad unused service
  have latest : w.cache.latest? uri = some ⟨g, 0⟩ := by decide +kernel
  have opened : w.documents.get? uri = some ⟨⟨"abcdef = x1".toList, uri⟩, 1⟩ := by decide +kernel
  obtain ⟨r, file, ready, -, -, law⟩ := validate_reports _ _ _ latest rfl rfl service
  obtain rfl := Option.some.inj (ready.symm.trans (ready?_eq opened latest rfl))
  have mappable : Mappable ⟨⟨"abcdef = x1".toList, uri⟩, g, "x;".toList⟩ bad := by
    intro range span
    have places : Document.rangeAt ⟨"x;".toList, ""⟩ (-3) 6 = .ok ⟨.mk 0 0, .mk 0 2⟩ := by
      decide +kernel
    obtain rfl := Except.ok.inj (places.symm.trans span)
    exact ⟨some ⟨.mk 0 9, .mk 0 0⟩, by decide +kernel⟩
  have made : (w.validate service uri {}).outcome = .ok [{
      message := "bad", range := ⟨.mk 0 9, .mk 0 11⟩, severity := some .error
      code := some (.number 1), source := some diagnosticOrigin, tags := some [] }] := by
    decide +kernel
  have counted : (service.diagnostics file).filter (fun d =>
      d.code ∉ ({} : Settings).ignoredErrorCodes ∧ d.message ∉ ignoredMessages) = [bad] := by
    change [unused, bad].filter _ = _
    decide +kernel
  dsimp only at law
  rw [counted] at law
  obtain ⟨-, each⟩ := law (List.forall_mem_singleton.2 ⟨by decide, mappable⟩)
  obtain ⟨reports, upright⟩ := (List.forall₂_cons.1 (each _ made)).1
  exact ⟨_, _, ready, made, reports, upright, rfl⟩

/-- At a beginning that is mapped to the last column there can be, no word has an end, and the
document has no diagnostics at all. -/
theorem validate_in_last_column :
    let g : Generated := ⟨{
      js := some "ab".toList
      map := some (.ofMappings [⟨0, 2147483647, 0, 0⟩, ⟨0, 0, 0, 1⟩]) }, rfl⟩
    let uri := "file:///p/a.coffee"
    let w := after (fun _ => .done g) {} 180 [.change (0 : Nat) uri "a".toList 1]
    let bad : ServiceDiagnostic := { message := "bad", span := ⟨0, 1⟩, code := 1 }
    let service := CannedAnswers.toService { diagnostics := [bad] }
    (∃ result, w.cache.latest? uri = some result ∧ result.value = g) ∧
      (∃ r, w.ready? uri = some r ∧ Mappable r bad) ∧
      (w.validate service uri {}).outcome = .error (.characterOutOfRange 2147483648) := by
  intro g uri w bad service
  have latest : w.cache.latest? uri = some ⟨g, 0⟩ := by decide +kernel
  have opened : w.documents.get? uri = some ⟨⟨"a".toList, uri⟩, 1⟩ := by decide +kernel
  refine ⟨⟨_, latest, rfl⟩, ⟨_, ready?_eq opened latest rfl, fun range span => ?_⟩,
    by decide +kernel⟩
  have places : Document.rangeAt ⟨"ab".toList, ""⟩ 0 1 = .ok ⟨.mk 0 0, .mk 0 1⟩ := by
    decide +kernel
  obtain rfl := Except.ok.inj (places.symm.trans span)
  exact ⟨some ⟨.mk 0 2147483647, .mk 0 0⟩, by decide +kernel⟩

end Validation

end Workspace

end DialectBridge
