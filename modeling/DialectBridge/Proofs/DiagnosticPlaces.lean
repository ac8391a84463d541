import DialectBridge.Proofs.Outcomes

/-!
# Where diagnostics lie

A compiler speaks of the text it was given, and the text that was typed is another one: lines were
inserted above block comments, and lines got longer. For a compiler that reports places of the text
it was given this module says what becomes of them.

Lines come back. A reported line is a line of the source or one that was inserted above a line of
the source, and the latter counts as the line before. There is no line before the first one, so a
report on a line that was inserted at the very beginning has no place and the run fails; apart from
coordinates too great for a position, and from faults of the compiler itself, of a placeholder that
it lost and of a map that leads in front of the generated text, this is the only way for a run to
fail.

Columns do not come back. A diagnostic has the column that was reported, which is a column of the
source line where preparation made the line no longer. A line with a marked space at its end is
longer, and the column can lie behind the end of what was typed.
-/

set_option autoImplicit false

namespace DialectBridge

open Preparation

/-! ## Places of a text -/

/-- A place of a document: an existing line, and a column up to the end of that line. -/
def Document.HasPlace (d : Document) (line column : Int) : Prop :=
  (0 ≤ line ∧ line < d.lineCount) ∧ 0 ≤ column ∧ column ≤ (d.lineAt line).length

instance (d : Document) (line column : Int) : Decidable (d.HasPlace line column) :=
  inferInstanceAs (Decidable (_ ∧ _))

/-- The coordinates of a place are natural numbers up to the length of the text. -/
theorem Document.HasPlace.exists_nat {d : Document} {line column : Int}
    (h : d.HasPlace line column) :
    ∃ l c : Nat, line = l ∧ column = c ∧ l < d.lineCount ∧ c ≤ (d.lineText l).length ∧
      l ≤ d.text.length ∧ c ≤ d.text.length := by
  obtain ⟨⟨natural, few⟩, natural', short⟩ := h
  obtain ⟨l, rfl⟩ := Int.eq_ofNat_of_zero_le natural
  obtain ⟨c, rfl⟩ := Int.eq_ofNat_of_zero_le natural'
  rw [lineAt, if_neg (by omega), Int.toNat_natCast] at short
  have inside : l < d.lines.length := d.lineCount_eq ▸ Int.ofNat_lt.1 few
  have found := List.getElem?_eq_getElem inside
  have part := (lineText_front found).length_le
  have line := Text.length_lt_extent (List.getElem_mem inside)
  have count := Text.length_le_extent d.lines
  have size : Text.extent d.lines = d.text.length + 1 := Text.extent_lines d.text
  exact ⟨l, c, rfl, rfl, Int.ofNat_lt.1 few, Int.ofNat_le.1 short, by omega, by omega⟩

theorem Document.HasPlace.line_lt {t : Text} {line : Nat} {column : Int}
    (h : Document.HasPlace ⟨t, ""⟩ line column) : line < (Text.lines t).length :=
  Document.lineCount_eq ⟨t, ""⟩ ▸ Int.ofNat_lt.1 h.1.2

/-- A rejection of a text whose places are places of that text, the first one not behind the
last. -/
structure Rejection.Inside (r : Rejection) (t : Text) : Prop where
  first : Document.HasPlace ⟨t, ""⟩ r.firstLine r.firstColumn
  last : Document.HasPlace ⟨t, ""⟩ (r.lastLine.getD r.firstLine) r.lastColumn
  ordered : r.firstLine < r.lastLine.getD r.firstLine ∨
    r.firstLine = r.lastLine.getD r.firstLine ∧ r.firstColumn ≤ r.lastColumn

/-- A compiler that answers with text, and that rejects a text at places of that text. -/
structure Compiler.ReportsInside (compiler : Compiler) : Prop where
  answers : ∀ t map, compiler t ≠ .textless map
  inside : ∀ t r, compiler t = .rejected r → r.Inside t

/-- The diagnostic of a rejection stands at its places, if they can be addressed. -/
theorem Rejection.Inside.toDiagnostic_ends {r : Rejection} {t : Text} (h : r.Inside t) :
    Ends r.toDiagnostic
      (fun d => (d.range.start.line : Int) = r.firstLine ∧
        (d.range.start.character : Int) = r.firstColumn ∧
        (d.range.stop.line : Int) = r.lastLine.getD r.firstLine)
      (Unaddressable (t.length + 1)) := by
  obtain ⟨l, c, line, column, -, -, hl, hc⟩ := h.first.exists_nat
  obtain ⟨l', c', line', column', -, -, hl', hc'⟩ := h.last.exists_nat
  dsimp only at hl hc hl' hc'
  have span : Ends (Range.make l c l' (c' + 1 : Nat))
      (fun range => range.start.line = l ∧ range.start.character = c ∧ range.stop.line = l')
      (Unaddressable (t.length + 1)) := by
    unfold Range.make
    refine Ends.bind (Position.make_ends (by omega) (by omega)) fun start first => ?_
    refine Ends.bind (Position.make_ends (by omega) (by omega)) fun stop last => ?_
    exact .done ⟨first.1, first.2, last.1⟩
  unfold toDiagnostic
  rw [line', line, column, column']
  refine Ends.bind span fun range places => .done ?_
  obtain ⟨start, character, stop⟩ := places
  dsimp only
  omega

/-- A compiler that always answers with text gives no attempt without it. -/
theorem Compiler.attempt_ne_textless {compiler : Compiler}
    (answers : ∀ t map, compiler t ≠ .textless map) (t : Text) (map : ColumnMap) :
    attempt (compiler t) ≠ .ok (.textless map) := by
  intro reached
  cases verdict : compiler t with
  | compiled js map' =>
    rw [verdict] at reached
    cases reached
  | textless map' => exact answers t map' verdict
  | broken fault =>
    rw [verdict] at reached
    cases reached
  | rejected r =>
    rw [verdict, attempt] at reached
    cases made : r.toDiagnostic with
    | error fault =>
      rw [made] at reached
      cases reached
    | ok d =>
      rw [made] at reached
      cases reached

namespace Compiler.ReportsInside

variable {compiler : Compiler} {t : Text}

/-- A text is compiled or rejected, or the compiler breaks down, or a place of the text cannot be
addressed. -/
theorem attempt_error (reports : compiler.ReportsInside) {f : Fault}
    (h : attempt (compiler t) = .error f) :
    compiler t = .broken f ∨ Unaddressable (t.length + 1) f := by
  cases verdict : compiler t with
  | compiled js map =>
    rw [verdict] at h
    cases h
  | textless map => exact absurd verdict (reports.answers t map)
  | broken fault =>
    rw [verdict] at h
    cases h
    exact .inl rfl
  | rejected r =>
    rw [verdict] at h
    have ended : Ends (attempt (.rejected r)) (fun _ => True) (Unaddressable (t.length + 1)) :=
      (reports.inside t r verdict).toDiagnostic_ends.bind fun d _ => .done trivial
    exact .inr (ended.of_error h)

/-- The diagnostic of a text stands where the compiler reported it. -/
theorem exists_rejected (reports : compiler.ReportsInside) {d : Diagnostic}
    (h : compiler.rejection? t = some d) :
    ∃ r, compiler t = .rejected r ∧ r.Inside t ∧ (d.range.start.line : Int) = r.firstLine ∧
      (d.range.start.character : Int) = r.firstColumn ∧
      (d.range.stop.line : Int) = r.lastLine.getD r.firstLine := by
  have failed := rejection?_eq_some_iff.1 h
  cases verdict : compiler t with
  | compiled js map =>
    rw [verdict] at failed
    cases failed
  | textless map => exact absurd verdict (reports.answers t map)
  | broken fault =>
    rw [verdict] at failed
    cases failed
  | rejected r =>
    have inside := reports.inside t r verdict
    rw [verdict] at failed
    cases made : r.toDiagnostic with
    | error fault =>
      rw [attempt, made] at failed
      cases failed
    | ok diagnostic =>
      rw [attempt, made] at failed
      cases failed
      exact ⟨r, rfl, inside, inside.toDiagnostic_ends.of_ok made⟩

end Compiler.ReportsInside

/-- **The line-by-line compiler reports places of the text it was given.** -/
theorem LineByLine.compile_reportsInside : Compiler.ReportsInside LineByLine.compile where
  answers t map answer := by
    unfold LineByLine.compile at answer
    split at answer
    · cases answer
    · split at answer <;> cases answer
  inside t r rejected := by
    obtain ⟨n, line, column, message, faulty, inside, rfl⟩ := exists_faulty rejected
    have found : (Document.lines ⟨t, ""⟩)[n]? = some line := faulty.found
    obtain ⟨ending, whole, short⟩ := Document.exists_eq_lineText_append found
    have size := congrArg List.length whole
    have tail : ending.length ≤ 1 := by
      rcases short with rfl | rfl
      · exact Nat.zero_le 1
      · exact Nat.le_refl 1
    have few := Nat.lt_of_not_le (Document.not_lineCount_le (d := ⟨t, ""⟩) found)
    have place : Document.HasPlace ⟨t, ""⟩ (n : Nat) (column : Nat) := by
      refine ⟨⟨Int.natCast_nonneg n, Int.ofNat_lt.2 few⟩, Int.natCast_nonneg column, ?_⟩
      rw [Document.lineAt, if_neg (by omega), Int.toNat_natCast]
      rw [List.length_append] at size
      omega
    exact ⟨place, place, .inr ⟨rfl, Int.le_refl _⟩⟩

/-! ## Faults of a run -/

/-- A run of two parts fails when one of them does. -/
theorem Run.outcome_andThen_eq_error_iff {ω α β : Type} {first : Run ω α} {next : α → Run ω β}
    {f : Fault} :
    (first.andThen next).outcome = .error f ↔
      first.outcome = .error f ∨ ∃ a, first.outcome = .ok a ∧ (next a).outcome = .error f := by
  obtain ⟨journal, outcome⟩ := first
  cases outcome with
  | error fault => simp [andThen]
  | ok a => simp [andThen]

/-- A draft that makes sense causes no fault. -/
theorem Draft.not_check_error {d : Draft} {f : Fault} (h : d.check = .error f)
    (text : d.js.isSome = true ∨ d.hasDiagnostics = true)
    (fake : d.fakeLine.isSome = true → d.map.isSome = true ∧ d.mechanism.isSome = true) :
    False := by
  obtain ⟨g, made, -⟩ := check_returns text fake
  cases made.symm.trans h

/-- The compiler fails at one of the trials that are made. -/
def Trial.Breaks (compiler : Compiler) (trials : List Trial) (f : Fault) : Prop :=
  ∃ trial ∈ untilSettled compiler trials, Compiler.attempt (compiler trial.text) = .error f

/-- The placeholder of a line that was replaced is not where it has to be. -/
def Fault.IsMisplaced (uri : String) (f : Fault) : Prop :=
  f = .placeholderMissing uri ∨ f = .placeholderDetached uri

namespace Trial.Breaks

variable {compiler : Compiler} {trials : List Trial} {f : Fault}

theorem append_left (h : Breaks compiler trials f) (back : List Trial) :
    Breaks compiler (trials ++ back) f := by
  by_cases all : AllRejected compiler trials
  · obtain ⟨trial, member, failed⟩ := h
    refine ⟨trial, ?_, failed⟩
    rw [untilSettled_of_allRejected all] at member
    rw [untilSettled_append all]
    exact List.mem_append_left _ member
  · unfold Breaks
    rw [untilSettled_append_of_not all]
    exact h

theorem append_right {front : List Trial} (all : AllRejected compiler front)
    (h : Breaks compiler trials f) : Breaks compiler (front ++ trials) f := by
  obtain ⟨trial, member, failed⟩ := h
  refine ⟨trial, ?_, failed⟩
  rw [untilSettled_append all]
  exact List.mem_append_right _ member

end Trial.Breaks

namespace Recovery

variable {compiler : Compiler} {f : Fault} {e : ErrorLine} {t : Text}

/-- Trying candidates fails only when the compiler does. -/
theorem breaks_of_firstSuccess {candidates : List Candidate}
    (h : (firstSuccess compiler e t candidates).outcome = .error f) :
    Trial.Breaks compiler (candidates.map (Trial.substituting t e)) f := by
  induction candidates with
  | nil => cases h
  | cons candidate rest ih =>
    rcases Run.outcome_andThen_eq_error_iff.1 h with failed | ⟨answer, reached, later⟩
    · exact ⟨Trial.substituting t e candidate, List.mem_cons_self, failed⟩
    · cases answer with
      | compiled js map => cases later
      | textless map => cases later
      | failed d =>
        have rejected : compiler.rejection? (Trial.substituting t e candidate).text = some d :=
          Compiler.rejection?_eq_some_iff.2 reached
        have first : Trial.AllRejected compiler [Trial.substituting t e candidate] := by
          intro trial member
          rw [List.mem_singleton.1 member, rejected]
          rfl
        exact (ih later).append_right first

/-- Where the compiler always answers with text, a candidate that is found has text. -/
theorem isSome_js_of_firstSuccess (answers : ∀ t map, compiler t ≠ .textless map)
    {candidates : List Candidate} {found : Success}
    (h : (firstSuccess compiler e t candidates).outcome = .ok (some found)) :
    found.js.isSome = true := by
  induction candidates with
  | nil => cases h
  | cons candidate rest ih =>
    obtain ⟨answer, reached, later⟩ := Run.outcome_andThen_eq_ok_iff.1 h
    cases answer with
    | compiled js map =>
      cases later
      rfl
    | textless map => exact absurd reached (Compiler.attempt_ne_textless answers _ map)
    | failed d => exact ih later

/-- A line that cannot be put back has lost its placeholder. -/
theorem isMisplaced_of_reconstruct {js : Text} {map : ColumnMap} {candidate : Candidate}
    {d : Diagnostic} {uri : String} (h : reconstruct js map candidate e d uri = .error f) :
    f.IsMisplaced uri := by
  unfold reconstruct at h
  cases number : placeholderLine? (Text.lines js) with
  | none =>
    simp only [number] at h
    cases h
    exact .inl rfl
  | some n =>
    simp only [number] at h
    cases used : candidate.mechanism with
    | sourceInOutput =>
      simp only [used] at h
      cases h
    | modifiedSource =>
      simp only [used] at h
      cases restored : restoreEnd? ((Text.lines js).getD n []) candidate.removed with
      | none =>
        simp only [restored] at h
        cases h
        exact .inr rfl
      | some line =>
        simp only [restored] at h
        cases h

/-- **Recovery fails only when the compiler does**, or when it loses a placeholder. -/
theorem fault_of_compile (answers : ∀ t map, compiler t ≠ .textless map) {uri : String}
    (h : (compile compiler t uri).outcome = .error f) :
    Trial.Breaks compiler (Trial.round compiler t) f ∨ f.IsMisplaced uri := by
  unfold compile at h
  simp only [Run.bind_eq_andThen] at h
  rcases Run.outcome_andThen_eq_error_iff.1 h with failed | ⟨answer, reached, later⟩
  · exact .inl ⟨Trial.direct t, List.mem_cons_self, failed⟩
  · cases answer with
    | compiled js map => cases later
    | textless map => exact absurd reached (Compiler.attempt_ne_textless answers _ map)
    | failed d =>
      have rejected : compiler.rejection? t = some d := Compiler.rejection?_eq_some_iff.2 reached
      have round : Trial.round compiler t = [Trial.direct t] ++ Trial.substitutions t d := by
        simp [Trial.round, rejected]
      have first : Trial.AllRejected compiler [Trial.direct t] := by
        intro trial member
        rw [List.mem_singleton.1 member, show (Trial.direct t).text = t from rfl, rejected]
        rfl
      rcases Run.outcome_andThen_eq_error_iff.1 later with noted | ⟨_, _, trying⟩
      · cases noted
      · rcases Run.outcome_andThen_eq_error_iff.1 trying with broke | ⟨found, tried, ending⟩
        · rw [round]
          exact .inl ((breaks_of_firstSuccess broke).append_right first)
        · cases found with
          | none => cases ending
          | some found =>
            obtain ⟨js, text⟩ :=
              Option.isSome_iff_exists.1 (isSome_js_of_firstSuccess answers tried)
            dsimp only at ending
            rw [text] at ending
            exact .inr (isMisplaced_of_reconstruct ending)

end Recovery

namespace Pipeline

variable {compiler : Compiler} {f : Fault}

/-- Both attempts fail only when the compiler does, or when it loses a placeholder. -/
theorem fault_of_compile (answers : ∀ t map, compiler t ≠ .textless map) {prepared : Text}
    {uri : String} (h : (compile compiler prepared uri).outcome = .error f) :
    Trial.Breaks compiler (rounds compiler prepared) f ∨ f.IsMisplaced uri := by
  unfold compile at h
  simp only [Run.bind_eq_andThen] at h
  rcases Run.outcome_andThen_eq_error_iff.1 h with failed | ⟨first, reached, later⟩
  · exact (Recovery.fault_of_compile answers failed).imp_left fun breaks => breaks.append_left _
  · have recovered := Recovery.recovered_of_compile reached
    by_cases all : Trial.AllRejected compiler (Trial.round compiler prepared)
    · have noText : ¬ first.js.isSome = true := fun text => (isSome_js_iff recovered).1 text all
      rw [if_neg noText] at later
      rcases Run.outcome_andThen_eq_error_iff.1 later with noted | ⟨_, _, trying⟩
      · cases noted
      · rcases Run.outcome_andThen_eq_error_iff.1 trying with failed | ⟨second, again, ending⟩
        · exact (Recovery.fault_of_compile answers failed).imp_left fun breaks =>
            breaks.append_right all
        · by_cases text : second.js.isSome = true
          · rw [if_pos text] at ending
            rcases Run.outcome_andThen_eq_error_iff.1 ending with noted | ⟨_, _, updated⟩
            · cases noted
            · exact (Draft.not_check_error updated (.inl text) second.faked).elim
          · rw [if_neg text] at ending
            cases ending
    · rw [if_pos ((isSome_js_iff recovered).2 all)] at later
      cases later

/-- Moving the diagnostic of an outcome fails only where the diagnostic has no place in the
source. -/
theorem fault_of_locateDiagnostics {source : Document} {inserted : List Int} {g : Generated}
    {d : Diagnostic} (one : g.diagnostics = some [d])
    (h : locateDiagnostics source inserted g = .error f) :
    Cleanup.sourceDiagnostic inserted d = .error f := by
  unfold locateDiagnostics at h
  rw [one] at h
  cases moved : Cleanup.sourceDiagnostic inserted d with
  | error fault =>
    simp only [List.mapM_cons, toSource, moved] at h
    cases h
    rfl
  | ok shifted =>
    simp only [List.mapM_cons, List.mapM_nil, toSource, moved] at h
    exact (Draft.not_check_error h (.inr rfl) g.faked).elim

/-- Moving the diagnostic keeps the map. -/
theorem map_of_locateDiagnostics {source : Document} {inserted : List Int} {g located : Generated}
    {told : Option Diagnostic} (one : g.diagnostics = told.map ([·]))
    (h : locateDiagnostics source inserted g = .ok located) : located.map = g.map := by
  cases told with
  | none => rw [locateDiagnostics_of_none one h]
  | some d =>
    obtain ⟨moved, -, parts⟩ := toDraft_of_locateDiagnostics one h
    rw [parts]

/-- What is left to do fails only where a mapping of a marked line leads in front of the text. -/
theorem fault_of_finish {source : Document} {prepared : Prepared} {g : Generated}
    (h : (finish source prepared g).outcome = .error f) :
    f = .linePastEnd ∧ ∃ map, g.map = some map ∧ ∃ m ∈ map.mappings,
      m.sourceLine ∈ numbers prepared.tweaked ∧ m.outputLine < 0 := by
  by_cases mapped : g.hasMap = true
  · rw [outcome_finish_of_hasMap mapped] at h
    unfold Generated.hasMap at mapped
    rw [Bool.and_eq_true] at mapped
    obtain ⟨js, text⟩ := Option.isSome_iff_exists.1 mapped.1
    obtain ⟨map, entries⟩ := Option.isSome_iff_exists.1 mapped.2
    by_cases readable : ∀ m ∈ map.mappings, Cleanup.Readable
        (Text.lines (Cleanup.replaceResidues js)) (numbers prepared.tweaked) m
    · obtain ⟨final, made, -⟩ :=
        Cleanup.clean_returns text entries (Cleanup.cleanMap_of_readable readable)
      cases made.symm.trans h
    · simp only [not_forall] at readable
      obtain ⟨m, member, unreadable⟩ := readable
      have failed : Cleanup.clean g (numbers prepared.inserted) (numbers prepared.tweaked) =
          .error .linePastEnd :=
        Cleanup.clean_of_error text entries (Cleanup.cleanMap_of_not_readable member unreadable)
      obtain ⟨marked, before⟩ := Classical.not_imp.1 unreadable
      exact ⟨Except.error.inj (h.symm.trans failed), map, entries, m, member, marked, by omega⟩
  · unfold finish at h
    rw [if_neg mapped] at h
    exact (Draft.not_check_error h (.inl rfl) g.faked).elim

end Pipeline

/-! ## Back to the source -/

namespace Preparation

variable {t : Text}

/-- Where the source line of a line of prepared text stands: it has the place of that line, or the
line was inserted directly below it. -/
def ComesFrom (prepared : Prepared) (p l : Nat) : Prop :=
  p ∉ prepared.inserted ∧ (keptLines prepared)[l]? = some p ∨
    p ∈ prepared.inserted ∧ (keptLines prepared)[l + 1]? = some (p + 1)

/-- Only what was inserted at the very beginning comes from no line of the source. -/
theorem exists_sourceLine {p : Nat} (h : p < (Text.lines (prepare t).text).length) :
    (∃ l < (Text.lines t).length, ComesFrom (prepare t) p l ∧
        Cleanup.sourceLine (Pipeline.numbers (prepare t).inserted) p = (l : Nat)) ∨
      p = 0 ∧ 0 ∈ (prepare t).inserted ∧
        Cleanup.sourceLine (Pipeline.numbers (prepare t).inserted) p = -1 := by
  by_cases inserted : p ∈ (prepare t).inserted
  · obtain ⟨l, below, above⟩ := (prepare_bookkeeping t).sourceLine_inserted p inserted
    have few := (List.getElem?_eq_some_iff.1 below).1
    rw [(prepare_bookkeeping t).length_kept] at few
    cases l with
    | succ l => exact .inl ⟨l, by omega, .inr ⟨inserted, below⟩, by omega⟩
    | zero =>
      have first : p = 0 := by
        rw [keptLines_prepare] at below
        cases lines_ : editedLines t with
        | nil =>
          rw [lines_] at below
          cases below
        | cons line rest =>
          rw [lines_, placesFrom] at below
          split at below
          · exact Nat.succ.inj (Option.some.inj below).symm
          · cases below
      exact .inr ⟨first, first ▸ inserted, above⟩
  · obtain ⟨l, few, place⟩ := exists_place .gentle (List.getElem?_eq_getElem h) inserted
    have own := place
    rw [← keptLines_prepare] at own
    exact .inl ⟨l, few, .inl ⟨inserted, own⟩, sourceLine_place place⟩

/-- A position on a line of the source can be moved there. -/
theorem sourcePosition_returns {p : Position} {l : Nat}
    (line : Cleanup.sourceLine (Pipeline.numbers (prepare t).inserted) p.line = l) :
    Returns (Cleanup.sourcePosition (Pipeline.numbers (prepare t).inserted) p) fun _ => True := by
  have small := p.line_le
  have near : l ≤ p.line := by
    unfold Cleanup.sourceLine at line
    omega
  unfold Cleanup.sourcePosition
  rw [line, Position.make_natCast (by omega) p.character_le]
  exact .ok trivial

/-- A diagnostic of prepared text cannot be moved only if it begins on what was inserted at the very
beginning. -/
theorem fault_of_sourceDiagnostic {d : Diagnostic} {f : Fault}
    (start : d.range.start.line < (Text.lines (prepare t).text).length)
    (stop : d.range.stop.line < (Text.lines (prepare t).text).length)
    (ordered : d.range.start.line ≤ d.range.stop.line)
    (h : Cleanup.sourceDiagnostic (Pipeline.numbers (prepare t).inserted) d = .error f) :
    f = .lineOutOfRange (-1) ∧ d.range.start.line = 0 ∧ 0 ∈ (prepare t).inserted := by
  unfold Cleanup.sourceDiagnostic at h
  split at h
  · cases h
  · rcases exists_sourceLine start with ⟨l, -, -, line⟩ | ⟨first, inserted, line⟩
    · obtain ⟨moved, done, -⟩ := sourcePosition_returns line
      rw [done] at h
      rcases exists_sourceLine stop with ⟨l', -, -, line'⟩ | ⟨first, inserted, line'⟩
      · obtain ⟨moved', done', -⟩ := sourcePosition_returns line'
        rw [done'] at h
        cases h
      · have same : d.range.start.line = d.range.stop.line := by omega
        rw [same] at line
        omega
    · unfold Cleanup.sourcePosition at h
      rw [line] at h
      cases h
      exact ⟨rfl, first, inserted⟩

end Preparation

/-! ## What a run reports -/

namespace Pipeline

/-- How a run on a source can fail with a compiler that reports places of the text it was given. -/
inductive FailsFor (compiler : Compiler) (source : Document) : Fault → Prop
  /-- The compiler breaks down at a text it is asked for. -/
  | broken {t : Text} {f : Fault}
      (asked : t ∈ Event.askedTexts (generate compiler source).journal)
      (answer : compiler t = .broken f) : FailsFor compiler source f
  /-- A place of such a text cannot be addressed. -/
  | unaddressable {t : Text} {f : Fault}
      (asked : t ∈ Event.askedTexts (generate compiler source).journal)
      (far : Unaddressable (t.length + 1) f) : FailsFor compiler source f
  /-- A placeholder is lost. -/
  | misplaced {f : Fault} (lost : f.IsMisplaced source.uri) : FailsFor compiler source f
  /-- The prepared text is rejected on its first line, and that line was inserted. -/
  | above {r : Rejection} (rejected : compiler (prepare source.text).text = .rejected r)
      (first : r.firstLine = 0) (inserted : 0 ∈ (prepare source.text).inserted) :
      FailsFor compiler source (.lineOutOfRange (-1))
  /-- The compiler maps an empty line that was marked to a line in front of the generated text. -/
  | unreadable {t js : Text} {map : ColumnMap} {m : Mapping}
      (asked : t ∈ Event.askedTexts (generate compiler source).journal)
      (answer : compiler t = .compiled js map) (member : m ∈ map.mappings)
      (marked : m.sourceLine ∈ numbers (prepare source.text).tweaked)
      (before : m.outputLine < 0) : FailsFor compiler source .linePastEnd

/-- How a diagnostic of a source stands to the rejection of the prepared text behind it. -/
structure ReportedFor (source : Document) (r : Rejection) (d : Diagnostic) : Prop where
  /-- Its line is a line of the source. -/
  line_lt : d.range.start.line < source.lineCount
  /-- It is the source line of the line that was reported. -/
  comesFrom : ComesFrom (prepare source.text) r.firstLine.toNat d.range.start.line
  /-- Its column is the one that was reported. -/
  column : (d.range.start.character : Int) = r.firstColumn
  /-- If the line that was reported is no longer than its own it is a place of the source. -/
  inside : (Document.lineAt ⟨(prepare source.text).text, ""⟩ r.firstLine).length ≤
      (source.lineText d.range.start.line).length →
    source.HasPlace d.range.start.line d.range.start.character

section Reports

variable {compiler : Compiler} {source : Document}

/-- A diagnostic that cannot be moved to the source is one of the line that was inserted first. -/
theorem failsFor_of_locateDiagnostics (reports : compiler.ReportsInside) {g : Generated} {f : Fault}
    (told : g.diagnostics = (compiler.rejection? (prepare source.text).text).map ([·]))
    (failed : locateDiagnostics source (numbers (prepare source.text).inserted) g = .error f) :
    FailsFor compiler source f := by
  cases verdict : compiler.rejection? (prepare source.text).text with
  | none =>
    rw [verdict] at told
    have untouched : locateDiagnostics source (numbers (prepare source.text).inserted) g = .ok g := by
      unfold locateDiagnostics
      rw [told]
      rfl
    cases untouched.symm.trans failed
  | some d =>
    rw [verdict] at told
    obtain ⟨r, rejected, inside, line, -, line'⟩ := reports.exists_rejected verdict
    obtain ⟨start, stop, ordered⟩ := inside
    rw [← line'] at stop ordered
    rw [← line] at start ordered
    have forward : d.range.start.line ≤ d.range.stop.line := by omega
    obtain ⟨rfl, zero, inserted⟩ := fault_of_sourceDiagnostic start.line_lt stop.line_lt forward
      (fault_of_locateDiagnostics told failed)
    rw [zero] at line
    exact .above rejected line.symm inserted

/-- With a compiler that reports places of the text it was given a run fails in one of five ways. -/
theorem failsFor_of_generate (reports : compiler.ReportsInside) {f : Fault}
    (h : (generate compiler source).outcome = .error f) : FailsFor compiler source f := by
  have follows : Follows compiler _ (generate compiler source) := generate_follows source
  have asked : ∀ trial ∈ Trial.untilSettled compiler (rounds compiler (prepare source.text).text),
      trial.text ∈ Event.askedTexts (generate compiler source).journal := by
    intro trial made
    rw [follows.asks]
    exact List.mem_map_of_mem made
  unfold generate at h
  simp only [Run.bind_eq_andThen] at h
  rcases Run.outcome_andThen_eq_error_iff.1 h with noted | ⟨_, _, working⟩
  · cases noted
  · rcases Run.outcome_andThen_eq_error_iff.1 working with failed | ⟨compiled, first, moving⟩
    · rcases fault_of_compile reports.answers failed with ⟨trial, made, broke⟩ | lost
      · rcases reports.attempt_error broke with broken | far
        · exact .broken (asked trial made) broken
        · exact .unaddressable (asked trial made) far
      · exact .misplaced lost
    · have decided := decided_of_compile first
      rcases Run.outcome_andThen_eq_error_iff.1 moving with failed | ⟨located, same, ending⟩
      · exact failsFor_of_locateDiagnostics reports decided.diagnostics failed
      · obtain ⟨rfl, map, mapped, m, member, marked, before⟩ := fault_of_finish ending
        rw [map_of_locateDiagnostics decided.diagnostics same] at mapped
        obtain ⟨trial, made, js, answered, answer, known⟩ :=
          decided.given map mapped m member before
        exact .unreadable (asked trial made) answer known marked before

/-- A diagnostic of a source is on the source line of the line that was reported. -/
theorem reportedFor_of_generate (reports : compiler.ReportsInside) {g : Generated}
    (h : (generate compiler source).outcome = .ok g) {all : List Diagnostic}
    (present : g.diagnostics = some all) {moved : Diagnostic} (member : moved ∈ all) :
    ∃ r, compiler (prepare source.text).text = .rejected r ∧ ReportedFor source r moved := by
  obtain ⟨d, moved', rejected, rfl, relocated⟩ := reported_of_generate h present
  obtain rfl := List.mem_singleton.1 member
  obtain ⟨r, answer, inside, line, column, -⟩ := reports.exists_rejected rejected
  have first := inside.first
  rw [← line, ← column, ← relocated.startCharacter] at first
  have number : r.firstLine.toNat = d.range.start.line := by rw [← line, Int.toNat_natCast]
  rcases exists_sourceLine first.line_lt with ⟨l, few, from_, same⟩ | ⟨-, -, none_⟩
  · obtain rfl : moved.range.start.line = l := Int.ofNat.inj (relocated.startLine.trans same)
    rw [← Document.lines, ← Document.lineCount_eq] at few
    refine ⟨r, answer, few, number ▸ from_, ?_, fun short => ?_⟩
    · rw [relocated.startCharacter, column]
    · refine ⟨⟨Int.natCast_nonneg _, Int.ofNat_lt.2 few⟩, first.2.1, Int.le_trans first.2.2 ?_⟩
      rw [← line] at short
      rw [Document.lineAt.eq_1 source, if_neg (Int.not_lt.2 (Int.natCast_nonneg _)),
        Int.toNat_natCast]
      exact Int.ofNat_le.2 short
  · have negative := relocated.startLine.trans none_
    omega

end Reports

/-- **Where the diagnostics of a source lie.** With a compiler that reports places of the text it
was given, a run fails in one of five ways, and coordinates that can be addressed are at fault only
if the first line was inserted and rejected. Every diagnostic is on a line of the source, at the
column that was reported, and it is a place of the source if the line that was reported is no longer
than its own. -/
theorem diagnostics_inside_source {compiler : Compiler} (reports : compiler.ReportsInside)
    (source : Document) :
    (∀ f, (generate compiler source).outcome = .error f → FailsFor compiler source f) ∧
      ∀ g, (generate compiler source).outcome = .ok g → ∀ all, g.diagnostics = some all →
        ∀ d ∈ all, ∃ r, compiler (prepare source.text).text = .rejected r ∧
          ReportedFor source r d :=
  ⟨fun _ => failsFor_of_generate reports, fun _ made _ present _ =>
    reportedFor_of_generate reports made present⟩

/-- Below two block comments a member that is missing is reported on its own line and inside it. -/
theorem diagnostics_inside_source_below_comments :
    let source : Document := ⟨"###\nc\n###\na[".toList, ""⟩
    Compiler.ReportsInside LineByLine.compile ∧ (prepare source.text).inserted = [0, 3] ∧
      ∃ g d, (generate LineByLine.compile source).outcome = .ok g ∧ g.diagnostics = some [d] ∧
        d.range.start.line = 3 ∧ source.HasPlace d.range.start.line d.range.start.character := by
  intro source
  let g := (generate LineByLine.compile source).outcome.toOption.get (by decide +kernel)
  have made : (generate LineByLine.compile source).outcome = .ok g := by decide +kernel
  let d := (g.diagnostics.get (by decide +kernel)).head (by decide +kernel)
  have present : g.diagnostics = some [d] := by decide +kernel
  have line : d.range.start.line = 3 := by decide +kernel
  obtain ⟨r, answer, reported⟩ := (diagnostics_inside_source LineByLine.compile_reportsInside
    source).2 g made [d] present d (List.mem_singleton_self d)
  have error : LineByLine.firstError? none 0 (Text.lines (prepare source.text).text) =
      some (.atPlace "unexpected end of input" 5 1) := by decide +kernel
  have rejected : LineByLine.compile (prepare source.text).text =
      .rejected (.atPlace "unexpected end of input" 5 1) := by
    rw [LineByLine.compile, error]
  obtain rfl := Verdict.rejected.inj (answer.symm.trans rejected)
  exact ⟨LineByLine.compile_reportsInside, by decide +kernel, g, d, made, present, line,
    reported.inside (by decide +kernel)⟩

/-- A compiler that rejects a comment sign above a block comment, at the sign. -/
def rejectsSign : Compiler := fun t =>
  if t = "#\n###".toList then .rejected (.atPlace "unexpected #" 0 0)
  else .compiled t (.ofMappings [])

theorem rejectsSign_reportsInside : rejectsSign.ReportsInside where
  answers t map answer := by
    unfold rejectsSign at answer
    split at answer <;> cases answer
  inside t r rejected := by
    unfold rejectsSign at rejected
    split at rejected
    · next same =>
      cases rejected
      subst same
      have place : Document.HasPlace ⟨"#\n###".toList, ""⟩ 0 0 := by decide
      exact ⟨place, place, .inr ⟨rfl, Int.le_refl _⟩⟩
    · cases rejected

/-- A space at the end of a line is marked, and the mark makes the line longer: a bracket that is
missing is reported behind the end of what was typed. And a rejection of the line that was inserted
above a block comment at the beginning has no place at all. -/
theorem diagnostics_outside_source :
    (Compiler.ReportsInside LineByLine.compile ∧
      ∃ g d, (generate LineByLine.compile ⟨"( ".toList, ""⟩).outcome = .ok g ∧
        g.diagnostics = some [d] ∧ d.range.start.line = 0 ∧ d.range.start.character = 4 ∧
        (Document.lineText ⟨"( ".toList, ""⟩ 0).length = 2) ∧
      rejectsSign.ReportsInside ∧
        (generate rejectsSign ⟨"###".toList, ""⟩).outcome = .error (.lineOutOfRange (-1)) := by
  let g := (generate LineByLine.compile ⟨"( ".toList, ""⟩).outcome.toOption.get (by decide +kernel)
  let d := (g.diagnostics.get (by decide +kernel)).head (by decide +kernel)
  have made : (generate LineByLine.compile ⟨"( ".toList, ""⟩).outcome = .ok g := by decide +kernel
  have present : g.diagnostics = some [d] := by decide +kernel
  exact ⟨⟨LineByLine.compile_reportsInside, g, d, made, present, by decide +kernel,
    by decide +kernel, by decide⟩, rejectsSign_reportsInside, by decide +kernel⟩

end Pipeline

end DialectBridge
