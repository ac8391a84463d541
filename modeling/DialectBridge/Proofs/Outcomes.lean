import DialectBridge.Proofs.Bases

/-!
# What comes of a source

With the line-by-line compiler every source has an outcome. A text that is rejected is reported on a
line of the source; where a substitute for that line compiles the line is put back, and where
nothing compiles the sketch of the source takes its place. The only fault that can occur is that of
a place with a line or a column that cannot be addressed, and such a place lies behind more lines,
or more characters of one line, than a position can count.

`Concluded` says what the outcome is made of. All that is proved about generated text and its map
starts from there.
-/

set_option autoImplicit false

namespace DialectBridge

open LineByLine

/-- The outcome of one run after another. -/
theorem Run.outcome_bind {ω α β : Type} (first : Run ω α) (next : α → Run ω β) :
    (first >>= next).outcome = first.outcome >>= fun a => (next a).outcome := by
  obtain ⟨journal, outcome⟩ := first
  cases outcome <;> rfl

theorem Run.outcome_note_bind {ω β : Type} (entry : ω) (next : Unit → Run ω β) :
    (note entry >>= next).outcome = (next ()).outcome := rfl

theorem Run.outcome_notes_bind {ω β : Type} (entries : List ω) (next : Unit → Run ω β) :
    (notes entries >>= next).outcome = (next ()).outcome := rfl

theorem Run.outcome_ofExcept {ω α : Type} (outcome : Except Fault α) :
    (ofExcept outcome : Run ω α).outcome = outcome := rfl

/-! ## Substitutes -/

namespace ErrorLine

variable {t ending : Text} {e : ErrorLine}

/-- A candidate and the indentation in front of it are not much longer than the line. -/
theorem Of.length_content_le (h : Of t e ending) {candidate : Candidate}
    (member : candidate ∈ e.candidates) :
    e.indentation.length + candidate.content.length ≤ e.text.length + 4 := by
  rcases cases_of_mem_candidates member with fixed | ⟨front, cut, whole, known, rfl⟩
  · have short : ∀ candidate ∈ fixedCandidates, candidate.content.length ≤ 4 := by decide
    have indented : e.indentation.length ≤ e.text.length := by
      rw [h.indentation]
      exact (List.takeWhile_sublist _).length_le
    exact Nat.add_le_add indented (short candidate fixed)
  · have content := content_memberCandidate front cut
    have front_ := congrArg List.length (Text.leadingBlank_append_trimLeft front)
    rw [← whole] at content
    rw [content, h.indentation_of_memberCut whole known, whole]
    simp only [List.length_append, List.length_cons, List.length_nil] at front_ ⊢
    omega

/-- **What a substitute can add** to the longest line. -/
theorem Of.span_substitute_le (h : Of t e ending) {candidate : Candidate}
    (member : candidate ∈ e.candidates) :
    Text.span (Text.lines (e.substitute t candidate.content)) ≤ Text.span (Text.lines t) + 4 := by
  have short := h.length_content_le member
  have old := Text.length_le_span_of_mem (List.mem_of_getElem? h.found)
  have new : (e.substituteLine candidate.content ending).length ≤ Text.span (Text.lines t) + 4 := by
    simp only [substituteLine, Text.padRight, List.length_append, List.length_replicate] at old ⊢
    omega
  rw [h.lines_substitute (h.placeholder_mem_content member).2, Text.span_le_iff, List.length_set]
  refine ⟨Nat.le_add_right_of_le (Text.length_le_span _), fun line inside => ?_⟩
  rcases List.mem_or_eq_of_mem_set inside with kept | rfl
  · exact Nat.le_add_right_of_le (Text.length_le_span_of_mem kept)
  · exact new

end ErrorLine

/-! ## Recovery -/

namespace Recovery

variable {t ending : Text} {e : ErrorLine}

/-- A substitute that compiled, with what it compiled to. -/
structure Succeeded (t : Text) (e : ErrorLine) (s : Success) : Prop where
  candidate : s.candidate ∈ e.candidates
  compiles : Compiler.Compiles LineByLine.compile (e.substitute t s.candidate.content)
  js : s.js = some (output (e.substitute t s.candidate.content))
  map : s.map = .ofMappings (mappings (e.substitute t s.candidate.content))

/-- Trying candidates ends with one that compiles or with none. -/
theorem firstSuccess_ends (of : ErrorLine.Of t e ending) {candidates : List Candidate}
    (known : ∀ candidate ∈ candidates, candidate ∈ e.candidates) :
    Ends (firstSuccess LineByLine.compile e t candidates).outcome
      (fun found => ∀ s ∈ found, Succeeded t e s)
      (Unaddressable (Text.span (Text.lines t) + 4)) := by
  induction candidates with
  | nil => exact .done fun s nothing => nomatch nothing
  | cons candidate rest ih =>
    have own := known candidate List.mem_cons_self
    have room := of.span_substitute_le own
    rw [firstSuccess, ← Run.bind_eq_andThen, Run.outcome_bind]
    refine Ends.bind ((attempt_ends (e.substitute t candidate.content)).mono (fun _ => id)
      fun f far => far.mono room) ?_
    rintro answer (⟨compiles, rfl⟩ | ⟨n, line, d, -, rfl⟩)
    · refine .done ?_
      rintro s ⟨⟩
      exact ⟨own, compiles, rfl, rfl⟩
    · exact ih fun other inside => known other (List.mem_cons_of_mem _ inside)

/-- What comes of one text: it compiles, or a faulty line is reported and put back, or a faulty line
is only reported. -/
inductive Handled (t : Text) (g : Draft) : Prop
  | compiled {js : Text} {map : ColumnMap} (rendered : Rendered t js map none)
      (shown : Shows g js map none) (clear : g.diagnostics = none)
  | replaced {n : Nat} {line : Text} {d : Diagnostic} {js : Text} {map : ColumnMap}
      {fake : Nat × Mechanism} (reports : Reports t n line d)
      (rendered : Rendered t js map (some fake)) (shown : Shows g js map (some fake))
      (told : g.diagnostics = some [d])
  | reported {n : Nat} {line : Text} {d : Diagnostic} (reports : Reports t n line d)
      (told : g = { diagnostics := some [d] })

/-- **Every text without a placeholder can be dealt with.** -/
theorem compile_ends (clean : 'ᛝ' ∉ t) (uri : String) :
    Ends (compile LineByLine.compile t uri).outcome (fun g => Handled t g.toDraft)
      (Unaddressable (Text.span (Text.lines t) + 4)) := by
  unfold compile
  rw [Run.outcome_bind]
  refine Ends.bind ((attempt_ends t).mono (fun _ => id) fun f far =>
    far.mono (Nat.le_add_right _ 4)) ?_
  rintro answer (⟨compiles, rfl⟩ | ⟨n, line, d, reports, rfl⟩)
  · exact .done (.compiled (.direct compiles) ⟨rfl, rfl, rfl, rfl⟩ rfl)
  · dsimp only
    rw [Run.outcome_note_bind]
    obtain ⟨ending, whole, number, of⟩ := ErrorLine.exists_of_locate reports.faulty.found uri
    have faulty : Faulty t (ErrorLine.locate ⟨t, uri⟩ n).line
        ((ErrorLine.locate ⟨t, uri⟩ n).text ++ ending) := by
      rw [← whole, number]
      exact reports.faulty
    rw [reports.start, Run.outcome_bind]
    refine Ends.bind (firstSuccess_ends of fun _ => id) fun found tried => ?_
    cases found with
    | none => exact .done (.reported reports rfl)
    | some s =>
      obtain ⟨candidate, compiles, text, map⟩ := tried s rfl
      have near : (ErrorLine.locate ⟨t, uri⟩ n).line ≤ 2147483647 := by
        rw [number, ← reports.start]
        exact d.range.start.line_le
      obtain ⟨g, js, map', made, rendered, shown, told⟩ :=
        rendered_of_reconstruct clean of faulty near candidate compiles d uri
      dsimp only
      rw [Run.outcome_note_bind, text, map]
      dsimp only
      rw [Run.outcome_ofExcept]
      exact .ok made (.replaced reports rendered shown told)

end Recovery

/-! ## Both attempts -/

namespace Preparation

/-- Forceful edits add two characters at most. -/
theorem length_forcefulLine_le (line : Text) : (forcefulLine line).length ≤ line.length + 2 := by
  have closed : ∀ line, ((closeString? line).getD line).length ≤ line.length + 1 := by
    intro line
    have whole := congrArg List.length (Text.body_append_tail line)
    rw [List.length_append] at whole
    unfold closeString?
    dsimp only
    split
    · split
      · exact Nat.le_add_right _ 1
      · rw [Option.getD_some, List.length_append, List.length_cons]
        omega
    · exact Nat.le_add_right _ 1
  have called : ∀ line, ((closeCall? line).getD line).length ≤ line.length + 1 := by
    intro line
    have whole := congrArg List.length (Text.body_append_tail line)
    rw [List.length_append] at whole
    unfold closeCall?
    cases Text.firstPlace? isOpenCall (Text.body line) with
    | none => exact Nat.le_add_right _ 1
    | some place =>
      rw [Option.map_some, Option.getD_some, List.length_append, List.length_cons]
      omega
  have leading : ∀ line : Text, (Text.scan leadingSpread line).length = line.length := by
    refine Text.length_scan (fun _ _ => rfl) (fun t r replaced => ?_) fun t r replaced => ?_
    · obtain ⟨c, rest, -, rfl, rfl⟩ := leadingSpread_eq_some replaced
      simp
    · obtain ⟨c, rest, -, -, rfl⟩ := leadingSpread_eq_some replaced
      rfl
  have trailing : ∀ line : Text, (Text.scan trailingSpread line).length = line.length := by
    refine Text.length_scan (fun _ _ => rfl) (fun t r replaced => ?_) fun t r replaced => ?_
    · obtain ⟨c, rest, -, rfl, rfl⟩ := trailingSpread_eq_some replaced
      simp
    · obtain ⟨c, rest, -, -, rfl⟩ := trailingSpread_eq_some replaced
      rfl
  unfold forcefulLine
  dsimp only
  rw [trailing, leading]
  have first := closed line
  have second := called ((closeString? line).getD line)
  have third := (sublist_removeBrace
    ((closeCall? ((closeString? line).getD line)).getD ((closeString? line).getD line))).length_le
  omega

/-- How long a text that is compiled can be. -/
theorem length_base_le {t base : Text} (h : Submitted (prepare t).text base) :
    base.length ≤ 61 * (t.length + 1) := by
  obtain ⟨size, count⟩ := extent_prepare_le t
  have own := Text.extent_lines base
  rw [Text.extent_lines t] at size count
  cases h with
  | gentle => omega
  | forceful =>
    have pairs : List.Forall₂ (fun line line' : Text =>
        (id line').length + 1 ≤ 1 * (line.length + 1) + 2) (Text.lines (prepare t).text)
        (Text.lines (prepareForcefully (prepare t).text)) := by
      rw [lines_prepareForcefully, List.forall₂_map_right_iff]
      refine List.forall₂_same.2 fun line _ => ?_
      have short := length_forcefulLine_le line
      rw [id]
      omega
    have bound := Text.extent_le_of_forall₂ pairs
    rw [List.map_id, own] at bound
    omega

/-- Forceful edits add two characters to a line at most. -/
theorem span_base_le {prepared base : Text} (h : Submitted prepared base) :
    Text.span (Text.lines base) ≤ Text.span (Text.lines prepared) + 2 := by
  cases h with
  | gentle => exact Nat.le_add_right _ 2
  | forceful =>
    rw [lines_prepareForcefully, Text.span_le_iff, List.length_map, List.forall_mem_map]
    refine ⟨Nat.le_add_right_of_le (Text.length_le_span _), fun line member => ?_⟩
    have short := length_forcefulLine_le line
    have size := Text.length_le_span_of_mem member
    omega

end Preparation

/-- A draft with text or diagnostics makes sense if a line is faked only with a map and a
mechanism. -/
theorem Draft.check_returns {d : Draft} (text : d.js.isSome = true ∨ d.hasDiagnostics = true)
    (fake : d.fakeLine.isSome = true → d.map.isSome = true ∧ d.mechanism.isSome = true) :
    Returns d.check fun g => g.toDraft = d := by
  have sound : d.objection? = none := by
    unfold objection?
    rw [if_neg, if_neg, if_neg]
    · intro bad
      rw [Bool.and_eq_true, Option.isNone_iff_eq_none] at bad
      have present := (fake bad.1).2
      rw [bad.2] at present
      cases present
    · intro bad
      rw [Bool.and_eq_true, Option.isNone_iff_eq_none] at bad
      have present := (fake bad.1).1
      rw [bad.2] at present
      cases present
    · intro bad
      rw [Bool.and_eq_true, Option.isNone_iff_eq_none, Bool.not_eq_true'] at bad
      rw [bad.1, bad.2] at text
      exact text.elim Bool.false_ne_true Bool.false_ne_true
  exact ⟨⟨d, sound⟩, Draft.check_eq_ok_iff.2 rfl, rfl⟩

/-- An outcome has a line that was faked only with a map and a mechanism. -/
theorem Generated.faked (g : Generated) (fake : g.fakeLine.isSome = true) :
    g.map.isSome = true ∧ g.mechanism.isSome = true := by
  have sound := g.sound
  unfold Draft.objection? at sound
  rw [fake, Bool.true_and, Bool.true_and] at sound
  split_ifs at sound with _ mapless mechanismless
  exact ⟨Option.isSome_iff_ne_none.2 (by simpa using mapless),
    Option.isSome_iff_ne_none.2 (by simpa using mechanismless)⟩

section Cleaned

variable {g : Generated} {js : Text} {map : ColumnMap} {inserted tweaked : List Int}

/-- **An outcome is cleaned if its map is.** -/
theorem Cleanup.clean_returns {cleaned : ColumnMap} (text : g.js = some js)
    (mapped : g.map = some map) (made : cleanMap js map inserted tweaked = .ok cleaned) :
    Returns (clean g inserted tweaked) fun final => final.toDraft =
      { g.toDraft with
        js := some (cleanText js)
        map := some cleaned
        fakeLine := g.fakeLine.map (sourceLine inserted) } := by
  unfold clean
  rw [text, mapped]
  dsimp only
  rw [made]
  refine Draft.check_returns (.inl rfl) fun fake => ⟨rfl, ?_⟩
  rw [Option.isSome_map] at fake
  exact (g.faked fake).2

/-- The fault of a map that cannot be cleaned is that of the outcome. -/
theorem Cleanup.clean_of_error {f : Fault} (text : g.js = some js) (mapped : g.map = some map)
    (failed : cleanMap js map inserted tweaked = .error f) :
    clean g inserted tweaked = .error f := by
  unfold clean
  rw [text, mapped]
  dsimp only
  rw [failed]
  rfl

end Cleaned

/-- The map of rendered text is grouped. -/
theorem LineByLine.Rendered.exists_rows {base js : Text} {map : ColumnMap}
    {fake : Option (Nat × Mechanism)} (h : Rendered base js map fake) :
    ∃ rows, map = .ofMappings rows := by
  cases h with
  | direct => exact ⟨_, rfl⟩
  | sketched => exact ⟨_, rfl⟩
  | restored => exact ⟨_, rfl⟩

/-- What is shown with a faked line has a map and a mechanism. -/
theorem Recovery.Shows.faked {g : Draft} {js : Text} {map : ColumnMap}
    {fake : Option (Nat × Mechanism)} (h : Shows g js map fake) (faked : g.fakeLine.isSome = true) :
    g.map.isSome = true ∧ g.mechanism.isSome = true := by
  rw [h.fakeLine, Option.isSome_map] at faked
  rw [h.map, h.mechanism, Option.isSome_map]
  exact ⟨rfl, faked⟩

/-- Diagnostics do not matter to what is shown. -/
theorem Recovery.Shows.of_eq {g g' : Draft} {js : Text} {map : ColumnMap}
    {fake : Option (Nat × Mechanism)} (h : Shows g js map fake)
    {diagnostics : Option (List Diagnostic)} (same : g' = { g with diagnostics }) :
    Shows g' js map fake := by
  subst same
  exact ⟨h.js, h.map, h.fakeLine, h.mechanism⟩

namespace Pipeline

open Preparation Recovery

/-- What comes of the two attempts: the prepared text compiles, or a faulty line of it is reported
and one of the two texts is rendered, or a faulty line is only reported. -/
inductive Compiled (prepared : Text) (g : Draft) : Prop
  | direct {js : Text} {map : ColumnMap} (rendered : Rendered prepared js map none)
      (shown : Shows g js map none) (clear : g.diagnostics = none)
  | mended {base : Text} {n : Nat} {line : Text} {d : Diagnostic} {js : Text} {map : ColumnMap}
      {fake : Option (Nat × Mechanism)} (submitted : Submitted prepared base)
      (reports : Reports prepared n line d) (rendered : Rendered base js map fake)
      (shown : Shows g js map fake) (told : g.diagnostics = some [d])
  | rejected {n : Nat} {line : Text} {d : Diagnostic} (reports : Reports prepared n line d)
      (told : g = { diagnostics := some [d] })

/-- **Both attempts come to an end.** -/
theorem compile_ends {prepared : Text} {bound : Nat}
    (clean : ∀ base, Submitted prepared base →
      'ᛝ' ∉ base ∧ Text.span (Text.lines base) + 4 ≤ bound)
    (uri : String) :
    Ends (compile LineByLine.compile prepared uri).outcome
      (fun g => Compiled prepared g.toDraft) (Unaddressable bound) := by
  have handles : ∀ base, Submitted prepared base →
      Ends (Recovery.compile LineByLine.compile base uri).outcome
        (fun g => Handled base g.toDraft) (Unaddressable bound) := by
    intro base submitted
    obtain ⟨free, short⟩ := clean base submitted
    exact (Recovery.compile_ends free uri).mono (fun _ => id) fun f far => far.mono short
  unfold compile
  rw [Run.outcome_bind]
  refine Ends.bind (handles prepared .gentle) fun first handled => ?_
  cases handled with
  | compiled rendered shown clear =>
    rw [if_pos (by rw [shown.js]; rfl)]
    exact .done (.direct rendered shown clear)
  | replaced reports rendered shown told =>
    rw [if_pos (by rw [shown.js]; rfl)]
    exact .done (.mended .gentle reports rendered shown told)
  | reported reports told =>
    have textless : ¬ first.js.isSome = true := by
      rw [told]
      exact Bool.false_ne_true
    rw [if_neg textless, Run.outcome_notes_bind, Run.outcome_bind]
    refine Ends.bind (handles _ .forceful) fun second handled => ?_
    -- What the second attempt reports is dropped: the diagnostic is that of the first one, which
    -- speaks of the lines of the prepared text.
    have retried : (∃ js map fake, Rendered (prepareForcefully prepared) js map fake ∧
        Shows second.toDraft js map fake) ∨ second.js = none := by
      cases handled with
      | compiled rendered shown => exact .inl ⟨_, _, _, rendered, shown⟩
      | replaced _ rendered shown => exact .inl ⟨_, _, _, rendered, shown⟩
      | reported _ told =>
        rw [told]
        exact .inr rfl
    rcases retried with ⟨js, map, fake, rendered, shown⟩ | none_
    · rw [if_pos (by rw [shown.js]; rfl)]
      have made : Returns (second.update fun d => { d with diagnostics := first.diagnostics })
          fun g => g.toDraft = { second.toDraft with diagnostics := first.diagnostics } :=
        Draft.check_returns (.inl (by rw [shown.js]; rfl)) shown.faked
      refine (made.ends _).mono (fun g parts => ?_) fun _ => id
      refine .mended .forceful reports rendered (shown.of_eq parts) ?_
      rw [parts, told]
    · rw [if_neg (by rw [none_]; exact Bool.false_ne_true)]
      exact .done (.rejected reports told)

/-! ## The outcome -/

/-- What the outcome for a source is made of: one of the two texts, rendered and cleaned, or the
sketch of the source. -/
inductive Concluded (t : Text) (g : Draft) : Prop
  | cleaned {base js : Text} {map : ColumnMap} {fake : Option (Nat × Mechanism)}
      (submitted : Submitted (prepare t).text base) (rendered : Rendered base js map fake)
      (text : g.js = some (Cleanup.cleanText js))
      (mapped : g.map = some (Cleanup.cleanedMap js map (numbers (prepare t).inserted)
        (numbers (prepare t).tweaked)))
      (fakeLine : g.fakeLine = fake.map fun f =>
        Cleanup.sourceLine (numbers (prepare t).inserted) f.1)
      (mechanism : g.mechanism = fake.map Prod.snd)
      (clear : g.diagnostics = none → base = (prepare t).text ∧ fake = none)
  | sketched (text : g.js = some (sketch t)) (mapless : g.map = none)
      (genuine : g.fakeLine = none)

/-- The diagnostic on a faulty line has a place in the source. -/
theorem toSource_returns {source : Document} {n : Nat} {line : Text} {d : Diagnostic}
    (reports : Reports (prepare source.text).text n line d) :
    Returns (toSource source (numbers (prepare source.text).inserted) d) fun _ => True := by
  obtain ⟨l, -, place⟩ := exists_place .gentle reports.faulty.found
    (not_mem_inserted_of_faulty .gentle reports.faulty)
  have number := place_eq_add_countP place
  have moves : ∀ p : Position, p.line = n →
      Returns (Cleanup.sourcePosition (numbers (prepare source.text).inserted) p)
        fun _ => True := by
    intro p same
    have small := p.line_le
    unfold Cleanup.sourcePosition
    rw [same, sourceLine_place place, Position.make_natCast (by omega) p.character_le]
    exact ⟨_, rfl, trivial⟩
  have shifted : Returns (Cleanup.sourceDiagnostic (numbers (prepare source.text).inserted) d)
      fun _ => True := by
    unfold Cleanup.sourceDiagnostic
    split
    · exact .ok trivial
    · refine (moves _ reports.start).bind fun start _ => ?_
      exact (moves _ reports.stop).bind fun stop _ => .ok trivial
  exact shifted.bind fun d _ => .ok trivial

/-- A draft whose diagnostic is moved to the source. -/
theorem locateDiagnostics_returns {source : Document} {n : Nat} {line : Text} {d : Diagnostic}
    {g : Generated} (reports : Reports (prepare source.text).text n line d)
    (told : g.diagnostics = some [d])
    (faked : g.fakeLine.isSome = true → g.map.isSome = true ∧ g.mechanism.isSome = true) :
    Returns (locateDiagnostics source (numbers (prepare source.text).inserted) g)
      fun located => ∃ moved, located.toDraft = { g.toDraft with diagnostics := some [moved] } := by
  obtain ⟨moved, at_, -⟩ := toSource_returns reports
  have all : [d].mapM (toSource source (numbers (prepare source.text).inserted)) =
      .ok [moved] := by
    rw [List.mapM_cons, at_]
    rfl
  unfold locateDiagnostics
  rw [told]
  dsimp only
  rw [all]
  obtain ⟨located, made, parts⟩ := Draft.check_returns
    (d := { g.toDraft with diagnostics := some [moved] }) (.inr rfl) faked
  exact ⟨located, made, moved, parts⟩

/-- What is left to do with text and map is to clean them. -/
theorem finish_returns {source : Document} {prepared : Prepared} {g : Generated} {base js : Text}
    {map : ColumnMap} {fake : Option (Nat × Mechanism)} (rendered : Rendered base js map fake)
    (shown : Shows g.toDraft js map fake) :
    Returns (finish source prepared g).outcome fun final => final.toDraft =
      { g.toDraft with
        js := some (Cleanup.cleanText js)
        map := some (Cleanup.cleanedMap js map (numbers prepared.inserted)
          (numbers prepared.tweaked))
        fakeLine := g.fakeLine.map (Cleanup.sourceLine (numbers prepared.inserted)) } := by
  have mapped : g.hasMap = true := by
    unfold Generated.hasMap
    rw [shown.js, shown.map]
    rfl
  obtain ⟨rows, rfl⟩ := rendered.exists_rows
  rw [outcome_finish_of_hasMap mapped]
  exact Cleanup.clean_returns shown.js shown.map (Cleanup.cleanMap_ofMappings js rows _ _)

/-- Where there is no map, the sketch of the source takes the place of the text. -/
theorem finish_returns_of_textless {source : Document} {prepared : Prepared} {g : Generated}
    {d : Diagnostic} (told : g.toDraft = { diagnostics := some [d] }) :
    Returns (finish source prepared g).outcome fun final => final.toDraft =
      { js := some (sketch source.text), diagnostics := some [d] } := by
  have mapless : ¬ g.hasMap = true := by
    unfold Generated.hasMap
    rw [told]
    exact Bool.false_ne_true
  unfold finish
  rw [if_neg mapless, Run.outcome_note_bind, Run.outcome_ofExcept]
  unfold Generated.update
  rw [told]
  exact Draft.check_returns (.inl rfl) fun faked => absurd faked Bool.false_ne_true

/-- **Every source has an outcome**, unless a place of a text that is compiled cannot be addressed:
forceful edits add two characters to a line of the prepared text at most, and a substitute adds
four. -/
theorem generate_ends {source : Document} (clean : 'ᛝ' ∉ source.text) :
    Ends (generate LineByLine.compile source).outcome
      (fun g => Concluded source.text g.toDraft)
      (Unaddressable (Text.span (Text.lines (prepare source.text).text) + 6)) := by
  have submitted : ∀ base, Submitted (prepare source.text).text base → 'ᛝ' ∉ base ∧
      Text.span (Text.lines base) + 4 ≤ Text.span (Text.lines (prepare source.text).text) + 6 :=
    fun base submitted => ⟨placeholder_not_mem_base submitted clean,
      Nat.add_le_add_right (span_base_le submitted) 4⟩
  unfold generate
  rw [Run.outcome_notes_bind, Run.outcome_bind]
  refine Ends.bind (compile_ends submitted source.uri) fun g compiled => ?_
  rw [Run.outcome_bind]
  cases compiled with
  | direct rendered shown clear =>
    have located : locateDiagnostics source (numbers (prepare source.text).inserted) g = .ok g := by
      unfold locateDiagnostics
      rw [clear]
    rw [Run.outcome_ofExcept, located]
    refine ((finish_returns rendered shown).ends _).mono (fun final parts => ?_) fun _ => id
    refine .cleaned .gentle rendered ?_ ?_ ?_ ?_ fun _ => ⟨rfl, rfl⟩
    · rw [parts]
    · rw [parts]
    · rw [parts, shown.fakeLine]
      rfl
    · rw [parts, shown.mechanism]
  | mended submitted reports rendered shown told =>
    refine ((locateDiagnostics_returns reports told shown.faked).ends _).bind ?_
    rintro located ⟨moved, same⟩
    have shown' := shown.of_eq same
    refine ((finish_returns rendered shown').ends _).mono (fun final parts => ?_) fun _ => id
    refine .cleaned submitted rendered ?_ ?_ ?_ ?_ fun clear => ?_
    · rw [parts]
    · rw [parts]
    · rw [parts, shown'.fakeLine, Option.map_map]
      rfl
    · rw [parts, shown'.mechanism]
    · rw [parts, same] at clear
      cases clear
  | rejected reports told =>
    have faked : g.fakeLine.isSome = true → g.map.isSome = true ∧ g.mechanism.isSome = true := by
      rw [told]
      intro absent
      exact absurd absent Bool.false_ne_true
    refine ((locateDiagnostics_returns reports (by rw [told]) faked).ends _).bind ?_
    rintro located ⟨moved, same⟩
    rw [told] at same
    refine ((finish_returns_of_textless same).ends _).mono (fun final parts => ?_) fun _ => id
    rw [parts]
    exact .sketched rfl rfl rfl

end Pipeline

end DialectBridge
