import DialectBridge.Pipeline
import DialectBridge.Proofs.Offsets
import DialectBridge.Proofs.RepairedMaps

/-!
# The course of a compilation

Whatever the dialect compiler answers, the texts it is asked for follow a plan that can be written
down beforehand. A text is put to the compiler as it is; if it is rejected, its erroneous line is
replaced by one candidate after the other. A source has two such rounds, one on its prepared text
and one on the forcefully prepared text, and the compiler is asked up to and including the first
trial that it does not reject.

The outcome is read off the same plan. A fault of the compiler is the fault of the whole. Otherwise
the last trial decides: if it compiled, the outcome has a map, and the trial says whether a line was
faked; if it was rejected as well, the sketch of the source is all there is. The diagnostics never
speak of anything but the first text.
-/

set_option autoImplicit false

namespace DialectBridge

/-! ## Journals -/

namespace Run

variable {ω α β : Type}

theorem bind_eq_andThen (first : Run ω α) (next : α → Run ω β) :
    (first >>= next) = first.andThen next := rfl

/-- A fault of the first part is the fault of both. -/
theorem andThen_of_error {first : Run ω α} {fault : Fault} (next : α → Run ω β)
    (failed : first.outcome = .error fault) :
    first.andThen next = ⟨first.journal, .error fault⟩ := by
  unfold andThen
  rw [failed]

/-- After a first part that succeeds the journal goes on with that of the second. -/
theorem andThen_of_ok {first : Run ω α} {a : α} (next : α → Run ω β)
    (succeeded : first.outcome = .ok a) :
    first.andThen next = ⟨first.journal ++ (next a).journal, (next a).outcome⟩ := by
  unfold andThen
  rw [succeeded]

/-- Making notes first leaves the outcome as it is. -/
theorem notes_andThen (entries : List ω) (next : Unit → Run ω β) :
    (notes entries).andThen next = ⟨entries ++ (next ()).journal, (next ()).outcome⟩ := rfl

end Run

namespace Event

@[simp]
theorem askedTexts_nil : askedTexts [] = [] := rfl

@[simp]
theorem askedTexts_asked (t : Text) (rest : List Event) :
    askedTexts (.asked t :: rest) = t :: askedTexts rest := rfl

@[simp]
theorem askedTexts_remark (message : String) (rest : List Event) :
    askedTexts (.remark message :: rest) = askedTexts rest := rfl

@[simp]
theorem askedTexts_append (front back : List Event) :
    askedTexts (front ++ back) = askedTexts front ++ askedTexts back := by
  simp [askedTexts, List.filterMap_append]

/-- Remarks ask for nothing. -/
@[simp]
theorem askedTexts_remarks (messages : List String) : askedTexts (messages.map .remark) = [] := by
  induction messages with
  | nil => rfl
  | cons message rest ih => simpa using ih

end Event

/-- A draft is checked by looking for objections only. -/
theorem Draft.check_eq_ok_iff {d : Draft} {g : Generated} : d.check = .ok g ↔ g.toDraft = d := by
  unfold Draft.check
  constructor
  · intro h
    split at h
    · cases h
      rfl
    · cases h
  · rintro rfl
    have sound := g.sound
    split
    · rfl
    · next fault objection =>
      rw [sound] at objection
      cases objection

/-! ## Trials -/

namespace Compiler

/-- The diagnostic with which a compiler rejects a text. -/
def rejection? (compiler : Compiler) (t : Text) : Option Diagnostic :=
  match attempt (compiler t) with
  | .ok (.failed diagnostic) => some diagnostic
  | _ => none

/-- The compiler answers a text with generated text and a map. -/
def Compiles (compiler : Compiler) (t : Text) : Prop := ∃ js map, compiler t = .compiled js map

theorem rejection?_eq_some_iff {compiler : Compiler} {t : Text} {d : Diagnostic} :
    compiler.rejection? t = some d ↔ attempt (compiler t) = .ok (.failed d) := by
  unfold rejection?
  split
  · next answer => simp [answer]
  · next others =>
    constructor
    · intro h
      cases h
    · intro h
      exact absurd h (others d)

/-- A text that compiles is not rejected. -/
theorem Compiles.rejection?_eq_none {compiler : Compiler} {t : Text}
    (compiles : compiler.Compiles t) : compiler.rejection? t = none := by
  obtain ⟨js, map, answer⟩ := compiles
  simp [rejection?, attempt, answer]

/-- An answer other than text with a map or a rejection ends in a fault of its own. -/
theorem attempt_eq_compiled_iff {compiler : Compiler} {t js : Text} {map : ColumnMap} :
    attempt (compiler t) = .ok (.compiled js map) ↔ compiler t = .compiled js map := by
  cases answer : compiler t with
  | compiled js' map' => simp [attempt]
  | textless map' => simp [attempt]
  | rejected reason =>
    simp only [attempt, reduceCtorEq, iff_false]
    cases reason.toDiagnostic <;> simp [bind, Except.bind, pure, Except.pure]
  | broken fault => simp [attempt]

end Compiler

/-- One text put to the compiler: a text as it is, or one with a candidate in the place of its
erroneous line. -/
structure Trial where
  text : Text
  /-- The erroneous line and the candidate for it. -/
  substitute? : Option (ErrorLine × Candidate)

namespace Trial

/-- A text as it is. -/
def direct (t : Text) : Trial := ⟨t, none⟩

/-- A text with a candidate for its erroneous line. -/
def substituting (t : Text) (e : ErrorLine) (candidate : Candidate) : Trial :=
  ⟨e.substitute t candidate.content, some (e, candidate)⟩

/-- The erroneous line of a rejected text. -/
def errorLine (t : Text) (d : Diagnostic) : ErrorLine := .locate ⟨t, ""⟩ d.range.start.line

/-- The trials of a rejected text. -/
def substitutions (t : Text) (d : Diagnostic) : List Trial :=
  (errorLine t d).candidates.map (substituting t (errorLine t d))

/-- The trials of one round: the text, and behind it the candidates if it is rejected. -/
def round (compiler : Compiler) (t : Text) : List Trial :=
  direct t :: ((compiler.rejection? t).map (substitutions t)).getD []

/-- The trials up to and including the first that is not rejected. -/
def untilSettled (compiler : Compiler) : List Trial → List Trial
  | [] => []
  | trial :: rest =>
    trial :: if (compiler.rejection? trial.text).isSome then untilSettled compiler rest else []

/-- All of the trials are rejected. -/
def AllRejected (compiler : Compiler) (trials : List Trial) : Prop :=
  ∀ trial ∈ trials, (compiler.rejection? trial.text).isSome

variable {compiler : Compiler}

theorem untilSettled_of_rejected {trial : Trial} {rest : List Trial}
    (rejected : (compiler.rejection? trial.text).isSome) :
    untilSettled compiler (trial :: rest) = trial :: untilSettled compiler rest := by
  simp [untilSettled, rejected]

theorem untilSettled_of_settled {trial : Trial} {rest : List Trial}
    (settled : compiler.rejection? trial.text = none) :
    untilSettled compiler (trial :: rest) = [trial] := by
  simp [untilSettled, settled]

theorem untilSettled_round_ne_nil (t : Text) : untilSettled compiler (round compiler t) ≠ [] :=
  List.cons_ne_nil _ _

/-- A trial that is made and not rejected is the last one. -/
theorem getLast?_untilSettled {trials : List Trial} {trial : Trial}
    (member : trial ∈ untilSettled compiler trials)
    (settled : compiler.rejection? trial.text = none) :
    (untilSettled compiler trials).getLast? = some trial := by
  induction trials with
  | nil => exact absurd member List.not_mem_nil
  | cons first rest ih =>
    cases verdict : compiler.rejection? first.text with
    | none =>
      rw [untilSettled_of_settled verdict] at member ⊢
      rw [List.mem_singleton.1 member]
      rfl
    | some d =>
      have rejected : (compiler.rejection? first.text).isSome := by simp [verdict]
      rw [untilSettled_of_rejected rejected] at member ⊢
      rcases List.mem_cons.1 member with rfl | later
      · rw [verdict] at settled
        cases settled
      · rw [List.getLast?_cons, ih later]
        rfl

/-- Trials that are all rejected are all made, and those behind them follow. -/
theorem untilSettled_append {front : List Trial} (rejected : AllRejected compiler front)
    (back : List Trial) :
    untilSettled compiler (front ++ back) = front ++ untilSettled compiler back := by
  induction front with
  | nil => rfl
  | cons trial rest ih =>
    rw [List.cons_append, untilSettled_of_rejected (rejected trial List.mem_cons_self),
      ih fun other member => rejected other (List.mem_cons_of_mem _ member), List.cons_append]

theorem untilSettled_of_allRejected {trials : List Trial} (rejected : AllRejected compiler trials) :
    untilSettled compiler trials = trials := by
  have whole := untilSettled_append rejected []
  simpa [untilSettled] using whole

/-- Behind trials of which one is not rejected nothing is tried. -/
theorem untilSettled_append_of_not {front : List Trial} (settled : ¬ AllRejected compiler front)
    (back : List Trial) :
    untilSettled compiler (front ++ back) = untilSettled compiler front := by
  induction front with
  | nil => exact absurd (fun trial member => absurd member List.not_mem_nil) settled
  | cons trial rest ih =>
    cases verdict : compiler.rejection? trial.text with
    | none =>
      rw [List.cons_append, untilSettled_of_settled verdict, untilSettled_of_settled verdict]
    | some d =>
      have rejected : (compiler.rejection? trial.text).isSome := by simp [verdict]
      rw [List.cons_append, untilSettled_of_rejected rejected, untilSettled_of_rejected rejected,
        ih]
      intro others
      refine settled fun other member => ?_
      rcases List.mem_cons.1 member with rfl | later
      · exact rejected
      · exact others other later

end Trial

/-! ## Runs that follow a list of trials -/

/-- A run asks for the texts of the trials, up to and including the first that is not rejected, and
a fault of the compiler at one of them is its own. -/
structure Follows {α : Type} (compiler : Compiler) (trials : List Trial) (run : Run Event α) :
    Prop where
  asks : Event.askedTexts run.journal = (Trial.untilSettled compiler trials).map (·.text)
  breaks : ∀ trial ∈ Trial.untilSettled compiler trials, ∀ fault,
    Compiler.attempt (compiler trial.text) = .error fault → run.outcome = .error fault

namespace Follows

variable {α β : Type} {compiler : Compiler} {trials : List Trial}

/-- Asking for one text follows the trial with that text. -/
theorem ask (trial : Trial) : Follows compiler [trial] (compiler.ask trial.text) where
  asks := by
    cases verdict : compiler.rejection? trial.text <;>
      simp [Compiler.ask, Trial.untilSettled, verdict]
  breaks := by
    intro made member fault broken
    have same : made = trial := by
      cases verdict : compiler.rejection? trial.text <;>
        simpa [Trial.untilSettled, verdict] using member
    rw [same] at broken
    exact broken

/-- What is done behind the trials may do anything but ask. -/
theorem andThen {first : Run Event α} {next : α → Run Event β}
    (follows : Follows compiler trials first)
    (quiet : ∀ a, first.outcome = .ok a → Event.askedTexts (next a).journal = []) :
    Follows compiler trials (first.andThen next) := by
  cases reached : first.outcome with
  | error fault =>
    rw [Run.andThen_of_error next reached]
    refine ⟨follows.asks, fun trial member other broken => ?_⟩
    have failed := follows.breaks trial member other broken
    rw [reached] at failed
    cases failed
    rfl
  | ok a =>
    rw [Run.andThen_of_ok next reached]
    constructor
    · simp [follows.asks, quiet a reached]
    · intro trial member fault broken
      have failed := follows.breaks trial member fault broken
      rw [reached] at failed
      cases failed

/-- A remark in front changes nothing. -/
theorem remarked {message : String} {next : Unit → Run Event α}
    (follows : Follows compiler trials (next ())) :
    Follows compiler trials ((Run.note (.remark message)).andThen next) :=
  ⟨follows.asks, follows.breaks⟩

theorem noted {messages : List String} {next : Unit → Run Event α}
    (follows : Follows compiler trials (next ())) :
    Follows compiler trials ((Run.notes (messages.map .remark)).andThen next) := by
  rw [Run.notes_andThen]
  refine ⟨?_, follows.breaks⟩
  simp [follows.asks]

/-- When all trials are rejected and the run goes on, more trials can follow. -/
theorem append {more : List Trial} {first : Run Event α} {next : α → Run Event β} {a : α}
    (follows : Follows compiler trials first) (rejected : Trial.AllRejected compiler trials)
    (reached : first.outcome = .ok a) (others : Follows compiler more (next a)) :
    Follows compiler (trials ++ more) (first.andThen next) := by
  have made := follows.asks
  rw [Trial.untilSettled_of_allRejected rejected] at made
  rw [Run.andThen_of_ok next reached]
  constructor
  · rw [Event.askedTexts_append, made, others.asks, Trial.untilSettled_append rejected,
      List.map_append]
  · intro trial member fault broken
    rw [Trial.untilSettled_append rejected] at member
    rcases List.mem_append.1 member with early | late
    · obtain ⟨d, verdict⟩ := Option.isSome_iff_exists.1 (rejected trial early)
      rw [Compiler.rejection?_eq_some_iff.1 verdict] at broken
      cases broken
    · exact others.breaks trial late fault broken

/-- Nothing is asked for behind trials of which one is not rejected. -/
theorem extend {run : Run Event α} (follows : Follows compiler trials run)
    (settled : ¬ Trial.AllRejected compiler trials) (more : List Trial) :
    Follows compiler (trials ++ more) run := by
  constructor
  · rw [Trial.untilSettled_append_of_not settled]
    exact follows.asks
  · rw [Trial.untilSettled_append_of_not settled]
    exact follows.breaks

end Follows

/-! ## One round -/

namespace Recovery

variable {compiler : Compiler}

/-- The candidates of a line are tried in their order, up to the first that is not rejected. -/
theorem firstSuccess_follows (e : ErrorLine) (source : Text) (candidates : List Candidate) :
    Follows compiler (candidates.map (Trial.substituting source e))
      (firstSuccess compiler e source candidates) := by
  induction candidates with
  | nil => exact ⟨rfl, fun trial member => absurd member List.not_mem_nil⟩
  | cons candidate rest ih =>
    have asked : Follows compiler [Trial.substituting source e candidate] _ := Follows.ask _
    cases verdict : compiler.rejection? (Trial.substituting source e candidate).text with
    | some d =>
      have failed : (compiler.ask (Trial.substituting source e candidate).text).outcome =
          .ok (.failed d) := Compiler.rejection?_eq_some_iff.1 verdict
      refine asked.append ?_ failed ih
      intro trial member
      rw [List.mem_singleton.1 member, verdict]
      rfl
    | none =>
      have alone : ¬ Trial.AllRejected compiler [Trial.substituting source e candidate] := by
        intro all
        have rejected := all _ (List.mem_singleton_self _)
        rw [verdict] at rejected
        cases rejected
      refine (asked.andThen ?_).extend alone (rest.map (Trial.substituting source e))
      intro answer reached
      cases answer with
      | compiled js map => rfl
      | textless map => rfl
      | failed d =>
        have rejected := Compiler.rejection?_eq_some_iff.2 reached
        rw [verdict] at rejected
        cases rejected

/-- When no candidate is found, all are rejected. -/
theorem allRejected_of_firstSuccess_eq_none {e : ErrorLine} {source : Text}
    {candidates : List Candidate}
    (h : (firstSuccess compiler e source candidates).outcome = .ok none) :
    Trial.AllRejected compiler (candidates.map (Trial.substituting source e)) := by
  induction candidates with
  | nil =>
    intro trial member
    exact absurd member List.not_mem_nil
  | cons candidate rest ih =>
    obtain ⟨answer, reached, later⟩ := Run.outcome_andThen_eq_ok_iff.1 h
    cases answer with
    | compiled js map => cases later
    | textless map => cases later
    | failed d =>
      intro trial member
      rcases List.mem_cons.1 member with rfl | others
      · exact Option.isSome_iff_exists.2 ⟨d, Compiler.rejection?_eq_some_iff.2 reached⟩
      · exact ih later trial others

/-- When all candidates are rejected, none is found. -/
theorem firstSuccess_of_allRejected {e : ErrorLine} {source : Text} {candidates : List Candidate}
    (all : Trial.AllRejected compiler (candidates.map (Trial.substituting source e))) :
    (firstSuccess compiler e source candidates).outcome = .ok none := by
  induction candidates with
  | nil => rfl
  | cons candidate rest ih =>
    obtain ⟨d, verdict⟩ := Option.isSome_iff_exists.1 (all _ List.mem_cons_self)
    have reached : (compiler.ask (e.substitute source candidate.content)).outcome =
        .ok (.failed d) := Compiler.rejection?_eq_some_iff.1 verdict
    refine Run.outcome_andThen_eq_ok_iff.2 ⟨.failed d, reached, ?_⟩
    exact ih fun trial member => all trial (List.mem_cons_of_mem _ member)

/-- A candidate that is found is the last one tried, and if it came with text it compiled. -/
theorem firstSuccess_eq_some {e : ErrorLine} {source : Text} {candidates : List Candidate}
    {found : Success} (h : (firstSuccess compiler e source candidates).outcome = .ok (some found)) :
    (Trial.untilSettled compiler (candidates.map (Trial.substituting source e))).getLast? =
        some (Trial.substituting source e found.candidate) ∧
      ∀ js, found.js = some js →
        compiler (e.substitute source found.candidate.content) = .compiled js found.map := by
  induction candidates with
  | nil => cases h
  | cons candidate rest ih =>
    obtain ⟨answer, reached, later⟩ := Run.outcome_andThen_eq_ok_iff.1 h
    cases answer with
    | compiled js map =>
      cases later
      have answered := Compiler.attempt_eq_compiled_iff.1 reached
      have settled : compiler.rejection? (Trial.substituting source e candidate).text = none :=
        Compiler.Compiles.rejection?_eq_none ⟨js, map, answered⟩
      rw [List.map_cons, Trial.untilSettled_of_settled settled]
      refine ⟨rfl, fun text same => ?_⟩
      cases same
      exact answered
    | textless map =>
      cases later
      have settled : compiler.rejection? (Trial.substituting source e candidate).text = none := by
        unfold Compiler.rejection?
        rw [show Compiler.attempt (compiler (Trial.substituting source e candidate).text) =
          .ok (.textless map) from reached]
      rw [List.map_cons, Trial.untilSettled_of_settled settled]
      exact ⟨rfl, fun text same => nomatch same⟩
    | failed d =>
      have rejected : (compiler.rejection? (Trial.substituting source e candidate).text).isSome :=
        Option.isSome_iff_exists.2 ⟨d, Compiler.rejection?_eq_some_iff.2 reached⟩
      obtain ⟨last, compiled⟩ := ih later
      refine ⟨?_, compiled⟩
      rw [List.map_cons, Trial.untilSettled_of_rejected rejected, List.getLast?_cons, last]
      rfl

/-- What one round on a text can come to. -/
inductive Recovered (compiler : Compiler) (t : Text) : Draft → Prop where
  /-- The text compiles as it is. -/
  | direct {js : Text} {map : ColumnMap} (answer : compiler t = .compiled js map) :
      Recovered compiler t { js := some js, map := some map }
  /-- The text is rejected, and one of its substitutions compiles; no mapping in front of the
  generated text is added to those of its map. -/
  | substituted {d : Diagnostic} {candidate : Candidate} {compiledJs js : Text}
      {compiledMap map : ColumnMap} (rejected : compiler.rejection? t = some d)
      (last : (Trial.untilSettled compiler (Trial.round compiler t)).getLast? =
        some (Trial.substituting t (Trial.errorLine t d) candidate))
      (answer : compiler ((Trial.errorLine t d).substitute t candidate.content) =
        .compiled compiledJs compiledMap)
      (given : ∀ m ∈ map.mappings, m.outputLine < 0 → m ∈ compiledMap.mappings) :
      Recovered compiler t
        { js := some js, map := some map, diagnostics := some [d],
          fakeLine := some (Trial.errorLine t d).line, mechanism := some candidate.mechanism }
  /-- The text and all its substitutions are rejected. -/
  | exhausted {d : Diagnostic} (rejected : compiler.rejection? t = some d)
      (all : Trial.AllRejected compiler (Trial.round compiler t)) :
      Recovered compiler t { diagnostics := some [d] }

/-- A line that is put back gives an outcome with text, a map, and the line as its fake line. -/
theorem toDraft_of_reconstruct {js uri : _} {map : ColumnMap} {candidate : Candidate}
    {e : ErrorLine} {d : Diagnostic} {g : Generated}
    (h : reconstruct js map candidate e d uri = .ok g) :
    ∃ newJs newMap, (∀ m ∈ newMap.mappings, m.outputLine < 0 → m ∈ map.mappings) ∧ g.toDraft =
      { js := some newJs, map := some newMap, diagnostics := some [d],
        fakeLine := some (e.line : Int), mechanism := some candidate.mechanism } := by
  unfold reconstruct at h
  cases number : placeholderLine? (Text.lines js) with
  | none =>
    simp only [number] at h
    cases h
  | some n =>
    simp only [number] at h
    cases used : candidate.mechanism with
    | sourceInOutput =>
      simp only [used] at h
      refine ⟨_, _, fun m member negative => ?_, Draft.check_eq_ok_iff.1 h⟩
      exact absurd negative (Int.not_lt.2 (ColumnMap.outputLine_nonneg member))
    | modifiedSource =>
      simp only [used] at h
      cases restored : restoreEnd? ((Text.lines js).getD n []) candidate.removed with
      | none =>
        simp only [restored] at h
        cases h
      | some line =>
        simp only [restored] at h
        exact ⟨_, _, fun m member _ => member, Draft.check_eq_ok_iff.1 h⟩

/-- One round follows its trials. -/
theorem compile_follows (source : Text) (uri : String) :
    Follows compiler (Trial.round compiler source) (compile compiler source uri) := by
  have asked : Follows compiler [Trial.direct source] _ := Follows.ask _
  unfold compile
  simp only [Run.bind_eq_andThen]
  cases verdict : compiler.rejection? source with
  | none =>
    have settled : Trial.round compiler source = [Trial.direct source] := by
      simp [Trial.round, verdict]
    rw [settled]
    refine asked.andThen ?_
    intro answer reached
    cases answer with
    | compiled js map => rfl
    | textless map => rfl
    | failed d =>
      have rejected := Compiler.rejection?_eq_some_iff.2 reached
      rw [show compiler.rejection? (Trial.direct source).text = none from verdict] at rejected
      cases rejected
  | some d =>
    have rejected : Trial.AllRejected compiler [Trial.direct source] := by
      intro trial member
      rw [List.mem_singleton.1 member, show (Trial.direct source).text = source from rfl, verdict]
      rfl
    have candidates : Trial.round compiler source =
        [Trial.direct source] ++ Trial.substitutions source d := by
      simp [Trial.round, verdict]
    rw [candidates]
    refine asked.append rejected (Compiler.rejection?_eq_some_iff.1 verdict) ?_
    have tried : Follows compiler _ (firstSuccess compiler (Trial.errorLine source d) source
        (Trial.errorLine source d).candidates) := firstSuccess_follows _ _ _
    refine Follows.remarked (tried.andThen ?_)
    intro found reached
    cases found with
    | none => rfl
    | some found =>
      obtain ⟨candidate, js, map⟩ := found
      cases js <;> rfl

/-- When every trial of a round is rejected, the diagnostic of the text is all that is left. -/
theorem compile_of_allRejected {source : Text} (uri : String) {d : Diagnostic}
    (rejected : compiler.rejection? source = some d)
    (all : Trial.AllRejected compiler (Trial.round compiler source)) :
    ∃ g, (compile compiler source uri).outcome = .ok g ∧
      g.toDraft = { diagnostics := some [d] } := by
  refine ⟨⟨{ diagnostics := some [d] }, rfl⟩, ?_, rfl⟩
  unfold compile
  simp only [Run.bind_eq_andThen]
  refine Run.outcome_andThen_eq_ok_iff.2
    ⟨.failed d, Compiler.rejection?_eq_some_iff.1 rejected, ?_⟩
  refine Run.outcome_andThen_eq_ok_iff.2 ⟨(), rfl, ?_⟩
  refine Run.outcome_andThen_eq_ok_iff.2 ⟨none, ?_, rfl⟩
  refine firstSuccess_of_allRejected fun trial member => all trial ?_
  simp only [Trial.round, rejected, Option.map_some, Option.getD_some, List.mem_cons]
  exact .inr member

/-- One round that ends in an outcome ends in one of three ways. -/
theorem recovered_of_compile {source : Text} {uri : String} {g : Generated}
    (h : (compile compiler source uri).outcome = .ok g) :
    Recovered compiler source g.toDraft := by
  unfold compile at h
  simp only [Run.bind_eq_andThen] at h
  obtain ⟨answer, reached, later⟩ := Run.outcome_andThen_eq_ok_iff.1 h
  cases answer with
  | compiled js map =>
    have parts : g.toDraft = { js := some js, map := some map } := Draft.check_eq_ok_iff.1 later
    rw [parts]
    exact .direct (Compiler.attempt_eq_compiled_iff.1 reached)
  | textless map => cases later
  | failed d =>
    have rejected : compiler.rejection? source = some d := Compiler.rejection?_eq_some_iff.2 reached
    obtain ⟨_, _, trying⟩ := Run.outcome_andThen_eq_ok_iff.1 later
    obtain ⟨found, tried, ending⟩ := Run.outcome_andThen_eq_ok_iff.1 trying
    have candidates : Trial.round compiler source =
        [Trial.direct source] ++ Trial.substitutions source d := by
      simp [Trial.round, rejected]
    have first : Trial.AllRejected compiler [Trial.direct source] := by
      intro trial member
      rw [List.mem_singleton.1 member, show (Trial.direct source).text = source from rfl, rejected]
      rfl
    cases found with
    | none =>
      have parts : g.toDraft = { diagnostics := some [d] } := Draft.check_eq_ok_iff.1 ending
      rw [parts]
      refine .exhausted rejected ?_
      rw [candidates]
      intro trial member
      rcases List.mem_append.1 member with early | late
      · exact first trial early
      · exact allRejected_of_firstSuccess_eq_none tried trial late
    | some found =>
      obtain ⟨last, compiled⟩ := firstSuccess_eq_some tried
      obtain ⟨candidate, js, map⟩ := found
      cases js with
      | none => cases ending
      | some js =>
        obtain ⟨newJs, newMap, given, parts⟩ := toDraft_of_reconstruct ending
        rw [parts]
        refine .substituted rejected ?_ (compiled js rfl) given
        rw [candidates, Trial.untilSettled_append first, List.getLast?_append, Trial.substitutions]
        exact congrArg (Option.or · _) last

end Recovery

/-! ## What the last trial decides -/

/-- The parts of an outcome are those that the trials made for it call for: the diagnostic of the
first text if it was rejected; text, map and fake line of the last trial if that compiled; and
nothing but the diagnostic if every trial was rejected. A mapping in front of the generated text is
one that a trial was answered with. -/
structure Decided (compiler : Compiler) (first : Text) (made : List Trial) (g : Draft) : Prop where
  diagnostics : g.diagnostics = (compiler.rejection? first).map ([·])
  ended : (∃ trial, made.getLast? = some trial ∧ compiler.Compiles trial.text) ∨
    Trial.AllRejected compiler made
  compiled : ∀ trial, made.getLast? = some trial → compiler.Compiles trial.text →
    g.js.isSome ∧ g.map.isSome ∧
      g.fakeLine = trial.substitute?.map (fun s => (s.1.line : Int)) ∧
      g.mechanism = trial.substitute?.map (fun s => s.2.mechanism)
  exhausted : Trial.AllRejected compiler made →
    g.js = none ∧ g.map = none ∧ g.fakeLine = none ∧ g.mechanism = none
  given : ∀ map, g.map = some map → ∀ m ∈ map.mappings, m.outputLine < 0 →
    ∃ trial ∈ made, ∃ js answered, compiler trial.text = .compiled js answered ∧
      m ∈ answered.mappings

/-- The last of several trials does not compile when all are rejected. -/
theorem Trial.AllRejected.not_compiles {compiler : Compiler} {trials : List Trial}
    (all : Trial.AllRejected compiler trials) {trial : Trial} (member : trial ∈ trials) :
    ¬ compiler.Compiles trial.text := by
  intro compiles
  have rejected := all trial member
  rw [compiles.rejection?_eq_none] at rejected
  cases rejected

/-- One round decides by its last trial. -/
theorem Recovery.Recovered.decided {compiler : Compiler} {t : Text} {g : Draft}
    (recovered : Recovery.Recovered compiler t g) :
    Decided compiler t (Trial.untilSettled compiler (Trial.round compiler t)) g := by
  cases recovered with
  | @direct js map answer =>
    have settled := Compiler.Compiles.rejection?_eq_none ⟨js, map, answer⟩
    have made : Trial.untilSettled compiler (Trial.round compiler t) = [Trial.direct t] :=
      Trial.untilSettled_of_settled settled
    rw [made]
    refine ⟨by rw [settled]; rfl, .inl ⟨_, rfl, js, map, answer⟩, ?_, ?_, ?_⟩
    · intro trial last _
      cases last
      exact ⟨rfl, rfl, rfl, rfl⟩
    · intro all
      exact absurd ⟨js, map, answer⟩ (all.not_compiles (List.mem_singleton_self _))
    · rintro _ ⟨⟩ m member -
      exact ⟨_, List.mem_singleton_self _, js, map, answer, member⟩
  | @substituted d candidate compiledJs js compiledMap map rejected last answer given =>
    refine ⟨by rw [rejected]; rfl, .inl ⟨_, last, compiledJs, compiledMap, answer⟩, ?_, ?_, ?_⟩
    · intro trial other _
      rw [last] at other
      cases other
      exact ⟨rfl, rfl, rfl, rfl⟩
    · intro all
      exact absurd ⟨compiledJs, compiledMap, answer⟩
        (all.not_compiles (List.mem_of_getLast? last))
    · rintro _ ⟨⟩ m member negative
      exact ⟨_, List.mem_of_getLast? last, compiledJs, compiledMap, answer,
        given m member negative⟩
  | exhausted rejected all =>
    rw [Trial.untilSettled_of_allRejected all]
    refine ⟨by rw [rejected]; rfl, .inr all, ?_, fun _ => ⟨rfl, rfl, rfl, rfl⟩, nofun⟩
    intro trial last compiles
    exact absurd compiles (all.not_compiles (List.mem_of_getLast? last))

/-- Trials made behind others that are all rejected decide in their place, except for the
diagnostics. -/
theorem Decided.behind {compiler : Compiler} {first second : Text} {front made : List Trial}
    {g : Draft} (rejected : Trial.AllRejected compiler front) (nonempty : made ≠ [])
    (decided : Decided compiler second made g) :
    Decided compiler first (front ++ made)
      { g with diagnostics := (compiler.rejection? first).map ([·]) } := by
  have sameLast : (front ++ made).getLast? = made.getLast? := by
    rw [List.getLast?_append, List.getLast?_eq_some_getLast nonempty]
    rfl
  have sameAll : Trial.AllRejected compiler (front ++ made) → Trial.AllRejected compiler made :=
    fun all trial member => all trial (List.mem_append_right _ member)
  refine ⟨rfl, ?_, ?_, fun all => decided.exhausted (sameAll all),
    fun map mapped m member negative => ?_⟩
  · rw [sameLast]
    refine decided.ended.imp id fun all trial member => ?_
    rcases List.mem_append.1 member with early | late
    · exact rejected trial early
    · exact all trial late
  · rw [sameLast]
    exact decided.compiled
  · obtain ⟨trial, tried, answer⟩ := decided.given map mapped m member negative
    exact ⟨trial, List.mem_append_right _ tried, answer⟩

/-! ## Both rounds -/

namespace Pipeline

variable {compiler : Compiler}

/-- The trials of a prepared text in both rounds. -/
def rounds (compiler : Compiler) (prepared : Text) : List Trial :=
  Trial.round compiler prepared ++ Trial.round compiler (Preparation.prepareForcefully prepared)

/-- A round with an outcome gives text exactly when not all of its trials are rejected. -/
theorem isSome_js_iff {t : Text} {g : Draft} (recovered : Recovery.Recovered compiler t g) :
    g.js.isSome ↔ ¬ Trial.AllRejected compiler (Trial.round compiler t) := by
  have decided := recovered.decided
  constructor
  · intro text all
    rw [Trial.untilSettled_of_allRejected all] at decided
    rw [(decided.exhausted all).1] at text
    cases text
  · intro settled
    rcases decided.ended with ⟨trial, last, compiles⟩ | all
    · exact (decided.compiled trial last compiles).1
    · cases recovered with
      | direct answer => rfl
      | substituted rejected last answer given => rfl
      | exhausted rejected everything => exact absurd everything settled

/-- The second round is made when the first one has failed altogether, and only then. -/
theorem compile_follows (prepared : Text) (uri : String) :
    Follows compiler (rounds compiler prepared) (compile compiler prepared uri) := by
  have first : Follows compiler _ (Recovery.compile compiler prepared uri) :=
    Recovery.compile_follows prepared uri
  unfold compile
  simp only [Run.bind_eq_andThen]
  by_cases all : Trial.AllRejected compiler (Trial.round compiler prepared)
  · obtain ⟨d, rejected⟩ := Option.isSome_iff_exists.1 (all _ List.mem_cons_self)
    obtain ⟨g, reached, parts⟩ := Recovery.compile_of_allRejected uri rejected all
    refine first.append all reached ?_
    have noText : ¬ g.js.isSome = true := by
      rw [parts]
      exact Bool.false_ne_true
    rw [if_neg noText]
    apply Follows.noted
    refine (Recovery.compile_follows _ uri).andThen ?_
    intro second _
    by_cases text : second.js.isSome = true
    · rw [if_pos text]
      rfl
    · rw [if_neg text]
      rfl
  · refine (first.andThen ?_).extend all _
    intro g reached
    rw [if_pos ((isSome_js_iff (Recovery.recovered_of_compile reached)).2 all)]
    rfl

/-- The outcome of both rounds is decided by the last trial made in them, and its diagnostic is
always that of the first text. -/
theorem decided_of_compile {prepared : Text} {uri : String} {g : Generated}
    (h : (compile compiler prepared uri).outcome = .ok g) :
    Decided compiler prepared (Trial.untilSettled compiler (rounds compiler prepared))
      g.toDraft := by
  unfold compile at h
  simp only [Run.bind_eq_andThen] at h
  obtain ⟨first, reached, later⟩ := Run.outcome_andThen_eq_ok_iff.1 h
  have recovered := Recovery.recovered_of_compile reached
  by_cases all : Trial.AllRejected compiler (Trial.round compiler prepared)
  · have noText : ¬ first.js.isSome = true := fun text => (isSome_js_iff recovered).1 text all
    have alone := recovered.decided
    rw [Trial.untilSettled_of_allRejected all] at alone
    have made : Trial.untilSettled compiler (rounds compiler prepared) =
        Trial.round compiler prepared ++ Trial.untilSettled compiler
          (Trial.round compiler (Preparation.prepareForcefully prepared)) :=
      Trial.untilSettled_append all _
    rw [if_neg noText] at later
    obtain ⟨_, _, trying⟩ := Run.outcome_andThen_eq_ok_iff.1 later
    obtain ⟨second, again, ending⟩ := Run.outcome_andThen_eq_ok_iff.1 trying
    have retried := Recovery.recovered_of_compile again
    have decided : Decided compiler prepared _ _ := retried.decided.behind all
      (Trial.untilSettled_round_ne_nil _)
    rw [← alone.diagnostics, ← made] at decided
    by_cases text : second.js.isSome = true
    · rw [if_pos text] at ending
      obtain ⟨_, _, updated⟩ := Run.outcome_andThen_eq_ok_iff.1 ending
      rw [Draft.check_eq_ok_iff.1 updated]
      exact decided
    · rw [if_neg text] at ending
      cases ending
      have everything : Trial.AllRejected compiler
          (Trial.untilSettled compiler (rounds compiler prepared)) := by
        have others :=
          Classical.not_not.1 fun settled => text ((isSome_js_iff retried).2 settled)
        rw [made, Trial.untilSettled_of_allRejected others]
        intro trial member
        exact (List.mem_append.1 member).elim (all trial) (others trial)
      refine ⟨alone.diagnostics, .inr everything, ?_, fun _ => alone.exhausted all,
        fun map mapped => ?_⟩
      · intro trial last compiles
        exact absurd compiles (everything.not_compiles (List.mem_of_getLast? last))
      · rw [(alone.exhausted all).2.1] at mapped
        cases mapped
  · rw [if_pos ((isSome_js_iff recovered).2 all)] at later
    cases later
    rw [rounds, Trial.untilSettled_append_of_not all]
    exact recovered.decided

/-! ## Diagnostics in the lines of the source -/

/-- A diagnostic of the prepared text and the same diagnostic in the lines of the source. Its
columns stay, and its message changes only where a dangling dot is named in the place of the
terminator behind it. -/
structure Relocated (inserted : List Int) (d moved : Diagnostic) : Prop where
  startLine : (moved.range.start.line : Int) = Cleanup.sourceLine inserted d.range.start.line
  startCharacter : moved.range.start.character = d.range.start.character
  stopLine : (moved.range.stop.line : Int) = Cleanup.sourceLine inserted d.range.stop.line
  stopCharacter : moved.range.stop.character = d.range.stop.character
  message : moved.message = d.message ∨
    d.message = terminatorMessage ∧ moved.message = danglingDotMessage
  severity : moved.severity = d.severity
  code : moved.code = d.code
  source : moved.source = d.source
  tags : moved.tags = d.tags

/-- Only the lines of a diagnostic move. -/
theorem relocated_of_sourceDiagnostic {inserted : List Int} {d moved : Diagnostic}
    (h : Cleanup.sourceDiagnostic inserted d = .ok moved) :
    Relocated inserted d moved ∧ moved.message = d.message := by
  unfold Cleanup.sourceDiagnostic at h
  split at h
  · next none_ =>
    cases h
    have same : ∀ line, Cleanup.sourceLine inserted line = line := by
      intro line
      rw [List.isEmpty_iff.1 none_]
      simp [Cleanup.sourceLine, Bisection.place, Bisection.placeBetween]
    exact ⟨⟨(same _).symm, rfl, (same _).symm, rfl, .inl rfl, rfl, rfl, rfl, rfl⟩, rfl⟩
  · cases start : Cleanup.sourcePosition inserted d.range.start with
    | error fault =>
      rw [start] at h
      cases h
    | ok first =>
      cases stop : Cleanup.sourcePosition inserted d.range.stop with
      | error fault =>
        rw [start, stop] at h
        cases h
      | ok last =>
        rw [start, stop] at h
        cases h
        obtain ⟨startLine, startCharacter⟩ := Position.coordinates_of_make start
        obtain ⟨stopLine, stopCharacter⟩ := Position.coordinates_of_make stop
        exact ⟨⟨startLine, Int.ofNat.inj startCharacter, stopLine, Int.ofNat.inj stopCharacter,
          .inl rfl, rfl, rfl, rfl, rfl⟩, rfl⟩

/-- Naming a dangling dot changes the message and nothing else. -/
theorem Relocated.explained {inserted : List Int} {d moved : Diagnostic}
    (relocated : Relocated inserted d moved) (same : moved.message = d.message)
    (source : Document) : Relocated inserted d (explainDanglingDot source moved) := by
  unfold explainDanglingDot
  dsimp only
  split
  · next named =>
    simp only [Bool.and_eq_true, beq_iff_eq] at named
    exact { relocated with message := .inr ⟨same ▸ named.1.1, rfl⟩ }
  · exact relocated

theorem relocated_of_toSource {source : Document} {inserted : List Int} {d moved : Diagnostic}
    (h : toSource source inserted d = .ok moved) : Relocated inserted d moved := by
  unfold toSource at h
  cases shifted : Cleanup.sourceDiagnostic inserted d with
  | error fault =>
    rw [shifted] at h
    cases h
  | ok middle =>
    rw [shifted] at h
    cases h
    obtain ⟨relocated, same⟩ := relocated_of_sourceDiagnostic shifted
    exact relocated.explained same source

/-- Moving the diagnostics of an outcome to the source keeps their number and all other parts. -/
theorem toDraft_of_locateDiagnostics {source : Document} {inserted : List Int}
    {g located : Generated} {d : Diagnostic} (one : g.diagnostics = some [d])
    (h : locateDiagnostics source inserted g = .ok located) :
    ∃ moved, Relocated inserted d moved ∧
      located.toDraft = { g.toDraft with diagnostics := some [moved] } := by
  unfold locateDiagnostics at h
  rw [one] at h
  cases shifted : toSource source inserted d with
  | error fault =>
    simp only [List.mapM_cons, shifted] at h
    cases h
  | ok moved =>
    simp only [List.mapM_cons, List.mapM_nil, shifted] at h
    exact ⟨moved, relocated_of_toSource shifted, Draft.check_eq_ok_iff.1 h⟩

theorem locateDiagnostics_of_none {source : Document} {inserted : List Int}
    {g located : Generated} (none_ : g.diagnostics = none)
    (h : locateDiagnostics source inserted g = .ok located) : located = g := by
  unfold locateDiagnostics at h
  rw [none_] at h
  cases h
  rfl

/-! ## The end of a run -/

/-- Cleaning keeps whether there is text and whether there is a map, and moves the fake line to the
source. -/
theorem toDraft_of_clean {g cleaned : Generated} {inserted tweaked : List Int} {js : Text}
    {map : ColumnMap} (text : g.js = some js) (mapped : g.map = some map)
    (h : Cleanup.clean g inserted tweaked = .ok cleaned) :
    cleaned.toDraft =
      { g.toDraft with
        js := some (Cleanup.cleanText js)
        map := some (Cleanup.cleanedMap js map inserted tweaked)
        fakeLine := g.fakeLine.map (Cleanup.sourceLine inserted) } := by
  unfold Cleanup.clean at h
  rw [text, mapped] at h
  dsimp only at h
  cases made : Cleanup.cleanMap js map inserted tweaked with
  | error fault =>
    rw [made] at h
    cases h
  | ok map' =>
    rw [made, (Cleanup.readable_of_cleanMap made).2] at h
    exact Draft.check_eq_ok_iff.1 h

/-- An outcome with text and map is cleaned; what is remarked then does not change it. -/
theorem outcome_finish_of_hasMap {source : Document} {prepared : Prepared} {g : Generated}
    (mapped : g.hasMap = true) :
    (finish source prepared g).outcome =
      Cleanup.clean g (numbers prepared.inserted) (numbers prepared.tweaked) := by
  unfold finish
  rw [if_pos mapped]
  cases Cleanup.clean g (numbers prepared.inserted) (numbers prepared.tweaked) with
  | error fault => rfl
  | ok cleaned => rfl

/-- What compiled is cleaned, and a sketch takes the place of what did not. -/
theorem toDraft_of_finish {source : Document} {prepared : Prepared} {g final : Generated}
    (h : (finish source prepared g).outcome = .ok final) :
    (∃ js map, g.js = some js ∧ g.map = some map ∧ final.toDraft =
      { g.toDraft with
        js := some (Cleanup.cleanText js)
        map := some
          (Cleanup.cleanedMap js map (numbers prepared.inserted) (numbers prepared.tweaked))
        fakeLine := g.fakeLine.map (Cleanup.sourceLine (numbers prepared.inserted)) }) ∨
    (g.hasMap = false ∧ final.toDraft = { g.toDraft with js := some (sketch source.text) }) := by
  by_cases mapped : g.hasMap = true
  · rw [outcome_finish_of_hasMap mapped] at h
    unfold Generated.hasMap at mapped
    simp only [Bool.and_eq_true] at mapped
    obtain ⟨js, text⟩ := Option.isSome_iff_exists.1 mapped.1
    obtain ⟨map, entries⟩ := Option.isSome_iff_exists.1 mapped.2
    exact .inl ⟨js, map, text, entries, toDraft_of_clean text entries h⟩
  · unfold finish at h
    rw [if_neg mapped] at h
    simp only [Run.bind_eq_andThen] at h
    obtain ⟨_, _, updated⟩ := Run.outcome_andThen_eq_ok_iff.1 h
    exact .inr ⟨Bool.eq_false_iff.2 mapped, Draft.check_eq_ok_iff.1 updated⟩

/-- Nothing is asked for once the compilations are over. -/
theorem askedTexts_finish (source : Document) (prepared : Prepared) (g : Generated) :
    Event.askedTexts (finish source prepared g).journal = [] := by
  unfold finish
  by_cases mapped : g.hasMap = true
  · rw [if_pos mapped]
    cases Cleanup.clean g (numbers prepared.inserted) (numbers prepared.tweaked) with
    | error fault => rfl
    | ok cleaned =>
      change Event.askedTexts ((Cleanup.remarks g source.uri).map .remark ++ []) = []
      rw [List.append_nil, Event.askedTexts_remarks]
  · rw [if_neg mapped]
    rfl

/-- A run on a source compiles, moves the diagnostics and finishes. -/
theorem stages_of_generate {source : Document} {final : Generated}
    (h : (generate compiler source).outcome = .ok final) :
    ∃ compiled located,
      (compile compiler (Preparation.prepare source.text).text source.uri).outcome = .ok compiled ∧
      locateDiagnostics source (numbers (Preparation.prepare source.text).inserted) compiled =
        .ok located ∧
      (finish source (Preparation.prepare source.text) located).outcome = .ok final := by
  unfold generate at h
  simp only [Run.bind_eq_andThen] at h
  obtain ⟨_, _, working⟩ := Run.outcome_andThen_eq_ok_iff.1 h
  obtain ⟨compiled, first, moving⟩ := Run.outcome_andThen_eq_ok_iff.1 working
  obtain ⟨located, second, last⟩ := Run.outcome_andThen_eq_ok_iff.1 moving
  exact ⟨compiled, located, first, second, last⟩

/-- A run on a source follows the trials of both rounds; nothing is asked for once they are over. -/
theorem generate_follows (source : Document) :
    Follows compiler (rounds compiler (Preparation.prepare source.text).text)
      (generate compiler source) := by
  unfold generate
  simp only [Run.bind_eq_andThen]
  apply Follows.noted
  refine (compile_follows _ source.uri).andThen ?_
  intro compiled _
  cases moved : locateDiagnostics source (numbers (Preparation.prepare source.text).inserted)
      compiled with
  | error fault =>
    rw [Run.andThen_of_error _ (by rfl)]
    rfl
  | ok located =>
    rw [Run.andThen_of_ok _ (by rfl)]
    exact askedTexts_finish source (Preparation.prepare source.text) located

/-- What the trials made for a source call for in its outcome. -/
structure Settled (compiler : Compiler) (source : Document) (made : List Trial) (g : Generated) :
    Prop where
  /-- There is always generated text. -/
  text : g.js.isSome
  /-- Without a diagnostic the prepared text compiled, and the reverse. -/
  clear : g.diagnostics = none ↔ compiler.Compiles (Preparation.prepare source.text).text
  /-- Any other outcome has one diagnostic, that of the prepared text. -/
  reported : ∀ all, g.diagnostics = some all → ∃ d moved,
    compiler.rejection? (Preparation.prepare source.text).text = some d ∧ all = [moved] ∧
      Relocated (numbers (Preparation.prepare source.text).inserted) d moved
  /-- Without a map no trial compiled, and the reverse. -/
  unmapped : g.map = none ↔ ∀ trial ∈ made, ¬ compiler.Compiles trial.text
  /-- Without a map the text is a sketch, and no line is faked. -/
  sketched : g.map = none →
    g.fakeLine = none ∧ g.mechanism = none ∧ g.js = some (sketch source.text)
  /-- The trial that compiled says whether a line is faked, which one, and how. -/
  faked : ∀ trial ∈ made, compiler.Compiles trial.text →
    g.fakeLine = trial.substitute?.map
      (fun s => Cleanup.sourceLine (numbers (Preparation.prepare source.text).inserted) s.1.line) ∧
    g.mechanism = trial.substitute?.map (fun s => s.2.mechanism)

/-- Before it is finished an outcome is decided by the trials, and its diagnostics, if the prepared
text was rejected, are in the lines of the source. -/
theorem exists_located_of_generate {source : Document} {g : Generated}
    (h : (generate compiler source).outcome = .ok g) :
    ∃ compiled located : Generated,
      Decided compiler (Preparation.prepare source.text).text
        (Trial.untilSettled compiler (rounds compiler (Preparation.prepare source.text).text))
        compiled.toDraft ∧
      located.toDraft = { compiled.toDraft with diagnostics := located.diagnostics } ∧
      (compiler.rejection? (Preparation.prepare source.text).text = none ∧
          located.diagnostics = none ∨
        ∃ d moved, compiler.rejection? (Preparation.prepare source.text).text = some d ∧
          located.diagnostics = some [moved] ∧
          Relocated (numbers (Preparation.prepare source.text).inserted) d moved) ∧
      (finish source (Preparation.prepare source.text) located).outcome = .ok g := by
  obtain ⟨compiled, located, first, moving, last⟩ := stages_of_generate h
  have decided := decided_of_compile first
  have diagnostics := decided.diagnostics
  cases verdict : compiler.rejection? (Preparation.prepare source.text).text with
  | none =>
    rw [verdict] at diagnostics
    have same := locateDiagnostics_of_none diagnostics moving
    refine ⟨compiled, located, decided, ?_, .inl ⟨rfl, ?_⟩, last⟩
    · rw [same]
    · rw [same]
      exact diagnostics
  | some d =>
    rw [verdict] at diagnostics
    obtain ⟨moved, relocated, parts⟩ := toDraft_of_locateDiagnostics diagnostics moving
    refine ⟨compiled, located, decided, ?_, .inr ⟨d, moved, rfl, ?_, relocated⟩, last⟩
    · rw [parts]
    · rw [parts]

/-- A prepared text that is decided without being rejected compiled. -/
theorem compiles_of_not_rejected {prepared : Text} {g : Draft}
    (decided : Decided compiler prepared
      (Trial.untilSettled compiler (rounds compiler prepared)) g)
    (settled : compiler.rejection? prepared = none) : compiler.Compiles prepared := by
  have made : Trial.untilSettled compiler (rounds compiler prepared) = [Trial.direct prepared] :=
    Trial.untilSettled_of_settled settled
  rw [made] at decided
  rcases decided.ended with ⟨trial, last, compiles⟩ | all
  · cases last
    exact compiles
  · have rejected := all _ (List.mem_singleton_self _)
    rw [show (Trial.direct prepared).text = prepared from rfl, settled] at rejected
    cases rejected

/-- Finishing keeps the diagnostics. -/
theorem diagnostics_of_finish {source : Document} {prepared : Prepared} {g final : Generated}
    (h : (finish source prepared g).outcome = .ok final) : final.diagnostics = g.diagnostics := by
  rcases toDraft_of_finish h with ⟨js, map, -, -, parts⟩ | ⟨-, parts⟩
  · rw [parts]
  · rw [parts]

/-- An outcome has no diagnostics exactly when the prepared text compiled. -/
theorem diagnostics_eq_none_iff {source : Document} {g : Generated}
    (h : (generate compiler source).outcome = .ok g) :
    g.diagnostics = none ↔ compiler.Compiles (Preparation.prepare source.text).text := by
  obtain ⟨compiled, located, decided, -, diagnosed, last⟩ := exists_located_of_generate h
  rw [diagnostics_of_finish last]
  rcases diagnosed with ⟨settled, absent⟩ | ⟨d, moved, rejected, present, -⟩
  · exact ⟨fun _ => compiles_of_not_rejected decided settled, fun _ => absent⟩
  · constructor
    · intro absent
      rw [absent] at present
      cases present
    · intro compiles
      rw [compiles.rejection?_eq_none] at rejected
      cases rejected

/-- The diagnostics of an outcome are those of the prepared text. -/
theorem reported_of_generate {source : Document} {g : Generated}
    (h : (generate compiler source).outcome = .ok g) {all : List Diagnostic}
    (present : g.diagnostics = some all) :
    ∃ d moved, compiler.rejection? (Preparation.prepare source.text).text = some d ∧
      all = [moved] ∧ Relocated (numbers (Preparation.prepare source.text).inserted) d moved := by
  obtain ⟨compiled, located, -, -, diagnosed, last⟩ := exists_located_of_generate h
  rw [diagnostics_of_finish last] at present
  rcases diagnosed with ⟨-, absent⟩ | ⟨d, moved, rejected, one, relocated⟩
  · rw [absent] at present
    cases present
  · rw [one] at present
    cases present
    exact ⟨d, moved, rejected, rfl, relocated⟩

/-- A run ends with the trial that compiled, whose line is the fake line if it has one, or with a
sketch when all trials are rejected. -/
theorem ended_of_generate {source : Document} {g : Generated}
    (h : (generate compiler source).outcome = .ok g) :
    let made := Trial.untilSettled compiler (rounds compiler (Preparation.prepare source.text).text)
    g.js.isSome ∧
      ((∃ trial, made.getLast? = some trial ∧ compiler.Compiles trial.text ∧ g.map.isSome ∧
          g.fakeLine = trial.substitute?.map (fun s => Cleanup.sourceLine
            (numbers (Preparation.prepare source.text).inserted) s.1.line) ∧
          g.mechanism = trial.substitute?.map (fun s => s.2.mechanism)) ∨
        Trial.AllRejected compiler made ∧ g.map = none ∧ g.fakeLine = none ∧ g.mechanism = none ∧
          g.js = some (sketch source.text)) := by
  obtain ⟨compiled, located, decided, parts, -, last⟩ := exists_located_of_generate h
  rcases toDraft_of_finish last with ⟨js, map, text, -, final⟩ | ⟨unmapped, final⟩
  · refine ⟨by rw [final]; rfl, .inl ?_⟩
    have someText : compiled.js = some js := by
      rw [parts] at text
      exact text
    obtain ⟨trial, lastMade, compiles⟩ := decided.ended.resolve_right fun all => by
      rw [(decided.exhausted all).1] at someText
      cases someText
    obtain ⟨-, -, line, mechanism⟩ := decided.compiled trial lastMade compiles
    rw [final, parts]
    refine ⟨trial, lastMade, compiles, rfl, ?_, mechanism⟩
    rw [line, Option.map_map]
    rfl
  · refine ⟨by rw [final]; rfl, .inr ?_⟩
    have all := decided.ended.resolve_left fun ⟨trial, lastMade, compiles⟩ => by
      obtain ⟨text, mapped, -⟩ := decided.compiled trial lastMade compiles
      rw [Generated.hasMap, parts, text, mapped] at unmapped
      cases unmapped
    obtain ⟨-, noMap, noLine, noMechanism⟩ := decided.exhausted all
    rw [final, parts]
    exact ⟨all, noMap, noLine, noMechanism, rfl⟩

/-- **The outcome law.** Whatever the compiler is, the texts it is asked for are those of the two
rounds of trials up to and including the first that it does not reject; a fault of the compiler at
one of them is the fault of the run; and every outcome is the one that these trials call for. -/
theorem generate_settled (compiler : Compiler) (source : Document) :
    let made := Trial.untilSettled compiler
      (rounds compiler (Preparation.prepare source.text).text)
    Event.askedTexts (generate compiler source).journal = made.map (·.text) ∧
      (∀ trial ∈ made, ∀ fault, Compiler.attempt (compiler trial.text) = .error fault →
        (generate compiler source).outcome = .error fault) ∧
      ∀ g, (generate compiler source).outcome = .ok g → Settled compiler source made g := by
  intro made
  have follows : Follows compiler _ (generate compiler source) := generate_follows source
  refine ⟨follows.asks, follows.breaks, fun g h => ?_⟩
  have clear := diagnostics_eq_none_iff h
  have reported := fun all : List Diagnostic => fun present : g.diagnostics = some all =>
    reported_of_generate h present
  obtain ⟨text, ⟨trial, lastMade, compiles, mapped, faked⟩ | ⟨all, unmapped, sketched⟩⟩ :=
    ended_of_generate h
  · have some_ : g.map ≠ none := Option.isSome_iff_ne_none.1 mapped
    refine ⟨text, clear, reported, ⟨fun absent => absurd absent some_, fun none_ => ?_⟩,
      fun absent => absurd absent some_, fun other member compiled => ?_⟩
    · exact absurd compiles (none_ trial (List.mem_of_getLast? lastMade))
    · -- No trial behind the one that compiled is made, so it is the last one.
      have last := Trial.getLast?_untilSettled member compiled.rejection?_eq_none
      obtain rfl := Option.some.inj (lastMade.symm.trans last)
      exact faked
  · refine ⟨text, clear, reported, ⟨fun _ other member => ?_, fun _ => unmapped⟩,
      fun _ => sketched, fun other member compiled => ?_⟩
    · exact all.not_compiles member
    · exact absurd compiled (all.not_compiles member)

end Pipeline

end DialectBridge
