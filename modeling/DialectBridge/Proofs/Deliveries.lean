import DialectBridge.Validation
import Mathlib.Data.List.Nodup

/-!
# Deliveries of a scheduler

A history of a scheduler is the list of steps it took, the newest first, in any order: documents are
scheduled and cancelled, the scheduler is closed, and jobs go on.

What a scheduler remembers of its documents is consistent (`Consistent`): a document has a token if
and only if it has a job, and a job that is not over keeps its diagnostics to itself unless its
document holds its token. The token is that of the job which was scheduled last and has not been
cancelled since (`standing?`), or that job is over. So only that job ever delivers.

A validation comes to an end once (`ended`), since a job that is past its validation never gets back
to it (`Later`). A delivery needs such an end, with diagnostics.
-/

set_option autoImplicit false

namespace DialectBridge

namespace Validation

/-! ## Steps and histories -/

/-- What happens to a job. -/
inductive JobEvent where
  | wake
  | suspend (swallows : Bool)
  | conclude (ending : Ending)
  | settle
  deriving DecidableEq, Repr

/-- A step of a scheduler. -/
inductive Step where
  | schedule (uri : String)
  | cancel (uri : String)
  | close
  | job (id : Nat) (event : JobEvent)
  deriving DecidableEq, Repr

namespace Scheduler

/-- One step, with what is seen of it from outside. -/
def step (s : Scheduler) : Step → Scheduler × List Notice
  | .schedule uri => (s.schedule uri, [])
  | .cancel uri => (s.cancel uri, [])
  | .close => (s.close, [])
  | .job id .wake => (s.wake id, [])
  | .job id (.suspend swallows) => (s.suspend id swallows, [])
  | .job id (.conclude ending) => s.conclude id ending
  | .job id .settle => (s.settle id, [])

/-- The scheduler after a history, which begins without jobs. -/
def after : List Step → Scheduler
  | [] => {}
  | next :: past => ((after past).step next).1

/-- What was seen in a history, the newest first. -/
def notices : List Step → List Notice
  | [] => []
  | next :: past => ((after past).step next).2.reverse ++ notices past

/-- The documents that were scheduled in a history, the first one first: each has the job of that
number. -/
def scheduled : List Step → List String
  | [] => []
  | .schedule uri :: past => scheduled past ++ [uri]
  | _ :: past => scheduled past

/-- The job of a document that was scheduled last, unless it was cancelled since. -/
def standing? (uri : String) : List Step → Option Nat
  | [] => none
  | .schedule other :: past =>
    if other = uri then some (scheduled past).length else standing? uri past
  | .cancel other :: past => if other = uri then none else standing? uri past
  | .close :: _ => none
  | .job _ _ :: past => standing? uri past

/-- The validation that comes to an end in a step, with what it comes to. -/
def ends (s : Scheduler) : Step → List (Nat × Ending)
  | .job id (.conclude ending) =>
    if (s.phase? id).any Phase.isUnderWay then [(id, ending)] else []
  | _ => []

/-- The validations that came to an end in a history, the newest first. -/
def ended : List Step → List (Nat × Ending)
  | [] => []
  | next :: past => (after past).ends next ++ ended past

end Scheduler

/-- The job of a delivery. -/
def Notice.deliverer? : Notice → Option Nat
  | .delivered job _ _ => some job
  | .failed _ => none

/-! ## One job -/

/-- A job whose token and task are cancelled. -/
def Job.cancel (job : Job) : Job :=
  { job with phase := job.phase.cancel, tokenCancelled := true }

/-- How a job goes on. -/
def Job.advance (job : Job) : JobEvent → Job
  | .wake => job.wake
  | .suspend swallows => job.suspend swallows
  | .conclude ending => job.conclude ending
  | .settle => job.settle

namespace Phase

/-- Whether a job in this phase is past its validation. -/
def isSpent : Phase → Bool
  | .delivering _ | .finished | .cancelled => true
  | .sleeping | .validating _ | .waiting _ => false

theorem isSpent_of_isOver {phase : Phase} (ceased : phase.isOver) : phase.isSpent := by
  cases phase <;> simp_all [isOver, isSpent]

theorem delivering_of_isSpent {phase : Phase} (spent : phase.isSpent) (alive : ¬ phase.isOver) :
    ∃ interrupted, phase = .delivering interrupted := by
  cases phase <;> simp_all [isOver, isSpent]

theorem isSpent_of_isUnderWay {phase : Phase} (running : phase.isUnderWay) :
    phase.isSpent = false := by
  cases phase <;> simp_all [isSpent, isUnderWay]

theorem isOver_of_isUnderWay {phase : Phase} (running : phase.isUnderWay) :
    phase.isOver = false := by
  cases phase <;> simp_all [isOver, isUnderWay]

theorem isOver_ended (phase : Phase) : phase.ended.isOver := by
  cases phase with
  | validating interrupted => cases interrupted <;> rfl
  | delivering interrupted => cases interrupted <;> rfl
  | sleeping => rfl
  | waiting swallows => rfl
  | finished => rfl
  | cancelled => rfl

end Phase

namespace Job

theorem uri_advance (job : Job) (event : JobEvent) : (job.advance event).uri = job.uri := by
  cases event with
  | wake => simp only [advance, wake]; split <;> rfl
  | suspend swallows => simp only [advance, suspend]; split <;> rfl
  | conclude ending =>
    cases ending with
    | raised => simp only [advance, conclude]; split <;> rfl
    | returned diagnostics cancelsToken =>
      simp only [advance, conclude]
      split
      · split <;> rfl
      · rfl
  | settle => simp only [advance, settle]; split <;> rfl

/-- A job that is over takes no further step. -/
theorem advance_of_isOver (job : Job) (ceased : job.phase.isOver) (event : JobEvent) :
    job.advance event = job := by
  obtain ⟨uri, phase, flag⟩ := job
  cases phase with
  | finished => cases event <;> rfl
  | cancelled => cases event <;> rfl
  | sleeping => cases ceased
  | validating interrupted => cases ceased
  | waiting swallows => cases ceased
  | delivering interrupted => cases ceased

/-- A job that goes on and is not over then has the same token as before. -/
theorem tokenCancelled_advance (job : Job) (event : JobEvent)
    (alive : (job.advance event).phase.isOver = false) :
    (job.advance event).tokenCancelled = job.tokenCancelled := by
  cases event with
  | wake => simp only [advance, wake]; split <;> rfl
  | suspend swallows => simp only [advance, suspend]; split <;> rfl
  | conclude ending =>
    cases ending with
    | raised => simp only [advance, conclude]; split <;> rfl
    | returned diagnostics cancelsToken =>
      simp only [advance, conclude] at alive ⊢
      split
      · next running =>
        rw [if_pos running] at alive
        split
        · next quiet =>
          rw [if_pos quiet, Phase.isOver_ended] at alive
          cases alive
        · rfl
      · rfl
  | settle => simp only [advance, settle]; split <;> rfl

theorem isSpent_conclude (job : Job) (running : job.phase.isUnderWay) (ending : Ending) :
    (job.conclude ending).phase.isSpent := by
  unfold conclude
  rw [if_pos running]
  cases ending with
  | raised => exact Phase.isSpent_of_isOver (Phase.isOver_ended _)
  | returned diagnostics cancelsToken =>
    dsimp only
    split
    · exact Phase.isSpent_of_isOver (Phase.isOver_ended _)
    · rfl

/-- A job whose diagnostics have been received is over. -/
theorem isOver_settle (job : Job) {interrupted : Bool}
    (handing : job.phase = .delivering interrupted) : (job.advance .settle).phase.isOver := by
  simp only [advance, settle, handing]
  exact Phase.isOver_ended _

end Job

/-- A job at a later time: a job that is past its validation does not get back to it, and one that
is over stays over. -/
structure Later (job later : Job) : Prop where
  uri : later.uri = job.uri
  spent : job.phase.isSpent → later.phase.isSpent
  ceased : job.phase.isOver → later.phase.isOver

namespace Later

theorem refl (job : Job) : Later job job := ⟨rfl, id, id⟩

theorem trans {first second third : Job} (early : Later first second)
    (late : Later second third) : Later first third :=
  ⟨late.uri.trans early.uri, late.spent ∘ early.spent, late.ceased ∘ early.ceased⟩

theorem cancel (job : Job) : Later job job.cancel := by
  obtain ⟨uri, phase, flag⟩ := job
  cases phase with
  | waiting swallows => cases swallows <;> exact ⟨rfl, nofun, nofun⟩
  | sleeping => exact ⟨rfl, nofun, nofun⟩
  | validating interrupted => exact ⟨rfl, nofun, nofun⟩
  | delivering interrupted => exact ⟨rfl, fun _ => rfl, nofun⟩
  | finished => exact ⟨rfl, fun _ => rfl, fun _ => rfl⟩
  | cancelled => exact ⟨rfl, fun _ => rfl, fun _ => rfl⟩

theorem advance (job : Job) (event : JobEvent) : Later job (job.advance event) where
  uri := job.uri_advance event
  spent := by
    intro spent
    by_cases ceased : job.phase.isOver
    · rwa [job.advance_of_isOver ceased]
    · obtain ⟨interrupted, handing⟩ := Phase.delivering_of_isSpent spent ceased
      cases event with
      | wake => simpa [Job.advance, Job.wake, handing] using spent
      | suspend swallows => simpa [Job.advance, Job.suspend, handing] using spent
      | conclude ending =>
        simpa [Job.advance, Job.conclude, handing, Phase.isUnderWay] using spent
      | settle =>
        simp only [Job.advance, Job.settle, handing]
        exact Phase.isSpent_of_isOver (Phase.isOver_ended _)
  ceased := by
    intro ceased
    rwa [job.advance_of_isOver ceased]

end Later

namespace Scheduler

variable {s : Scheduler}

/-! ## What is remembered of the documents -/

/-- What a scheduler remembers of its documents goes together: the tokens are those of the jobs, and
a job that is not over has to keep its diagnostics to itself unless its document holds its token. -/
structure Consistent (s : Scheduler) : Prop where
  same : s.pending = s.tokens
  owned : ∀ uri id, s.tokens.get? uri = some id → ∃ job, s.jobs[id]? = some job ∧ job.uri = uri
  flagged : ∀ id job, s.jobs[id]? = some job → job.phase.isOver = false →
    (job.tokenCancelled = false ↔ s.tokens.get? job.uri = some id)

namespace Consistent

theorem cancel_of_none (h : Consistent s) {uri : String} (free : s.tokens.get? uri = none) :
    s.cancel uri = s := by
  simp only [Scheduler.cancel, cancelToken, cancelJob, free, h.same]

theorem cancel_of_some (h : Consistent s) {uri : String} {id : Nat}
    (held : s.tokens.get? uri = some id) :
    s.cancel uri =
      { jobs := s.jobs.modify id Job.cancel
        pending := s.tokens.erase uri
        tokens := s.tokens.erase uri } := by
  simp only [Scheduler.cancel, cancelToken, cancelJob, held, h.same, modifyJob,
    List.modify_modify_eq]
  rfl

theorem tokens_cancel (h : Consistent s) (uri : String) :
    (s.cancel uri).tokens = s.tokens.erase uri := by
  cases held : s.tokens.get? uri with
  | none => rw [h.cancel_of_none held, Table.erase_of_get?_eq_none _ held]
  | some id => rw [h.cancel_of_some held]

theorem getElem?_cancel (h : Consistent s) (uri : String) (id : Nat) :
    (s.cancel uri).jobs[id]? =
      (s.jobs[id]?).map fun job => if s.tokens.get? uri = some id then job.cancel else job := by
  cases held : s.tokens.get? uri with
  | none => simp [h.cancel_of_none held]
  | some other =>
    rw [h.cancel_of_some held, List.getElem?_modify]
    simp

theorem cancel (h : Consistent s) (uri : String) : Consistent (s.cancel uri) where
  same := by
    cases held : s.tokens.get? uri with
    | none => rw [h.cancel_of_none held, h.same]
    | some id => rw [h.cancel_of_some held]
  owned := by
    intro other id held
    rw [h.tokens_cancel, Table.get?_erase] at held
    split at held
    · cases held
    · next apart =>
      obtain ⟨job, found, own⟩ := h.owned other id held
      refine ⟨_, by rw [h.getElem?_cancel, found, Option.map_some], ?_⟩
      rw [← own]
      split <;> rfl
  flagged := by
    intro id job found alive
    rw [h.getElem?_cancel, Option.map_eq_some_iff] at found
    obtain ⟨before, known, rfl⟩ := found
    rw [h.tokens_cancel, Table.get?_erase]
    by_cases here : s.tokens.get? uri = some id
    · obtain ⟨owner, own, rfl⟩ := h.owned uri id here
      obtain rfl : owner = before := Option.some.inj (own.symm.trans known)
      simp [if_pos here, Job.cancel]
    · rw [if_neg here] at alive ⊢
      rw [h.flagged id before known alive]
      split
      · next same => simp [same, here]
      · rfl

/-- Cancelling some documents one after another leaves no token of theirs. -/
theorem foldl_cancel (h : Consistent s) (uris : List String) :
    Consistent (uris.foldl Scheduler.cancel s) ∧
      ∀ uri, (uris.foldl Scheduler.cancel s).tokens.get? uri =
        if uri ∈ uris then none else s.tokens.get? uri := by
  induction uris generalizing s with
  | nil => exact ⟨h, fun uri => rfl⟩
  | cons first rest ih =>
    obtain ⟨consistent, tokens⟩ := ih (h.cancel first)
    refine ⟨consistent, fun uri => ?_⟩
    rw [List.foldl_cons, tokens, h.tokens_cancel, Table.get?_erase]
    by_cases later : uri ∈ rest
    · rw [if_pos later, if_pos (List.mem_cons_of_mem _ later)]
    · simp only [if_neg later, List.mem_cons, or_iff_left later]

theorem close (h : Consistent s) : Consistent s.close := (h.foldl_cancel _).1

theorem tokens_close (h : Consistent s) (uri : String) : s.close.tokens.get? uri = none := by
  rw [Scheduler.close, (h.foldl_cancel _).2, h.same]
  by_cases known : uri ∈ s.tokens.keys
  · rw [if_pos known]
  · rw [if_neg known]
    rwa [Table.mem_keys_iff, Option.not_isSome_iff_eq_none] at known

/-- A new job for a document that has no token. -/
theorem enter (h : Consistent s) {uri : String} (free : s.tokens.get? uri = none) :
    Consistent
      { jobs := s.jobs ++ [{ uri }]
        pending := s.pending.put uri s.jobs.length
        tokens := s.tokens.put uri s.jobs.length } where
  same := by rw [h.same]
  owned := by
    intro other id held
    rw [Table.get?_put] at held
    split at held
    · next here =>
      cases held
      exact ⟨{ uri }, List.getElem?_concat_length, here.symm⟩
    · obtain ⟨job, found, own⟩ := h.owned other id held
      have old : id < s.jobs.length := (List.getElem?_eq_some_iff.1 found).1
      exact ⟨job, by rw [List.getElem?_append_left old, found], own⟩
  flagged := by
    intro id job found alive
    rw [Table.get?_put]
    rcases Nat.lt_or_ge id s.jobs.length with old | new
    · rw [List.getElem?_append_left old] at found
      rw [h.flagged id job found alive]
      split
      · next here => simp [here, free, Nat.ne_of_gt old]
      · rfl
    · rw [List.getElem?_append_right new, List.getElem?_singleton] at found
      split at found
      · next last =>
        cases found
        simp [Nat.le_antisymm (Nat.sub_eq_zero_iff_le.1 last) new]
      · cases found

theorem schedule (h : Consistent s) (uri : String) : Consistent (s.schedule uri) := by
  refine (h.cancel uri).enter ?_
  rw [h.tokens_cancel, Table.get?_erase_self]

end Consistent

/-! ## What a job step does -/

theorem modify_eq_self {α : Type} {l : List α} {i : Nat} {f : α → α}
    (fixed : ∀ a, l[i]? = some a → f a = a) : l.modify i f = l := by
  refine List.ext_getElem? fun j => ?_
  rw [List.getElem?_modify]
  cases found : l[j]? with
  | none => rfl
  | some a =>
    by_cases here : i = j
    · simp [here, fixed a (here ▸ found)]
    · simp [here]

theorem jobs_step_job (s : Scheduler) (id : Nat) (event : JobEvent) :
    (s.step (.job id event)).1.jobs = s.jobs.modify id fun job => job.advance event := by
  cases event with
  | wake => rfl
  | suspend swallows => rfl
  | conclude ending => rfl
  | settle =>
    simp only [step, settle]
    split
    · next absent =>
      refine (modify_eq_self fun job found => ?_).symm
      rw [absent] at found
      cases found
    · next job known =>
      split
      · simp only [release, modifyJob]
        split <;> rfl
      · next waits =>
        refine (modify_eq_self fun job' found => ?_).symm
        obtain rfl : job = job' := Option.some.inj (known.symm.trans found)
        simp only [Job.advance, Job.settle]

/-- The two ways in which a job step deals with the tokens: a job whose diagnostics have been
received is forgotten if its document still holds its token, and nothing else is. -/
inductive Forgets (s : Scheduler) (id : Nat) (event : JobEvent) : Prop
  | kept (waits : event = .settle → ∀ job interrupted, s.jobs[id]? = some job →
        job.phase = .delivering interrupted → s.tokens.get? job.uri ≠ some id)
      (tokens : (s.step (.job id event)).1.tokens = s.tokens)
      (pending : (s.step (.job id event)).1.pending = s.pending)
  | dropped (job : Job) (interrupted : Bool) (received : event = .settle)
      (known : s.jobs[id]? = some job) (handing : job.phase = .delivering interrupted)
      (held : s.tokens.get? job.uri = some id)
      (tokens : (s.step (.job id event)).1.tokens = s.tokens.erase job.uri)
      (pending : (s.step (.job id event)).1.pending = s.pending.erase job.uri)

theorem forgets (s : Scheduler) (id : Nat) (event : JobEvent) : Forgets s id event := by
  cases event with
  | wake => exact .kept nofun rfl rfl
  | suspend swallows => exact .kept nofun rfl rfl
  | conclude ending => exact .kept nofun rfl rfl
  | settle =>
    have unchanged (still : s.settle id = s)
        (waits : ∀ job interrupted, s.jobs[id]? = some job → job.phase = .delivering interrupted →
          s.tokens.get? job.uri ≠ some id) : Forgets s id .settle :=
      .kept (fun _ => waits) (by simp only [step, still]) (by simp only [step, still])
    cases known : s.jobs[id]? with
    | none => exact unchanged (by simp only [settle, known]) (by simp [known])
    | some job =>
      cases handing : job.phase with
      | delivering interrupted =>
        by_cases held : s.tokens.get? job.uri = some id
        · refine .dropped job interrupted rfl known handing held ?_ ?_
          · simp only [step, settle, known, handing, release, if_pos held, modifyJob]
          · simp only [step, settle, known, handing, release, if_pos held, modifyJob]
        · refine .kept (fun _ other _ found _ => ?_) ?_ ?_
          · obtain rfl : job = other := Option.some.inj (known.symm.trans found)
            exact held
          · simp only [step, settle, known, handing, release, if_neg held, modifyJob]
          · simp only [step, settle, known, handing, release, if_neg held, modifyJob]
      | _ =>
        refine unchanged (by simp only [settle, known, handing]) ?_
        intro other interrupted found hands
        obtain rfl : job = other := Option.some.inj (known.symm.trans found)
        rw [handing] at hands
        cases hands

theorem getElem?_job (s : Scheduler) (id other : Nat) (event : JobEvent) :
    (s.step (.job id event)).1.jobs[other]? =
      (s.jobs[other]?).map fun job => if id = other then job.advance event else job := by
  rw [jobs_step_job, List.getElem?_modify]
  rfl

theorem later_job (id : Nat) (event : JobEvent) {other : Nat} {job : Job}
    (found : s.jobs[other]? = some job) :
    ∃ later, (s.step (.job id event)).1.jobs[other]? = some later ∧ Later job later := by
  rw [getElem?_job, found]
  refine ⟨_, rfl, ?_⟩
  split
  · exact .advance job event
  · exact .refl job

/-- A job that is not over after a step was not over before it, with the same token. -/
theorem before_job (id : Nat) (event : JobEvent) {other : Nat} {job : Job}
    (found : (s.step (.job id event)).1.jobs[other]? = some job)
    (alive : job.phase.isOver = false) :
    ∃ before, s.jobs[other]? = some before ∧ before.phase.isOver = false ∧
      job.uri = before.uri ∧ job.tokenCancelled = before.tokenCancelled := by
  rw [getElem?_job, Option.map_eq_some_iff] at found
  obtain ⟨before, known, rfl⟩ := found
  refine ⟨before, known, ?_⟩
  split at alive
  · next here =>
    rw [if_pos here]
    refine ⟨?_, before.uri_advance event, before.tokenCancelled_advance event alive⟩
    by_contra ceased
    rw [before.advance_of_isOver (by simpa using ceased)] at alive
    exact ceased alive
  · next apart =>
    rw [if_neg apart]
    exact ⟨alive, rfl, rfl⟩

theorem Consistent.job (h : Consistent s) (id : Nat) (event : JobEvent) :
    Consistent (s.step (.job id event)).1 := by
  have owned : ∀ uri other, s.tokens.get? uri = some other →
      ∃ job : Job, (s.step (.job id event)).1.jobs[other]? = some job ∧ job.uri = uri := by
    intro uri other held
    obtain ⟨job, known, own⟩ := h.owned uri other held
    obtain ⟨later, found, after⟩ := later_job id event known
    exact ⟨later, found, after.uri.trans own⟩
  cases s.forgets id event with
  | kept waits tokens pending =>
    refine ⟨by rw [tokens, pending, h.same], fun uri other held => ?_,
      fun other job found alive => ?_⟩
    · rw [tokens] at held
      exact owned uri other held
    · obtain ⟨before, known, ran, own, flag⟩ := before_job id event found alive
      rw [tokens, own, flag]
      exact h.flagged other before known ran
  | dropped settled interrupted received known handing held tokens pending =>
    refine ⟨by rw [tokens, pending, h.same], fun uri other found => ?_,
      fun other job found alive => ?_⟩
    · rw [tokens, Table.get?_erase] at found
      split at found
      · cases found
      · exact owned uri other found
    · obtain ⟨before, known', ran, own, flag⟩ := before_job id event found alive
      rw [tokens, own, flag, h.flagged other before known' ran, Table.get?_erase]
      split
      · next same =>
        -- the job that is forgotten is over now, so this is another one
        have apart : id ≠ other := by
          rintro rfl
          rw [getElem?_job, known, Option.map_some, if_pos rfl, Option.some.injEq] at found
          rw [← found, received, settled.isOver_settle handing] at alive
          cases alive
        rw [same, held]
        simpa using apart
      · rfl

/-! ## What any step does -/

theorem Consistent.step (h : Consistent s) (next : Step) : Consistent (s.step next).1 := by
  cases next with
  | schedule uri => exact h.schedule uri
  | cancel uri => exact h.cancel uri
  | close => exact h.close
  | job id event => exact h.job id event

theorem later_cancel (h : Consistent s) (uri : String) {id : Nat} {job : Job}
    (found : s.jobs[id]? = some job) :
    ∃ later, (s.cancel uri).jobs[id]? = some later ∧ Later job later := by
  rw [h.getElem?_cancel, found]
  refine ⟨_, rfl, ?_⟩
  split
  · exact .cancel job
  · exact .refl job

theorem later_foldl_cancel (h : Consistent s) (uris : List String) {id : Nat} {job : Job}
    (found : s.jobs[id]? = some job) :
    ∃ later, (uris.foldl cancel s).jobs[id]? = some later ∧ Later job later := by
  induction uris generalizing s job with
  | nil => exact ⟨job, found, .refl job⟩
  | cons uri rest ih =>
    obtain ⟨middle, known, early⟩ := later_cancel h uri found
    obtain ⟨later, found, late⟩ := ih (h.cancel uri) known
    exact ⟨later, found, early.trans late⟩

/-- No step loses a job or takes it back. -/
theorem later_step (h : Consistent s) (next : Step) {id : Nat} {job : Job}
    (found : s.jobs[id]? = some job) :
    ∃ later, (s.step next).1.jobs[id]? = some later ∧ Later job later := by
  cases next with
  | schedule uri =>
    obtain ⟨later, known, after⟩ := later_cancel h uri found
    have old : id < (s.cancel uri).jobs.length := (List.getElem?_eq_some_iff.1 known).1
    exact ⟨later, by rw [step, Scheduler.schedule, List.getElem?_append_left old, known], after⟩
  | cancel uri => exact later_cancel h uri found
  | close => exact later_foldl_cancel h _ found
  | job other event => exact later_job other event found

theorem uris_cancel (h : Consistent s) (uri : String) :
    (s.cancel uri).jobs.map (·.uri) = s.jobs.map (·.uri) := by
  refine List.ext_getElem? fun id => ?_
  rw [List.getElem?_map, List.getElem?_map, h.getElem?_cancel, Option.map_map]
  congr 1
  funext job
  dsimp only [Function.comp]
  split <;> rfl

theorem uris_foldl_cancel (h : Consistent s) (uris : List String) :
    (uris.foldl cancel s).jobs.map (·.uri) = s.jobs.map (·.uri) := by
  induction uris generalizing s with
  | nil => rfl
  | cons uri rest ih => rw [List.foldl_cons, ih (h.cancel uri), uris_cancel h]

theorem uris_job (s : Scheduler) (id : Nat) (event : JobEvent) :
    (s.step (.job id event)).1.jobs.map (·.uri) = s.jobs.map (·.uri) := by
  refine List.ext_getElem? fun other => ?_
  rw [List.getElem?_map, List.getElem?_map, getElem?_job, Option.map_map]
  congr 1
  funext job
  dsimp only [Function.comp]
  split
  · exact job.uri_advance event
  · rfl

/-! ## What a scheduler has of its history -/

/-- A scheduler that goes with its history: its tokens are those of the jobs that stand for their
documents, or such a job is over. -/
structure Follows (past : List Step) : Prop where
  consistent : Consistent (after past)
  uris : (after past).jobs.map (·.uri) = scheduled past
  held : ∀ uri id, (after past).tokens.get? uri = some id → standing? uri past = some id
  stands : ∀ uri id, standing? uri past = some id →
    (after past).tokens.get? uri = some id ∨
      ∃ job, (after past).jobs[id]? = some job ∧ job.phase.isOver

namespace Follows

variable {past : List Step}

theorem length_jobs (h : Follows past) : (after past).jobs.length = (scheduled past).length := by
  rw [← h.uris, List.length_map]

/-- A job that is over stays over. -/
theorem stands_step (h : Follows past) (next : Step) {id : Nat}
    (ceased : ∃ job, (after past).jobs[id]? = some job ∧ job.phase.isOver) :
    ∃ job, (after (next :: past)).jobs[id]? = some job ∧ job.phase.isOver := by
  obtain ⟨job, found, ceased⟩ := ceased
  obtain ⟨later, known, after⟩ := later_step h.consistent next found
  exact ⟨later, known, after.ceased ceased⟩

/-- A step that gives one document a new token, or none. -/
theorem renew (h : Follows past) {next : Step} (uri : String) (token : Option Nat)
    (uris : (after (next :: past)).jobs.map (·.uri) = scheduled (next :: past))
    (tokens : ∀ other, (after (next :: past)).tokens.get? other =
      if other = uri then token else (after past).tokens.get? other)
    (standing : ∀ other, standing? other (next :: past) =
      if other = uri then token else standing? other past) :
    Follows (next :: past) where
  consistent := h.consistent.step next
  uris := uris
  held := by
    intro other id held
    rw [tokens] at held
    rw [standing]
    split at held
    · next own => rw [if_pos own, held]
    · next apart => rw [if_neg apart, h.held other id held]
  stands := by
    intro other id stands
    rw [standing] at stands
    rw [tokens]
    split at stands
    · next own =>
      rw [if_pos own]
      exact .inl stands
    · next apart =>
      rw [if_neg apart]
      exact (h.stands other id stands).imp_right (h.stands_step next)

theorem schedule (h : Follows past) (uri : String) : Follows (.schedule uri :: past) := by
  have length : ((after past).cancel uri).jobs.length = (scheduled past).length := by
    rw [← h.length_jobs, ← List.length_map (·.uri), uris_cancel h.consistent, List.length_map]
  refine h.renew uri (some (scheduled past).length) ?_ (fun other => ?_) fun other => ?_
  · simp only [after, step, Scheduler.schedule, List.map_append, uris_cancel h.consistent, h.uris,
      scheduled, List.map_singleton]
  · simp only [after, step, Scheduler.schedule, Table.get?_put, length,
      h.consistent.tokens_cancel, Table.get?_erase]
    split <;> rfl
  · simp only [standing?, eq_comm]

theorem cancel (h : Follows past) (uri : String) : Follows (.cancel uri :: past) := by
  refine h.renew uri none ?_ (fun other => ?_) fun other => ?_
  · simp only [after, step, uris_cancel h.consistent, h.uris, scheduled]
  · simp only [after, step, h.consistent.tokens_cancel, Table.get?_erase]
  · simp only [standing?, eq_comm]

theorem close (h : Follows past) : Follows (.close :: past) where
  consistent := h.consistent.close
  uris := (uris_foldl_cancel h.consistent _).trans h.uris
  held := by
    intro uri id held
    simp only [after, step, h.consistent.tokens_close] at held
    cases held
  stands := by
    intro uri id stands
    cases stands

theorem job (h : Follows past) (id : Nat) (event : JobEvent) : Follows (.job id event :: past) where
  consistent := h.consistent.job id event
  uris := (uris_job _ id event).trans h.uris
  held := by
    intro uri other held
    cases (after past).forgets id event with
    | kept waits tokens pending =>
      rw [after, tokens] at held
      exact h.held uri other held
    | dropped settled interrupted received known handing own tokens pending =>
      rw [after, tokens, Table.get?_erase] at held
      split at held
      · cases held
      · exact h.held uri other held
  stands := by
    intro uri other stands
    rcases h.stands uri other stands with held | ceased
    · cases (after past).forgets id event with
      | kept waits tokens pending =>
        rw [after, tokens]
        exact .inl held
      | dropped settled interrupted received known handing own tokens pending =>
        rw [after, tokens, Table.get?_erase]
        split
        · next same =>
          -- its document forgets the job because it is over
          rw [same, own] at held
          cases held
          refine .inr ⟨settled.advance event, ?_, ?_⟩
          · rw [getElem?_job, known, Option.map_some, if_pos rfl]
          · rw [received]
            exact settled.isOver_settle handing
        · exact .inl held
    · exact .inr (h.stands_step _ ceased)

end Follows

/-- **A scheduler goes with its history, step by step.** -/
theorem follows (past : List Step) : Follows past := by
  induction past with
  | nil => exact ⟨⟨rfl, nofun, nofun⟩, rfl, nofun, nofun⟩
  | cons next past ih =>
    cases next with
    | schedule uri => exact ih.schedule uri
    | cancel uri => exact ih.cancel uri
    | close => exact ih.close
    | job id event => exact ih.job id event

/-! ## Deliveries -/

theorem mem_notices_iff (job : Job) (id : Nat) (ending : Ending) (other : Nat) (uri : String)
    (diagnostics : List String) :
    .delivered other uri diagnostics ∈ job.notices id ending ↔
      other = id ∧ uri = job.uri ∧ ending = .returned diagnostics false ∧
        job.phase.isUnderWay ∧ job.tokenCancelled = false := by
  unfold Job.notices
  split
  · next running =>
    cases ending with
    | raised => simp
    | returned own cancelsToken =>
      dsimp only
      split
      · next quiet =>
        refine ⟨nofun, ?_⟩
        rintro ⟨-, -, same, -, flag⟩
        cases same
        rw [flag] at quiet
        cases quiet
      · next free =>
        rw [Bool.or_eq_true, not_or, Bool.not_eq_true, Bool.not_eq_true] at free
        obtain ⟨flag, rfl⟩ := free
        simp [running, flag, eq_comm]
  · next waits => simp [waits]

theorem mem_step_iff (next : Step) (id : Nat) (uri : String) (diagnostics : List String) :
    .delivered id uri diagnostics ∈ (s.step next).2 ↔
      next = .job id (.conclude (.returned diagnostics false)) ∧
        ∃ job, s.jobs[id]? = some job ∧ job.uri = uri ∧ job.phase.isUnderWay ∧
          job.tokenCancelled = false := by
  constructor
  · intro given
    cases next with
    | job other event =>
      cases event with
      | conclude ending =>
        simp only [step, conclude] at given
        cases known : s.jobs[other]? with
        | none => simp [known] at given
        | some job =>
          rw [known, Option.elim_some, mem_notices_iff] at given
          obtain ⟨rfl, rfl, rfl, running, flag⟩ := given
          exact ⟨rfl, job, known, rfl, running, flag⟩
      | _ => cases given
    | _ => cases given
  · rintro ⟨rfl, job, known, own, running, flag⟩
    rw [step, conclude, known, Option.elim_some, mem_notices_iff]
    exact ⟨rfl, own.symm, rfl, running, flag⟩

/-- A job delivers if and only if its validation comes to an end with diagnostics, its document was
scheduled last for it, and neither was cancelled since. -/
theorem Follows.mem_step_iff {past : List Step} (h : Follows past) (next : Step) (id : Nat)
    (uri : String) (diagnostics : List String) :
    .delivered id uri diagnostics ∈ ((after past).step next).2 ↔
      next = .job id (.conclude (.returned diagnostics false)) ∧ standing? uri past = some id ∧
        ∃ job, (after past).jobs[id]? = some job ∧ job.phase.isUnderWay := by
  rw [Scheduler.mem_step_iff]
  refine and_congr_right fun _ => ⟨?_, ?_⟩
  · rintro ⟨job, known, rfl, running, flag⟩
    have alive : job.phase.isOver = false := Phase.isOver_of_isUnderWay running
    exact ⟨h.held _ id ((h.consistent.flagged id job known alive).1 flag), job, known, running⟩
  · rintro ⟨stands, job, known, running⟩
    have alive : job.phase.isOver = false := Phase.isOver_of_isUnderWay running
    rcases h.stands uri id stands with held | ⟨other, found, ceased⟩
    · obtain ⟨owner, found, own⟩ := h.consistent.owned uri id held
      obtain rfl : owner = job := Option.some.inj (found.symm.trans known)
      refine ⟨owner, known, own, running, (h.consistent.flagged id owner known alive).2 ?_⟩
      rw [own, held]
    · obtain rfl : other = job := Option.some.inj (found.symm.trans known)
      rw [alive] at ceased
      cases ceased

/-! ## Ends of validations -/

theorem mem_ends_iff (next : Step) (id : Nat) (ending : Ending) :
    (id, ending) ∈ s.ends next ↔
      next = .job id (.conclude ending) ∧ ∃ job, s.jobs[id]? = some job ∧ job.phase.isUnderWay := by
  constructor
  · intro met
    cases next with
    | job other event =>
      cases event with
      | conclude own =>
        simp only [ends] at met
        split at met
        · next running =>
          obtain ⟨rfl, rfl⟩ := Prod.mk.inj (List.mem_singleton.1 met)
          simpa [phase?, Option.any_map, Option.any_eq_true] using running
        · cases met
      | _ => cases met
    | _ => cases met
  · rintro ⟨rfl, job, known, running⟩
    simp [ends, phase?, known, running]

/-- A validation that has come to an end is past. -/
theorem exists_spent_of_mem_ends {next : Step} {id : Nat} {ending : Ending}
    (met : (id, ending) ∈ s.ends next) :
    ∃ job, (s.step next).1.jobs[id]? = some job ∧ job.phase.isSpent := by
  obtain ⟨rfl, job, known, running⟩ := (mem_ends_iff next id ending).1 met
  refine ⟨job.conclude ending, ?_, job.isSpent_conclude running ending⟩
  rw [getElem?_job, known, Option.map_some, if_pos rfl]
  rfl

/-- Every delivery comes from a validation that came to an end with these diagnostics. -/
theorem mem_ends_of_delivered {next : Step} {id : Nat} {uri : String} {diagnostics : List String}
    (given : .delivered id uri diagnostics ∈ (s.step next).2) :
    (id, .returned diagnostics false) ∈ s.ends next := by
  obtain ⟨rfl, job, known, -, running, -⟩ := (mem_step_iff next id uri diagnostics).1 given
  exact (mem_ends_iff _ _ _).2 ⟨rfl, job, known, running⟩

theorem deliverers_sublist_ends (s : Scheduler) (next : Step) :
    ((s.step next).2.reverse.filterMap Notice.deliverer?).Sublist ((s.ends next).map (·.1)) := by
  cases next with
  | job id event =>
    cases event with
    | conclude ending =>
      cases known : s.jobs[id]? with
      | none => simp [step, conclude, known]
      | some job =>
        by_cases running : job.phase.isUnderWay
        · have single : s.ends (.job id (.conclude ending)) = [(id, ending)] := by
            simp [ends, phase?, known, running]
          rw [single, step, conclude, known, Option.elim_some]
          unfold Job.notices
          rw [if_pos running]
          cases ending with
          | raised => exact List.nil_sublist _
          | returned diagnostics cancelsToken =>
            dsimp only
            split
            · exact List.nil_sublist _
            · exact List.Sublist.refl _
        · simp [step, conclude, known, Job.notices, running]
    | _ => exact List.nil_sublist _
  | _ => exact List.nil_sublist _

variable {past : List Step}

theorem nodup_ends (s : Scheduler) (next : Step) : ((s.ends next).map (·.1)).Nodup := by
  unfold ends
  split
  · split
    · exact List.nodup_singleton _
    · exact List.nodup_nil
  · exact List.nodup_nil

/-- **No validation comes to an end twice**, and one that has come to an end is past. -/
theorem ended_once (past : List Step) :
    ((ended past).map (·.1)).Nodup ∧
      ∀ id ending, (id, ending) ∈ ended past →
        ∃ job, (after past).jobs[id]? = some job ∧ job.phase.isSpent := by
  induction past with
  | nil => exact ⟨List.nodup_nil, nofun⟩
  | cons next past ih =>
    obtain ⟨once, spent⟩ := ih
    constructor
    · rw [ended, List.map_append, List.nodup_append]
      refine ⟨nodup_ends _ next, once, fun id new other old same => ?_⟩
      -- a job that is under way is not past its validation
      obtain ⟨⟨id, ending⟩, met, rfl⟩ := List.mem_map.1 new
      obtain ⟨⟨other, before⟩, ended, rfl⟩ := List.mem_map.1 old
      obtain rfl : id = other := same
      obtain ⟨-, job, known, running⟩ := (mem_ends_iff next id ending).1 met
      obtain ⟨same, found, ceased⟩ := spent id before ended
      obtain rfl : job = same := Option.some.inj (known.symm.trans found)
      rw [Phase.isSpent_of_isUnderWay running] at ceased
      cases ceased
    · intro id ending met
      rcases List.mem_append.1 met with new | old
      · exact exists_spent_of_mem_ends new
      · obtain ⟨job, found, ceased⟩ := spent id ending old
        obtain ⟨later, known, after⟩ := later_step (follows past).consistent next found
        exact ⟨later, known, after.spent ceased⟩

theorem mem_ended_of_delivered {id : Nat} {uri : String} {diagnostics : List String}
    (given : .delivered id uri diagnostics ∈ notices past) :
    (id, .returned diagnostics false) ∈ ended past := by
  induction past with
  | nil => cases given
  | cons next past ih =>
    rw [notices, List.mem_append, List.mem_reverse] at given
    rw [ended, List.mem_append]
    exact given.imp mem_ends_of_delivered ih

theorem deliverers_sublist_ended (past : List Step) :
    ((notices past).filterMap Notice.deliverer?).Sublist ((ended past).map (·.1)) := by
  induction past with
  | nil => exact List.nil_sublist _
  | cons next past ih =>
    rw [notices, ended, List.filterMap_append, List.map_append]
    exact (deliverers_sublist_ends _ next).append ih

end Scheduler

end Validation

end DialectBridge
