import DialectBridge.Proofs.Deliveries
import Mathlib.Data.List.Count

/-!
# Documents do not disturb each other

The part of a history that concerns a document (`about`) has its own steps only, with the numbers
that its jobs have among the jobs of the document (`rank`). A scheduler that only took these steps
agrees with the whole one on the document (`Agrees`): it has the same jobs, and its token is that of
the same job. Steps for other documents leave this alone, and the others keep it. So the deliveries
of a document do not depend on what happens to the others.
-/

set_option autoImplicit false

namespace DialectBridge

namespace Validation

/-! ## One element of a filtered list -/

section Lists

variable {α : Type} {l : List α} {i : Nat} {a : α} {p : α → Bool}

theorem exists_append_of_getElem? (found : l[i]? = some a) :
    ∃ before behind, l = before ++ a :: behind ∧ before.length = i := by
  obtain ⟨bound, rfl⟩ := List.getElem?_eq_some_iff.1 found
  refine ⟨l.take i, l.drop (i + 1), ?_, List.length_take_of_le (Nat.le_of_lt bound)⟩
  rw [List.getElem_cons_drop, List.take_append_drop]

theorem modify_append_cons (before behind : List α) (a : α) (f : α → α) :
    (before ++ a :: behind).modify before.length f = before ++ f a :: behind := by
  induction before with
  | nil => rfl
  | cons b before ih => rw [List.cons_append, List.length_cons, List.modify_succ_cons, ih,
      List.cons_append]

/-- An element that a filter keeps is found behind the kept ones before it. -/
theorem getElem?_filter_of_pos (found : l[i]? = some a) (own : p a) :
    (l.filter p)[((l.take i).filter p).length]? = some a := by
  obtain ⟨before, behind, rfl, rfl⟩ := exists_append_of_getElem? found
  rw [List.take_left, List.filter_append, List.filter_cons_of_pos own]
  simp

theorem filter_modify_of_pos {f : α → α} (found : l[i]? = some a) (own : p a) (still : p (f a)) :
    (l.modify i f).filter p = (l.filter p).modify ((l.take i).filter p).length f := by
  obtain ⟨before, behind, rfl, rfl⟩ := exists_append_of_getElem? found
  rw [modify_append_cons, List.take_left, List.filter_append, List.filter_append,
    List.filter_cons_of_pos own, List.filter_cons_of_pos still, modify_append_cons]

theorem filter_modify_of_neg {f : α → α} (found : l[i]? = some a) (other : ¬ p a)
    (still : ¬ p (f a)) : (l.modify i f).filter p = l.filter p := by
  obtain ⟨before, behind, rfl, rfl⟩ := exists_append_of_getElem? found
  rw [modify_append_cons, List.filter_append, List.filter_append, List.filter_cons_of_neg other,
    List.filter_cons_of_neg still]

end Lists

/-- The diagnostics that a notice delivers to a document. -/
def Notice.diagnosticsFor? (uri : String) : Notice → Option (List String)
  | .delivered _ other diagnostics => if other = uri then some diagnostics else none
  | .failed _ => none

namespace Job

/-- What is delivered does not depend on the number of a job. -/
theorem deliveries_notices (job : Job) (id other : Nat) (ending : Ending) (uri : String) :
    (job.notices id ending).filterMap (Notice.diagnosticsFor? uri) =
      (job.notices other ending).filterMap (Notice.diagnosticsFor? uri) := by
  unfold notices
  split
  · cases ending with
    | raised => rfl
    | returned diagnostics cancelsToken =>
      dsimp only
      split <;> rfl
  · rfl

theorem deliveries_notices_of_ne (job : Job) (id : Nat) (ending : Ending) {uri : String}
    (apart : job.uri ≠ uri) :
    (job.notices id ending).filterMap (Notice.diagnosticsFor? uri) = [] := by
  unfold notices
  split
  · cases ending with
    | raised => rfl
    | returned diagnostics cancelsToken =>
      dsimp only
      split
      · rfl
      · simp [Notice.diagnosticsFor?, apart]
  · rfl

end Job

/-- The number of a job among the jobs of a document, where the jobs are those of some documents. -/
def rank (uris : List String) (uri : String) (id : Nat) : Nat := (uris.take id).count uri

theorem rank_uris (jobs : List Job) (uri : String) (id : Nat) :
    rank (jobs.map (·.uri)) uri id = ((jobs.take id).filter fun job => job.uri = uri).length := by
  rw [rank, ← List.map_take, List.count_eq_countP, List.countP_map, List.countP_eq_length_filter]
  congr 1

theorem rank_append {uris : List String} {id : Nat} (old : id ≤ uris.length) (uri last : String) :
    rank (uris ++ [last]) uri id = rank uris uri id := by
  rw [rank, List.take_append_of_le_length old, rank]

namespace Scheduler

/-- The steps of a history that concern a document, with the numbers that its jobs have among each
other. -/
def about (uri : String) : List Step → List Step
  | [] => []
  | .schedule other :: past =>
    if other = uri then .schedule other :: about uri past else about uri past
  | .cancel other :: past =>
    if other = uri then .cancel other :: about uri past else about uri past
  | .close :: past => .close :: about uri past
  | .job id event :: past =>
    if (scheduled past)[id]? = some uri then
      .job (rank (scheduled past) uri id) event :: about uri past
    else about uri past

/-- The diagnostics that were delivered to a document in a history, the newest first. -/
def deliveriesTo (uri : String) (past : List Step) : List (List String) :=
  (notices past).filterMap (Notice.diagnosticsFor? uri)

/-- Two schedulers that agree on a document, of which the second has no other one. -/
structure Agrees (uri : String) (s t : Scheduler) : Prop where
  jobs : t.jobs = s.jobs.filter fun job => job.uri = uri
  token : t.tokens.get? uri = (s.tokens.get? uri).map (rank (s.jobs.map (·.uri)) uri)

namespace Agrees

variable {uri : String} {s t : Scheduler}

theorem getElem? (h : Agrees uri s t) {id : Nat} {job : Job} (known : s.jobs[id]? = some job)
    (own : job.uri = uri) : t.jobs[rank (s.jobs.map (·.uri)) uri id]? = some job := by
  rw [h.jobs, rank_uris]
  exact getElem?_filter_of_pos known (decide_eq_true own)

/-- The second scheduler has no token of another document. -/
theorem tokens_of_ne (h : Agrees uri s t) (ht : Consistent t) {other : String}
    (apart : other ≠ uri) : t.tokens.get? other = none := by
  rw [Option.eq_none_iff_forall_ne_some]
  intro id held
  obtain ⟨job, known, own⟩ := ht.owned other id held
  rw [h.jobs] at known
  have kept := List.of_mem_filter (List.mem_of_getElem? known)
  exact apart (own.symm.trans (by simpa using kept))

theorem cancel_of_ne (h : Agrees uri s t) (hs : Consistent s) {other : String}
    (apart : other ≠ uri) : Agrees uri (s.cancel other) t where
  jobs := by
    cases held : s.tokens.get? other with
    | none => rw [hs.cancel_of_none held, h.jobs]
    | some id =>
      obtain ⟨job, known, rfl⟩ := hs.owned other id held
      rw [hs.cancel_of_some held, h.jobs]
      exact (filter_modify_of_neg known (mt of_decide_eq_true apart)
        (mt of_decide_eq_true apart)).symm
  token := by rw [uris_cancel hs, hs.tokens_cancel, Table.get?_erase_of_ne _ apart.symm, h.token]

theorem cancel_self (h : Agrees uri s t) (hs : Consistent s) (ht : Consistent t) :
    Agrees uri (s.cancel uri) (t.cancel uri) where
  jobs := by
    have token := h.token
    cases held : s.tokens.get? uri with
    | none =>
      rw [held] at token
      rw [hs.cancel_of_none held, ht.cancel_of_none token, h.jobs]
    | some id =>
      rw [held] at token
      obtain ⟨job, known, own⟩ := hs.owned uri id held
      rw [hs.cancel_of_some held, ht.cancel_of_some token, h.jobs, rank_uris]
      exact (filter_modify_of_pos known (decide_eq_true own) (decide_eq_true own)).symm
  token := by
    rw [hs.tokens_cancel, ht.tokens_cancel, Table.get?_erase_self, Table.get?_erase_self]
    rfl

theorem cancel (h : Agrees uri s t) (hs : Consistent s) (ht : Consistent t) (other : String) :
    Agrees uri (s.cancel other) (t.cancel other) := by
  by_cases own : other = uri
  · rw [own]
    exact h.cancel_self hs ht
  · rw [ht.cancel_of_none (h.tokens_of_ne ht own)]
    exact h.cancel_of_ne hs own

theorem foldl_cancel (h : Agrees uri s t) (hs : Consistent s) (ht : Consistent t)
    (uris : List String) :
    Agrees uri (uris.foldl Scheduler.cancel s) (uris.foldl Scheduler.cancel t) := by
  induction uris generalizing s t with
  | nil => exact h
  | cons other rest ih => exact ih (h.cancel hs ht other) (hs.cancel other) (ht.cancel other)

/-- Cancelling some documents in the second scheduler only depends on whether its own is among
them. -/
theorem foldl_cancel_eq (h : Agrees uri s t) (hs : Consistent s) (ht : Consistent t)
    (uris : List String) :
    uris.foldl Scheduler.cancel t = if uri ∈ uris then t.cancel uri else t := by
  induction uris generalizing s t with
  | nil => rfl
  | cons other rest ih =>
    rw [List.foldl_cons, ih (h.cancel hs ht other) (hs.cancel other) (ht.cancel other)]
    by_cases own : other = uri
    · rw [own]
      have again : (t.cancel uri).cancel uri = t.cancel uri := by
        refine (ht.cancel uri).cancel_of_none ?_
        rw [ht.tokens_cancel, Table.get?_erase_self]
      simp [again]
    · rw [ht.cancel_of_none (h.tokens_of_ne ht own)]
      simp [Ne.symm own]

theorem close (h : Agrees uri s t) (hs : Consistent s) (ht : Consistent t) :
    Agrees uri s.close t.close := by
  have same : t.pending.keys.foldl Scheduler.cancel t =
      s.pending.keys.foldl Scheduler.cancel t := by
    rw [h.foldl_cancel_eq hs ht, h.foldl_cancel_eq hs ht]
    have member : uri ∈ t.pending.keys ↔ uri ∈ s.pending.keys := by
      rw [Table.mem_keys_iff, Table.mem_keys_iff, hs.same, ht.same, h.token, Option.isSome_map]
    simp only [member]
  rw [Scheduler.close, Scheduler.close, same]
  exact h.foldl_cancel hs ht _

theorem schedule_of_ne (h : Agrees uri s t) (hs : Consistent s) {other : String}
    (apart : other ≠ uri) : Agrees uri (s.schedule other) t where
  jobs := by
    rw [Scheduler.schedule, (h.cancel_of_ne hs apart).jobs]
    simp [apart]
  token := by
    rw [Scheduler.schedule, Table.get?_put_of_ne _ _ apart.symm, (h.cancel_of_ne hs apart).token]
    -- the new job comes behind the one that has the token
    cases held : (s.cancel other).tokens.get? uri with
    | none => rfl
    | some id =>
      obtain ⟨job, known, -⟩ := (hs.cancel other).owned uri id held
      have old : id ≤ ((s.cancel other).jobs.map (·.uri)).length := by
        rw [List.length_map]
        exact Nat.le_of_lt (List.getElem?_eq_some_iff.1 known).1
      rw [Option.map_some, Option.map_some, List.map_append, List.map_singleton, rank_append old]

theorem schedule_self (h : Agrees uri s t) (hs : Consistent s) (ht : Consistent t) :
    Agrees uri (s.schedule uri) (t.schedule uri) where
  jobs := by
    rw [Scheduler.schedule, Scheduler.schedule, (h.cancel_self hs ht).jobs]
    simp
  token := by
    rw [Scheduler.schedule, Scheduler.schedule, Table.get?_put_self, Table.get?_put_self,
      Option.map_some, List.map_append, List.map_singleton,
      rank_append (Nat.le_of_eq (List.length_map _).symm), rank_uris, List.take_length,
      (h.cancel_self hs ht).jobs]

theorem job_of_ne (h : Agrees uri s t) (id : Nat) (event : JobEvent)
    (apart : ∀ job, s.jobs[id]? = some job → job.uri ≠ uri) :
    Agrees uri (s.step (.job id event)).1 t where
  jobs := by
    rw [jobs_step_job, h.jobs]
    cases known : s.jobs[id]? with
    | none =>
      rw [modify_eq_self]
      intro job found
      rw [known] at found
      cases found
    | some job =>
      have other : ¬ job.uri = uri := apart job known
      have still : ¬ (job.advance event).uri = uri := by rwa [job.uri_advance event]
      exact (filter_modify_of_neg known (mt of_decide_eq_true other)
        (mt of_decide_eq_true still)).symm
  token := by
    rw [uris_job, h.token]
    cases s.forgets id event with
    | kept waits tokens pending => rw [tokens]
    | dropped job interrupted received known handing held tokens pending =>
      rw [tokens, Table.get?_erase_of_ne _ (apart job known).symm]

/-- Both schedulers know whether a job of the document that is not over has its token. -/
theorem held_iff (h : Agrees uri s t) (hs : Consistent s) (ht : Consistent t) {id : Nat} {job : Job}
    (known : s.jobs[id]? = some job) (own : job.uri = uri) (alive : job.phase.isOver = false) :
    s.tokens.get? job.uri = some id ↔
      t.tokens.get? job.uri = some (rank (s.jobs.map (·.uri)) uri id) :=
  (hs.flagged id job known alive).symm.trans (ht.flagged _ job (h.getElem? known own) alive)

theorem job_self (h : Agrees uri s t) (hs : Consistent s) (ht : Consistent t) (id : Nat)
    (event : JobEvent) {job : Job} (known : s.jobs[id]? = some job) (own : job.uri = uri) :
    Agrees uri (s.step (.job id event)).1
      (t.step (.job (rank (s.jobs.map (·.uri)) uri id) event)).1 where
  jobs := by
    have still : (job.advance event).uri = uri := by rw [job.uri_advance event, own]
    rw [jobs_step_job, jobs_step_job, h.jobs, rank_uris]
    exact (filter_modify_of_pos known (decide_eq_true own) (decide_eq_true still)).symm
  token := by
    have found := h.getElem? known own
    rw [uris_job]
    cases s.forgets id event with
    | kept waits tokens pending =>
      cases t.forgets (rank (s.jobs.map (·.uri)) uri id) event with
      | kept waits' tokens' pending' => rw [tokens, tokens', h.token]
      | dropped other interrupted received known' handing held tokens' pending' =>
        obtain rfl : job = other := Option.some.inj (found.symm.trans known')
        have alive : job.phase.isOver = false := by rw [handing]; rfl
        exact absurd ((h.held_iff hs ht known own alive).2 held)
          (waits received job interrupted known handing)
    | dropped other interrupted received known' handing held tokens pending =>
      obtain rfl : job = other := Option.some.inj (known.symm.trans known')
      cases t.forgets (rank (s.jobs.map (·.uri)) uri id) event with
      | kept waits' tokens' pending' =>
        have alive : job.phase.isOver = false := by rw [handing]; rfl
        exact absurd ((h.held_iff hs ht known own alive).1 held)
          (waits' received job interrupted found handing)
      | dropped again interrupted' received' found' handing' held' tokens' pending' =>
        obtain rfl : job = again := Option.some.inj (found.symm.trans found')
        rw [tokens, tokens', own, Table.get?_erase_self, Table.get?_erase_self]
        rfl

theorem deliveries_job_self (h : Agrees uri s t) (id : Nat) (event : JobEvent) {job : Job}
    (known : s.jobs[id]? = some job) (own : job.uri = uri) :
    (t.step (.job (rank (s.jobs.map (·.uri)) uri id) event)).2.reverse.filterMap
        (Notice.diagnosticsFor? uri) =
      (s.step (.job id event)).2.reverse.filterMap (Notice.diagnosticsFor? uri) := by
  cases event with
  | conclude ending =>
    simp only [step, conclude, known, h.getElem? known own, Option.elim_some,
      List.filterMap_reverse]
    rw [job.deliveries_notices]
  | _ => rfl

end Agrees

theorem deliveries_job_of_ne {s : Scheduler} {uri : String} (id : Nat) (event : JobEvent)
    (apart : ∀ job, s.jobs[id]? = some job → job.uri ≠ uri) :
    (s.step (.job id event)).2.reverse.filterMap (Notice.diagnosticsFor? uri) = [] := by
  cases event with
  | conclude ending =>
    cases known : s.jobs[id]? with
    | none => simp [step, conclude, known]
    | some job =>
      simp only [step, conclude, known, Option.elim_some, List.filterMap_reverse]
      rw [job.deliveries_notices_of_ne id ending (apart job known), List.reverse_nil]
  | _ => rfl

/-! ## Histories -/

variable {uri : String} {past : List Step}

/-- The job of a number has the document that was scheduled with that number. -/
theorem scheduled_eq_some_iff (id : Nat) :
    (scheduled past)[id]? = some uri ↔
      ∃ job, (after past).jobs[id]? = some job ∧ job.uri = uri := by
  rw [← (follows past).uris, List.getElem?_map, Option.map_eq_some_iff]

/-- **A scheduler that only takes the steps for a document agrees with the whole one on it.** -/
theorem agrees_about (uri : String) (past : List Step) :
    Agrees uri (after past) (after (about uri past)) := by
  induction past with
  | nil => exact ⟨rfl, rfl⟩
  | cons next past ih =>
    have whole := (follows past).consistent
    have part := (follows (about uri past)).consistent
    cases next with
    | schedule other =>
      by_cases own : other = uri
      · rw [about, if_pos own, own]
        exact ih.schedule_self whole part
      · rw [about, if_neg own]
        exact ih.schedule_of_ne whole own
    | cancel other =>
      by_cases own : other = uri
      · rw [about, if_pos own]
        exact ih.cancel whole part other
      · rw [about, if_neg own]
        exact ih.cancel_of_ne whole own
    | close => exact ih.close whole part
    | job id event =>
      by_cases own : (scheduled past)[id]? = some uri
      · obtain ⟨job, known, same⟩ := (scheduled_eq_some_iff id).1 own
        rw [about, if_pos own, ← (follows past).uris]
        exact ih.job_self whole part id event known same
      · rw [about, if_neg own]
        exact ih.job_of_ne id event fun job known same =>
          own ((scheduled_eq_some_iff id).2 ⟨job, known, same⟩)

theorem deliveriesTo_cons (next : Step) (past : List Step) :
    deliveriesTo uri (next :: past) =
      ((after past).step next).2.reverse.filterMap (Notice.diagnosticsFor? uri) ++
        deliveriesTo uri past := by
  rw [deliveriesTo, notices, List.filterMap_append, deliveriesTo]

/-- **What is delivered to a document does not depend on the steps for other documents.** -/
theorem deliveriesTo_about (uri : String) (past : List Step) :
    deliveriesTo uri (about uri past) = deliveriesTo uri past := by
  induction past with
  | nil => rfl
  | cons next past ih =>
    cases next with
    | schedule other =>
      by_cases own : other = uri
      · rw [about, if_pos own, deliveriesTo_cons, deliveriesTo_cons, ih]
        rfl
      · rw [about, if_neg own, deliveriesTo_cons, ih]
        rfl
    | cancel other =>
      by_cases own : other = uri
      · rw [about, if_pos own, deliveriesTo_cons, deliveriesTo_cons, ih]
        rfl
      · rw [about, if_neg own, deliveriesTo_cons, ih]
        rfl
    | close =>
      rw [about, deliveriesTo_cons, deliveriesTo_cons, ih]
      rfl
    | job id event =>
      by_cases own : (scheduled past)[id]? = some uri
      · obtain ⟨job, known, same⟩ := (scheduled_eq_some_iff id).1 own
        rw [about, if_pos own, deliveriesTo_cons, deliveriesTo_cons, ih, ← (follows past).uris,
          (agrees_about uri past).deliveries_job_self id event known same]
      · rw [about, if_neg own, deliveriesTo_cons, ih, deliveries_job_of_ne, List.nil_append]
        exact fun job known same => own ((scheduled_eq_some_iff id).2 ⟨job, known, same⟩)

/-- **Only the latest schedule of a document delivers.** After every history of steps, in any order:
a step delivers to a document if and only if it ends, with diagnostics, a validation that is under
way and whose job is that of the latest schedule of the document, with no cancellation and no
closing since. No job delivers twice, and none delivers whose validation raised. What a document is
delivered is the same as without the steps for other documents. A document has a token if and only
if it has a job. -/
theorem latest_schedule_delivers (history : List Step) :
    (∀ next id uri diagnostics, .delivered id uri diagnostics ∈ ((after history).step next).2 ↔
      next = .job id (.conclude (.returned diagnostics false)) ∧ standing? uri history = some id ∧
        ∃ job, (after history).jobs[id]? = some job ∧ job.phase.isUnderWay) ∧
    ((notices history).filterMap Notice.deliverer?).Nodup ∧
    (∀ id uri diagnostics, (id, .raised) ∈ ended history →
      .delivered id uri diagnostics ∉ notices history) ∧
    (∀ uri, deliveriesTo uri (about uri history) = deliveriesTo uri history) ∧
    ∀ uri, uri ∈ (after history).tokens.keys ↔ uri ∈ (after history).pending.keys := by
  obtain ⟨once, -⟩ := ended_once history
  refine ⟨(follows history).mem_step_iff, once.sublist (deliverers_sublist_ended history),
    fun id uri diagnostics raised given => ?_, fun uri => deliveriesTo_about uri history,
    fun uri => by rw [(follows history).consistent.same]⟩
  have same := List.inj_on_of_nodup_map once raised (mem_ended_of_delivered given) rfl
  cases same

/-- A validation that is superseded while it waits and swallows its cancellation keeps its
diagnostics to itself, and the one after it delivers, beside one that raises. -/
theorem latest_schedule_delivers_swallowed :
    let history : List Step := [.job 1 (.conclude (.returned ["old"] false)), .job 2 .wake,
      .schedule "a", .job 1 (.suspend true), .job 1 .wake, .job 0 (.conclude .raised), .job 0 .wake,
      .schedule "a", .schedule "b"]
    (0, .raised) ∈ ended history ∧ (∀ diagnostics, .delivered 0 "b" diagnostics ∉ notices history) ∧
      .delivered 2 "a" ["new"] ∈
        ((after history).step (.job 2 (.conclude (.returned ["new"] false)))).2 := by
  intro history
  have raised : (0, .raised) ∈ ended history := by decide +kernel
  have law := latest_schedule_delivers history
  refine ⟨raised, fun diagnostics => law.2.2.1 0 "b" diagnostics raised, (law.1 _ _ _ _).2 ?_⟩
  exact ⟨rfl, by decide +kernel, ⟨"a", .validating false, false⟩, by decide +kernel, rfl⟩

end Scheduler

end Validation

end DialectBridge
