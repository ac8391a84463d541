import DialectBridge.Validation

/-!
# An event loop with virtual time

The loop runs the jobs of a scheduler against validations of known behaviour. Time only moves when
it is told to; timers fire in the order of their due times, and those due at the same time in the
order in which they were set. Times that differ by less than the resolution of the clock are not
told apart, so a timer may fire a little early. Slow validations wait at the gate of their document,
which can be opened, and which can be forgotten so that the next validation waits at a new one.
-/

set_option autoImplicit false

namespace DialectBridge

namespace Validation

/-- How a validation behaves. -/
inductive Behaviour where
  /-- Returns its diagnostics. -/
  | plain
  /-- Returns no diagnostics. -/
  | empty
  /-- Fails. -/
  | failing
  /-- Cancels its own token and returns its diagnostics. -/
  | cancelling
  /-- Waits at the gate and returns its diagnostics. -/
  | slow
  /-- Waits at the gate and fails. -/
  | slowFailing
  /-- Waits at the gate, swallows a cancellation meanwhile, and returns its diagnostics. -/
  | swallowing
  deriving DecidableEq, Repr

namespace Behaviour

/-- Whether a validation waits at the gate. -/
def waits : Behaviour → Bool
  | .slow | .slowFailing | .swallowing => true
  | .plain | .empty | .failing | .cancelling => false

/-- What a validation comes to, with the diagnostics it would return. -/
def ending (diagnostics : List String) : Behaviour → Ending
  | .plain | .slow | .swallowing => .returned diagnostics false
  | .empty => .returned [] false
  | .failing | .slowFailing => .raised
  | .cancelling => .returned diagnostics true

end Behaviour

/-- The gate of a document. -/
structure Gate where
  id : Nat
  isOpen : Bool := false
  deriving DecidableEq, Repr

/-- The end of a job's delay. -/
structure Timer (τ : Type) where
  due : τ
  job : Nat

/-- A job that waits at a gate, with what its validation will come to. -/
structure Waiter where
  job : Nat
  gate : Nat
  ending : Ending

/-- What happened in the loop, in order. -/
inductive LoopEvent where
  /-- The validation of a document began. -/
  | validated (uri : String)
  /-- What the scheduler let out. -/
  | noticed (notice : Notice)
  deriving DecidableEq, Repr

/-- A scheduler with its timers and gates, and the behaviour of its validations. -/
structure Loop (τ : Type) where
  now : τ
  delay : τ
  /-- How much before its time a timer may fire. -/
  resolution : τ
  behaviours : Table String Behaviour := {}
  /-- Documents that are scheduled once more when they are first delivered. -/
  reschedule : List String := []
  scheduler : Scheduler := {}
  /-- Timers in the order in which they were set. -/
  timers : List (Timer τ) := []
  waiters : List Waiter := []
  gates : Table String Gate := {}
  nextGate : Nat := 0
  /-- How often each document has been validated. -/
  counts : Table String Nat := {}
  /-- Jobs that were scheduled from outside. -/
  scheduled : List Nat := []
  events : List LoopEvent := []

namespace Loop

variable {τ : Type} [Zero τ] [Add τ] [LE τ] [DecidableLE τ] [LT τ] [DecidableLT τ]

omit [Zero τ] [Add τ] [LE τ] [DecidableLE τ] [LT τ] [DecidableLT τ] in
/-- The loop after something happened. -/
def log (l : Loop τ) (events : List LoopEvent) : Loop τ := { l with events := l.events ++ events }

omit [LT τ] [DecidableLT τ] in
/-- When a job that is scheduled now wakes up; a delay that is not positive is no delay. -/
def wakeTime (l : Loop τ) : τ := if l.delay ≤ 0 then l.now else l.now + l.delay

omit [LT τ] [DecidableLT τ] in
/-- The loop with timers for the jobs that a step of the scheduler added. -/
def withScheduler (l : Loop τ) (s : Scheduler) : Loop τ :=
  let added := (List.range s.jobs.length).drop l.scheduler.jobs.length
  { l with
    scheduler := s
    timers := l.timers ++ added.map fun job => ⟨l.wakeTime, job⟩ }

omit [LT τ] [DecidableLT τ] in
/-- Goes on with a job whose validation came to an end. The first delivery of a document that is to
be scheduled once more does so, which cancels the job that is just delivering. -/
def conclude (l : Loop τ) (job : Nat) (uri : String) (ending : Ending) : Loop τ :=
  let (s, notices) := l.scheduler.conclude job ending
  let delivered := notices.any fun notice =>
    match notice with
    | .delivered _ _ _ => true
    | .failed _ => false
  let again := delivered && l.reschedule.contains uri
  let s := if again then s.schedule uri else s
  let l := if again then { l with reschedule := l.reschedule.filter (· != uri) } else l
  (l.withScheduler (s.settle job)).log (notices.map .noticed)

omit [Zero τ] [Add τ] [LE τ] [DecidableLE τ] [LT τ] [DecidableLT τ] in
/-- The gate of a document, a new closed one if it has none. -/
def gateOf (l : Loop τ) (uri : String) : Gate × Loop τ :=
  match l.gates.get? uri with
  | some gate => (gate, l)
  | none =>
    let gate : Gate := ⟨l.nextGate, false⟩
    (gate, { l with gates := l.gates.put uri gate, nextGate := l.nextGate + 1 })

omit [LT τ] [DecidableLT τ] in
/-- Begins the validation of a job whose delay has passed. -/
def validate (l : Loop τ) (job : Nat) (uri : String) : Loop τ :=
  let count := (l.counts.get? uri).getD 0 + 1
  let behaviour := (l.behaviours.get? uri).getD .plain
  let ending := behaviour.ending [s!"{uri}#{count}"]
  let l := { l with counts := l.counts.put uri count }.log [.validated uri]
  if behaviour.waits then
    let (gate, l) := l.gateOf uri
    if gate.isOpen then l.conclude job uri ending
    else
      { l with
        scheduler := l.scheduler.suspend job (behaviour == .swallowing)
        waiters := l.waiters ++ [⟨job, gate.id, ending⟩] }
  else l.conclude job uri ending

omit [LT τ] [DecidableLT τ] in
/-- Wakes a job up, if it is still asleep. -/
def wake (l : Loop τ) (job : Nat) : Loop τ :=
  let l := { l with scheduler := l.scheduler.wake job }
  match l.scheduler.jobs[job]? with
  | some j => if j.phase == .validating false then l.validate job j.uri else l
  | none => l

omit [Zero τ] in
/-- Whether a time counts as reached. -/
def hasReached (l : Loop τ) (time : τ) : Bool := time ≤ l.now || time < l.now + l.resolution

omit [Zero τ] in
/-- The earliest of the timers that are due at some time, or now; the first one set if there are
several. -/
def nextTimer? (l : Loop τ) (until_ : τ) : Option (Timer τ) :=
  l.timers.foldl (fun best timer =>
    if timer.due ≤ until_ || l.hasReached timer.due then
      match best with
      | some earlier => if timer.due < earlier.due then some timer else best
      | none => some timer
    else best) none

/-- Fires timers up to a time, at most as many as `fuel`. The clock moves on to the time of a timer
that is not reached yet. -/
def fire (until_ : τ) : Nat → Loop τ → Loop τ
  | 0, l => l
  | fuel + 1, l =>
    match l.nextTimer? until_ with
    | none => l
    | some timer =>
      let timers := l.timers.filter fun other => other.job != timer.job
      let now := if l.hasReached timer.due then l.now else timer.due
      fire until_ fuel ({ l with timers, now }.wake timer.job)

/-- Fires all timers up to a time. Every timer fires once, and every document that is to be
scheduled once more sets one more timer, which bounds the number of steps. -/
def fireAll (until_ : τ) (l : Loop τ) : Loop τ :=
  fire until_ (l.timers.length + l.reschedule.length) l

/-- Runs the loop up to a time, first what is due on the way and then what is due at the end. -/
def runUntil (l : Loop τ) (until_ : τ) : Loop τ :=
  fireAll until_ { fireAll until_ l with now := until_ }

omit [LT τ] [DecidableLT τ] in
/-- Goes on with a job whose wait is over, if it still waits. -/
def resume (l : Loop τ) (waiter : Waiter) : Loop τ :=
  match l.scheduler.jobs[waiter.job]? with
  | some job =>
    match job.phase with
    | .waiting _ => l.conclude waiter.job job.uri waiter.ending
    | _ => l
  | none => l

omit [LT τ] [DecidableLT τ] in
/-- Goes on with the jobs that fulfil a condition and wait at a gate. -/
def resumeWhere (l : Loop τ) (condition : Waiter → Bool) : Loop τ :=
  let (ready, others) := l.waiters.partition condition
  ready.foldl resume { l with waiters := others }

omit [LT τ] [DecidableLT τ] in
/-- Goes on with the jobs that were cancelled and swallow it: their validations come back at once. -/
def resumeCancelled (l : Loop τ) : Loop τ :=
  l.resumeWhere fun waiter => (l.scheduler.jobs[waiter.job]?).any (·.tokenCancelled)

/-- Runs what is ready now. -/
def settle (l : Loop τ) : Loop τ := l.resumeCancelled.runUntil l.now

/-! ## Steps from outside -/

/-- Schedules a validation. -/
def schedule (l : Loop τ) (uri : String) : Loop τ :=
  let job := l.scheduler.jobs.length
  { l.withScheduler (l.scheduler.schedule uri) with scheduled := l.scheduled ++ [job] }.settle

/-- Cancels the validation of a document. -/
def cancel (l : Loop τ) (uri : String) : Loop τ :=
  { l with scheduler := l.scheduler.cancel uri }.settle

/-- Cancels all validations. -/
def close (l : Loop τ) : Loop τ := { l with scheduler := l.scheduler.close }.settle

/-- Lets time pass. -/
def advance (l : Loop τ) (seconds : τ) : Loop τ := l.runUntil (l.now + seconds)

/-- Opens the gate of a document; it stays open. -/
def release (l : Loop τ) (uri : String) : Loop τ :=
  let (gate, l) := l.gateOf uri
  let l := { l with gates := l.gates.put uri { gate with isOpen := true } }
  (l.resumeWhere fun waiter => waiter.gate == gate.id).settle

/-- Forgets the gate of a document. -/
def block (l : Loop τ) (uri : String) : Loop τ :=
  { l with gates := l.gates.erase uri }.settle

end Loop

end Validation

end DialectBridge
