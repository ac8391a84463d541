import DialectBridge.Table

/-!
# Scheduling validations

Every change of a document cancels its validation, pending or running, and schedules a new one
after a delay, so that only diagnostics of the latest change are ever delivered. The scheduler is a
state with one function per step: schedule, cancel and close from outside, and for each job that its
delay has passed, that its validation begins to wait for something, that the validation comes to an
end, which may deliver diagnostics, and that these have been received. A job that is over takes no
further step.

Validations and whoever receives diagnostics may use the scheduler themselves. A job that is
cancelled while it is running goes on up to its next wait or its end; its token tells it to keep its
diagnostics to itself.
-/

set_option autoImplicit false

namespace DialectBridge

namespace Validation

/-- Where a job stands. -/
inductive Phase where
  /-- Waiting for its delay to pass. -/
  | sleeping
  /-- Running its validation; it may have been cancelled since it woke up. -/
  | validating (interrupted : Bool)
  /-- Waiting inside its validation; what it waits for may swallow a cancellation. -/
  | waiting (swallows : Bool)
  /-- Handing its diagnostics over; it may have been cancelled meanwhile. -/
  | delivering (interrupted : Bool)
  /-- Over, with or without a delivery. -/
  | finished
  /-- Over because it was cancelled. -/
  | cancelled
  deriving DecidableEq, Repr

namespace Phase

/-- Whether a job in this phase is over. -/
def isOver : Phase → Bool
  | .finished | .cancelled => true
  | .sleeping | .validating _ | .waiting _ | .delivering _ => false

/-- Whether the validation of a job in this phase has begun and not come to an end. -/
def isUnderWay : Phase → Bool
  | .validating _ | .waiting _ => true
  | .sleeping | .delivering _ | .finished | .cancelled => false

/-- What a cancellation makes of a phase. A job that is running goes on, and so does one whose wait
swallows the cancellation. -/
def cancel : Phase → Phase
  | .sleeping | .waiting false | .cancelled => .cancelled
  | .waiting true => .waiting true
  | .validating _ => .validating true
  | .delivering _ => .delivering true
  | .finished => .finished

/-- How a job ends that comes to the end of its course. -/
def ended : Phase → Phase
  | .validating true | .delivering true | .cancelled => .cancelled
  | _ => .finished

end Phase

/-- One scheduled validation. -/
structure Job where
  uri : String
  phase : Phase := .sleeping
  /-- The job was told to keep its diagnostics to itself. -/
  tokenCancelled : Bool := false
  deriving DecidableEq, Repr

/-- How a validation comes to an end. -/
inductive Ending where
  /-- Diagnostics; the validation may have cancelled its own token. -/
  | returned (diagnostics : List String) (cancelsToken : Bool)
  /-- A failure. -/
  | raised
  deriving DecidableEq, Repr

/-- What is seen of a validation from outside. -/
inductive Notice where
  /-- Diagnostics were delivered by a job. -/
  | delivered (job : Nat) (uri : String) (diagnostics : List String)
  /-- The validation of a document failed. -/
  | failed (uri : String)
  deriving DecidableEq, Repr

namespace Job

variable (job : Job)

/-- A job whose delay has passed begins its validation, unless its token was cancelled. -/
def wake : Job :=
  match job.phase with
  | .sleeping => { job with phase := if job.tokenCancelled then .finished else .validating false }
  | _ => job

/-- A job that waits inside its validation, for the first time or once more, where it may swallow a
cancellation, also one that came before its first wait. -/
def suspend (swallows : Bool) : Job :=
  match job.phase with
  | .validating interrupted =>
    { job with phase := if interrupted && !swallows then .cancelled else .waiting swallows }
  | .waiting _ => { job with phase := .waiting swallows }
  | _ => job

/-- A job whose validation came to an end. If its token was cancelled it ends; any other hands its
diagnostics over. -/
def conclude (ending : Ending) : Job :=
  if job.phase.isUnderWay then
    match ending with
    | .raised => { job with phase := job.phase.ended }
    | .returned _ cancelsToken =>
      if job.tokenCancelled || cancelsToken then
        { job with phase := job.phase.ended, tokenCancelled := true }
      else { job with phase := .delivering false }
  else job

/-- What is seen of a job with a number when its validation comes to an end. -/
def notices (id : Nat) (ending : Ending) : List Notice :=
  if job.phase.isUnderWay then
    match ending with
    | .raised => [.failed job.uri]
    | .returned diagnostics cancelsToken =>
      if job.tokenCancelled || cancelsToken then [] else [.delivered id job.uri diagnostics]
  else []

/-- A job whose diagnostics have been received ends. -/
def settle : Job :=
  match job.phase with
  | .delivering _ => { job with phase := job.phase.ended }
  | _ => job

end Job

/-- The jobs so far, numbered from zero, and which of them stand for their documents. -/
structure Scheduler where
  jobs : List Job := []
  /-- The job of each document. -/
  pending : Table String Nat := {}
  /-- The job whose token each document holds. -/
  tokens : Table String Nat := {}

namespace Scheduler

variable (s : Scheduler)

/-- The scheduler with one job changed. -/
def modifyJob (id : Nat) (change : Job → Job) : Scheduler :=
  { s with jobs := s.jobs.modify id change }

/-- Cancels the token that a document holds. -/
def cancelToken (uri : String) : Scheduler :=
  match s.tokens.get? uri with
  | some id =>
    { s.modifyJob id fun job => { job with tokenCancelled := true } with
      tokens := s.tokens.erase uri }
  | none => s

/-- Cancels the job of a document, if it is not over. -/
def cancelJob (uri : String) : Scheduler :=
  match s.pending.get? uri with
  | some id =>
    { s.modifyJob id fun job => { job with phase := job.phase.cancel } with
      pending := s.pending.erase uri }
  | none => s

/-- Cancels the validation of a document. -/
def cancel (uri : String) : Scheduler := (s.cancelToken uri).cancelJob uri

/-- Cancels all validations. -/
def close : Scheduler := s.pending.keys.foldl cancel s

/-- Schedules a validation of a document in the place of the one before; its number is the number
of jobs so far. -/
def schedule (uri : String) : Scheduler :=
  let s := s.cancel uri
  let id := s.jobs.length
  { jobs := s.jobs ++ [{ uri }], pending := s.pending.put uri id, tokens := s.tokens.put uri id }

/-- Forgets a job that still stands for its document. -/
def release (id : Nat) (uri : String) : Scheduler :=
  if s.tokens.get? uri = some id then
    { s with tokens := s.tokens.erase uri, pending := s.pending.erase uri }
  else s

/-- Wakes a job up. -/
def wake (id : Nat) : Scheduler := s.modifyJob id Job.wake

/-- Lets a job wait inside its validation. -/
def suspend (id : Nat) (swallows : Bool) : Scheduler :=
  s.modifyJob id fun job => job.suspend swallows

/-- Goes on with a job whose validation came to an end. -/
def conclude (id : Nat) (ending : Ending) : Scheduler × List Notice :=
  (s.modifyJob id fun job => job.conclude ending,
    (s.jobs[id]?).elim [] fun job => job.notices id ending)

/-- Goes on with a job whose diagnostics have been received: it ends, and is forgotten if it still
stands for its document. -/
def settle (id : Nat) : Scheduler :=
  match s.jobs[id]? with
  | none => s
  | some job =>
    match job.phase with
    | .delivering _ => (s.release id job.uri).modifyJob id Job.settle
    | _ => s

/-- The phase of a job. -/
def phase? (id : Nat) : Option Phase := (s.jobs[id]?).map (·.phase)

/-- The documents whose job is not over, in the order in which they were scheduled. -/
def pendingUris : List String :=
  (s.pending.entries.filter fun entry => (s.phase? entry.2).any (!·.isOver)).map (·.1)

end Scheduler

end Validation

end DialectBridge
