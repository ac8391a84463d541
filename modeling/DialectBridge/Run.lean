import DialectBridge.Fault

/-!
# Journalled computations

A run is an outcome together with a journal of what was done on the way, in order. The journal is
kept also when the outcome is a fault, up to the step that failed.
-/

set_option autoImplicit false

namespace DialectBridge

/-- An outcome and the journal of the steps that led to it. -/
structure Run (ω : Type) (α : Type) where
  journal : List ω
  outcome : Except Fault α

namespace Run

variable {ω α β : Type}

/-- A run that has nothing to note. -/
def done (a : α) : Run ω α := ⟨[], .ok a⟩

/-- One run after another; a fault of the first is the fault of both. -/
def andThen (first : Run ω α) (next : α → Run ω β) : Run ω β :=
  match first.outcome with
  | .error fault => ⟨first.journal, .error fault⟩
  | .ok a => ⟨first.journal ++ (next a).journal, (next a).outcome⟩

@[simp]
theorem done_andThen (a : α) (next : α → Run ω β) : (done a).andThen next = next a := rfl

/-- A run of two parts succeeds exactly when both parts do. -/
theorem outcome_andThen_eq_ok_iff {first : Run ω α} {next : α → Run ω β} {b : β} :
    (first.andThen next).outcome = .ok b ↔
      ∃ a, first.outcome = .ok a ∧ (next a).outcome = .ok b := by
  obtain ⟨journal, outcome⟩ := first
  cases outcome with
  | error fault => simp [andThen]
  | ok a => simp [andThen]

instance : Monad (Run ω) where
  pure := done
  bind := andThen

/-- An outcome with nothing to note. -/
def ofExcept (outcome : Except Fault α) : Run ω α := ⟨[], outcome⟩

/-- A run that only makes a note. -/
def note (entry : ω) : Run ω Unit := ⟨[entry], .ok ()⟩

/-- A run that only makes notes. -/
def notes (entries : List ω) : Run ω Unit := ⟨entries, .ok ()⟩

end Run

/-- What the journal of a compilation holds. -/
inductive Event where
  /-- The dialect compiler was asked to compile a text. -/
  | asked (text : Text)
  /-- A remark for whoever follows the work closely. -/
  | remark (message : String)
  deriving DecidableEq, Repr

namespace Event

/-- The texts the compiler was asked for, in order. -/
def askedTexts (journal : List Event) : List Text :=
  journal.filterMap fun event =>
    match event with
    | .asked text => some text
    | .remark _ => none

end Event

end DialectBridge
