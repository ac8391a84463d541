import DialectBridge.Number.Quantity
import DialectBridge.Run
import DialectBridge.Table

/-!
# Caching results

A cache computes a result at most once per text within a fixed time to live. Texts are recognised
by a digest. Beside the entries, which expire, it keeps the latest result of every document, which
does not: that is dropped only when the document is closed. Results are numbered in the order in
which they were computed, so that two equal results of two computations can be told apart.

Time is any ordered type in which one can say what time it is when some span has passed; not every
kind of time has an answer for every span. The type of digests is any type with decidable equality.
-/

set_option autoImplicit false

namespace DialectBridge

/-- Times that can be put off by a span. -/
class Timeline (τ : Type) where
  /-- The time when a span has passed, if that can be expressed. -/
  after : τ → τ → Except Fault τ

/-- In exact time every span can be added. -/
instance (priority := low) {τ : Type} [Add τ] : Timeline τ := ⟨fun time span => .ok (time + span)⟩

instance : Timeline Quantity := ⟨Quantity.after⟩

/-- A computed result with its number. -/
structure Computed (α : Type) where
  value : α
  serial : Nat
  deriving DecidableEq, Repr

/-- A cached result and the time from which on it is not valid any more. -/
structure CacheEntry (τ α : Type) where
  result : Computed α
  expiresAt : τ
  deriving Repr

/-- A cache of results of type `α`. -/
structure Cache (τ κ α : Type) where
  /-- How long an entry is valid. -/
  ttl : τ
  entries : Table κ (CacheEntry τ α) := {}
  /-- The latest result of every document. -/
  latest : Table String (Computed α) := {}
  /-- How many results have been computed. -/
  computed : Nat := 0

namespace Cache

variable {τ κ α ω : Type} [Timeline τ] [LT τ] [DecidableLT τ] [LE τ] [DecidableLE τ]
  [DecidableEq κ]

/-- The entry of a digest that is still valid. -/
def valid? (cache : Cache τ κ α) (key : κ) (now : τ) : Option (CacheEntry τ α) :=
  (cache.entries.get? key).filter fun entry => now < entry.expiresAt

/-- The cache with a new result that is valid up to a time. -/
def store (cache : Cache τ κ α) (key : κ) (expiresAt : τ) (value : α) : Cache τ κ α :=
  { cache with
    entries := cache.entries.put key ⟨⟨value, cache.computed⟩, expiresAt⟩
    computed := cache.computed + 1 }

/-- The cache in which a result is the latest of a document, if there is a document. -/
def setLatest (cache : Cache τ κ α) (uri : Option String) (result : Computed α) : Cache τ κ α :=
  match uri with
  | some uri => { cache with latest := cache.latest.put uri result }
  | none => cache

/-- The cache without expired entries. -/
def purge (cache : Cache τ κ α) (now : τ) : Cache τ κ α :=
  { cache with entries := cache.entries.filter fun _ entry => ¬ entry.expiresAt ≤ now }

/-- How many entries have expired. -/
def expiredCount (cache : Cache τ κ α) (now : τ) : Nat :=
  cache.entries.size - (cache.purge now).entries.size

/-- What a request leads to: the cache, also when the request fails; what was noted on the way, and
the result. -/
structure Answer (τ κ α ω : Type) where
  cache : Cache τ κ α
  journal : List ω := []
  outcome : Except Fault (Computed α)

/-- What is left to do once there is a result: it becomes the latest one of the document, and
expired entries go. -/
def conclude (cache : Cache τ κ α) (uri : Option String) (now : τ) (journal : List ω)
    (result : Computed α) : Answer τ κ α ω where
  cache := (cache.setLatest uri result).purge now
  journal
  outcome := .ok result

/-- The result for a digest, computed now if there is no valid entry. An entry is stored only when
the computation has succeeded and the time is known at which its result expires. -/
def get (cache : Cache τ κ α) (key : κ) (uri : Option String) (now : τ) (compute : Run ω α) :
    Answer τ κ α ω :=
  match cache.valid? key now with
  | some entry => cache.conclude uri now [] entry.result
  | none =>
    match compute.outcome with
    | .error fault => { cache, journal := compute.journal, outcome := .error fault }
    | .ok value =>
      match Timeline.after now cache.ttl with
      | .error fault => { cache, journal := compute.journal, outcome := .error fault }
      | .ok expiresAt =>
        (cache.store key expiresAt value).conclude uri now compute.journal
          ⟨value, cache.computed⟩

/-- The latest result of a document. -/
def latest? (cache : Cache τ κ α) (uri : String) : Option (Computed α) := cache.latest.get? uri

/-- The cache without the latest result of a document. -/
def forget (cache : Cache τ κ α) (uri : String) : Cache τ κ α :=
  { cache with latest := cache.latest.erase uri }

end Cache

end DialectBridge
