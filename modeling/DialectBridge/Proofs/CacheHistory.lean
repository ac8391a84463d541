import DialectBridge.Cache
import DialectBridge.Digest
import Mathlib.Algebra.Order.Group.Int
import Mathlib.Data.Set.Function

/-!
# Caches over time

A history of a cache is what was done with it, the newest first: results were asked for, latest
results were forgotten, expired entries were purged, and time passed. Time is exact here: it is
linearly ordered, spans can be added to it, and it does not run backwards.

The computations of a history are all that has to be remembered of it. An entry of the cache is
always the latest computation of its text, and a computation whose time has not run out is always
in the cache (`Accounts`). So a result is computed at most once within its time to live, and every
answer is the one that the computation itself would give.

Texts are only recognised by their digests, so this is said of histories whose texts have different
digests.
-/

set_option autoImplicit false

namespace DialectBridge

namespace Cache

section Parts

variable {τ κ α : Type} (cache : Cache τ κ α) (uri : Option String) (result : Computed α)

@[simp]
theorem entries_setLatest : (cache.setLatest uri result).entries = cache.entries := by
  cases uri <;> rfl

@[simp]
theorem ttl_setLatest : (cache.setLatest uri result).ttl = cache.ttl := by
  cases uri <;> rfl

@[simp]
theorem computed_setLatest : (cache.setLatest uri result).computed = cache.computed := by
  cases uri <;> rfl

theorem latest?_setLatest (document : String) :
    (cache.setLatest uri result).latest? document =
      if uri = some document then some result else cache.latest? document := by
  cases uri with
  | none => rfl
  | some uri => simp only [setLatest, latest?, Table.get?_put, Option.some.injEq, eq_comm]

end Parts

/-- **A request that fails leaves the cache as it was**, in every kind of time: what can fail comes
before anything is stored. -/
theorem cache_get_of_error {τ κ α ω : Type} [Timeline τ] [LT τ] [DecidableLT τ] [LE τ]
    [DecidableLE τ] [DecidableEq κ] {cache : Cache τ κ α} {key : κ} {uri : Option String} {now : τ}
    {compute : Run ω α} {fault : Fault}
    (failed : (cache.get key uri now compute).outcome = .error fault) :
    (cache.get key uri now compute).cache = cache := by
  unfold get at failed ⊢
  split at failed
  · cases failed
  · split at failed
    · rfl
    · split at failed
      · rfl
      · cases failed

section Answers

variable {τ κ α ω : Type} [Add τ] [LT τ] [DecidableLT τ] [LE τ] [DecidableLE τ] [DecidableEq κ]

/-- The three ways in which a request is answered: with the entry at hand, with a new result, and
with the fault of the computation. -/
inductive Answered (cache : Cache τ κ α) (key : κ) (uri : Option String) (now : τ)
    (compute : Run ω α) : Prop
  | found (entry : CacheEntry τ α) (valid : cache.valid? key now = some entry)
      (answer : cache.get key uri now compute =
        ⟨(cache.setLatest uri entry.result).purge now, [], .ok entry.result⟩)
  | computed (value : α) (invalid : cache.valid? key now = none)
      (made : compute.outcome = .ok value)
      (answer : cache.get key uri now compute =
        ⟨((cache.store key (now + cache.ttl) value).setLatest uri ⟨value, cache.computed⟩).purge now,
          compute.journal, .ok ⟨value, cache.computed⟩⟩)
  | failed (fault : Fault) (invalid : cache.valid? key now = none)
      (made : compute.outcome = .error fault)
      (answer : cache.get key uri now compute = ⟨cache, compute.journal, .error fault⟩)

theorem answered (cache : Cache τ κ α) (key : κ) (uri : Option String) (now : τ)
    (compute : Run ω α) : Answered cache key uri now compute := by
  obtain ⟨journal, outcome⟩ := compute
  cases valid : cache.valid? key now with
  | some entry =>
    refine .found entry valid ?_
    simp only [get, valid, conclude]
  | none =>
    cases outcome with
    | ok value =>
      refine .computed value valid rfl ?_
      simp only [get, valid, Timeline.after, conclude]
    | error fault =>
      refine .failed fault valid rfl ?_
      simp only [get, valid]

/-- The result of a successful request becomes the latest one of its document. -/
theorem latest?_of_get {cache : Cache τ κ α} {key : κ} {uri : Option String} {now : τ}
    {compute : Run ω α} {result : Computed α}
    (success : (cache.get key uri now compute).outcome = .ok result) (document : String) :
    (cache.get key uri now compute).cache.latest? document =
      if uri = some document then some result else cache.latest? document := by
  cases cache.answered key uri now compute with
  | found entry valid answer =>
    rw [answer] at success ⊢
    cases success
    exact latest?_setLatest cache uri entry.result document
  | computed value invalid made answer =>
    rw [answer] at success ⊢
    cases success
    exact latest?_setLatest (cache.store key (now + cache.ttl) value) uri _ document
  | failed fault invalid made answer =>
    rw [answer] at success
    cases success

/-- What a successful request makes of a cache: its result, which was at hand or is new, becomes the
latest of the document, and no entry is added but one for the new result. -/
structure Returned (cache : Cache τ κ α) (key : κ) (uri : Option String) (compute : Run ω α)
    (result : Computed α) (next : Cache τ κ α) : Prop where
  source : (∃ entry, cache.entries.get? key = some entry ∧ entry.result = result) ∨
    compute.outcome = .ok result.value
  latest : next.latest = (cache.setLatest uri result).latest
  once : next.entries.keys.Nodup
  entered : ∀ other entry, next.entries.get? other = some entry →
    cache.entries.get? other = some entry ∨
      other = key ∧ compute.outcome = .ok entry.result.value

omit [Add τ] [LT τ] [DecidableLT τ] in
/-- Every entry that is left after purging was there before. -/
theorem get?_of_get?_purge {cache : Cache τ κ α} (once : cache.entries.keys.Nodup) {now : τ}
    {key : κ} {entry : CacheEntry τ α}
    (found : (cache.purge now).entries.get? key = some entry) :
    cache.entries.get? key = some entry := by
  rw [purge, Table.get?_filter once, Option.filter_eq_some_iff] at found
  exact found.1

theorem returned_of_get {cache : Cache τ κ α} {key : κ} {uri : Option String} {now : τ}
    {compute : Run ω α} {result : Computed α} (once : cache.entries.keys.Nodup)
    (success : (cache.get key uri now compute).outcome = .ok result) :
    Returned cache key uri compute result (cache.get key uri now compute).cache := by
  cases cache.answered key uri now compute with
  | found entry valid answer =>
    rw [answer] at success ⊢
    cases success
    have known : cache.entries.get? key = some entry := (Option.filter_eq_some_iff.1 valid).1
    refine ⟨.inl ⟨entry, known, rfl⟩, rfl, ?_, fun other old found => .inl ?_⟩
    · exact Table.nodup_keys_filter (by rwa [entries_setLatest]) _
    · have before := get?_of_get?_purge (by rwa [entries_setLatest]) found
      rwa [entries_setLatest] at before
  | computed value invalid made answer =>
    rw [answer] at success ⊢
    cases success
    have stored : ((cache.store key (now + cache.ttl) value).setLatest uri
        ⟨value, cache.computed⟩).entries.keys.Nodup := by
      rw [entries_setLatest]
      exact Table.nodup_keys_put once _ _
    refine ⟨.inr made, ?_, Table.nodup_keys_filter stored _, fun other entry found => ?_⟩
    · cases uri <;> rfl
    · have before := get?_of_get?_purge stored found
      rw [entries_setLatest, store, Table.get?_put] at before
      split at before
      · next same =>
        cases before
        exact .inr ⟨same, made⟩
      · exact .inl before
  | failed fault invalid made answer =>
    rw [answer] at success
    cases success

end Answers

section Expiry

variable {τ κ α : Type} [LinearOrder τ] [DecidableEq κ] {cache : Cache τ κ α}

omit [DecidableEq κ] in
@[simp]
theorem latest?_purge (now : τ) (document : String) :
    (cache.purge now).latest? document = cache.latest? document := rfl

/-- Purging keeps the entries whose time has not run out. -/
theorem get?_entries_purge (once : cache.entries.keys.Nodup) (now : τ) (key : κ) :
    (cache.purge now).entries.get? key =
      (cache.entries.get? key).filter fun entry => now < entry.expiresAt := by
  simp only [purge, Table.get?_filter once, not_le]

theorem valid?_eq_some_iff {key : κ} {now : τ} {entry : CacheEntry τ α} :
    cache.valid? key now = some entry ↔
      cache.entries.get? key = some entry ∧ now < entry.expiresAt := by
  simp [valid?]

end Expiry

/-! ## Histories -/

/-- What is done with a cache, and time that passes. To look up a latest result changes nothing, so
it is no step. -/
inductive Action (τ : Type) where
  | get (text : Text) (uri : Option String)
  | forget (uri : String)
  | purge
  | pass (span : τ)

/-- A cache and what time it is. -/
structure Moment (τ α : Type) where
  cache : Cache τ String α
  now : τ

variable {τ α : Type} [LinearOrder τ] [AddCommMonoid τ] (transpile : Text → Except Fault α)

namespace Moment

variable (m : Moment τ α)

/-- Asks for the result of a text. The journal has the text if there was no result at hand. -/
def get (text : Text) (uri : Option String) : Cache.Answer τ String α Text :=
  m.cache.get (digest text) uri m.now ⟨[text], transpile text⟩

/-- The result of a text, if it was computed when it was asked for. -/
def computes? (text : Text) (uri : Option String) : Option (Computed α) :=
  if (m.get transpile text uri).journal = [] then none
  else (m.get transpile text uri).outcome.toOption

/-- One step. A request leaves what it makes of the cache, also when it fails. -/
def step : Action τ → Moment τ α
  | .get text uri => { m with cache := (m.get transpile text uri).cache }
  | .forget uri => { m with cache := m.cache.forget uri }
  | .purge => { m with cache := m.cache.purge m.now }
  | .pass span => { m with now := m.now + span }

theorem answered (text : Text) (uri : Option String) :
    Answered m.cache (digest text) uri m.now ⟨[text], transpile text⟩ :=
  Cache.answered _ _ _ _ _

end Moment

variable (ttl start : τ)

/-- The moment after a history, which begins with an empty cache. -/
def after : List (Action τ) → Moment τ α
  | [] => ⟨{ ttl }, start⟩
  | action :: past => (after past).step transpile action

/-- The texts that were asked for in a history. -/
def texts (past : List (Action τ)) : Set Text := {text | ∃ uri, .get text uri ∈ past}

/-- A result that was computed, with its text and the time. -/
structure Computation (τ α : Type) where
  text : Text
  time : τ
  result : Computed α
  deriving DecidableEq, Repr

/-- The computations of a history, the newest first. -/
def computations : List (Action τ) → List (Computation τ α)
  | [] => []
  | .get text uri :: past =>
    let m := after transpile ttl start past
    ((m.computes? transpile text uri).map (⟨text, m.now, ·⟩)).toList ++ computations past
  | _ :: past => computations past

/-- The latest of some computations that was made for a text. -/
def latestFor? (made : List (Computation τ α)) (text : Text) : Option (Computation τ α) :=
  made.find? (·.text = text)

/-- The result that was last returned for a document in a history and not forgotten since. -/
def returned? (document : String) : List (Action τ) → Option (Computed α)
  | [] => none
  | .get text uri :: past =>
    match ((after transpile ttl start past).get transpile text uri).outcome with
    | .ok result => if uri = some document then some result else returned? document past
    | .error _ => returned? document past
  | .forget uri :: past => if uri = document then none else returned? document past
  | _ :: past => returned? document past

/-! ## What a cache has of its history -/

/-- A cache that goes with the computations made so far. -/
structure Accounts (made : List (Computation τ α)) (m : Moment τ α) : Prop where
  lives : m.cache.ttl = ttl
  once : m.cache.entries.keys.Nodup
  /-- Results are numbered in the order in which they are computed. -/
  numbered : (m.cache.computed :: made.map (·.result.serial)).Pairwise (· > ·)
  /-- Every result is that of its text. -/
  right : ∀ c ∈ made, transpile c.text = .ok c.result.value
  /-- Every entry is the latest computation of a text. -/
  entered : ∀ key entry, m.cache.entries.get? key = some entry →
    ∃ c, latestFor? made c.text = some c ∧ digest c.text = key ∧
      entry = ⟨c.result, c.time + ttl⟩
  /-- A computation whose time has not run out is the latest of its text and has its entry. -/
  kept : ∀ c ∈ made, m.now < c.time + ttl → latestFor? made c.text = some c ∧
    m.cache.entries.get? (digest c.text) = some ⟨c.result, c.time + ttl⟩

namespace Accounts

variable {transpile ttl} {made : List (Computation τ α)} {m : Moment τ α}

theorem later (h : Accounts transpile ttl made m) {now : τ} (le : m.now ≤ now) :
    Accounts transpile ttl made { m with now } :=
  { h with kept := fun c member valid => h.kept c member (le.trans_lt valid) }

theorem forget (h : Accounts transpile ttl made m) (uri : String) :
    Accounts transpile ttl made { m with cache := m.cache.forget uri } :=
  ⟨h.lives, h.once, h.numbered, h.right, h.entered, h.kept⟩

theorem setLatest (h : Accounts transpile ttl made m) (uri : Option String)
    (result : Computed α) :
    Accounts transpile ttl made { m with cache := m.cache.setLatest uri result } := by
  obtain ⟨lives, once, numbered, right, entered, kept⟩ := h
  constructor <;> simpa only [ttl_setLatest, computed_setLatest, entries_setLatest]

theorem purge (h : Accounts transpile ttl made m) :
    Accounts transpile ttl made { m with cache := m.cache.purge m.now } where
  lives := h.lives
  once := Table.nodup_keys_filter h.once _
  numbered := h.numbered
  right := h.right
  entered := by
    intro key entry found
    rw [get?_entries_purge h.once, Option.filter_eq_some_iff] at found
    exact h.entered key entry found.1
  kept := by
    intro c member valid
    obtain ⟨latest, found⟩ := h.kept c member valid
    refine ⟨latest, ?_⟩
    rw [get?_entries_purge h.once, found, Option.filter_some, if_pos (decide_eq_true valid)]

/-- Storing a new result. Its text has no computation whose time has not run out, or else there
would be a valid entry. -/
theorem store (h : Accounts transpile ttl made m) {text : Text} {value : α}
    (invalid : m.cache.valid? (digest text) m.now = none) (own : transpile text = .ok value) :
    Accounts transpile ttl (⟨text, m.now, ⟨value, m.cache.computed⟩⟩ :: made)
      { m with cache := m.cache.store (digest text) (m.now + ttl) value } where
  lives := h.lives
  once := Table.nodup_keys_put h.once _ _
  numbered := by
    have above := (List.pairwise_cons.1 h.numbered).1
    refine List.pairwise_cons.2 ⟨?_, h.numbered⟩
    rintro serial (_ | ⟨_, old⟩)
    · exact Nat.lt_succ_self _
    · exact Nat.lt_succ_of_lt (above serial old)
  right := by
    rintro c (_ | ⟨_, old⟩)
    · exact own
    · exact h.right c old
  entered := by
    intro key entry found
    simp only [Cache.store, Table.get?_put] at found
    split at found
    · next same =>
      cases found
      exact ⟨⟨text, m.now, ⟨value, m.cache.computed⟩⟩, by simp [latestFor?], same.symm, rfl⟩
    · next other =>
      obtain ⟨c, latest, rfl, rfl⟩ := h.entered key entry found
      refine ⟨c, ?_, rfl, rfl⟩
      have apart : ¬ text = c.text := fun same => other (congrArg digest same.symm)
      simpa [latestFor?, apart] using latest
  kept := by
    rintro c (_ | ⟨_, old⟩) valid
    · simp [latestFor?, Cache.store]
    · obtain ⟨latest, found⟩ := h.kept c old valid
      have apart : digest c.text ≠ digest text := by
        intro same
        rw [same] at found
        rw [valid?_eq_some_iff.2 ⟨found, valid⟩] at invalid
        cases invalid
      have different : ¬ text = c.text := fun same => apart (congrArg digest same.symm)
      refine ⟨by simpa [latestFor?, different] using latest, ?_⟩
      simpa [Cache.store, Table.get?_put, apart] using found

end Accounts

section Run

variable {past : List (Action τ)}

/-- Every computation was made for a text that was asked for. -/
theorem text_mem_texts {c : Computation τ α}
    (member : c ∈ computations transpile ttl start past) :
    c.text ∈ texts past := by
  induction past with
  | nil => cases member
  | cons action past ih =>
    have old : c ∈ computations transpile ttl start past → c.text ∈ texts (action :: past) := by
      intro earlier
      obtain ⟨uri, asked⟩ := ih earlier
      exact ⟨uri, List.mem_cons_of_mem _ asked⟩
    cases action with
    | get text uri =>
      rcases List.mem_append.1 member with new | earlier
      · obtain ⟨result, -, rfl⟩ := Option.map_eq_some_iff.1 (Option.mem_toList.1 new)
        exact ⟨uri, List.mem_cons_self⟩
      · exact old earlier
    | forget uri => exact old member
    | purge => exact old member
    | pass span => exact old member

/-- **The cache accounts for all computations, step by step.** -/
theorem accounts_after [IsOrderedAddMonoid τ] (forward : ∀ span, .pass span ∈ past → 0 ≤ span) :
    Accounts transpile ttl (computations transpile ttl start past)
      (after transpile ttl start past) := by
  induction past with
  | nil =>
    refine ⟨rfl, List.nodup_nil, List.pairwise_singleton _ _, ?_, ?_, ?_⟩
    · intro c member
      cases member
    · intro key entry found
      cases found
    · intro c member
      cases member
  | cons action past ih =>
    have before := ih fun span member => forward span (List.mem_cons_of_mem _ member)
    cases action with
    | get text uri =>
      simp only [computations, after, Moment.step, Moment.computes?, Moment.get]
      cases (after transpile ttl start past).answered transpile text uri with
      | found entry valid answer =>
        simp only [answer]
        exact (before.setLatest uri entry.result).purge
      | computed value invalid made answer =>
        simp only [answer, before.lives]
        exact ((before.store invalid made).setLatest uri _).purge
      | failed fault invalid made answer =>
        simp only [answer]
        exact before
    | forget uri => exact before.forget uri
    | purge => exact before.purge
    | pass span => exact before.later (le_add_of_nonneg_right (forward span List.mem_cons_self))

/-- The latest result of a document is the one that was last returned for it. -/
theorem latest?_after (document : String) :
    (after transpile ttl start past).cache.latest? document =
      returned? transpile ttl start document past := by
  induction past with
  | nil => rfl
  | cons action past ih =>
    cases action with
    | get text uri =>
      simp only [after, returned?, Moment.step, Moment.get]
      cases (after transpile ttl start past).answered transpile text uri with
      | found entry valid answer =>
        simp only [answer, latest?_purge, latest?_setLatest, ih]
      | computed value invalid made answer =>
        simp only [answer, latest?_purge, latest?_setLatest, ← ih]
        rfl
      | failed fault invalid made answer =>
        simp only [answer, ih]
    | forget uri =>
      simp only [after, returned?, Moment.step, ← ih, latest?, forget, Table.get?_erase, eq_comm]
    | purge => exact ih
    | pass span => exact ih

/-- A result that is at hand is that of its text, since no other text has its digest. -/
theorem value_get [IsOrderedAddMonoid τ] {text : Text} {uri : Option String}
    (forward : ∀ span, .pass span ∈ past → 0 ≤ span)
    (distinct : Set.InjOn digest (texts (.get text uri :: past))) :
    ((after transpile ttl start past).get transpile text uri).outcome.map (·.value) =
      transpile text := by
  have before := accounts_after transpile ttl start forward
  rw [Moment.get]
  cases (after transpile ttl start past).answered transpile text uri with
  | found entry valid answer =>
    obtain ⟨c, latest, same, rfl⟩ := before.entered _ _ (valid?_eq_some_iff.1 valid).1
    have member := List.mem_of_find?_eq_some latest
    obtain ⟨other, asked⟩ := text_mem_texts transpile ttl start member
    have own : c.text = text :=
      distinct ⟨other, List.mem_cons_of_mem _ asked⟩ ⟨uri, List.mem_cons_self⟩ same
    rw [answer, ← own, before.right c member]
    rfl
  | computed value invalid made answer =>
    rw [answer]
    exact made.symm
  | failed fault invalid made answer =>
    rw [answer]
    exact made.symm

/-- As long as a computation has not expired, a request for its text returns its result. -/
theorem get_of_unexpired [IsOrderedAddMonoid τ] {uri : Option String} {c : Computation τ α}
    (forward : ∀ span, .pass span ∈ past → 0 ≤ span)
    (member : c ∈ computations transpile ttl start past)
    (unexpired : (after transpile ttl start past).now < c.time + ttl) :
    let answer := (after transpile ttl start past).get transpile c.text uri
    answer.journal = [] ∧ answer.outcome = .ok c.result := by
  intro answer
  obtain ⟨-, found⟩ := (accounts_after transpile ttl start forward).kept c member unexpired
  have valid := valid?_eq_some_iff.2 ⟨found, unexpired⟩
  cases (after transpile ttl start past).answered transpile c.text uri with
  | found entry own returned =>
    obtain rfl := Option.some.inj (valid.symm.trans own)
    rw [show answer = _ from returned]
    exact ⟨rfl, rfl⟩
  | computed value invalid =>
    rw [valid] at invalid
    cases invalid
  | failed fault invalid =>
    rw [valid] at invalid
    cases invalid

/-- After a successful request no entry of the cache has expired. -/
theorem lt_expiresAt_of_get [IsOrderedAddMonoid τ] {text : Text} {uri : Option String}
    {result : Computed α}
    (forward : ∀ span, .pass span ∈ past → 0 ≤ span)
    (success : ((after transpile ttl start past).get transpile text uri).outcome = .ok result) :
    let next := after transpile ttl start (.get text uri :: past)
    ∀ key entry, next.cache.entries.get? key = some entry → next.now < entry.expiresAt := by
  intro next key entry found
  have before := accounts_after transpile ttl start forward
  rw [Moment.get] at success
  simp only [next, after, Moment.step, Moment.get] at found ⊢
  cases (after transpile ttl start past).answered transpile text uri with
  | found old valid answer =>
    simp only [answer] at found ⊢
    rw [get?_entries_purge (before.setLatest uri old.result).once,
      Option.filter_eq_some_iff] at found
    exact of_decide_eq_true found.2
  | computed value invalid made answer =>
    simp only [answer, before.lives] at found ⊢
    rw [get?_entries_purge ((before.store invalid made).setLatest uri _).once,
      Option.filter_eq_some_iff] at found
    exact of_decide_eq_true found.2
  | failed fault invalid made answer =>
    rw [answer] at success
    cases success

/-- After a successful request the cache holds the texts whose latest computation is unexpired. -/
theorem mem_keys_of_get [IsOrderedAddMonoid τ] {text : Text} {uri : Option String}
    {result : Computed α}
    (forward : ∀ span, .pass span ∈ past → 0 ≤ span)
    (success : ((after transpile ttl start past).get transpile text uri).outcome = .ok result)
    (key : String) :
    let next := after transpile ttl start (.get text uri :: past)
    key ∈ next.cache.entries.keys ↔
      ∃ c, latestFor? (computations transpile ttl start (.get text uri :: past)) c.text = some c ∧
        digest c.text = key ∧ next.now < c.time + ttl := by
  intro next
  have accounts : Accounts transpile ttl _ next :=
    accounts_after transpile ttl start fun span member => forward span (by simpa using member)
  rw [Table.mem_keys_iff, Option.isSome_iff_exists]
  constructor
  · rintro ⟨entry, found⟩
    have fresh := lt_expiresAt_of_get transpile ttl start forward success key entry found
    obtain ⟨c, latest, same, rfl⟩ := accounts.entered key entry found
    exact ⟨c, latest, same, fresh⟩
  · rintro ⟨c, latest, rfl, unexpired⟩
    exact ⟨_, (accounts.kept c (List.mem_of_find?_eq_some latest) unexpired).2⟩

end Run

/-- **A cache is transparent, and computes a text at most once within the time to live.** In every
history in which time does not run backwards and no two texts have the same digest:

* a request is answered with what its text comes to, and one that fails leaves the cache as it was;
* different computations give different objects, and as long as a computation has not expired, a
  request for its text computes nothing and returns the same object;
* after a successful request the cache holds those texts whose latest computation has not expired;
* the latest result of a document is the one last returned for it and not forgotten since. -/
theorem history_transparent [IsOrderedAddMonoid τ] {history : List (Action τ)}
    (forward : ∀ span, .pass span ∈ history → 0 ≤ span)
    (distinct : Set.InjOn digest (texts history)) :
    (∀ later text uri past, history = later ++ .get text uri :: past →
      let m := after transpile ttl start past
      let next := after transpile ttl start (.get text uri :: past)
      let answer := m.get transpile text uri
      let made := computations transpile ttl start (.get text uri :: past)
      answer.outcome.map (·.value) = transpile text ∧
      (∀ fault, answer.outcome = .error fault → next.cache = m.cache) ∧
      made.Pairwise (fun c c' => c.result.serial ≠ c'.result.serial) ∧
      (∀ c ∈ computations transpile ttl start past, c.text = text → m.now < c.time + ttl →
        answer.journal = [] ∧ answer.outcome = .ok c.result) ∧
      (∀ result, answer.outcome = .ok result → next.cache.entries.keys.Nodup ∧
        ∀ key, key ∈ next.cache.entries.keys ↔
          ∃ c, latestFor? made c.text = some c ∧ digest c.text = key ∧
            next.now < c.time + ttl)) ∧
    ∀ document, (after transpile ttl start history).cache.latest? document =
      returned? transpile ttl start document history := by
  refine ⟨?_, latest?_after transpile ttl start⟩
  rintro later text uri past rfl m next answer made
  have earlier : ∀ span, .pass span ∈ past → 0 ≤ span := fun span member =>
    forward span (List.mem_append_right _ (List.mem_cons_of_mem _ member))
  have accounts : Accounts transpile ttl made next :=
    accounts_after transpile ttl start fun span member => forward span
      (List.mem_append_right _ member)
  refine ⟨value_get transpile ttl start earlier (distinct.mono ?_), ?_, ?_, ?_, ?_⟩
  · rintro text ⟨uri, asked⟩
    exact ⟨uri, List.mem_append_right _ asked⟩
  · intro fault failed
    exact cache_get_of_error failed
  · have serials := (List.pairwise_cons.1 accounts.numbered).2
    exact (List.pairwise_map.1 serials).imp fun less => Nat.ne_of_gt less
  · rintro c member rfl unexpired
    exact get_of_unexpired transpile ttl start earlier member unexpired
  · intro result success
    exact ⟨accounts.once, mem_keys_of_get transpile ttl start earlier success⟩

/-- Results are valid for ten seconds, and one text cannot be transpiled. When nine seconds have
passed, a second request for a text is answered with the first object, which becomes the latest of
another document; the other text that was computed is still held, and the one that failed is not. -/
theorem history_transparent_ten_seconds :
    let transpile : Text → Except Fault Nat := fun text =>
      if text = "!".toList then .error (.runtimeFailed "crashed") else .ok text.length
    let past : List (Action Int) := [.pass 9, .get "!".toList (some "file:///v"),
      .get "bb".toList (some "file:///v"), .get "a".toList (some "file:///u")]
    let history := .get "a".toList (some "file:///v") :: past
    let answer := (after transpile 10 0 past).get transpile "a".toList (some "file:///v")
    (∀ span, .pass span ∈ history → 0 ≤ span) ∧ Set.InjOn digest (texts history) ∧
      answer.journal = [] ∧ answer.outcome = .ok ⟨1, 0⟩ ∧
      digest "bb".toList ∈ (after transpile 10 0 history).cache.entries.keys ∧
      digest "!".toList ∉ (after transpile 10 0 history).cache.entries.keys ∧
      (after transpile 10 0 history).cache.latest? "file:///v" = some ⟨1, 0⟩ := by
  intro transpile past history answer
  have forward : ∀ span, .pass span ∈ history → 0 ≤ span := by simp [history, past]
  have distinct : Set.InjOn digest (texts history) := by
    have few : ∀ text ∈ texts history, text ∈ ["a".toList, "bb".toList, "!".toList] := by
      rintro text ⟨uri, asked⟩
      simp only [history, past, List.mem_cons, Action.get.injEq, reduceCtorEq, List.not_mem_nil,
        or_false, false_or] at asked
      rcases asked with ⟨rfl, -⟩ | ⟨rfl, -⟩ | ⟨rfl, -⟩ | ⟨rfl, -⟩ <;> simp
    have apart : ∀ text ∈ ["a".toList, "bb".toList, "!".toList],
        ∀ other ∈ ["a".toList, "bb".toList, "!".toList],
          digest text = digest other → text = other := by decide +kernel
    exact fun text asked other asked' => apart text (few text asked) other (few other asked')
  obtain ⟨gets, latest⟩ := history_transparent transpile 10 0 forward distinct
  obtain ⟨-, -, -, unexpired, holds⟩ := gets [] _ _ past rfl
  have made : computations transpile 10 0 past =
      [⟨"bb".toList, 0, ⟨2, 1⟩⟩, ⟨"a".toList, 0, ⟨1, 0⟩⟩] := by decide +kernel
  obtain ⟨journal, same⟩ := unexpired ⟨"a".toList, 0, ⟨1, 0⟩⟩ (by rw [made]; simp) rfl
    (by decide +kernel)
  have success : answer.outcome.toOption.isSome := by decide +kernel
  refine ⟨forward, distinct, journal, same, ?_, by decide +kernel, ?_⟩
  · cases outcome : answer.outcome with
    | error fault =>
      rw [outcome] at success
      cases success
    | ok result =>
      refine ((holds result outcome).2 _).2 ⟨⟨"bb".toList, 0, ⟨2, 1⟩⟩, ?_, rfl, by decide +kernel⟩
      decide +kernel
  · rw [latest]
    decide +kernel

end Cache

end DialectBridge
