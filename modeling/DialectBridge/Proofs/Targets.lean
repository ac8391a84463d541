import DialectBridge.Mapping.ToOutput
import DialectBridge.Proofs.Offsets
import DialectBridge.Proofs.TouchedWords

/-!
# How a target is found

The way of a source position into the generated text is a chain of steps each of which may fault.
`Ends` says of a computation what holds of its result and what holds of its fault; all steps are
described by it, so that their descriptions compose like the steps themselves. Where the entries of
a line lead to natural columns of addressable lines, only two faults remain: a column behind the
last one that can be addressed, and a word that is looked for behind the end of the generated text.

As long as all entries of the position's line lead to places of one generated line, and there is a
character behind each of these places, neither of them occurs: every narrowing step leaves targets
on that line, and one of them is chosen.
-/

set_option autoImplicit false

namespace DialectBridge

/-- A computation that gives a result, of which the condition holds. -/
def Returns {α : Type} (x : Except Fault α) (post : α → Prop) : Prop := ∃ a, x = .ok a ∧ post a

namespace Returns

variable {α β : Type} {x : Except Fault α} {post post' : α → Prop}

theorem ok {a : α} (h : post a) : Returns (.ok a) post := ⟨a, rfl, h⟩

theorem mono (h : Returns x post) (weaker : ∀ a, post a → post' a) : Returns x post' := by
  obtain ⟨a, same, holds⟩ := h
  exact ⟨a, same, weaker a holds⟩

/-- One computation after another. -/
theorem bind {f : α → Except Fault β} {next : β → Prop} (h : Returns x post)
    (step : ∀ a, post a → Returns (f a) next) : Returns (x >>= f) next := by
  obtain ⟨a, rfl, holds⟩ := h
  exact step a holds

/-- A result that is only passed on through a function. -/
theorem map {f : α → β} {next : β → Prop} (h : Returns x post) (step : ∀ a, post a → next (f a)) :
    Returns (x.map f) next := by
  obtain ⟨a, rfl, holds⟩ := h
  exact ⟨f a, rfl, step a holds⟩

end Returns

/-- A computation that gives a result of which `post` holds, or a fault of which `fails` holds. -/
inductive Ends {α : Type} (x : Except Fault α) (post : α → Prop) (fails : Fault → Prop) : Prop
  | ok {a : α} (result : x = .ok a) (holds : post a)
  | error {f : Fault} (fault : x = .error f) (holds : fails f)

namespace Ends

variable {α β : Type} {x : Except Fault α} {post post' : α → Prop} {fails fails' : Fault → Prop}

/-- A result at hand. -/
theorem done {a : α} (h : post a) : Ends (.ok a) post fails := .ok rfl h

/-- A fault at hand. -/
theorem failed {f : Fault} (h : fails f) : Ends (.error f) post fails := .error rfl h

theorem of_ok {a : α} (h : Ends x post fails) (result : x = .ok a) : post a := by
  cases h with
  | ok same holds =>
    obtain rfl := Except.ok.inj (result.symm.trans same)
    exact holds
  | error same _ => cases result.symm.trans same

theorem of_error {f : Fault} (h : Ends x post fails) (fault : x = .error f) : fails f := by
  cases h with
  | ok same _ => cases fault.symm.trans same
  | error same holds =>
    obtain rfl := Except.error.inj (fault.symm.trans same)
    exact holds

theorem mono (h : Ends x post fails) (result : ∀ a, post a → post' a)
    (fault : ∀ f, fails f → fails' f) : Ends x post' fails' := by
  cases h with
  | ok same holds => exact .ok same (result _ holds)
  | error same holds => exact .error same (fault _ holds)

/-- One computation after another. -/
theorem bind {f : α → Except Fault β} {next : β → Prop} (h : Ends x post fails)
    (step : ∀ a, post a → Ends (f a) next fails) : Ends (x >>= f) next fails := by
  cases h with
  | ok same holds =>
    subst same
    exact step _ holds
  | error same holds =>
    subst same
    exact .error rfl holds

/-- Every computation ends in its result or in its fault. -/
theorem itself (x : Except Fault α) : Ends x (fun a => x = .ok a) fun f => x = .error f := by
  cases x with
  | ok a => exact .done rfl
  | error f => exact .failed rfl

/-- Every computation ends in something. -/
theorem always (x : Except Fault α) : Ends x (fun _ => True) fun _ => True :=
  (itself x).mono (fun _ _ => trivial) fun _ _ => trivial

/-- A computation that can end in no fault returns. -/
theorem returns (h : Ends x post fails) (never : ∀ f, ¬ fails f) : Returns x post := by
  cases h with
  | ok same holds => exact ⟨_, same, holds⟩
  | error _ holds => exact absurd holds (never _)

end Ends

/-- A computation that returns ends in no fault. -/
theorem Returns.ends {α : Type} {x : Except Fault α} {post : α → Prop} (h : Returns x post)
    (fails : Fault → Prop) : Ends x post fails := by
  obtain ⟨a, same, holds⟩ := h
  exact .ok same holds

/-- The fault of a place that is up to a bound and cannot be addressed. -/
def Unaddressable (bound : Nat) (f : Fault) : Prop :=
  ∃ v : Nat, 2147483647 < v ∧ v ≤ bound ∧ (f = .lineOutOfRange v ∨ f = .characterOutOfRange v)

theorem Unaddressable.mono {bound bound' : Nat} {f : Fault} (h : Unaddressable bound f)
    (le : bound ≤ bound') : Unaddressable bound' f := by
  obtain ⟨v, far, small, fault⟩ := h
  exact ⟨v, far, Nat.le_trans small le, fault⟩

/-- Up to the greatest coordinate of a position every place can be addressed. -/
theorem not_unaddressable {bound : Nat} (small : bound ≤ 2147483647) (f : Fault) :
    ¬ Unaddressable bound f := by
  rintro ⟨v, far, le, -⟩
  omega

/-- Natural coordinates make a position, or one of them cannot be addressed. -/
theorem Position.make_ends {line character bound : Nat} (hl : line ≤ bound)
    (hc : character ≤ bound) :
    Ends (Position.make line character) (fun p => p.line = line ∧ p.character = character)
      (Unaddressable bound) := by
  unfold Position.make
  split
  · split
    · exact .done ⟨rfl, rfl⟩
    · exact .failed ⟨character, by omega, hc, .inr rfl⟩
  · exact .failed ⟨line, by omega, hl, .inl rfl⟩

namespace ToOutput

/-! ## Lists of results -/

section Lists

variable {α β : Type}

/-- A filter keeps some of the elements, or ends in a fault of its test. -/
theorem filterE_ends {test : α → Except Fault Bool} {all : List α} {fails : Fault → Prop}
    (each : ∀ a ∈ all, Ends (test a) (fun _ => True) fails) :
    Ends (filterE test all) (fun kept => kept ⊆ all) fails := by
  induction all with
  | nil => exact .done (List.Subset.refl _)
  | cons a rest ih =>
    unfold filterE
    refine (each a List.mem_cons_self).bind fun passed _ => ?_
    refine (ih fun b inside => each b (List.mem_cons_of_mem _ inside)).bind fun kept some_ => ?_
    cases passed with
    | true => exact .done (List.cons_subset_cons a some_)
    | false => exact .done (List.subset_cons_of_subset a some_)

/-- Computations in a row give their results in a row, or end in the fault of one of them. -/
theorem mapM_ends {f : α → Except Fault β} {all : List α} {post : α → β → Prop}
    {fails : Fault → Prop} (each : ∀ a ∈ all, Ends (f a) (post a) fails) :
    Ends (all.mapM f) (fun results => List.Forall₂ post all results) fails := by
  induction all with
  | nil => exact .done .nil
  | cons a rest ih =>
    rw [List.mapM_cons]
    refine (each a List.mem_cons_self).bind fun b here => ?_
    refine (ih fun b inside => each b (List.mem_cons_of_mem _ inside)).bind fun results later => ?_
    exact .done (.cons here later)

/-- Where every single computation returns, so do all of them in a row. -/
theorem mapM_returns {f : α → Except Fault β} {all : List α} {post : α → β → Prop}
    (total : ∀ a ∈ all, Returns (f a) (post a)) :
    Returns (all.mapM f) fun results => List.Forall₂ post all results :=
  (mapM_ends fun a inside => (total a inside).ends fun _ => False).returns fun _ => id

/-- Of lists that are all part of one list, the last being that list itself, the first nonempty one
is part of it and nonempty. -/
theorem firstNonempty_subset {all : List α} (some_ : all ≠ []) {lists : List (List α)}
    (parts : ∀ list ∈ lists, list ⊆ all) :
    firstNonempty (lists ++ [all]) ⊆ all ∧ firstNonempty (lists ++ [all]) ≠ [] := by
  induction lists with
  | nil => exact ⟨List.Subset.refl _, some_⟩
  | cons list rest ih =>
    have later := ih fun other inside => parts other (List.mem_cons_of_mem _ inside)
    have step : firstNonempty (list :: rest ++ [all]) =
        if list.isEmpty then firstNonempty (rest ++ [all]) else list := by
      cases rest <;> rfl
    rw [step]
    split
    · exact later
    · next filled =>
      refine ⟨parts list List.mem_cons_self, ?_⟩
      rintro rfl
      exact filled rfl

end Lists

/-! ## Targets in reach -/

/-- A target on a generated line, in a column up to a bound. -/
def OnLine (k bound : Nat) (t : Target) : Prop := ∃ column : Nat, t = ⟨k, column⟩ ∧ column ≤ bound

/-- A target on an addressable line, in a column up to a bound. -/
def InReach (bound : Nat) (t : Target) : Prop := ∃ k ≤ 2147483647, OnLine k bound t

/-- A target on a generated line with a character behind it. -/
def HasRoom (generated : Document) (k bound : Nat) (t : Target) : Prop :=
  ∃ column : Nat, t = ⟨k, column⟩ ∧ column ≤ bound ∧
    generated.offsetOf k column < generated.text.length

/-- The target is the very end of the generated text, and the word there is not the cursor's. -/
structure Stranded (c : Cursor) (generated : Document) (t : Target) : Prop where
  at_end : generated.offsetOf t.line.toNat t.column.toNat = generated.text.length
  other_word : ∀ word, Text.wordAround generated.text generated.text.length = .ok word →
    word.text ≠ c.word.text

/-- The fault of a column that is up to a bound and cannot be addressed. -/
def TooFar (bound : Nat) (f : Fault) : Prop :=
  ∃ v : Nat, 2147483647 < v ∧ v ≤ bound ∧ f = .characterOutOfRange v

theorem HasRoom.onLine {generated : Document} {k bound : Nat} {t : Target}
    (h : HasRoom generated k bound t) : OnLine k bound t := by
  obtain ⟨column, same, small, -⟩ := h
  exact ⟨column, same, small⟩

theorem HasRoom.not_stranded {generated : Document} {k bound : Nat} {c : Cursor} {t : Target}
    (h : HasRoom generated k bound t) : ¬ Stranded c generated t := by
  obtain ⟨column, rfl, -, room⟩ := h
  intro stranded
  exact absurd stranded.at_end (Nat.ne_of_lt room)

theorem OnLine.mono {k bound bound' : Nat} {t : Target} (h : OnLine k bound t)
    (le : bound ≤ bound') : OnLine k bound' t := by
  obtain ⟨column, same, small⟩ := h
  exact ⟨column, same, Nat.le_trans small le⟩

theorem OnLine.line_eq {k bound : Nat} {t : Target} (h : OnLine k bound t) : t.line = k := by
  obtain ⟨column, rfl, -⟩ := h
  rfl

theorem InReach.mono {bound bound' : Nat} {t : Target} (h : InReach bound t)
    (le : bound ≤ bound') : InReach bound' t := by
  obtain ⟨k, hk, onLine⟩ := h
  exact ⟨k, hk, onLine.mono le⟩

/-- A target in reach on a known line is a target of that line. -/
theorem InReach.onLine {k bound : Nat} {t : Target} (h : InReach bound t) (line : t.line = k) :
    OnLine k bound t := by
  obtain ⟨k', -, onLine⟩ := h
  obtain rfl : k' = k := Int.ofNat.inj (onLine.line_eq.symm.trans line)
  exact onLine

theorem TooFar.mono {bound bound' : Nat} {f : Fault} (h : TooFar bound f) (le : bound ≤ bound') :
    TooFar bound' f := by
  obtain ⟨v, far, small, same⟩ := h
  exact ⟨v, far, Nat.le_trans small le, same⟩

theorem not_tooFar {bound : Nat} (hb : bound ≤ 2147483647) (f : Fault) : ¬ TooFar bound f := by
  rintro ⟨v, far, small, -⟩
  omega

theorem TooFar.unaddressable {bound : Nat} {f : Fault} (h : TooFar bound f) :
    Unaddressable bound f := by
  obtain ⟨v, far, small, same⟩ := h
  exact ⟨v, far, small, .inr same⟩

section Steps

variable {generated : Document} {c : Cursor} {k bound : Nat} {t : Target}

/-- A place that can be addressed has an offset. -/
theorem offset_of_natCast {column : Nat} (hk : k ≤ 2147483647) (hc : column ≤ 2147483647) :
    Target.offset generated ⟨k, column⟩ = .ok (generated.offsetOf k column) := by
  unfold Target.offset
  rw [Position.make_natCast hk hc]
  rfl

/-- A target in reach has an offset, unless its column is too far. -/
theorem offset_ends {column : Nat} (hk : k ≤ 2147483647) :
    Ends (Target.offset generated ⟨k, column⟩)
      (fun offset => offset = generated.offsetOf k column ∧ column ≤ 2147483647)
      (TooFar column) := by
  by_cases hc : column ≤ 2147483647
  · exact .ok (offset_of_natCast hk hc) ⟨rfl, hc⟩
  · have outside : Position.make k column = .error (.characterOutOfRange column) := by
      unfold Position.make
      rw [dif_pos (by omega), dif_neg (by omega)]
    unfold Target.offset
    rw [outside]
    exact .failed ⟨column, Nat.lt_of_not_le hc, Nat.le_refl _, rfl⟩

theorem word_ends (h : InReach bound t) :
    Ends (t.word generated) (fun _ => True) (TooFar bound) := by
  obtain ⟨k, hk, column, rfl, small⟩ := h
  unfold Target.word
  refine ((offset_ends hk).mono (fun _ => id) fun f far => far.mono small).bind ?_
  rintro _ ⟨rfl, -⟩
  exact .ok (Text.wordAround_of_le (generated.offsetOf_le k column)) trivial

theorem char_ends (h : InReach bound t) :
    Ends (t.char generated) (fun _ => True) (TooFar bound) := by
  obtain ⟨k, hk, column, rfl, small⟩ := h
  unfold Target.char
  exact ((offset_ends hk).mono (fun _ => id) fun f far => far.mono small).bind fun _ _ =>
    .done trivial

/-- Looking for the word at a target and one column further. -/
theorem onWord?_of_room {column : Nat} (hk : k ≤ 2147483647) (hc : column ≤ 2147483647)
    (room : generated.offsetOf k column < generated.text.length) :
    ∃ found next, Text.wordAround generated.text (generated.offsetOf k column) = .ok found ∧
      Text.wordAround generated.text (generated.offsetOf k column + 1) = .ok next ∧
      onWord? c generated ⟨k, column⟩ =
        .ok (if found.text == c.word.text then
            some (onWord?.settle c ⟨k, column⟩ (generated.offsetOf k column) found)
          else if next.text == c.word.text then
            some (onWord?.settle c ⟨k, column + 1⟩ (generated.offsetOf k column + 1) next)
          else none) := by
  have here := Text.wordAround_of_le (Nat.le_of_lt room)
  have further := Text.wordAround_of_le (Nat.succ_le_of_lt room)
  refine ⟨_, _, here, further, ?_⟩
  unfold onWord?
  rw [offset_of_natCast hk hc]
  simp only [Nat.succ_eq_add_one] at further
  simp only [bind, Except.bind, here, further]
  split
  · rfl
  · split <;> rfl

/-- At the end of the generated text only the word there counts. -/
theorem onWord?_of_end {column : Nat} (hk : k ≤ 2147483647) (hc : column ≤ 2147483647)
    (at_end : generated.offsetOf k column = generated.text.length) :
    ∃ found, Text.wordAround generated.text generated.text.length = .ok found ∧
      onWord? c generated ⟨k, column⟩ =
        if found.text == c.word.text then
          .ok (some (onWord?.settle c ⟨k, column⟩ generated.text.length found))
        else .error .wordPastEnd := by
  have here := Text.wordAround_of_le (Nat.le_refl generated.text.length)
  have behind := Text.wordAround_of_lt (Nat.lt_succ_self generated.text.length)
  refine ⟨_, here, ?_⟩
  unfold onWord?
  rw [offset_of_natCast hk hc, at_end]
  simp only [bind, Except.bind, here, behind]
  split <;> rfl

/-- A target is moved along its line by at most a column and a word. -/
theorem onLine_settle (column offset : Nat) (found : Word) :
    OnLine k (column + c.word.text.length)
      (onWord?.settle c ⟨k, column⟩ offset found) := by
  unfold onWord?.settle
  split
  · exact ⟨column + c.word.text.length, by simp, Nat.le_refl _⟩
  · exact ⟨column, rfl, Nat.le_add_right _ _⟩

/-- A target moved onto the word of the cursor stays on its line; from a stranded target the word
is looked for behind the end. -/
theorem onWord?_ends {column : Nat} (hk : k ≤ 2147483647) :
    Ends (onWord? c generated ⟨k, column⟩)
      (fun moved => ∀ t ∈ moved, OnLine k (column + 1 + c.word.text.length) t)
      (fun f => TooFar column f ∨ f = .wordPastEnd ∧ Stranded c generated ⟨k, column⟩) := by
  by_cases hc : column ≤ 2147483647
  · by_cases room : generated.offsetOf k column < generated.text.length
    · obtain ⟨found, next, -, -, same⟩ := onWord?_of_room (c := c) hk hc room
      refine .ok same fun t member => ?_
      split at member
      · obtain rfl := Option.some.inj member
        exact (onLine_settle column _ _).mono (by omega)
      · split at member
        · obtain rfl := Option.some.inj member
          exact (onLine_settle (column + 1) _ _).mono (by omega)
        · cases member
    · have at_end : generated.offsetOf k column = generated.text.length :=
        Nat.le_antisymm (generated.offsetOf_le k column) (Nat.le_of_not_lt room)
      obtain ⟨found, here, same⟩ := onWord?_of_end (c := c) hk hc at_end
      rw [same]
      split
      · refine .done fun t member => ?_
        obtain rfl := Option.some.inj member
        exact (onLine_settle column _ _).mono (by omega)
      · next other =>
        refine .failed (.inr ⟨rfl, at_end, fun word known equal => other ?_⟩)
        obtain rfl := Except.ok.inj (here.symm.trans known)
        exact beq_iff_eq.2 equal
  · unfold onWord?
    refine ((offset_ends hk).mono (fun _ => id) fun f far => Or.inl far).bind ?_
    rintro _ ⟨-, small⟩
    exact absurd small hc

/-- Narrowing by word moves targets along their lines. -/
theorem byWord_ends {targets : List Target} (h : ∀ t ∈ targets, InReach bound t) :
    Ends (byWord targets c generated)
      (fun left => ∀ t ∈ left, (∃ t₀ ∈ targets, t.line = t₀.line) ∧
        InReach (bound + 1 + c.word.text.length) t)
      (fun f => TooFar bound f ∨ f = .wordPastEnd ∧ c.word.text ≠ [] ∧
        ∃ t ∈ targets, Stranded c generated t) := by
  unfold byWord
  split
  · exact .done fun t member => absurd member List.not_mem_nil
  · next named =>
    have each : ∀ t ∈ targets, Ends (onWord? c generated t)
        (fun moved => ∀ t' ∈ moved, t'.line = t.line ∧
          InReach (bound + 1 + c.word.text.length) t')
        (fun f => TooFar bound f ∨ f = .wordPastEnd ∧ c.word.text ≠ [] ∧
          ∃ t ∈ targets, Stranded c generated t) := by
      intro t inside
      obtain ⟨k, hk, column, rfl, small⟩ := h t inside
      refine (onWord?_ends hk).mono (fun moved onLine t' member => ?_) fun f fault => ?_
      · have here := onLine t' member
        exact ⟨here.line_eq, k, hk, here.mono (by omega)⟩
      · refine fault.imp (·.mono small) fun ⟨same, stranded⟩ => ?_
        exact ⟨same, by simpa using named, _, inside, stranded⟩
    refine (mapM_ends each).bind fun results related => .done fun t member => ?_
    obtain ⟨result, inside, same⟩ := List.mem_filterMap.1 member
    obtain ⟨i, found⟩ := List.mem_iff_getElem?.1 inside
    obtain ⟨t₀, known, moved⟩ := exists_getElem?_left related found
    obtain ⟨line, reach⟩ := moved t same
    exact ⟨⟨t₀, List.mem_of_getElem? known, line⟩, reach⟩

/-- The steps behind the first one only leave targets out. -/
theorem select_ends {step : Narrower} (later : step ∈ [byLineWithWord, byChar, byIdentifier])
    {targets : List Target} {fails : Fault → Prop}
    (each : ∀ t ∈ targets, Ends (t.char generated) (fun _ => True) fails) :
    Ends (step targets c generated) (fun left => left ⊆ targets) fails := by
  simp only [List.mem_cons, List.not_mem_nil, or_false] at later
  rcases later with rfl | rfl | rfl
  · unfold byLineWithWord
    split
    · exact .done (List.nil_subset _)
    · exact .done (List.filter_subset_self _)
  · unfold byChar
    split
    · exact .done (List.nil_subset _)
    · refine filterE_ends fun t inside => ?_
      exact (each t inside).bind fun _ _ => .done trivial
  · unfold byIdentifier
    split
    · exact .done (List.nil_subset _)
    · refine filterE_ends fun t inside => ?_
      exact (each t inside).bind fun _ _ => .done trivial

/-- A run of steps that leave targets out leaves some of the targets, or ends in the fault of one of
them. -/
theorem narrow_ends_of {steps : List Narrower}
    (later : ∀ step ∈ steps, step ∈ [byLineWithWord, byChar, byIdentifier])
    {targets : List Target} (some_ : targets ≠ []) {fails : Fault → Prop}
    (each : ∀ t ∈ targets, Ends (t.char generated) (fun _ => True) fails) :
    Ends (narrow c generated steps targets) (fun left => left ⊆ targets ∧ left ≠ []) fails := by
  induction steps generalizing targets with
  | nil => exact .done ⟨List.Subset.refl _, some_⟩
  | cons step rest ih =>
    have others : ∀ step ∈ rest, step ∈ [byLineWithWord, byChar, byIdentifier] :=
      fun step inside => later step (List.mem_cons_of_mem _ inside)
    unfold narrow
    refine (select_ends (later step List.mem_cons_self) each).bind fun left part => ?_
    split
    · exact ih others some_ each
    · next filled =>
      refine (ih others (fun empty => filled (by rw [empty]; rfl)) fun t inside =>
        each t (part inside)).mono (fun final result => ?_) fun _ => id
      exact ⟨List.Subset.trans result.1 part, result.2⟩

/-- A run of steps that leave targets out leaves some of the targets. -/
theorem narrow_ends {steps : List Narrower}
    (later : ∀ step ∈ steps, step ∈ [byLineWithWord, byChar, byIdentifier])
    {targets : List Target} (some_ : targets ≠ []) (h : ∀ t ∈ targets, InReach bound t) :
    Ends (narrow c generated steps targets) (fun left => left ⊆ targets ∧ left ≠ [])
      (TooFar bound) :=
  narrow_ends_of later some_ fun t inside => char_ends (h t inside)

/-- Of some targets one is the last in reading order. -/
theorem bottomRight?_mem {targets : List Target} (some_ : targets ≠ []) :
    ∃ t ∈ targets, bottomRight? targets = some t := by
  cases targets with
  | nil => exact absurd rfl some_
  | cons first rest =>
    refine ⟨_, ?_, rfl⟩
    induction rest generalizing first with
    | nil => exact List.mem_cons_self
    | cons next more ih =>
      rw [List.foldl_cons]
      split
      · exact List.mem_cons_of_mem _ (ih next (List.cons_ne_nil _ _))
      · rcases List.mem_cons.1 (ih first (List.cons_ne_nil _ _)) with same | inside
        · rw [same]
          exact List.mem_cons_self
        · exact List.mem_cons_of_mem _ (List.mem_cons_of_mem _ inside)

/-- What a search for the last of some targets ends in is before none of them. -/
theorem before_foldl_eq_false (rest : List Target) (first : Target) :
    ∀ x ∈ first :: rest,
      (rest.foldl (fun best t => if best.before t then t else best) first).before x = false := by
  induction rest generalizing first with
  | nil =>
    intro x inside
    rw [List.mem_singleton.1 inside]
    simp [Target.before]
  | cons next more ih =>
    intro x inside
    rw [List.foldl_cons]
    have later := ih (if first.before next then next else first)
    have carried := later _ List.mem_cons_self
    generalize more.foldl _ _ = final at carried later ⊢
    -- The one of the two that is not carried on is not behind the other.
    rcases List.mem_cons.1 inside with rfl | others
    · split at carried
      · next less =>
        simp only [Target.before, Bool.or_eq_false_iff, Bool.or_eq_true, Bool.and_eq_false_iff,
          Bool.and_eq_true, decide_eq_false_iff_not, decide_eq_true_eq, beq_iff_eq,
          beq_eq_false_iff_ne] at carried less ⊢
        omega
      · exact carried
    · rcases List.mem_cons.1 others with rfl | far
      · split at carried
        · exact carried
        · next least =>
          simp only [Target.before, Bool.or_eq_false_iff, Bool.not_eq_true,
            Bool.and_eq_false_iff, decide_eq_false_iff_not, beq_eq_false_iff_ne] at carried least ⊢
          omega
      · exact later x (List.mem_cons_of_mem _ far)

/-- The last of some targets is one of them and is before none. Reading order tells all targets
apart, so there is only one such target. -/
theorem bottomRight?_eq_some_iff {targets : List Target} :
    bottomRight? targets = some t ↔ t ∈ targets ∧ ∀ x ∈ targets, t.before x = false := by
  have last : ∀ {found}, bottomRight? targets = some found →
      found ∈ targets ∧ ∀ x ∈ targets, found.before x = false := by
    intro found h
    cases targets with
    | nil => cases h
    | cons first rest =>
      obtain ⟨own, member, same⟩ := bottomRight?_mem (List.cons_ne_nil first rest)
      obtain rfl := Option.some.inj (h.symm.trans same)
      exact ⟨member, Option.some.inj h ▸ before_foldl_eq_false rest first⟩
  refine ⟨last, fun ⟨member, least⟩ => ?_⟩
  obtain ⟨found, inside, same⟩ := bottomRight?_mem (List.ne_nil_of_mem member)
  have less := least found inside
  have more := (last same).2 t member
  simp only [Target.before, Bool.or_eq_false_iff, Bool.and_eq_false_iff, decide_eq_false_iff_not,
    beq_eq_false_iff_ne] at less more
  have line : found.line = t.line := by omega
  have column : found.column = t.column := by omega
  rw [same]
  exact congrArg some (congrArg₂ Target.mk line column)

/-- **Among targets in reach, one on the line of one of them is chosen**, unless a column on the way
is too far or one of the targets is stranded. -/
theorem choose?_ends {targets : List Target} (some_ : targets ≠ [])
    (h : ∀ t ∈ targets, InReach bound t) :
    Ends (choose? c generated targets)
      (fun chosen => ∃ t, chosen = some t ∧ (∃ t₀ ∈ targets, t.line = t₀.line) ∧
        InReach (bound + 1 + c.word.text.length) t)
      (fun f => TooFar (bound + 1 + c.word.text.length) f ∨ f = .wordPastEnd ∧
        c.word.text ≠ [] ∧ ∃ t ∈ targets, Stranded c generated t) := by
  unfold choose?
  rw [if_neg (by simpa using some_), narrowers, narrow]
  have narrowed : Ends (byWord targets c generated >>= fun left =>
        narrow c generated [byLineWithWord, byChar, byIdentifier]
          (if left.isEmpty then targets else left))
      (fun left => left ≠ [] ∧ ∀ t ∈ left, (∃ t₀ ∈ targets, t.line = t₀.line) ∧
        InReach (bound + 1 + c.word.text.length) t)
      (fun f => TooFar (bound + 1 + c.word.text.length) f ∨ f = .wordPastEnd ∧
        c.word.text ≠ [] ∧ ∃ t ∈ targets, Stranded c generated t) := by
    refine Ends.bind ((byWord_ends h).mono (fun _ => id) fun f fault =>
      fault.imp_left (·.mono (by omega))) fun left moved => ?_
    have both : (if left.isEmpty then targets else left) ≠ [] ∧
        ∀ t ∈ (if left.isEmpty then targets else left), (∃ t₀ ∈ targets, t.line = t₀.line) ∧
          InReach (bound + 1 + c.word.text.length) t := by
      split
      · exact ⟨some_, fun t inside => ⟨⟨t, inside, rfl⟩, (h t inside).mono (by omega)⟩⟩
      · next filled => exact ⟨by simpa using filled, moved⟩
    refine (narrow_ends (fun step => id) both.1 fun t inside => (both.2 t inside).2).mono
      (fun final result => ?_) fun f far => .inl far
    exact ⟨result.2, fun t inside => both.2 t (result.1 inside)⟩
  refine narrowed.bind ?_
  rintro left ⟨filled, reach⟩
  obtain ⟨t, inside, same⟩ := bottomRight?_mem filled
  exact .done ⟨t, same, reach t inside⟩

/-! ## Targets on a word -/

/-- A target of a generated line at which a word stands. -/
def OnWord (generated : Document) (k bound : Nat) (word : Text) (t : Target) : Prop :=
  ∃ column : Nat, t = ⟨k, column⟩ ∧ column ≤ bound ∧ column ≤ (generated.lineText k).length ∧
    ∃ found, Text.wordAround generated.text (generated.offsetOf k column) = .ok found ∧
      found.text = word

theorem OnWord.onLine {word : Text} (h : OnWord generated k bound word t) : OnLine k bound t := by
  obtain ⟨column, same, small, -⟩ := h
  exact ⟨column, same, small⟩

/-- A target moved onto the word at the beginning of which the cursor stands is on that word, and a
target that is there already is moved. -/
theorem onWord?_returns_onWord {column : Nat} (some_ : (generated.lines[k]?).isSome)
    (h : column + 1 ≤ (generated.lineText k).length)
    (room : generated.offsetOf k column < generated.text.length) (start : c.atEndOfWord = false)
    (hk : k ≤ 2147483647) (hc : column ≤ bound) (hb : bound ≤ 2147483647) :
    Returns (onWord? c generated ⟨k, column⟩) fun moved =>
      (∀ t ∈ moved, OnWord generated k (bound + 1) c.word.text t) ∧
        (OnWord generated k bound c.word.text ⟨k, column⟩ → moved.isSome) := by
  obtain ⟨line, found⟩ := Option.isSome_iff_exists.1 some_
  have further : generated.offsetOf k (column + 1) = generated.offsetOf k column + 1 := by
    rw [Document.offsetOf_of_getElem? found, Document.offsetOf_of_getElem? found]
    omega
  obtain ⟨here, next, atColumn, behind, same⟩ :=
    onWord?_of_room (c := c) hk (Nat.le_trans hc hb) room
  have stays : ∀ t offset word, onWord?.settle c t offset word = t := by
    intro t offset word
    unfold onWord?.settle
    rw [start, Bool.false_and]
    rfl
  refine ⟨_, same, fun t member => ?_, fun onWord => ?_⟩
  · split at member
    · next own =>
      obtain rfl := Option.some.inj member
      rw [stays]
      exact ⟨column, rfl, by omega, by omega, here, atColumn, beq_iff_eq.1 own⟩
    · split at member
      · next own =>
        obtain rfl := Option.some.inj member
        rw [stays]
        refine ⟨column + 1, rfl, by omega, h, next, ?_, beq_iff_eq.1 own⟩
        rw [further]
        exact behind
      · cases member
  · obtain ⟨column', place, -, -, word, atPlace, own⟩ := onWord
    obtain rfl : column = column' := Int.ofNat.inj (Target.mk.inj place).2
    obtain rfl := Except.ok.inj (atColumn.symm.trans atPlace)
    rw [if_pos (beq_iff_eq.2 own)]
    rfl

/-- **Where one of the targets is on the word of the cursor, the chosen target is.** -/
theorem choose?_returns_onWord {targets : List Target} (some_ : (generated.lines[k]?).isSome)
    (h : ∀ t ∈ targets, HasRoom generated k bound t)
    (short : ∀ t ∈ targets, t.column + 1 ≤ (generated.lineText k).length)
    (start : c.atEndOfWord = false) (named : c.word.text ≠ []) (hk : k ≤ 2147483647)
    (hb : bound + 1 ≤ 2147483647) {t : Target} (member : t ∈ targets)
    (onWord : OnWord generated k bound c.word.text t) :
    Returns (choose? c generated targets) fun chosen =>
      ∃ t, chosen = some t ∧ OnWord generated k (bound + 1) c.word.text t := by
  have steps : ∀ t ∈ targets, Returns (onWord? c generated t) fun moved =>
      (∀ t' ∈ moved, OnWord generated k (bound + 1) c.word.text t') ∧
        (OnWord generated k bound c.word.text t → moved.isSome) := by
    intro t inside
    obtain ⟨column, rfl, small, room⟩ := h t inside
    have enough := short _ inside
    dsimp only at enough
    exact onWord?_returns_onWord some_ (by omega) room start hk small (by omega)
  have words : Returns (byWord targets c generated) fun left =>
      left ≠ [] ∧ ∀ t ∈ left, OnWord generated k (bound + 1) c.word.text t := by
    unfold byWord
    rw [if_neg (by simpa using named)]
    refine (mapM_returns steps).bind fun results related => .ok ⟨?_, fun t' inside => ?_⟩
    · obtain ⟨i, found⟩ := List.mem_iff_getElem?.1 member
      obtain ⟨result, at_, -, moved⟩ := exists_getElem?_right related found
      obtain ⟨t', same⟩ := Option.isSome_iff_exists.1 (moved onWord)
      exact List.ne_nil_of_mem (List.mem_filterMap.2 ⟨result, List.mem_of_getElem? at_, same⟩)
    · obtain ⟨result, known, same⟩ := List.mem_filterMap.1 inside
      obtain ⟨i, found⟩ := List.mem_iff_getElem?.1 known
      obtain ⟨_, -, moved, -⟩ := exists_getElem?_left related found
      exact moved t' same
  unfold choose?
  rw [if_neg (by simpa using List.ne_nil_of_mem member), narrowers]
  have narrowed : Returns
      (narrow c generated [byWord, byLineWithWord, byChar, byIdentifier] targets) fun left =>
      left ≠ [] ∧ ∀ t ∈ left, OnWord generated k (bound + 1) c.word.text t := by
    rw [narrow]
    refine words.bind fun left ⟨filled, moved⟩ => ?_
    rw [if_neg (by simpa using filled)]
    refine ((narrow_ends (fun step => id) filled fun t inside =>
      ⟨k, hk, (moved t inside).onLine⟩).returns (not_tooFar hb)).mono fun final result => ?_
    exact ⟨result.2, fun t inside => moved t (result.1 inside)⟩
  refine narrowed.bind fun left ⟨filled, moved⟩ => ?_
  obtain ⟨t, inside, same⟩ := bottomRight?_mem filled
  exact .ok ⟨t, same, moved t inside⟩

end Steps

/-! ## The entries of a line -/

/-- The entries of a source line and those of a generated line are the same, there are some, and
each leads to a place with a character behind it. -/
structure LineEntries (map : ColumnMap) (generated : Document) (l k bound : Nat) : Prop where
  same_line : ∀ m ∈ map.mappings, m.sourceLine = l ↔ m.outputLine = k
  some_entry : ∃ m ∈ map.mappings, m.outputLine = k
  room : ∀ m ∈ map.mappings, m.outputLine = k → HasRoom generated k bound (.ofMapping m)
  source_column : ∀ m ∈ map.mappings, m.outputLine = k →
    ∃ column : Nat, m.sourceColumn = column ∧ column ≤ 2147483647

section Entries

variable {map : ColumnMap} {generated : Document} {l k bound : Nat} {c : Cursor}

theorem LineEntries.of_mem_forSourceLine (entries : LineEntries map generated l k bound)
    {m : Mapping} (member : m ∈ map.forSourceLine l) :
    m ∈ map.mappings ∧ m.outputLine = k := by
  obtain ⟨inside, same⟩ := List.mem_filter.1 member
  exact ⟨inside, (entries.same_line m inside).1 (beq_iff_eq.1 same)⟩

theorem LineEntries.forSourceLine_ne_nil (entries : LineEntries map generated l k bound) :
    map.forSourceLine l ≠ [] := by
  obtain ⟨m, inside, line⟩ := entries.some_entry
  have same := (entries.same_line m inside).2 line
  exact List.ne_nil_of_mem (List.mem_filter.2 ⟨inside, beq_iff_eq.2 same⟩)

/-- Every substitute is made of entries of the line. -/
theorem substitutes_eq (c : Cursor) (line : List Mapping) :
    ∃ lists, substitutes c line = lists ++ [line] ∧ ∀ list ∈ lists, list ⊆ line := by
  unfold substitutes
  refine ⟨[_, _, _, _], rfl, ?_⟩
  intro list member
  simp only [List.mem_cons, List.not_mem_nil, or_false] at member
  rcases member with rfl | rfl | rfl | rfl
  · split
    · exact List.filter_subset_self _
    · exact List.nil_subset _
  · split
    · exact List.filter_subset_self _
    · exact List.nil_subset _
  · split
    · split
      · exact List.filter_subset_self _
      · exact List.nil_subset _
    · exact List.nil_subset _
  · split
    · exact List.filter_subset_self _
    · exact List.nil_subset _

/-- Entries of the cursor's line fit the cursor, if there are any, or the word at one of them cannot
be found. -/
theorem fitting_ends_of (generated : Document) {fails : Fault → Prop}
    (each : ∀ m ∈ map.forSourceLine c.position.line,
      Ends ((Target.ofMapping m).word generated) (fun _ => True) fails) :
    Ends (fitting map c generated)
      (fun fit => fit ⊆ map.forSourceLine c.position.line ∧
        (map.forSourceLine c.position.line ≠ [] → fit ≠ []))
      fails := by
  unfold fitting
  dsimp only
  split
  · next empty =>
    exact .done ⟨List.nil_subset _, fun some_ => absurd (by simpa using empty) some_⟩
  · next filled =>
    have some_ : map.forSourceLine c.position.line ≠ [] := by simpa using filled
    split
    · next precise => exact .done ⟨List.filter_subset_self _, fun _ => by simpa using precise⟩
    · have rest : ∀ list, list ⊆ map.forSourceLine c.position.line →
          firstNonempty (list :: substitutes c (map.forSourceLine c.position.line)) ⊆
            map.forSourceLine c.position.line ∧
          firstNonempty (list :: substitutes c (map.forSourceLine c.position.line)) ≠ [] := by
        intro list part
        obtain ⟨lists, shape, parts⟩ := substitutes_eq c (map.forSourceLine c.position.line)
        rw [shape, ← List.cons_append]
        refine firstNonempty_subset some_ fun other member => ?_
        rcases List.mem_cons.1 member with rfl | inside
        · exact part
        · exact parts other inside
      split
      · have same : Ends (sameWord generated c (map.forSourceLine c.position.line))
            (fun list => list ⊆ map.forSourceLine c.position.line) fails := by
          refine filterE_ends fun m inside => ?_
          split
          · exact (each m inside).bind fun _ _ => .done trivial
          · exact .done trivial
        exact same.bind fun list part => .done ⟨(rest list part).1, fun _ => (rest list part).2⟩
      · have nothing := rest [] (List.nil_subset _)
        exact .done ⟨nothing.1, fun _ => nothing.2⟩

/-- Entries of the cursor's line fit the cursor, if there are any. -/
theorem fitting_ends (generated : Document)
    (h : ∀ m ∈ map.forSourceLine c.position.line, InReach bound (.ofMapping m)) :
    Ends (fitting map c generated)
      (fun fit => fit ⊆ map.forSourceLine c.position.line ∧
        (map.forSourceLine c.position.line ≠ [] → fit ≠ []))
      (TooFar bound) :=
  fitting_ends_of generated fun m inside => word_ends (h m inside)

/-- The entries of the very column of the cursor fit, if there are any. -/
theorem fitting_of_precise {m : Mapping} (member : m ∈ map.forSourceLine c.position.line)
    (column : m.sourceColumn = c.position.character) :
    Returns (fitting map c generated) fun fit =>
      fit ⊆ map.forSourceLine c.position.line ∧ m ∈ fit := by
  have precise : m ∈ (map.forSourceLine c.position.line).filter fun m =>
      m.sourceColumn == (c.position.character : Int) :=
    List.mem_filter.2 ⟨member, beq_iff_eq.2 column⟩
  unfold fitting
  dsimp only
  rw [if_neg (by simpa using List.ne_nil_of_mem member),
    if_pos (by simpa using List.ne_nil_of_mem precise)]
  exact .ok ⟨List.filter_subset_self _, precise⟩

/-- A line without a fence has no comment on it. -/
theorem commentPosition?_of_unfenced (clean : ¬ ['#', '#', '#'] <:+: c.line) :
    commentPosition? c generated = .ok none := by
  have nothing : inlineComment? c.line = none := by
    unfold inlineComment?
    cases found : Text.lastPlace? isContentEnd c.line with
    | none => rfl
    | some place =>
      obtain ⟨whole, ending⟩ := Text.lastPlace?_sound found
      rw [isContentEnd, Bool.and_eq_true, Text.startsWith, List.isPrefixOf_iff_prefix] at ending
      obtain ⟨rest, same⟩ := ending.2
      refine absurd ⟨place.1, rest, ?_⟩ clean
      rw [← whole, ← same, List.append_assoc]
  unfold commentPosition?
  rw [nothing]

/-- A line without a comment sign has no comment on it. -/
theorem commentPosition?_of_not_mem (clean : '#' ∉ c.line) :
    commentPosition? c generated = .ok none :=
  commentPosition?_of_unfenced fun fence => clean (fence.subset List.mem_cons_self)

/-- A comment on one line begins in two signs at least, and counts from the fourth column on. -/
theorem exists_fence_of_inlineComment? {line : Text} {comment : InlineComment}
    (h : inlineComment? line = some comment) :
    ∃ place, comment.start = place + 4 ∧ ['#', '#'] <+: line.drop place := by
  unfold inlineComment? at h
  obtain ⟨⟨front, rest⟩, found, opened⟩ := Option.bind_eq_some_iff.1 h
  have whole : front ++ rest = line := (Text.lastPlace?_sound found).1
  obtain ⟨place, -, here⟩ := List.exists_of_findSome?_eq_some opened
  unfold openedAt? at here
  dsimp only at here
  split at here
  · cases here
  · next fenced =>
    have start : comment.start = place + 4 := by
      split at here
      · rw [← Option.some.inj here]
      · split at here
        · rw [← Option.some.inj here]
        · cases here
    refine ⟨place, start, ?_⟩
    have signs : ['#', '#'] <+: (front.drop place).takeWhile (· == '#') := by
      have all : ∀ c ∈ (front.drop place).takeWhile (· == '#'), c = '#' :=
        fun c member => by simpa using List.mem_takeWhile_imp member
      rw [Bool.or_eq_true, not_or, decide_eq_true_eq] at fenced
      rcases run : (front.drop place).takeWhile (· == '#') with _ | ⟨a, _ | ⟨b, more⟩⟩
      · simp [run] at fenced
      · simp [run] at fenced
      · rw [run] at all
        rw [all a (by simp), all b (by simp)]
        exact ⟨more, rfl⟩
    rw [← whole]
    exact signs.trans ((List.takeWhile_prefix _).trans (List.drop_append ▸ List.prefix_append _ _))

/-- A cursor with no sign far before it is in no comment. -/
theorem commentPosition?_of_plain {front rest : Text} (plain : '#' ∉ front)
    (line : c.line = front ++ rest) (near : c.position.character < front.length + 4) :
    commentPosition? c generated = .ok none := by
  unfold commentPosition?
  cases here : inlineComment? c.line with
  | none => rfl
  | some comment =>
    obtain ⟨place, start, fence⟩ := exists_fence_of_inlineComment? here
    have behind : front.length ≤ place := by
      by_contra early
      have some_ : front.drop place ≠ [] := fun none_ => by
        have := List.drop_eq_nil_iff.1 none_
        omega
      obtain ⟨a, more, part⟩ := List.exists_cons_of_ne_nil some_
      rw [line, List.drop_append_of_le_length (by omega), part, List.cons_append,
        List.cons_prefix_cons] at fence
      exact plain (fence.1 ▸ List.mem_of_mem_drop (part ▸ List.mem_cons_self))
    dsimp only
    rw [if_neg]
    simp only [Bool.and_eq_true, decide_eq_true_eq]
    omega

/-- The target of a position, if its line is mapped and is not a comment. -/
def target (map : ColumnMap) (c : Cursor) (generated : Document) :
    Except Fault (Option Target) := do
  let fit ← fitting map c generated
  choose? c generated (fit.map .ofMapping)

/-- **A position has a target on the line of one of the entries of its line**, if there are any. -/
theorem target_ends (generated : Document)
    (h : ∀ m ∈ map.forSourceLine c.position.line, InReach bound (.ofMapping m)) :
    Ends (target map c generated)
      (fun found => (∀ t ∈ found, (∃ m ∈ map.forSourceLine c.position.line,
          t.line = m.outputLine) ∧ InReach (bound + 1 + c.word.text.length) t) ∧
        (map.forSourceLine c.position.line ≠ [] → found.isSome))
      (fun f => TooFar (bound + 1 + c.word.text.length) f ∨ f = .wordPastEnd ∧
        c.word.text ≠ [] ∧ ∃ fit, fitting map c generated = .ok fit ∧
          ∃ m ∈ fit, Stranded c generated (.ofMapping m)) := by
  have searching := fitting_ends generated h
  unfold target
  cases fits : fitting map c generated with
  | error f =>
    have far := searching.of_error fits
    exact .failed (.inl (far.mono (by omega)))
  | ok fit =>
    obtain ⟨part, some_⟩ := searching.of_ok fits
    by_cases empty : fit = []
    · subst empty
      refine .done ⟨fun t member => ?_, fun filled => absurd rfl (some_ filled)⟩
      cases member
    · have reach : ∀ t ∈ fit.map Target.ofMapping, InReach bound t := by
        intro t member
        obtain ⟨m, inside, rfl⟩ := List.mem_map.1 member
        exact h m (part inside)
      refine (choose?_ends (by simpa using empty) reach).mono ?_ fun f fault => ?_
      · rintro _ ⟨t, rfl, ⟨t₀, member, line⟩, near⟩
        obtain ⟨m, inside, rfl⟩ := List.mem_map.1 member
        refine ⟨fun t' same => ?_, fun _ => rfl⟩
        obtain rfl := Option.some.inj same
        exact ⟨⟨m, part inside, line⟩, near⟩
      · refine fault.imp_right fun ⟨same, named, t, member, stranded⟩ => ?_
        obtain ⟨m, inside, rfl⟩ := List.mem_map.1 member
        exact ⟨same, named, fit, rfl, m, inside, stranded⟩

/-- A position whose line has entries has a target on their line, unless it is too far. -/
theorem target_ends_onLine (entries : LineEntries map generated l k bound)
    (line : c.position.line = l) (hk : k ≤ 2147483647) :
    Ends (target map c generated)
      (fun chosen => ∃ t, chosen = some t ∧ OnLine k (bound + 1 + c.word.text.length) t)
      (TooFar (bound + 1 + c.word.text.length)) := by
  subst line
  have known : ∀ m ∈ map.forSourceLine c.position.line,
      m.outputLine = k ∧ HasRoom generated k bound (.ofMapping m) := by
    intro m member
    obtain ⟨inside, place⟩ := entries.of_mem_forSourceLine member
    exact ⟨place, entries.room m inside place⟩
  have ending := target_ends generated (c := c) fun m member =>
    ⟨k, hk, (known m member).2.onLine⟩
  refine ending.mono ?_ ?_
  · rintro found ⟨all, some_⟩
    obtain ⟨t, rfl⟩ := Option.isSome_iff_exists.1 (some_ entries.forSourceLine_ne_nil)
    obtain ⟨⟨m, member, line⟩, reach⟩ := all t rfl
    exact ⟨t, rfl, reach.onLine (line.trans (known m member).1)⟩
  · rintro f (far | ⟨-, -, fit, fits, m, member, stranded⟩)
    · exact far
    · have part := (fitting_ends generated (c := c) fun m member =>
        ⟨k, hk, (known m member).2.onLine⟩).of_ok fits
      exact absurd stranded (known m (part.1 member)).2.not_stranded

theorem target_returns (entries : LineEntries map generated l k bound)
    (line : c.position.line = l) (hk : k ≤ 2147483647)
    (hb : bound + 1 + c.word.text.length ≤ 2147483647) :
    Returns (target map c generated) fun chosen =>
      ∃ t, chosen = some t ∧ OnLine k (bound + 1 + c.word.text.length) t :=
  (target_ends_onLine entries line hk).returns (not_tooFar hb)

/-- A cursor at the beginning of a word has a target on that word, if an entry of its column is. -/
theorem target_returns_onWord (entries : LineEntries map generated l k bound)
    (line : c.position.line = l) (some_ : (generated.lines[k]?).isSome)
    (short : ∀ m ∈ map.mappings, m.outputLine = k →
      m.outputColumn + 1 ≤ (generated.lineText k).length)
    (start : c.atEndOfWord = false) (named : c.word.text ≠ []) (hk : k ≤ 2147483647)
    (hb : bound + 1 ≤ 2147483647) {m : Mapping} (member : m ∈ map.mappings)
    (source : m.sourceLine = l) (column : m.sourceColumn = c.position.character)
    (onWord : OnWord generated k bound c.word.text (.ofMapping m)) :
    Returns (target map c generated) fun chosen =>
      ∃ t, chosen = some t ∧ OnWord generated k (bound + 1) c.word.text t := by
  subst line
  have known : m ∈ map.forSourceLine c.position.line :=
    List.mem_filter.2 ⟨member, beq_iff_eq.2 source⟩
  refine (fitting_of_precise known column).bind fun fit ⟨part, fits⟩ => ?_
  have places : ∀ t ∈ fit.map Target.ofMapping,
      ∃ x ∈ map.mappings, x.outputLine = k ∧ t = .ofMapping x := by
    intro t inside
    obtain ⟨x, fitting_, rfl⟩ := List.mem_map.1 inside
    obtain ⟨mapped, place⟩ := entries.of_mem_forSourceLine (part fitting_)
    exact ⟨x, mapped, place, rfl⟩
  refine choose?_returns_onWord some_ (fun t inside => ?_) (fun t inside => ?_) start named hk hb
    (List.mem_map_of_mem fits) onWord
  · obtain ⟨x, mapped, place, rfl⟩ := places t inside
    exact entries.room x mapped place
  · obtain ⟨x, mapped, place, rfl⟩ := places t inside
    exact short x mapped place

end Entries

/-! ## Positions -/

/-- What is known about a position of a source, if the beginning of its word can be addressed. -/
theorem cursor_ends (source : Document) (p : Position) :
    Ends (Cursor.ofPosition source p)
      (fun c => c.position = p ∧ c.line = source.lineText p.line ∧
        Text.wordAround source.text (source.offsetAt p) = .ok c.word ∧
        c.atEndOfWord = (!c.word.text.isEmpty &&
          c.word.offset + c.word.text.length == source.offsetAt p))
      (Unaddressable source.text.length) := by
  have inside : source.offsetAt p ≤ source.text.length := source.offsetOf_le p.line p.character
  obtain ⟨word, found⟩ : ∃ word, Text.wordAround source.text (source.offsetAt p) = .ok word :=
    ⟨_, Text.wordAround_of_le inside⟩
  have start : Ends (source.positionAt word.offset) (fun _ => True)
      (Unaddressable source.text.length) := by
    have inText : source.clamp word.offset ≤ source.text.length := Nat.min_le_right _ _
    obtain ⟨number, begins, -⟩ := Document.lineOf_separates inText
    have few := Document.le_lineStart (Nat.le_of_lt number)
    rw [Document.positionAt_eq]
    exact (Position.make_ends (by omega) (by omega)).mono (fun _ _ => trivial) fun _ => id
  unfold Cursor.ofPosition
  dsimp only
  rw [found]
  exact start.bind fun first _ => .done ⟨rfl, rfl, rfl, rfl⟩

theorem cursor_returns (source : Document) (p : Position)
    (small : source.text.length ≤ 2147483647) :
    Returns (Cursor.ofPosition source p) fun c =>
      c.position = p ∧ c.line = source.lineText p.line ∧
        Text.wordAround source.text (source.offsetAt p) = .ok c.word ∧
        c.atEndOfWord = (!c.word.text.isEmpty &&
          c.word.offset + c.word.text.length == source.offsetAt p) :=
  (cursor_ends source p).returns (not_unaddressable small)

/-- A cursor has the character of its line at its column. -/
theorem char_of_cursor {source : Document} {p : Position} {c : Cursor}
    (h : Cursor.ofPosition source p = .ok c) :
    c.char = (source.lineText p.line)[p.character]? := by
  unfold Cursor.ofPosition at h
  dsimp only at h
  cases word : Text.wordAround source.text (source.offsetAt p) with
  | error fault =>
    rw [word] at h
    cases h
  | ok found =>
    cases start : source.positionAt found.offset with
    | error fault =>
      simp only [word, bind, Except.bind, start] at h
      cases h
    | ok position =>
      simp only [word, bind, Except.bind, start] at h
      rw [← Except.ok.inj h]

/-- A word is part of its text. -/
theorem length_word_le {t : Text} {offset : Nat} {word : Word}
    (h : Text.wordAround t offset = .ok word) : word.text.length ≤ t.length := by
  obtain ⟨inside, touching⟩ := Text.wordAround_eq_ok_iff.1 h
  exact Nat.le_trans (Nat.le_add_left _ _) (touching.end_le inside)

/-- Outside comments and fake lines, a position goes where its target is. -/
theorem toOutput_of_target {g : Generated} {js : Text} {map : ColumnMap} (text : g.js = some js)
    (mapped : g.map = some map) (genuine : g.fakeLine = none) {source : Document} {p : Position}
    {c : Cursor} (cursor : Cursor.ofPosition source p = .ok c) (clean : '#' ∉ c.line) {t : Target}
    (found : target map c ⟨js, ""⟩ = .ok (some t)) :
    g.toOutput p source = (Position.make t.line t.column).map some := by
  have column : columnOn g ⟨js, ""⟩ c t = t.column := by
    simp [columnOn, genuine]
  unfold target at found
  unfold Generated.toOutput Generated.route
  rw [text, mapped]
  dsimp only
  unfold routeOn
  rw [cursor]
  simp only [bind, Except.bind, commentPosition?_of_not_mem clean]
  cases fit : fitting map c ⟨js, ""⟩ with
  | error fault =>
    rw [fit] at found
    cases found
  | ok entries =>
    rw [fit] at found
    simp only [bind, Except.bind] at found
    dsimp only
    rw [found]
    dsimp only
    rw [column]
    cases Position.make t.line t.column <;> rfl

/-- **A position on a line with entries is mapped, and onto the generated line of the entries.** -/
theorem toOutput_returns {g : Generated} {js : Text} {map : ColumnMap} (text : g.js = some js)
    (mapped : g.map = some map) (genuine : g.fakeLine = none) {source : Document} {p : Position}
    {k bound : Nat} (entries : LineEntries map ⟨js, ""⟩ p.line k bound)
    (clean : '#' ∉ source.lineText p.line) (hk : k ≤ 2147483647)
    (hb : bound + 1 + source.text.length ≤ 2147483647) :
    ∃ q, g.toOutput p source = .ok (some q) ∧ q.line = k := by
  obtain ⟨c, cursor, position, line, word, -⟩ := cursor_returns source p (by omega)
  have short := length_word_le word
  obtain ⟨_, found, t, rfl, column, rfl, small⟩ :=
    target_returns entries (congrArg Position.line position) hk (by omega)
  have way := toOutput_of_target text mapped genuine cursor (line ▸ clean) found
  rw [Position.make_natCast hk (by omega)] at way
  exact ⟨_, way, rfl⟩

end ToOutput

end DialectBridge
