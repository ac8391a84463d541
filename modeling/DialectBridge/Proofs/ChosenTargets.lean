import DialectBridge.Proofs.GroupedMappings
import DialectBridge.Proofs.WordTargets
import Mathlib.Data.List.Perm.Basic

/-!
# Which entry a position follows

The heuristics on the way from the source to the generated text select; they make nothing up.
Outside comments, a position on a line with entries has some that fit it. One of them is followed:
its generated line is taken as it is, and its column is moved along the word of the cursor at most,
by one column, by the width of the word, or by both (`Target.Along`). So the line of the answer is
always that of an entry, and a line with entries is never refused.

The choice does not depend on the order in which the entries come. Each narrowing step, given its
targets in another order, leaves the same targets in another order (`Unordered`), and of what
remains the last in reading order is taken, of which there is only one. Only the fault that is met
first can be another one.

The main result is `Generated.toOutput_follows_entry`.
-/

set_option autoImplicit false

namespace DialectBridge

namespace ToOutput

/-- The position of a cursor is inside a comment on its line, and the generated text has the
content of the comment. -/
def InComment (c : Cursor) (generated : Document) : Prop :=
  ∃ comment ∈ inlineComment? c.line,
    comment.start ≤ c.position.character ∧
      c.position.character ≤ comment.start + comment.content.length ∧
      ∃ line ∈ generated.lines, Text.occursIn comment.content line = true

instance (c : Cursor) (generated : Document) : Decidable (InComment c generated) :=
  inferInstanceAs (Decidable (∃ comment ∈ inlineComment? c.line,
    comment.start ≤ c.position.character ∧
      c.position.character ≤ comment.start + comment.content.length ∧
      ∃ line ∈ generated.lines, Text.occursIn comment.content line = true))

/-- A target on the line of another one, moved along the word of the cursor at most: by nothing, by
one column, by the width of the word, or by one column more. -/
def Target.Along (c : Cursor) (s t : Target) : Prop :=
  t.line = s.line ∧
    ∃ d ∈ [0, 1, c.word.text.length, c.word.text.length + 1], t.column = s.column + (d : Nat)

/-- A narrowing step that, given its targets in another order, leaves the same targets. -/
def Unordered (step : Narrower) : Prop :=
  ∀ (c : Cursor) (generated : Document) (targets targets' left : List Target),
    targets.Perm targets' → step targets c generated = .ok left →
      ∃ left', step targets' c generated = .ok left' ∧ left.Perm left'

section Choice

variable {c : Cursor} {generated : Document} {targets targets' : List Target}

/-! ## The entry behind a target -/

/-- Outside comments, the content of a comment finds nothing. -/
theorem commentPosition?_of_outside (outside : ¬ InComment c generated) :
    commentPosition? c generated = .ok none := by
  unfold commentPosition?
  cases here : inlineComment? c.line with
  | none => rfl
  | some comment =>
    dsimp only
    split
    · next inside =>
      rw [Bool.and_eq_true, decide_eq_true_eq, decide_eq_true_eq] at inside
      split
      · rfl
      · next line number first =>
        have content := List.find?_some first
        have member := List.fst_mem_of_mem_zipIdx (List.mem_of_find?_eq_some first)
        exact absurd ⟨comment, here, inside.1, inside.2, line, member, content⟩ outside
    · rfl

theorem Target.Along.refl (c : Cursor) (t : Target) : Target.Along c t t :=
  ⟨rfl, 0, by simp, by simp⟩

/-- A target that is moved onto the word of the cursor is moved along it. -/
theorem along_of_onWord? {s t : Target} (h : onWord? c generated s = .ok (some t)) :
    Target.Along c s t := by
  obtain ⟨k, column, rfl, -, -, word, -, ⟨-, rfl⟩ | ⟨-, next, -, -, rfl⟩⟩ := settled_of_onWord? h
  · unfold onWord?.settle
    split
    · exact ⟨rfl, c.word.text.length, by simp, by simp⟩
    · exact ⟨rfl, 0, by simp, by simp⟩
  · unfold onWord?.settle
    split
    · exact ⟨rfl, c.word.text.length + 1, by simp, by push_cast; omega⟩
    · exact ⟨rfl, 1, by simp, by simp⟩

/-- What is kept by word comes from the targets, and is moved along the word. -/
theorem exists_along_of_byWord {kept : List Target} (h : byWord targets c generated = .ok kept)
    {t : Target} (member : t ∈ kept) : ∃ s ∈ targets, Target.Along c s t := by
  unfold byWord at h
  split at h
  · obtain rfl := Except.ok.inj h
    exact absurd member List.not_mem_nil
  · obtain ⟨results, each, same⟩ := exists_ok_of_bind h
    obtain rfl := Except.ok.inj same
    obtain ⟨_, inside, rfl⟩ := List.mem_filterMap.1 member
    obtain ⟨s, from_, moved⟩ := exists_of_mem_mapM each inside
    exact ⟨s, from_, along_of_onWord? moved⟩

/-- **What is chosen among targets is one of them, moved along the word of the cursor.** -/
theorem exists_along_of_choose? (some_ : targets ≠ []) {chosen : Option Target}
    (h : choose? c generated targets = .ok chosen) :
    ∃ t, chosen = some t ∧ ∃ s ∈ targets, Target.Along c s t := by
  unfold choose? at h
  rw [if_neg (by simpa using some_), narrowers, narrow] at h
  obtain ⟨left, narrowed, same⟩ := exists_ok_of_bind h
  obtain rfl := Except.ok.inj same
  obtain ⟨words, byWords, later⟩ := exists_ok_of_bind narrowed
  have carried : (if words.isEmpty then targets else words) ≠ [] ∧
      ∀ t ∈ (if words.isEmpty then targets else words), ∃ s ∈ targets, Target.Along c s t := by
    split
    · exact ⟨some_, fun t inside => ⟨t, inside, .refl c t⟩⟩
    · next filled =>
      exact ⟨by simpa using filled, fun t inside => exists_along_of_byWord byWords inside⟩
  obtain ⟨part, filled⟩ :=
    (narrow_ends_of (fun _ => id) carried.1 fun t _ => Ends.always (t.char generated)).of_ok later
  obtain ⟨t, inside, last⟩ := bottomRight?_mem filled
  exact ⟨t, last, carried.2 t (part inside)⟩

/-! ## The order of the targets -/

/-- A filter that returns has tested all elements, and keeps those that pass. -/
theorem filterE_eq_ok_iff {α : Type} {test : α → Except Fault Bool} {all kept : List α} :
    filterE test all = .ok kept ↔
      (∀ a ∈ all, ∃ passed, test a = .ok passed) ∧
        kept = all.filter fun a => decide (test a = .ok true) := by
  induction all generalizing kept with
  | nil => simp [filterE, eq_comm]
  | cons a rest ih =>
    unfold filterE
    cases tested : test a with
    | error fault =>
      refine iff_of_false (fun h => ?_) fun ⟨each, _⟩ => ?_
      · cases h
      · obtain ⟨passed, same⟩ := each a List.mem_cons_self
        cases tested.symm.trans same
    | ok passed =>
      change (filterE test rest >>= _) = _ ↔ _
      constructor
      · intro h
        obtain ⟨others, later, same⟩ := exists_ok_of_bind h
        obtain ⟨each, rfl⟩ := ih.1 later
        refine ⟨List.forall_mem_cons.2 ⟨⟨passed, tested⟩, each⟩, ?_⟩
        rw [← Except.ok.inj same, List.filter_cons, tested]
        cases passed <;> rfl
      · rintro ⟨each, rfl⟩
        have later := ih.2 ⟨(List.forall_mem_cons.1 each).2, rfl⟩
        rw [later, List.filter_cons, tested]
        cases passed <;> rfl

/-- Results in a row are the results one by one. -/
theorem mapM_eq_ok_iff {α β : Type} {f : α → Except Fault β} {all : List α} {results : List β} :
    all.mapM f = .ok results ↔ List.Forall₂ (fun a b => f a = .ok b) all results := by
  constructor
  · have each : ∀ a ∈ all, Ends (f a) (fun b => f a = .ok b) fun _ => True := fun a _ =>
      (Ends.itself (f a)).mono (fun _ => id) fun _ _ => trivial
    exact (mapM_ends each).of_ok
  · intro related
    induction related with
    | nil => rfl
    | cons here _ ih =>
      rw [List.mapM_cons, here, ih]
      rfl

/-- A filter of elements in another order keeps the same elements. -/
theorem filterE_perm {α : Type} {test : α → Except Fault Bool} {all all' kept : List α}
    (same : all.Perm all') (h : filterE test all = .ok kept) :
    ∃ kept', filterE test all' = .ok kept' ∧ kept.Perm kept' := by
  obtain ⟨each, rfl⟩ := filterE_eq_ok_iff.1 h
  exact ⟨_, filterE_eq_ok_iff.2 ⟨fun a inside => each a (same.mem_iff.2 inside), rfl⟩,
    same.filter _⟩

/-- Computations in another order give the same results. -/
theorem mapM_perm {α β : Type} {f : α → Except Fault β} {all all' : List α} {results : List β}
    (same : all.Perm all') (h : all.mapM f = .ok results) :
    ∃ results', all'.mapM f = .ok results' ∧ results.Perm results' := by
  obtain ⟨results', related, perm⟩ := List.perm_comp_forall₂ same.symm (mapM_eq_ok_iff.1 h)
  exact ⟨results', mapM_eq_ok_iff.2 related, perm.symm⟩

theorem unordered_byWord : Unordered byWord := by
  intro c generated targets targets' left same h
  unfold byWord at h ⊢
  split at h
  · next nameless => exact ⟨[], if_pos nameless, Except.ok.inj h ▸ .refl []⟩
  · next named =>
    obtain ⟨results, each, kept⟩ := exists_ok_of_bind h
    obtain ⟨results', each', perm⟩ := mapM_perm same each
    refine ⟨results'.filterMap id, ?_, Except.ok.inj kept ▸ perm.filterMap id⟩
    rw [if_neg named, each']
    rfl

theorem unordered_byLineWithWord : Unordered byLineWithWord := by
  intro c generated targets targets' left same h
  unfold byLineWithWord at h ⊢
  split at h
  · next nameless => exact ⟨[], if_pos nameless, Except.ok.inj h ▸ .refl []⟩
  · next named => exact ⟨_, if_neg named, Except.ok.inj h ▸ same.filter _⟩

theorem unordered_byChar : Unordered byChar := by
  intro c generated targets targets' left same h
  unfold byChar at h ⊢
  split at h
  · next behind => exact ⟨[], if_pos behind, Except.ok.inj h ▸ .refl []⟩
  · next inside =>
    rw [if_neg inside]
    exact filterE_perm same h

theorem unordered_byIdentifier : Unordered byIdentifier := by
  intro c generated targets targets' left same h
  unfold byIdentifier at h ⊢
  split at h
  · next foreign => exact ⟨[], if_pos foreign, Except.ok.inj h ▸ .refl []⟩
  · next letter =>
    rw [if_neg letter]
    exact filterE_perm same h

/-- A run of steps none of which depends on the order does not depend on it either. -/
theorem narrow_perm {steps : List Narrower} (each : ∀ step ∈ steps, Unordered step)
    (same : targets.Perm targets') {left : List Target}
    (h : narrow c generated steps targets = .ok left) :
    ∃ left', narrow c generated steps targets' = .ok left' ∧ left.Perm left' := by
  induction steps generalizing targets targets' with
  | nil => exact ⟨targets', rfl, Except.ok.inj h ▸ same⟩
  | cons step rest ih =>
    unfold narrow at h ⊢
    obtain ⟨kept, first, later⟩ := exists_ok_of_bind h
    obtain ⟨kept', first', perm⟩ := each step List.mem_cons_self c generated _ _ _ same first
    rw [first']
    refine ih (fun step inside => each step (List.mem_cons_of_mem _ inside)) ?_ later
    rw [perm.isEmpty_eq]
    split
    · exact same
    · exact perm

/-- The last of some targets is the same in any order. -/
theorem bottomRight?_perm (same : targets.Perm targets') :
    bottomRight? targets = bottomRight? targets' := by
  refine Option.ext fun t => ?_
  rw [bottomRight?_eq_some_iff, bottomRight?_eq_some_iff]
  exact and_congr same.mem_iff (forall_congr' fun x => imp_congr_left same.mem_iff)

/-- **The target that is chosen does not depend on the order of the targets.** -/
theorem choose?_perm (same : targets.Perm targets') {chosen : Option Target}
    (h : choose? c generated targets = .ok chosen) : choose? c generated targets' = .ok chosen := by
  have each : ∀ step ∈ narrowers, Unordered step := by
    simp only [narrowers, List.forall_mem_cons]
    exact ⟨unordered_byWord, unordered_byLineWithWord, unordered_byChar, unordered_byIdentifier,
      fun _ none_ => absurd none_ List.not_mem_nil⟩
  unfold choose? at h ⊢
  rw [← same.isEmpty_eq]
  split
  · next empty =>
    rw [if_pos empty] at h
    exact h
  · next filled =>
    rw [if_neg filled] at h
    obtain ⟨left, narrowed, last⟩ := exists_ok_of_bind h
    obtain ⟨left', narrowed', perm⟩ := narrow_perm each same narrowed
    rw [narrowed', ← Except.ok.inj last, bottomRight?_perm perm]
    rfl

end Choice

end ToOutput

/-! ## The way of a position -/

namespace Generated

open ToOutput

/-- **Outside comments, a position on a line with entries follows one of those that fit it**: the
answer is on the generated line of the entry, and in its column or further along the word of the
cursor, unless the source line was sketched. Which of several entries is followed does not depend on
their order. -/
theorem toOutput_follows_entry :
    (∀ (g : Generated) (js : Text) (map : ColumnMap) (source : Document) (p : Position)
        (answer : Option Position),
      g.js = some js → g.map = some map → g.toOutput p source = .ok answer →
      ∃ c, Cursor.ofPosition source p = .ok c ∧
        (¬ InComment c ⟨js, ""⟩ → (∃ m ∈ map.mappings, m.sourceLine = p.line) →
          ∃ fit, fitting map c ⟨js, ""⟩ = .ok fit ∧ fit ≠ [] ∧
            (∀ m ∈ fit, m ∈ map.mappings ∧ m.sourceLine = p.line) ∧
            ∃ m ∈ fit, ∃ q, answer = some q ∧ q.line = m.outputLine ∧
              (¬ (g.fakeLine = some (p.line : Int) ∧ g.mechanism = some .sourceInOutput) →
                ∃ d ∈ [0, 1, c.word.text.length, c.word.text.length + 1],
                  q.character = m.outputColumn + (d : Nat)))) ∧
    ∀ (c : Cursor) (generated : Document) (entries entries' : List Mapping),
      entries.Perm entries' → ∀ chosen,
        choose? c generated (entries.map .ofMapping) = .ok chosen ↔
          choose? c generated (entries'.map .ofMapping) = .ok chosen := by
  refine ⟨?_, fun c generated entries entries' same chosen =>
    ⟨choose?_perm (same.map _), choose?_perm (same.symm.map _)⟩⟩
  intro g js map source p answer text mapped made
  have routed : ∃ route, routeOn g js map p source = .ok route ∧ route.position? = answer := by
    unfold Generated.toOutput Generated.route at made
    rw [text, mapped] at made
    obtain ⟨route, found, same⟩ := exists_ok_of_bind made
    exact ⟨route, found, Except.ok.inj same⟩
  obtain ⟨route, found, rfl⟩ := routed
  obtain ⟨c, cursor⟩ : ∃ c, Cursor.ofPosition source p = .ok c := by
    obtain ⟨c, cursor, -⟩ := exists_ok_of_bind found
    exact ⟨c, cursor⟩
  have position : c.position = p := ((cursor_ends source p).of_ok cursor).1
  refine ⟨c, cursor, fun outside known => ?_⟩
  rw [routeOn_eq cursor position (commentPosition?_of_outside outside)] at found
  obtain ⟨chosen, reached, arrived⟩ := exists_ok_of_bind found
  unfold target at reached
  obtain ⟨fit, fits, choice⟩ := exists_ok_of_bind reached
  obtain ⟨part, some_⟩ :=
    (fitting_ends_of ⟨js, ""⟩ fun m _ => Ends.always ((Target.ofMapping m).word _)).of_ok fits
  have filled : fit ≠ [] := by
    obtain ⟨m, inside, line⟩ := known
    exact some_ (List.ne_nil_of_mem (ColumnMap.mem_forSourceLine.2 ⟨inside, position ▸ line⟩))
  obtain ⟨t, rfl, s, from_, line, d, width, column⟩ :=
    exists_along_of_choose? (by simpa using filled) choice
  obtain ⟨m, inside, rfl⟩ := List.mem_map.1 from_
  obtain ⟨q, addressed, same⟩ := exists_ok_of_bind arrived
  obtain rfl := Except.ok.inj same
  obtain ⟨ownLine, ownColumn⟩ := Position.coordinates_of_make addressed
  refine ⟨fit, fits, filled, fun m member => ?_, m, inside, q, rfl, ownLine.trans line,
    fun genuine => ⟨d, width, ?_⟩⟩
  · obtain ⟨known, own⟩ := ColumnMap.mem_forSourceLine.1 (part member)
    exact ⟨known, position ▸ own⟩
  · rw [columnOn_eq, position, if_neg genuine] at ownColumn
    exact ownColumn.trans column

/-- Behind the word `bb`, in front of a comment, both entries of the word fit. The one further down
is followed to the end of the word, whichever of them comes first. -/
theorem toOutput_follows_entry_behind_word :
    let js : Text := "(bb);\nbb();".toList
    let entries : List Mapping := [⟨0, 4, 0, 0⟩, ⟨0, 4, 1, 0⟩]
    let source : Document := ⟨"a = bb ### x ###".toList, ""⟩
    let p : Position := ⟨0, 6, by decide, by decide⟩
    ∃ (g : Generated) (c : Cursor), Cursor.ofPosition source p = .ok c ∧
      g.toOutput p source = .ok (some ⟨1, 2, by decide, by decide⟩) ∧
      (∃ fit, fitting (.ofMappings entries) c ⟨js, ""⟩ = .ok fit ∧ fit ≠ [] ∧
        (∀ m ∈ fit, m ∈ (ColumnMap.ofMappings entries).mappings ∧ m.sourceLine = p.line) ∧
        ∃ m ∈ fit, m.outputLine = 1 ∧
          ∃ d ∈ [0, 1, c.word.text.length, c.word.text.length + 1],
            (2 : Int) = m.outputColumn + (d : Nat)) ∧
      choose? c ⟨js, ""⟩ (entries.reverse.map .ofMapping) = .ok (some ⟨1, 2⟩) := by
  intro js entries source p
  let g : Generated := ⟨{ js := some js, map := some (.ofMappings entries) }, by decide⟩
  let c := (Cursor.ofPosition source p).toOption.get (by decide +kernel)
  have made : g.toOutput p source = .ok (some ⟨1, 2, by decide, by decide⟩) := by decide +kernel
  obtain ⟨own, cursor, follows⟩ := toOutput_follows_entry.1 g js _ source p _ rfl rfl made
  have here : Cursor.ofPosition source p = .ok c := by decide +kernel
  have same : own = c := Except.ok.inj (cursor.symm.trans here)
  rw [same] at follows
  obtain ⟨fit, fits, some_, part, m, inside, q, same, line, column⟩ :=
    follows (by decide +kernel) (by decide +kernel)
  obtain rfl := Option.some.inj same
  refine ⟨g, c, here, made, ⟨fit, fits, some_, part, m, inside, line.symm, column (by decide)⟩, ?_⟩
  have same := entries.reverse_perm.symm
  refine (toOutput_follows_entry.2 c ⟨js, ""⟩ entries entries.reverse same _).1 ?_
  decide +kernel

end Generated

end DialectBridge
