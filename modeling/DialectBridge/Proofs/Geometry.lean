import DialectBridge.Proofs.Rendering

/-!
# The geometry of cleaned text

The map of a generated text is not told of methods in short form, nor of residues that are replaced.
So these replacements keep the geometry of the text. Scanning replaces some stretches of a text, one
after the other (`Text.stretches`); the result is as long as the text, its line feeds stand where
they stood, every character outside the stretches is the same, and inside each of them stands what
the rule writes for it. This holds for every rule that sees one line only and writes as much as it
takes.

What cleaning does afterwards, narrowing declarations and taking the marks of empty lines away,
moves columns, but it keeps the lines.
-/

set_option autoImplicit false

namespace DialectBridge

/-- A stretch of a text: the offset at which it begins, and how many characters it has. -/
structure Stretch where
  start : Nat
  length : Nat
  deriving DecidableEq, Repr

/-- An offset is inside a stretch. -/
def Stretch.Covers (s : Stretch) (i : Nat) : Prop := s.start ≤ i ∧ i < s.start + s.length

instance (s : Stretch) (i : Nat) : Decidable (s.Covers i) :=
  inferInstanceAs (Decidable (_ ∧ _))

namespace Text

/-! ## Replaced stretches -/

/-- The stretches that `scanFrom` replaces in a text that begins at an offset. -/
def stretchesFrom (rule : ReplacementRule) (before : Option Char) (covered offset : Nat) :
    Text → List Stretch
  | [] => []
  | c :: rest =>
    match covered with
    | k + 1 => stretchesFrom rule (some c) k (offset + 1) rest
    | 0 =>
      match rule before (c :: rest) with
      | some r => ⟨offset, r.length⟩ :: stretchesFrom rule (some c) (r.length - 1) (offset + 1) rest
      | none => stretchesFrom rule (some c) 0 (offset + 1) rest

/-- The stretches that a rule replaces in a text, from left to right. -/
def stretches (rule : ReplacementRule) (t : Text) : List Stretch :=
  stretchesFrom rule none 0 0 t

/-- A text and the same text with the replacements of a rule, none of which moves anything. -/
structure KeepsGeometry (rule : ReplacementRule) (t t' : Text) : Prop where
  length_eq : t'.length = t.length
  lineFeeds : ∀ i : Nat, t'[i]? = some '\n' ↔ t[i]? = some '\n'
  outside : ∀ i : Nat, (∀ s ∈ stretches rule t, ¬ s.Covers i) → t'[i]? = t[i]?
  inside : ∀ s ∈ stretches rule t, ∃ r, rule none (t.drop s.start) = some r ∧
    s.length = r.length ∧ (t'.drop s.start).take s.length = r.output

variable {rule : ReplacementRule}

/-- What no replacement covers stays. The characters that an earlier replacement covers are not
written. -/
theorem getElem?_scanFrom_of_outside (inPlace : rule.InPlace) {before : Option Char}
    {covered offset column i : Nat} {t : Text} (here : column = offset + i) (written : covered ≤ i)
    (outside : ∀ s ∈ stretchesFrom rule before covered offset t, ¬ s.Covers column) :
    (scanFrom rule before covered t)[i - covered]? = t[i]? := by
  induction t generalizing before covered offset i with
  | nil => rw [scanFrom_nil, List.getElem?_nil, List.getElem?_nil]
  | cons c rest ih =>
    cases covered with
    | succ k =>
      obtain ⟨j, rfl⟩ := Nat.exists_eq_add_of_le' written
      have same := ih (i := j + k) (by omega) (Nat.le_add_left k j) outside
      rwa [Nat.add_sub_cancel] at same ⊢
    | zero =>
      cases decision : rule before (c :: rest) with
      | none =>
        rw [stretchesFrom, decision] at outside
        rw [scanFrom, decision]
        cases i with
        | zero => rfl
        | succ j => exact ih (by omega) (Nat.zero_le j) outside
      | some r =>
        obtain ⟨positive, -, size⟩ := inPlace before _ r decision
        rw [stretchesFrom, decision] at outside
        obtain ⟨free, outside⟩ := List.forall_mem_cons.1 outside
        have behind : r.length ≤ i := by
          unfold Stretch.Covers at free
          dsimp only at free
          omega
        obtain ⟨j, rfl⟩ : ∃ j, i = j + 1 := ⟨i - 1, by omega⟩
        have index : j + 1 - r.length = j - (r.length - 1) := by omega
        rw [scanFrom, decision, Nat.sub_zero]
        dsimp only
        rw [List.getElem?_append_right (size ▸ behind), size, index, List.getElem?_cons_succ]
        exact ih (by omega) (by omega) outside

/-- In a replaced stretch stands what the rule writes for the text from there on. -/
theorem exists_of_mem_stretchesFrom (forward : rule.Forward) (inPlace : rule.InPlace)
    {before : Option Char} {covered offset : Nat} {t : Text} {s : Stretch}
    (member : s ∈ stretchesFrom rule before covered offset t) :
    ∃ k r, s.start = offset + k ∧ covered ≤ k ∧ rule none (t.drop k) = some r ∧
      s.length = r.length ∧
      ((scanFrom rule before covered t).drop (k - covered)).take r.length = r.output := by
  induction t generalizing before covered offset with
  | nil => cases covered <;> cases member
  | cons c rest ih =>
    cases covered with
    | succ n =>
      obtain ⟨k, r, start, le, replaced, size, output⟩ := ih member
      refine ⟨k + 1, r, by omega, by omega, replaced, size, ?_⟩
      rw [Nat.add_sub_add_right]
      exact output
    | zero =>
      cases decision : rule before (c :: rest) with
      | none =>
        rw [stretchesFrom, decision] at member
        obtain ⟨k, r, start, -, replaced, size, output⟩ := ih member
        refine ⟨k + 1, r, by omega, Nat.zero_le _, replaced, size, ?_⟩
        rw [scanFrom, decision]
        exact output
      | some r =>
        obtain ⟨positive, -, width⟩ := inPlace before _ r decision
        rw [stretchesFrom, decision] at member
        rw [scanFrom, decision]
        rcases List.mem_cons.1 member with rfl | later
        · refine ⟨0, r, rfl, Nat.zero_le 0, ?_, rfl, ?_⟩
          · rw [← forward before]
            exact decision
          · exact List.take_left' width
        · obtain ⟨k, r', start, le, replaced, size, output⟩ := ih later
          refine ⟨k + 1, r', by omega, Nat.zero_le _, replaced, size, ?_⟩
          have index : k + 1 = r.output.length + (k - (r.length - 1)) := by omega
          rw [Nat.sub_zero, index, List.drop_length_add_append]
          exact output

end Text

/-! ## Rules for one line -/

namespace ReplacementRule

variable {rule : ReplacementRule}

theorem Linewise.inPlace (linewise : rule.Linewise) (keeping : rule.LengthKeeping) :
    rule.InPlace := by
  intro before t r decision
  rw [linewise.forward] at decision
  obtain ⟨positive, bounded⟩ := linewise.fitting t r decision
  exact ⟨positive, bounded, keeping t r decision⟩

/-- A rule for one line neither takes nor writes a line feed. -/
theorem Linewise.unbroken_of_some (linewise : rule.Linewise) {t : Text} {r : Replacement}
    (h : rule none t = some r) : '\n' ∉ t.take r.length ∧ '\n' ∉ r.output := by
  by_cases broken : '\n' ∈ t
  · obtain ⟨line, rest, rfl, clean⟩ := List.eq_append_cons_of_mem broken
    rw [linewise.within line rest clean] at h
    rw [List.take_append_of_le_length (linewise.fitting line r h).2]
    exact ⟨fun member => clean (List.mem_of_mem_take member), linewise.unbroken line r clean h⟩
  · exact ⟨fun member => broken (List.mem_of_mem_take member), linewise.unbroken t r broken h⟩

/-- Where a rule for one line replaces, no line feed stands before or afterwards. -/
theorem Linewise.unbroken_of_replacedAt (linewise : rule.Linewise) {before written : Option Char}
    {t : Text} {i : Nat} (h : Text.ReplacedAt rule before t i written) :
    t[i]? ≠ some '\n' ∧ written ≠ some '\n' := by
  obtain ⟨front, rest, r, rfl, decision, le, lt, rfl⟩ := h
  rw [linewise.forward] at decision
  obtain ⟨taken, output⟩ := linewise.unbroken_of_some decision
  constructor
  · rw [List.getElem?_append_right le, ← List.getElem?_take_of_lt (show i - front.length < r.length
      by omega)]
    exact fun feed => taken (List.mem_of_getElem? feed)
  · exact fun feed => output (List.mem_of_getElem? feed)

/-- **A rule for one line that writes as much as it takes keeps the geometry of every text.** -/
theorem Linewise.keepsGeometry (linewise : rule.Linewise) (keeping : rule.LengthKeeping)
    (t : Text) : Text.KeepsGeometry rule t (Text.scan rule t) where
  length_eq := Text.length_scan linewise.forward linewise.fitting keeping t
  lineFeeds i := by
    rcases Text.getElem?_scanFrom_cases (linewise.inPlace keeping) none t i with same | replaced
    · exact Eq.congr_left same
    · obtain ⟨taken, written⟩ := linewise.unbroken_of_replacedAt replaced
      exact iff_of_false written taken
  outside i free :=
    Text.getElem?_scanFrom_of_outside (linewise.inPlace keeping) (Nat.zero_add i).symm
      (Nat.zero_le i) free
  inside s member := by
    obtain ⟨k, r, start, -, replaced, size, output⟩ :=
      Text.exists_of_mem_stretchesFrom linewise.forward (linewise.inPlace keeping) member
    rw [Nat.zero_add] at start
    rw [start, size]
    exact ⟨r, replaced, rfl, output⟩

end ReplacementRule

namespace Cleanup

/-- Replacing residues changes nothing about which mappings can be read. -/
theorem readable_replaceResidues_iff {t : Text} {tweaked : List Int} {m : Mapping} :
    Readable (Text.lines (replaceResidues t)) tweaked m ↔ Readable (Text.lines t) tweaked m := by
  unfold Readable
  rw [lines_replaceResidues, List.length_map]

/-- The second line from the end of a text with one line. -/
example :
    clean ⟨{ js := some "a".toList, map := some ⟨[⟨0, [⟨0, 0, -2, 0⟩]⟩]⟩ }, rfl⟩ [] [0] =
      .error .linePastEnd := by
  decide +kernel

end Cleanup

end DialectBridge
