import Mathlib.Data.List.TakeWhile
import DialectBridge.Text.Identifier

/-!
# Words that touch an offset

The word around an offset is found by two scans. The first goes left over the identifier characters
directly before the offset, and the second goes right from where the first one came to. Everything
the first scan has passed is passed by the second again, so the word reaches the offset, and it ends
where an identifier character is missing on either side.

`Touching` says this of a word without a scan, and of the words of a text only one touches an offset
(`Touching.unique`), because a run of identifier characters that touches the offset lies inside the
word (`Touching.covers`). So looking for a word is described completely (`wordAround_eq_ok_iff`).
An offset at an end of the word touches it like one inside, and as the conditions of `Touching` say
no more about the offset than that, all offsets from one end to the other have the same word.
-/

set_option autoImplicit false

namespace DialectBridge

namespace Text

variable {t : Text} {offset : Nat} {word : Word}

/-! ## Runs and words -/

/-- All characters from one offset up to another belong to identifiers. -/
def Spelled (t : Text) (start stop : Nat) : Prop :=
  ∀ k, start ≤ k → k < stop → isIdentifierAt t[k]? = true

/-- A word of the text that reaches the offset from either side, and goes on on neither side. It is
empty where the offset stands between characters of no word. -/
structure Touching (t : Text) (offset : Nat) (word : Word) : Prop where
  stands : word.text = t.extract word.offset (word.offset + word.text.length)
  begins : word.offset ≤ offset
  ends : offset ≤ word.offset + word.text.length
  letters : ∀ c ∈ word.text, isIdentifier c = true
  free_before : ∀ k, k + 1 = word.offset → isIdentifierAt t[k]? = false
  free_behind : isIdentifierAt t[word.offset + word.text.length]? = false

namespace Touching

/-- The word is a run of identifier characters of the text. -/
theorem spelled (h : Touching t offset word) :
    Spelled t word.offset (word.offset + word.text.length) := by
  intro k low high
  obtain ⟨i, rfl⟩ := Nat.exists_eq_add_of_le low
  have inside : i < word.text.length := by omega
  have same : t[word.offset + i]? = some word.text[i] := by
    rw [← List.getElem?_eq_getElem inside, h.stands]
    simp [inside]
  rw [same]
  exact h.letters _ (List.getElem_mem inside)

/-- **A run of identifier characters that touches the offset lies inside the word.** -/
theorem covers (h : Touching t offset word) {start stop : Nat} (low : start ≤ offset)
    (high : offset ≤ stop) (run : Spelled t start stop) :
    word.offset ≤ start ∧ stop ≤ word.offset + word.text.length := by
  have begins := h.begins
  have ends := h.ends
  constructor
  · by_contra further
    have free := h.free_before (word.offset - 1) (by omega)
    rw [run _ (by omega) (by omega)] at free
    exact Bool.noConfusion free
  · by_contra further
    have free := h.free_behind
    rw [run _ (by omega) (by omega)] at free
    exact Bool.noConfusion free

/-- Only one word touches an offset: each of two would lie inside the other. -/
theorem unique {other : Word} (h : Touching t offset word) (h' : Touching t offset other) :
    word = other := by
  have inside := h.covers h'.begins h'.ends h'.spelled
  have around := h'.covers h.begins h.ends h.spelled
  have start : word.offset = other.offset := by omega
  have size : word.text.length = other.text.length := by omega
  have same : word.text = other.text := by
    calc word.text
        = t.extract word.offset (word.offset + word.text.length) := h.stands
      _ = t.extract other.offset (other.offset + other.text.length) := by rw [start, size]
      _ = other.text := h'.stands.symm
  cases word
  cases other
  exact congrArg₂ Word.mk same start

/-- A word that touches an offset of the text ends inside the text. -/
theorem end_le (h : Touching t offset word) (inside : offset ≤ t.length) :
    word.offset + word.text.length ≤ t.length := by
  have begins := h.begins
  have size := congrArg List.length h.stands
  simp only [List.length_take, List.length_drop] at size
  omega

/-- A word touches all offsets from its beginning to its end. -/
theorem moved (h : Touching t offset word) {other : Nat} (low : word.offset ≤ other)
    (high : other ≤ word.offset + word.text.length) : Touching t other word :=
  ⟨h.stands, low, high, h.letters, h.free_before, h.free_behind⟩

end Touching

/-! ## The scan to the left -/

/-- One step of the scan: a character of an identifier is passed, and any other one ends it. -/
theorem identifierBefore_succ {c : Char} (here : t[offset]? = some c) :
    identifierBefore t (offset + 1) =
      if isIdentifier c = true then identifierBefore t offset + 1 else 0 := by
  unfold identifierBefore
  rw [List.take_add_one, here, Option.toList_some, List.reverse_append, List.reverse_singleton,
    List.singleton_append, List.takeWhile_cons]
  split <;> rfl

/-- The scan passes identifier characters only, up to one that is none or the beginning. -/
theorem spelled_identifierBefore (inside : offset ≤ t.length) :
    Spelled t (offset - identifierBefore t offset) offset ∧
      ∀ k, k + 1 = offset - identifierBefore t offset → isIdentifierAt t[k]? = false := by
  induction offset with
  | zero => exact ⟨fun k _ high => absurd high (Nat.not_lt_zero k), fun k same => by omega⟩
  | succ last ih =>
    obtain ⟨run, free⟩ := ih (Nat.le_of_succ_le inside)
    have here := List.getElem?_eq_getElem inside
    rw [identifierBefore_succ here]
    split
    · next letter =>
      rw [Nat.add_sub_add_right]
      refine ⟨fun k low high => ?_, free⟩
      rcases Nat.lt_succ_iff_lt_or_eq.1 high with before | rfl
      · exact run k low before
      · rw [here]
        exact letter
    · next other =>
      refine ⟨fun k low high => by omega, fun k same => ?_⟩
      obtain rfl : k = last := by omega
      rw [here]
      exact Bool.eq_false_iff.2 other

/-- No identifier ends at an offset if the character before it does not belong to one. -/
theorem identifierBefore_eq_zero_iff :
    t.identifierBefore offset = 0 ↔ ∀ c ∈ (t.take offset).getLast?, isIdentifier c = false := by
  unfold identifierBefore
  rw [List.getLast?_eq_head?_reverse]
  cases (t.take offset).reverse with
  | nil => simp
  | cons c rest => cases letter : isIdentifier c <;> simp [letter]

/-! ## The scan to the right -/

/-- Where the scan ends, there is no identifier character. -/
theorem isIdentifierAt_length_takeWhile (t : Text) :
    isIdentifierAt t[(t.takeWhile isIdentifier).length]? = false := by
  induction t with
  | nil => rfl
  | cons c rest ih =>
    rw [List.takeWhile_cons]
    split
    · rw [List.length_cons, List.getElem?_cons_succ]
      exact ih
    · next other => exact Bool.eq_false_iff.2 other

/-- The scan passes every run that begins where the scan does. -/
theorem Spelled.le_takeWhile {start stop : Nat} (run : Spelled t start stop) :
    stop ≤ start + ((t.drop start).takeWhile isIdentifier).length := by
  by_contra further
  have free := isIdentifierAt_length_takeWhile (t.drop start)
  rw [List.getElem?_drop, run _ (Nat.le_add_right _ _) (Nat.lt_of_not_le further)] at free
  exact Bool.noConfusion free

/-! ## The word around an offset -/

/-- There is a word, maybe an empty one, at every offset inside a text. -/
theorem wordAround_of_le (inside : offset ≤ t.length) :
    wordAround t offset =
      .ok ⟨(t.drop (offset - t.identifierBefore offset)).takeWhile isIdentifier,
        offset - t.identifierBefore offset⟩ := by
  unfold wordAround
  rw [if_neg (Nat.not_lt.2 inside)]

/-- Behind the end of a text there is nothing to look for. -/
theorem wordAround_of_lt (behind : t.length < offset) :
    wordAround t offset = .error .wordPastEnd := by
  unfold wordAround
  rw [if_pos behind]

/-- The word that the two scans find touches the offset. -/
theorem touching_of_le (inside : offset ≤ t.length) :
    Touching t offset ⟨(t.drop (offset - t.identifierBefore offset)).takeWhile isIdentifier,
      offset - t.identifierBefore offset⟩ := by
  obtain ⟨run, free⟩ := spelled_identifierBefore inside
  refine ⟨?_, Nat.sub_le _ _, run.le_takeWhile, fun c => List.mem_takeWhile_imp, free, ?_⟩
  · dsimp only
    rw [List.extract_eq_take_drop, Nat.add_sub_cancel_left]
    exact List.prefix_iff_eq_take.1 (List.takeWhile_prefix _)
  · dsimp only
    rw [← List.getElem?_drop]
    exact isIdentifierAt_length_takeWhile _

/-- **A word is found at an offset of the text if and only if it touches the offset.** -/
theorem wordAround_eq_ok_iff :
    wordAround t offset = .ok word ↔ offset ≤ t.length ∧ Touching t offset word := by
  constructor
  · intro found
    by_cases inside : offset ≤ t.length
    · rw [wordAround_of_le inside] at found
      obtain rfl := Except.ok.inj found
      exact ⟨inside, touching_of_le inside⟩
    · rw [wordAround_of_lt (Nat.lt_of_not_le inside)] at found
      cases found
  · rintro ⟨inside, touching⟩
    rw [wordAround_of_le inside, (touching_of_le inside).unique touching]

/-- The word found at one offset is found at every offset from its beginning to its end. -/
theorem wordAround_of_touched (found : wordAround t offset = .ok word) {other : Nat}
    (low : word.offset ≤ other) (high : other ≤ word.offset + word.text.length) :
    wordAround t other = .ok word := by
  obtain ⟨inside, touching⟩ := wordAround_eq_ok_iff.1 found
  exact wordAround_eq_ok_iff.2
    ⟨Nat.le_trans high (touching.end_le inside), touching.moved low high⟩

/-- **The word around an offset is the longest run of identifier characters that touches it.** At
every offset of a text a word is found, which stands in the text at its own offset, reaches the
offset from either side, and goes on on neither side; every run that touches the offset lies inside
the word, and every offset from the beginning of the word to its end has the same word. Behind the
end of the text the search is a fault. -/
theorem wordAround_longest (t : Text) (offset : Nat) :
    (offset ≤ t.length → ∃ word, wordAround t offset = .ok word ∧ Touching t offset word ∧
      (∀ start stop, start ≤ offset → offset ≤ stop → Spelled t start stop →
        word.offset ≤ start ∧ stop ≤ word.offset + word.text.length) ∧
      ∀ other, word.offset ≤ other → other ≤ word.offset + word.text.length →
        wordAround t other = .ok word) ∧
    (t.length < offset → wordAround t offset = .error .wordPastEnd) ∧
    ∀ c, isIdentifier c = true ↔
      'a' ≤ c ∧ c ≤ 'z' ∨ 'A' ≤ c ∧ c ≤ 'Z' ∨ '0' ≤ c ∧ c ≤ '9' ∨ c = '_' ∨ c = '$' := by
  refine ⟨fun inside => ?_, wordAround_of_lt, fun c => isIdentifier_iff⟩
  have touching := touching_of_le inside
  have found := wordAround_of_le inside
  exact ⟨_, found, touching, fun start stop => touching.covers,
    fun other => wordAround_of_touched found⟩

/-- Between a dot and a letter beyond ASCII, a word of three signs is found from its end and from
its beginning. -/
theorem wordAround_longest_between :
    let t : Text := "a.$b9é c".toList
    5 ≤ t.length ∧
      (∃ word, word = ⟨"$b9".toList, 2⟩ ∧ wordAround t 5 = .ok word ∧ Touching t 5 word ∧
        wordAround t 2 = .ok word) ∧
      t.length < 9 ∧ wordAround t 9 = .error .wordPastEnd := by
  intro t
  obtain ⟨word, found, touching, -, same⟩ := (wordAround_longest t 5).1 (by decide)
  obtain rfl : ⟨"$b9".toList, 2⟩ = word := Except.ok.inj found
  exact ⟨by decide, ⟨_, rfl, found, touching, same 2 (by decide) (by decide)⟩, by decide,
    (wordAround_longest t 9).2.1 (by decide)⟩

end Text

end DialectBridge
