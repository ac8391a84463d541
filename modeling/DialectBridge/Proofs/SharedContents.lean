import DialectBridge.Proofs.MonotoneMaps
import DialectBridge.Proofs.Sketching

/-!
# Lines with a shared content

The content of a line is cut out of it at both ends, so it occurs in the line. It may occur further
left than where it was cut out, since what is cut off can begin with it; the first occurrence is the
one that counts, in the line as well as in the line that is found for it.

A line is looked up among the lines of a text by its content. It is not found if it has no content
or shares it with none of them, and else the first of those that share it is found. The column keeps
its distance to the first occurrence of the content, so that a column inside the content leads to
the same character (`position?_by_content`). The only thing that can go wrong is that the place
found cannot be addressed: a column far behind the content moves further right when the line that is
found is indented deeper.
-/

set_option autoImplicit false

namespace DialectBridge

namespace Text

variable {needle t : Text} {i : Nat}

/-! ## First occurrences -/

/-- A text begins at an offset of another one, and at no offset before. -/
structure FirstAt (needle t : Text) (i : Nat) : Prop where
  here : needle <+: t.drop i
  first : ∀ j < i, ¬ needle <+: t.drop j

theorem firstAt_of_find? (h : find? needle t = some i) : FirstAt needle t i := by
  induction t generalizing i with
  | nil =>
    unfold find? at h
    split at h
    · next empty =>
      obtain rfl := Option.some.inj h
      rw [List.isEmpty_iff.1 empty]
      exact ⟨List.nil_prefix, fun k less => absurd less (Nat.not_lt_zero k)⟩
    · cases h
  | cons c rest ih =>
    unfold find? at h
    split at h
    · next begins =>
      obtain rfl := Option.some.inj h
      exact ⟨List.isPrefixOf_iff_prefix.1 begins, fun k less => absurd less (Nat.not_lt_zero k)⟩
    · next later =>
      obtain ⟨j, found, rfl⟩ := Option.map_eq_some_iff.1 h
      obtain ⟨here, first⟩ := ih found
      refine ⟨here, fun k less => ?_⟩
      cases k with
      | zero => exact fun begins => later (List.isPrefixOf_iff_prefix.2 begins)
      | succ k => exact first k (Nat.lt_of_succ_lt_succ less)

/-- There is one first occurrence. -/
theorem FirstAt.eq {j : Nat} (h : FirstAt needle t i) (h' : FirstAt needle t j) : i = j := by
  rcases Nat.lt_trichotomy i j with before | same | behind
  · exact absurd h.here (h'.first i before)
  · exact same
  · exact absurd h'.here (h.first j behind)

/-- What occurs in a text is found there. -/
theorem exists_find?_of_infix (h : needle <:+: t) : ∃ i, find? needle t = some i := by
  rw [← Option.isSome_iff_exists]
  by_contra absent
  exact not_infix_of_occursIn (Bool.not_eq_true _ ▸ absent) h

/-- The characters behind the beginning of an occurrence are those of the text that occurs. -/
theorem FirstAt.getElem?_add (h : FirstAt needle t i) {k : Nat} (inside : k < needle.length) :
    t[i + k]? = needle[k]? := by
  obtain ⟨rest, whole⟩ := h.here
  rw [← List.getElem?_drop, ← whole, List.getElem?_append_left inside]

end Text

namespace LineContent

variable {line inText found : Text} {i : Nat}

/-! ## The content of a line -/

theorem dropOpening_suffix (t : Text) : dropOpening t <:+ t := by
  unfold dropOpening
  split
  · exact ⟨['/', '/'], rfl⟩
  · exact ⟨['/', '*'], rfl⟩
  · exact ⟨['*'], rfl⟩
  · exact List.dropWhile_suffix _

theorem dropClosing_front (t : Text) : dropClosing t <+: t := by
  unfold dropClosing
  split
  · exact List.take_prefix _ _
  · split
    · exact List.take_prefix _ _
    · exact List.prefix_refl t

/-- **The content of a line occurs in it.** -/
theorem content_inside (line : Text) : content line <:+: line := by
  have opened : dropOpening (Text.trimLeft line) <:+ line :=
    (dropOpening_suffix _).trans (List.dropWhile_suffix _)
  have trimmed : Text.trim (dropOpening (Text.trimLeft line)) <:+:
      dropOpening (Text.trimLeft line) :=
    (Text.trimRight_front _).isInfix.trans (List.dropWhile_suffix _).isInfix
  have closed : content line <+: Text.trim (dropOpening (Text.trimLeft line)) :=
    (Text.trimRight_front _).trans (dropClosing_front _)
  exact closed.isInfix.trans (trimmed.trans opened.isInfix)

/-- The first occurrence of the content of a line. -/
theorem exists_firstAt (line : Text) :
    ∃ a, Text.find? (content line) line = some a ∧ Text.FirstAt (content line) line a := by
  obtain ⟨a, known⟩ := Text.exists_find?_of_infix (content_inside line)
  exact ⟨a, known, Text.firstAt_of_find? known⟩

/-! ## The line that is found -/

/-- The first line of a text that has a content. -/
structure FirstWith (wanted inText : Text) (i : Nat) (found : Text) : Prop where
  known : (Text.lines inText)[i]? = some found
  shares : content found = wanted
  first : ∀ j < i, ∀ other, (Text.lines inText)[j]? = some other → content other ≠ wanted

theorem FirstWith.findLine?_eq {wanted : Text} (h : FirstWith wanted inText i found) :
    findLine? wanted (Text.lines inText) = some (found, i) := by
  obtain ⟨bound, here⟩ := List.getElem?_eq_some_iff.1 h.known
  have place : i < (Text.lines inText).zipIdx.length := by rwa [List.length_zipIdx]
  rw [findLine?, List.find?_eq_some_iff_getElem]
  refine ⟨beq_iff_eq.2 h.shares, i, place, by rw [List.getElem_zipIdx, here, Nat.zero_add], ?_⟩
  intro j less
  have before : (Text.lines inText)[j]? = some (Text.lines inText)[j] :=
    List.getElem?_eq_getElem (Nat.lt_trans less bound)
  rw [List.getElem_zipIdx, Bool.not_eq_true', beq_eq_false_iff_ne]
  exact h.first j less _ before

/-- The place that shares the content of a line: as far from the first occurrence in the line that
is found as the character is from the one in the line, but not before the line. -/
theorem FirstWith.position?_eq (h : FirstWith (content line) inText i found)
    (some_ : content line ≠ []) {a b : Nat} (here : Text.find? (content line) line = some a)
    (there : Text.find? (content line) found = some b) (character : Nat) :
    position? character line inText =
      (Position.make i (max ((character : Int) - a + b) 0)).map some := by
  unfold position?
  dsimp only
  rw [if_neg (by rwa [List.isEmpty_iff]), h.findLine?_eq]
  dsimp only
  rw [here, there]
  rfl

/-- A line is not found exactly when it has no content or shares it with no line. -/
theorem position?_eq_none_iff {character : Nat} :
    position? character line inText = .ok none ↔
      content line = [] ∨ ∀ other ∈ Text.lines inText, content other ≠ content line := by
  refine ⟨fun missing => ?_, ToSource.contentPosition?_eq_none character⟩
  unfold position? at missing
  dsimp only at missing
  split at missing
  · next empty => exact .inl (List.isEmpty_iff.1 empty)
  · split at missing
    · next nowhere =>
      refine .inr fun other inside same => ?_
      obtain ⟨k, known⟩ := List.mem_iff_getElem?.1 inside
      have entry : (other, k) ∈ (Text.lines inText).zipIdx := List.mem_zipIdx_iff_getElem?.2 known
      exact List.find?_eq_none.1 nowhere _ entry (beq_iff_eq.2 same)
    · next found number known =>
      cases made : Position.make number (max _ 0) with
      | error fault =>
        rw [made] at missing
        cases missing
      | ok p =>
        rw [made] at missing
        cases missing

/-- **Looking a line up by its content is sound and complete.** The content of every line occurs in
it. A line is not found exactly when it has no content or shares it with no line of the text. Else,
let the first line that shares it be given, and the first occurrences of the content in both lines.
There is an answer exactly when the place it names can be addressed. It is on that line, at the same
distance to the content, and a character of the content is mapped to the same character. -/
theorem position?_by_content (sought inText : Text) :
    (∀ other : Text, content other <:+: other) ∧
    (∀ character, position? character sought inText = .ok none ↔
      content sought = [] ∨ ∀ other ∈ Text.lines inText, content other ≠ content sought) ∧
    ∀ i found, content sought ≠ [] → FirstWith (content sought) inText i found →
      ∃ a b, Text.FirstAt (content sought) sought a ∧ Text.FirstAt (content sought) found b ∧
        ∀ character,
          ((∃ p, position? character sought inText = .ok (some p)) ↔
            i ≤ Position.limit ∧ character + b ≤ Position.limit + a) ∧
          ∀ p, position? character sought inText = .ok (some p) →
            p.line = i ∧ (p.character : Int) = max ((character : Int) - a + b) 0 ∧
              ∀ k < (content sought).length, character = a + k →
                ∃ c, sought[character]? = some c ∧ found[p.character]? = some c := by
  refine ⟨content_inside, fun character => position?_eq_none_iff, fun i found some_ first => ?_⟩
  obtain ⟨a, here, at_⟩ := exists_firstAt sought
  obtain ⟨b, there, at'⟩ := exists_firstAt found
  rw [first.shares] at there at'
  refine ⟨a, b, at_, at', fun character => ?_⟩
  have answers : ∀ p, position? character sought inText = .ok (some p) ↔
      (p.line : Int) = i ∧ (p.character : Int) = max ((character : Int) - a + b) 0 := by
    intro p
    rw [first.position?_eq some_ here there, ← Position.make_eq_ok_iff]
    cases Position.make i (max ((character : Int) - a + b) 0) with
    | error fault => simp [Except.map]
    | ok q => simp [Except.map]
  refine ⟨⟨?_, ?_⟩, fun p made => ?_⟩
  · rintro ⟨p, made⟩
    obtain ⟨line_, column⟩ := (answers p).1 made
    have lineBound := p.line_le
    have columnBound := p.character_le
    unfold Position.limit
    omega
  · rintro ⟨lineBound, columnBound⟩
    unfold Position.limit at lineBound columnBound
    refine ⟨⟨i, character + b - a, lineBound, by omega⟩, (answers _).2 ⟨rfl, ?_⟩⟩
    dsimp only
    omega
  · obtain ⟨line_, column⟩ := (answers p).1 made
    refine ⟨Int.ofNat.inj line_, column, ?_⟩
    rintro k inside rfl
    have place : p.character = b + k := by omega
    rw [place, at_.getElem?_add inside, at'.getElem?_add inside]
    exact ⟨_, List.getElem?_eq_getElem inside, List.getElem?_eq_getElem inside⟩

/-- A column of a comment's content leads to the same character of the line that continues a block
comment. -/
theorem position?_by_content_of_block :
    let sought := "  # hello world".toList
    let inText := "/*\n * hello world\n */".toList
    content sought ≠ [] ∧ FirstWith (content sought) inText 1 " * hello world".toList ∧
      ∃ p, position? 6 sought inText = .ok (some p) ∧ p.line = 1 ∧
        ∃ c, sought[6]? = some c ∧ " * hello world".toList[p.character]? = some c := by
  intro sought inText
  have some_ : content sought ≠ [] := by decide
  have first : FirstWith (content sought) inText 1 " * hello world".toList := by
    refine ⟨by decide, by decide, fun j less other known => ?_⟩
    obtain rfl : j = 0 := by omega
    obtain rfl : other = "/*".toList := Option.some.inj (known.symm.trans (by decide))
    decide
  obtain ⟨a, b, at_, at', answers⟩ := (position?_by_content sought inText).2.2 1 _ some_ first
  obtain rfl : a = 4 := at_.eq (Text.firstAt_of_find? (by decide))
  obtain rfl : b = 3 := at'.eq (Text.firstAt_of_find? (by decide))
  obtain ⟨p, made⟩ := (answers 6).1.2 (by decide)
  obtain ⟨number, -, same⟩ := (answers 6).2 p made
  exact ⟨some_, first, p, made, number, same 2 (by decide) rfl⟩

/-- A column that can be addressed may lead to one that cannot, on a line that is indented
deeper. -/
theorem position?_beyond_limit :
    FirstWith (content ['a']) [' ', 'a'] 0 [' ', 'a'] ∧
      position? Position.limit ['a'] [' ', 'a'] =
        .error (.characterOutOfRange (Position.limit + 1 : Nat)) := by
  exact ⟨⟨by decide, by decide, fun j less => absurd less (Nat.not_lt_zero j)⟩, by decide⟩

end LineContent

end DialectBridge
