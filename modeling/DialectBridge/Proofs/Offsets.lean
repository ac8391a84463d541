import DialectBridge.Document
import DialectBridge.Proofs.EditedLines

/-!
# Offsets and lines

A text is what stands before one of its lines, the line, and what follows it. The first part is
empty or ends in a line feed, and the last part is empty or begins with one. This cut tells where
the offset of a place lies: the line begins where the lines above it end, and its text ends in front
of its line break. An offset of a document is always inside its text, and an offset on a line with
another line below it, or before the end of the last line, has a character behind it.
-/

set_option autoImplicit false

namespace DialectBridge

namespace Text

theorem extent_append (all more : List Text) : extent (all ++ more) = extent all + extent more := by
  induction all with
  | nil => simp [extent]
  | cons line rest ih =>
    rw [List.cons_append, extent, extent, ih]
    omega

theorem length_le_extent (all : List Text) : all.length ≤ extent all := by
  induction all with
  | nil => exact Nat.le_refl _
  | cons line rest ih =>
    rw [extent, List.length_cons]
    omega

/-- Further down more lines stand above. -/
theorem extent_take_mono (all : List Text) {i j : Nat} (le : i ≤ j) :
    extent (all.take i) ≤ extent (all.take j) := by
  obtain ⟨n, rfl⟩ := Nat.exists_eq_add_of_le le
  rw [List.take_add, extent_append]
  exact Nat.le_add_right _ _

theorem extent_take_succ {all : List Text} {k : Nat} {line : Text} (h : all[k]? = some line) :
    extent (all.take (k + 1)) = extent (all.take k) + line.length + 1 := by
  rw [List.take_add_one, h, extent_append, Nat.add_assoc]
  rfl

theorem length_joinLines {all : List Text} (some_ : all ≠ []) :
    (joinLines all).length + 1 = extent all := by
  induction all with
  | nil => exact absurd rfl some_
  | cons line rest ih =>
    cases rest with
    | nil => rfl
    | cons next more =>
      have later := ih (List.cons_ne_nil _ _)
      rw [joinLines_cons (List.cons_ne_nil _ _), extent, List.length_append, List.length_cons]
      omega

theorem extent_lines (t : Text) : extent (lines t) = t.length + 1 := by
  rw [← length_joinLines (lines_ne_nil t), joinLines_lines]

/-- Every line but the first begins behind a line feed, which is where the lines above it end. -/
theorem cons_breaksFrom (offset : Nat) (t : Text) :
    offset :: breaksFrom offset t =
      (List.range (lines t).length).map fun k => offset + extent ((lines t).take k) := by
  induction t generalizing offset with
  | nil => rfl
  | cons c rest ih =>
    have later := ih (offset + 1)
    by_cases feed : c = '\n'
    · rw [breaksFrom, lines, if_pos feed, if_pos feed, later, List.length_cons,
        List.range_succ_eq_map]
      simp [extent, Nat.add_assoc]
    · obtain ⟨line, more, split⟩ := List.exists_cons_of_ne_nil (lines_ne_nil rest)
      rw [split, List.length_cons, List.range_succ_eq_map] at later
      rw [breaksFrom, lines, if_neg feed, if_neg feed, split, List.length_cons,
        List.range_succ_eq_map]
      simp only [List.map_cons, List.map_map, List.take_zero, extent, List.cons.injEq] at later ⊢
      refine ⟨rfl, later.2.trans (List.map_congr_left fun k _ => ?_)⟩
      simp only [Function.comp_apply, List.take_succ_cons, extent, List.length_cons]
      omega

/-- A text cut at a line: what stands before it, the line, and what follows. -/
structure LineCut (all : List Text) (k : Nat) (line front rest : Text) : Prop where
  whole : joinLines all = front ++ line ++ rest
  size : front.length = extent (all.take k)
  before : front = [] ∨ front.getLast? = some '\n'
  behind : rest = [] ∧ all.length = k + 1 ∨ rest.head? = some '\n' ∧ k + 1 < all.length
  /-- Another line in its place leaves everything around it. -/
  replaced : ∀ new, joinLines (all.set k new) = front ++ new ++ rest

/-- Every line can be cut out. -/
theorem exists_lineCut {all : List Text} {k : Nat} {line : Text} (h : all[k]? = some line) :
    ∃ front rest, LineCut all k line front rest := by
  induction all generalizing k with
  | nil => cases h
  | cons first more ih =>
    cases k with
    | zero =>
      obtain rfl := Option.some.inj h
      cases more with
      | nil =>
        exact ⟨[], [], by simp [joinLines], rfl, .inl rfl, .inl ⟨rfl, rfl⟩, by simp [joinLines]⟩
      | cons next others =>
        refine ⟨[], '\n' :: joinLines (next :: others), rfl, rfl, .inl rfl, .inr ⟨rfl, ?_⟩,
          fun _ => rfl⟩
        simp only [List.length_cons]
        omega
    | succ k =>
      obtain ⟨front, rest, cut⟩ := ih h
      have some_ : more ≠ [] := by
        rintro rfl
        cases h
      refine ⟨first ++ '\n' :: front, rest, ?_, ?_, ?_, ?_, ?_⟩
      · rw [joinLines_cons some_, cut.whole]
        simp only [List.append_assoc, List.cons_append]
      · rw [List.take_succ_cons, extent, List.length_append, List.length_cons, cut.size]
        omega
      · right
        rcases cut.before with rfl | ending
        · simp
        · rw [List.getLast?_append, List.getLast?_cons, ending]
          rfl
      · rw [List.length_cons]
        rcases cut.behind with ⟨none_, size⟩ | ⟨feed, size⟩
        · exact .inl ⟨none_, by omega⟩
        · exact .inr ⟨feed, by omega⟩
      · intro new
        have others : more.set k new ≠ [] := by simpa using some_
        rw [List.set_cons_succ, joinLines_cons others, cut.replaced]
        simp only [List.append_assoc, List.cons_append]

/-- The characters of a line are characters of the text. -/
theorem mem_of_mem_lines {t line : Text} (h : line ∈ lines t) {c : Char} (inside : c ∈ line) :
    c ∈ t := by
  obtain ⟨k, found⟩ := List.mem_iff_getElem?.1 h
  obtain ⟨front, rest, cut⟩ := exists_lineCut found
  rw [← joinLines_lines t, cut.whole]
  exact List.mem_append_left _ (List.mem_append_right _ inside)

/-- Joined lines have no other characters than the lines and line feeds. -/
theorem mem_joinLines {all : List Text} {c : Char} (h : c ∈ joinLines all) :
    c = '\n' ∨ ∃ line ∈ all, c ∈ line := by
  induction all with
  | nil => exact absurd h List.not_mem_nil
  | cons line more ih =>
    cases more with
    | nil => exact .inr ⟨line, List.mem_singleton_self line, h⟩
    | cons next others =>
      rcases List.mem_append.1 h with here | later
      · exact .inr ⟨line, List.mem_cons_self, here⟩
      · rcases List.mem_cons.1 later with feed | rest
        · exact .inl feed
        · exact (ih rest).imp_right fun ⟨other, inside, member⟩ =>
            ⟨other, List.mem_cons_of_mem _ inside, member⟩

end Text

/-! ## Coordinates -/

/-- Coordinates up to the limit make a position. -/
theorem Position.make_natCast {line character : Nat} (hl : line ≤ 2147483647)
    (hc : character ≤ 2147483647) :
    Position.make line character = .ok ⟨line, character, hl, hc⟩ := by
  unfold Position.make
  rw [dif_pos ⟨Int.natCast_nonneg line, by omega⟩,
    dif_pos ⟨Int.natCast_nonneg character, by omega⟩]
  rfl

/-- A position that can be made has the coordinates it is made from. -/
theorem Position.coordinates_of_make {line character : Int} {p : Position}
    (h : Position.make line character = .ok p) :
    (p.line : Int) = line ∧ (p.character : Int) = character := by
  unfold Position.make at h
  split at h
  · next lineBounds =>
    split at h
    · next characterBounds =>
      cases h
      exact ⟨Int.toNat_of_nonneg lineBounds.1, Int.toNat_of_nonneg characterBounds.1⟩
    · cases h
  · cases h

/-- The position with two coordinates is there when both can be addressed. -/
theorem Position.make_eq_ok_iff {line character : Int} {p : Position} :
    Position.make line character = .ok p ↔
      (p.line : Int) = line ∧ (p.character : Int) = character := by
  refine ⟨Position.coordinates_of_make, ?_⟩
  rintro ⟨rfl, rfl⟩
  exact Position.make_natCast p.line_le p.character_le

/-- A position is not before another one if that is on a line above, or left of it on its line. -/
theorem Position.before_eq_false_iff {p q : Position} :
    q.before p = false ↔ p.line < q.line ∨ p.line = q.line ∧ p.character ≤ q.character := by
  unfold Position.before
  simp only [Bool.or_eq_false_iff, decide_eq_false_iff_not, Bool.and_eq_false_iff,
    beq_eq_false_iff_ne]
  omega

/-! ## Places of a document -/

namespace Document

variable {d : Document} {k : Nat} {line : Text}

/-- A line of a document can be cut out of its text. -/
theorem exists_cut (h : d.lines[k]? = some line) :
    ∃ front rest, Text.LineCut d.lines k line front rest ∧ d.text = front ++ line ++ rest := by
  obtain ⟨front, rest, cut⟩ := Text.exists_lineCut h
  have whole := cut.whole
  rw [Document.lines, Text.joinLines_lines] at whole
  exact ⟨front, rest, cut, whole⟩

/-- The lines begin where the lines above them end. -/
theorem lineOffsets_eq (d : Document) :
    d.lineOffsets = (List.range d.lines.length).map fun k => Text.extent (d.lines.take k) := by
  rw [lineOffsets, Text.cons_breaksFrom]
  simp [lines]

theorem lineCount_eq (d : Document) : d.lineCount = d.lines.length := by
  rw [lineCount, lineOffsets_eq, List.length_map, List.length_range]

theorem lineStart_eq (d : Document) (k : Nat) :
    d.lineStart k = Text.extent (d.lines.take k) := by
  rw [lineStart, lineOffsets_eq, List.getD_eq_getElem?_getD, List.getElem?_map]
  by_cases inside : k < d.lines.length
  · rw [List.getElem?_range inside]
    rfl
  · rw [List.getElem?_eq_none (by simpa using inside), List.take_of_length_le (by omega), lines,
      Text.extent_lines]
    rfl

theorem lineStart_mono (d : Document) {i j : Nat} (le : i ≤ j) : d.lineStart i ≤ d.lineStart j := by
  rw [lineStart_eq, lineStart_eq]
  exact Text.extent_take_mono _ le

/-- A line break stands between the end of a line and the beginning of the next one. -/
theorem lineStart_succ (h : d.lines[k]? = some line) :
    d.lineStart (k + 1) = d.lineStart k + line.length + 1 := by
  rw [lineStart_eq, lineStart_eq, Text.extent_take_succ h]

theorem lineCount_le_of_getElem? (outside : d.lines[k]? = none) : d.lineCount ≤ k := by
  rw [lineCount_eq]
  exact List.getElem?_eq_none_iff.1 outside

theorem not_lineCount_le (h : d.lines[k]? = some line) : ¬ d.lineCount ≤ k := by
  rw [lineCount_eq]
  exact Nat.not_le.2 (List.getElem?_eq_some_iff.1 h).1

/-- A line that does not exist has no text. -/
theorem lineText_of_none (outside : d.lines[k]? = none) : d.lineText k = [] := by
  rw [lineText, if_pos (lineCount_le_of_getElem? outside)]

/-- The text of a line ends with the line, or with its body where a line follows. -/
theorem lineEnd_of_getElem? (h : d.lines[k]? = some line) :
    k + 1 = d.lines.length ∧ d.lineEnd k = d.lineStart k + line.length ∨
      k + 1 < d.lines.length ∧ d.lineEnd k = d.lineStart k + (Text.body line).length := by
  obtain ⟨front, rest, cut, whole⟩ := exists_cut h
  have start : d.lineStart k = front.length := (d.lineStart_eq k).trans cut.size.symm
  unfold lineEnd
  rw [lineCount_eq, start]
  rcases cut.behind with ⟨rfl, last⟩ | ⟨-, more⟩
  · rw [if_neg (by omega), whole]
    exact .inl ⟨last.symm, by simp⟩
  · have next : d.lineStart (k + 1) = front.length + line.length + 1 := by
      rw [lineStart_succ h, start]
    -- The character in front of the line break is the last one of the line, if it has one.
    have last : front.length < front.length + line.length ∧
        d.text[front.length + line.length - 1]? = some '\r' ↔ line.getLast? = some '\r' := by
      cases size : line.length with
      | zero => simp [List.length_eq_zero_iff.1 size]
      | succ n =>
        have inLine : front.length + (n + 1) - 1 - front.length = n := by omega
        rw [whole, List.append_assoc, List.getElem?_append_right (by omega), inLine,
          List.getElem?_append_left (by omega), List.getLast?_eq_getElem?, size,
          Nat.add_sub_cancel, and_iff_right (by omega)]
    simp only [if_pos more, next, Nat.add_sub_cancel, last]
    refine .inr ⟨more, ?_⟩
    unfold Text.body
    split
    · next return_ =>
      obtain ⟨init, rfl⟩ := List.getLast?_eq_some_iff.1 return_
      simp
    · rfl

/-- The text of a line is the line, or its body where a line follows. -/
theorem lineText_of_getElem? (h : d.lines[k]? = some line) :
    d.lineText k = line ∧ k + 1 = d.lines.length ∨
      d.lineText k = Text.body line ∧ k + 1 < d.lines.length := by
  obtain ⟨front, rest, cut, whole⟩ := exists_cut h
  have start : d.lineStart k = front.length := (d.lineStart_eq k).trans cut.size.symm
  have slice : ∀ shown hidden, line = shown ++ hidden →
      d.lineEnd k = d.lineStart k + shown.length → d.lineText k = shown := by
    rintro shown hidden rfl ends
    rw [lineText, if_neg (not_lineCount_le h), ends, start, whole, List.append_assoc,
      List.append_assoc, List.take_length_add_append, List.drop_left]
    exact List.take_left
  rcases lineEnd_of_getElem? h with ⟨last, ends⟩ | ⟨more, ends⟩
  · exact .inl ⟨slice line [] (List.append_nil line).symm ends, last⟩
  · exact .inr ⟨slice _ _ (Text.body_append_tail line).symm ends, more⟩

/-- The text of a line reaches from its beginning to its end. -/
theorem lineEnd_eq (h : d.lines[k]? = some line) :
    d.lineEnd k = d.lineStart k + (d.lineText k).length := by
  rcases lineEnd_of_getElem? h with ⟨last, ends⟩ | ⟨more, ends⟩
  · rcases lineText_of_getElem? h with ⟨same, -⟩ | ⟨-, less⟩
    · rw [ends, same]
    · omega
  · rcases lineText_of_getElem? h with ⟨-, last⟩ | ⟨same, -⟩
    · omega
    · rw [ends, same]

/-- At most a final carriage return of a line is not part of its text. -/
theorem exists_eq_lineText_append (h : d.lines[k]? = some line) :
    ∃ ending, line = d.lineText k ++ ending ∧ (ending = [] ∨ ending = ['\r']) := by
  rcases lineText_of_getElem? h with ⟨same, -⟩ | ⟨same, -⟩
  · refine ⟨[], ?_, .inl rfl⟩
    rw [same, List.append_nil]
  · refine ⟨Text.tail line, ?_, Text.tail_eq line⟩
    rw [same, Text.body_append_tail]

theorem lineText_front (h : d.lines[k]? = some line) : d.lineText k <+: line := by
  obtain ⟨ending, whole, -⟩ := exists_eq_lineText_append h
  exact ⟨ending, whole.symm⟩

/-- The text of a line whose line break is known. -/
theorem lineText_eq {text ending : Text} (found : d.lines[k]? = some (text ++ ending))
    (last : text.getLast? ≠ some '\r')
    (ends : ending = [] ∨ ending = ['\r'] ∧ k + 1 < d.lines.length) : d.lineText k = text := by
  rcases lineText_of_getElem? found with ⟨same, bottom⟩ | ⟨same, -⟩
  · rcases ends with rfl | ⟨-, more⟩
    · rw [same, List.append_nil]
    · omega
  · rcases ends with rfl | ⟨rfl, -⟩
    · rw [same, List.append_nil, Text.body_of_getLast?_ne last]
    · rw [same, Text.body_append_return]

/-- Only a line above another one has a carriage return that is not part of its text. -/
theorem lt_of_lineText_ne (found : d.lines[k]? = some line) (other : d.lineText k ≠ line) :
    k + 1 < d.lines.length :=
  (lineText_of_getElem? found).elim (fun bottom => absurd bottom.1 other) And.right

/-- The offset of a place on a line is inside the line. -/
theorem offsetOf_of_getElem? (h : d.lines[k]? = some line) (character : Nat) :
    d.offsetOf k character =
      Text.extent (d.lines.take k) + min character (d.lineText k).length := by
  rw [offsetOf, if_neg (not_lineCount_le h), lineEnd_eq h, lineStart_eq]
  omega

/-- All places of a line that does not exist are the end of the text. -/
theorem offsetOf_of_none (outside : d.lines[k]? = none) (character : Nat) :
    d.offsetOf k character = d.text.length := by
  rw [offsetOf, if_pos (lineCount_le_of_getElem? outside)]

/-- Along its line, columns and offsets go together. -/
theorem offsetOf_add {column width : Nat} (inside : column + width ≤ (d.lineText k).length) :
    d.offsetOf k (column + width) = d.offsetOf k column + width := by
  cases here : d.lines[k]? with
  | none =>
    rw [lineText_of_none here, List.length_nil] at inside
    obtain rfl : width = 0 := by omega
    rfl
  | some line =>
    rw [offsetOf_of_getElem? here, offsetOf_of_getElem? here]
    omega

/-- Behind the end of a line all places are the same. -/
theorem offsetOf_of_far {column further : Nat} (far : (d.lineText k).length ≤ column)
    (behind : column ≤ further) : d.offsetOf k further = d.offsetOf k column := by
  cases here : d.lines[k]? with
  | none => rw [offsetOf_of_none here, offsetOf_of_none here]
  | some line =>
    rw [offsetOf_of_getElem? here, offsetOf_of_getElem? here, Nat.min_eq_right far,
      Nat.min_eq_right (Nat.le_trans far behind)]

/-! ## The line of an offset -/

/-- **Halving finds the line of an offset**: the line begins at the offset or before it, and the
next line begins behind the offset. -/
theorem lineOf_separates {offset : Nat} (inside : offset ≤ d.text.length) :
    d.lineOf offset < d.lines.length ∧ d.lineStart (d.lineOf offset) ≤ offset ∧
      offset < d.lineStart (d.lineOf offset + 1) := by
  let entries := d.lineOffsets.map Int.ofNat
  have size : entries.length = d.lines.length := by
    rw [List.length_map, ← lineCount_eq]
    rfl
  have entry : ∀ i (h : i < entries.length), entries[i] = d.lineStart i := by
    intro i h
    rw [List.length_map] at h
    rw [lineStart, ← List.getElem_eq_getD (h := h)]
    simp [entries]
  have sorted : entries.Pairwise (· ≤ ·) := by
    refine List.pairwise_iff_getElem.2 fun i j hi hj less => ?_
    rw [entry, entry]
    exact Int.ofNat_le.2 (d.lineStart_mono (Nat.le_of_lt less))
  obtain ⟨bound, before, behind⟩ :=
    Bisection.placeBetween_separates sorted offset 0 entries.length (Nat.le_refl _)
      (Nat.zero_le _) (fun i _ less => absurd less (Nat.not_lt_zero i))
      fun i h le => absurd h (Nat.not_lt.2 le)
  change Bisection.place entries offset ≤ entries.length at bound
  have some_ : 0 < entries.length := by
    rw [size]
    exact List.length_pos_iff.2 (Text.lines_ne_nil _)
  -- The first line begins at the beginning of the text, so the place is behind it.
  have positive : 0 < Bisection.place entries offset := by
    refine Nat.pos_of_ne_zero fun none_ => ?_
    have first := behind 0 some_ (Nat.le_of_eq none_)
    rw [entry] at first
    exact absurd first (by simp [lineStart, lineOffsets])
  have line : d.lineOf offset + 1 = Bisection.place entries offset :=
    Nat.sub_add_cancel positive
  have number : d.lineOf offset < entries.length := by omega
  have begins := before _ number (by unfold Bisection.place at line; omega)
  rw [entry] at begins
  refine ⟨by omega, Int.ofNat_le.1 begins, ?_⟩
  by_cases more : d.lineOf offset + 1 < entries.length
  · have next := behind _ more (Nat.le_of_eq line.symm)
    rw [entry] at next
    exact Int.ofNat_lt.1 next
  · rw [lineStart_eq, List.take_of_length_le (by omega), lines, Text.extent_lines]
    omega

/-- There are at least as many characters before a line as there are lines. -/
theorem le_lineStart (h : k ≤ d.lines.length) : k ≤ d.lineStart k := by
  have many := Text.length_le_extent (d.lines.take k)
  rwa [List.length_take, Nat.min_eq_left h, ← lineStart_eq] at many

/-- The position of an offset is its line, and its distance from the beginning of the line. -/
theorem positionAt_eq (d : Document) (offset : Int) :
    d.positionAt offset = Position.make (d.lineOf (d.clamp offset))
      (d.clamp offset - d.lineStart (d.lineOf (d.clamp offset)) : Nat) := by
  have inside : d.clamp offset ≤ d.text.length := Nat.min_le_right _ _
  rw [Int.ofNat_sub (lineOf_separates inside).2.1]
  rfl

/-! ## Offsets of places -/

/-- Offsets are inside the text. -/
theorem offsetOf_le (d : Document) (k character : Nat) :
    d.offsetOf k character ≤ d.text.length := by
  cases found : d.lines[k]? with
  | none => rw [offsetOf_of_none found]
  | some line =>
    obtain ⟨front, rest, cut, whole⟩ := exists_cut found
    have short := (lineText_front found).length_le
    have size := cut.size
    rw [offsetOf_of_getElem? found, whole, List.length_append, List.length_append]
    omega

/-- Behind an offset that is not the end of the last line there is a character. -/
theorem offsetOf_lt (h : d.lines[k]? = some line) {character : Nat}
    (room : k + 1 < d.lines.length ∨ character < line.length) :
    d.offsetOf k character < d.text.length := by
  obtain ⟨front, rest, cut, whole⟩ := exists_cut h
  have short := (lineText_front h).length_le
  have size := cut.size
  rw [offsetOf_of_getElem? h, whole, List.length_append, List.length_append]
  rcases cut.behind with ⟨-, last⟩ | ⟨feed, -⟩
  · rcases room with more | inside
    · omega
    · omega
  · cases rest with
    | nil => cases feed
    | cons c others =>
      rw [List.length_cons]
      omega

end Document

end DialectBridge
