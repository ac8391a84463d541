import DialectBridge.Proofs.Offsets

/-!
# Addressing goes both ways

The offsets of a text and the places on its lines convert into each other. The position of an offset
counts the line feeds in front of it, and the characters behind the last one of them. Going back
leads to the offset again, with one exception: between a carriage return and its line feed there is
no place of a line, so the offset there has the position of the end of the line, which is in front
of the carriage return. All places of lines come back as they are.

Both conversions keep the reading order. Offsets have different positions; positions may have the
same offset, behind the end of a line and below the last line.
-/

set_option autoImplicit false

namespace DialectBridge

namespace Text

/-- The last line of a text begins at an offset: behind the last line feed, or at the beginning of a
text without one. -/
structure LastLineBegins (t : Text) (s : Nat) : Prop where
  behind_feed : s = 0 ∨ ∃ j, s = j + 1 ∧ t[j]? = some '\n'
  unbroken : '\n' ∉ t.drop s

/-- Two characters around an offset. -/
theorem around_eq_iff {t : Text} {o : Nat} {a b : Char} :
    (t.take (o + 1)).drop (o - 1) = [a, b] ↔
      0 < o ∧ t[o - 1]? = some a ∧ t[o]? = some b := by
  cases o with
  | zero => cases t <;> simp
  | succ n =>
    have back : n + 1 + 1 - n = 2 := by omega
    rw [Nat.add_sub_cancel, List.drop_take, back, and_iff_right (Nat.succ_pos n)]
    have here : (t.drop n)[0]? = t[n]? := by rw [List.getElem?_drop, Nat.add_zero]
    have next : (t.drop n)[1]? = t[n + 1]? := List.getElem?_drop
    rw [← here, ← next]
    rcases t.drop n with _ | ⟨c, _ | ⟨d, rest⟩⟩
    · simp
    · simp
    · simp

end Text

namespace Document

variable {d : Document} {k o : Nat} {line : Text}

/-! ## Texts up to an offset -/

/-- Up to a place of a line stand the lines above and the front of the line. -/
theorem take_lineStart_add (h : d.lines[k]? = some line) {c : Nat} (inside : c ≤ line.length) :
    d.text.take (d.lineStart k + c) = d.text.take (d.lineStart k) ++ line.take c := by
  obtain ⟨front, rest, cut, whole⟩ := exists_cut h
  rw [(d.lineStart_eq k).trans cut.size.symm, whole, List.append_assoc,
    List.take_length_add_append, List.take_left, List.take_append_of_le_length inside]

/-- The characters of a line stand behind its beginning. -/
theorem getElem?_lineStart_add {own : Text} (h : d.lines[k]? = some own) {i : Nat}
    (less : i < own.length) : d.text[d.lineStart k + i]? = own[i]? := by
  obtain ⟨front, rest, cut, whole⟩ := exists_cut h
  rw [(d.lineStart_eq k).trans cut.size.symm, whole, List.append_assoc,
    List.getElem?_append_right (Nat.le_add_right _ _), Nat.add_sub_cancel_left,
    List.getElem?_append_left less]

/-- The character behind a line that has another one below it is a line feed. -/
theorem getElem?_of_lt (h : d.lines[k]? = some line) (more : k + 1 < d.lines.length) :
    d.text[d.lineStart k + line.length]? = some '\n' := by
  obtain ⟨front, rest, cut, whole⟩ := exists_cut h
  rcases cut.behind with ⟨-, last⟩ | ⟨feed, -⟩
  · omega
  · rw [(d.lineStart_eq k).trans cut.size.symm, whole, ← List.length_append,
      List.getElem?_append_right (Nat.le_refl _), Nat.sub_self, ← List.head?_eq_getElem?, feed]

/-- A line begins behind as many line feeds as there are lines above it. -/
theorem count_take_lineStart (h : k < d.lines.length) :
    (d.text.take (d.lineStart k)).count '\n' = k := by
  induction k with
  | zero => rfl
  | succ k ih =>
    have found := List.getElem?_eq_getElem (Nat.lt_of_succ_lt h)
    have feed := getElem?_of_lt found h
    have clean := Text.not_mem_of_mem_lines (List.getElem_mem (Nat.lt_of_succ_lt h))
    rw [lineStart_succ found, List.take_add_one, feed, take_lineStart_add found (Nat.le_refl _),
      List.take_length, List.count_append, List.count_append, ih (Nat.lt_of_succ_lt h),
      List.count_eq_zero_of_not_mem clean]
    rfl

/-- Up to a place of a line there are as many line feeds as there are lines above it. -/
theorem count_take_add (h : d.lines[k]? = some line) {c : Nat} (inside : c ≤ line.length) :
    (d.text.take (d.lineStart k + c)).count '\n' = k := by
  have clean : '\n' ∉ line.take c := fun member =>
    Text.not_mem_of_mem_lines (List.mem_of_getElem? h) (List.mem_of_mem_take member)
  rw [take_lineStart_add h inside, List.count_append,
    count_take_lineStart (List.getElem?_eq_some_iff.1 h).1, List.count_eq_zero_of_not_mem clean,
    Nat.add_zero]

/-- Up to a place of a line, the last line is that line. -/
theorem lastLineBegins (h : d.lines[k]? = some line) {c : Nat} (inside : c ≤ line.length) :
    Text.LastLineBegins (d.text.take (d.lineStart k + c)) (d.lineStart k) where
  behind_feed := by
    cases k with
    | zero => exact .inl rfl
    | succ k =>
      have bound := (List.getElem?_eq_some_iff.1 h).1
      have above := List.getElem?_eq_getElem (Nat.lt_of_succ_lt bound)
      refine .inr ⟨_, lineStart_succ above, ?_⟩
      rw [List.getElem?_take_of_lt (by rw [lineStart_succ above]; omega)]
      exact getElem?_of_lt above bound
  unbroken := by
    have within : d.lineStart k ≤ d.text.length := by
      obtain ⟨front, rest, cut, whole⟩ := exists_cut h
      rw [lineStart_eq, ← cut.size, whole, List.length_append, List.length_append]
      omega
    have size : (d.text.take (d.lineStart k)).length = d.lineStart k :=
      List.length_take_of_le within
    rw [take_lineStart_add h inside, List.drop_append_of_le_length (Nat.le_of_eq size.symm),
      List.drop_eq_nil_of_le (Nat.le_of_eq size), List.nil_append]
    exact fun member =>
      Text.not_mem_of_mem_lines (List.mem_of_getElem? h) (List.mem_of_mem_take member)

/-! ## From offsets to positions -/

/-- Every offset of the text is a place of its line, or the one behind its last character. -/
theorem exists_place (inside : o ≤ d.text.length) :
    ∃ k line c, d.lineOf o = k ∧ d.lines[k]? = some line ∧ c ≤ line.length ∧
      o = d.lineStart k + c := by
  obtain ⟨number, begins, ends⟩ := lineOf_separates inside
  have found := List.getElem?_eq_getElem number
  rw [lineStart_succ found] at ends
  exact ⟨_, _, o - d.lineStart (d.lineOf o), rfl, found, by omega, by omega⟩

/-- The line of a place is the line it was made on. -/
theorem lineOf_add (h : d.lines[k]? = some line) {c : Nat} (inside : c ≤ line.length)
    (inText : d.lineStart k + c ≤ d.text.length) : d.lineOf (d.lineStart k + c) = k := by
  obtain ⟨-, begins, ends⟩ := lineOf_separates inText
  have next := lineStart_succ h
  rcases Nat.lt_trichotomy (d.lineOf (d.lineStart k + c)) k with less | same | more
  · have := d.lineStart_mono (show d.lineOf _ + 1 ≤ k from less)
    omega
  · exact same
  · have := d.lineStart_mono (show k + 1 ≤ d.lineOf _ from more)
    omega

/-- In a text that can be addressed, every offset has a position. -/
theorem positionAt_of_le (inside : o ≤ d.text.length) (small : d.text.length ≤ 2147483647) :
    ∃ p, d.positionAt o = .ok p ∧ p.line = d.lineOf o ∧
      p.character = o - d.lineStart (d.lineOf o) := by
  obtain ⟨number, begins, -⟩ := lineOf_separates inside
  have few := le_lineStart (Nat.le_of_lt number)
  have unmoved : d.clamp o = o := by
    unfold clamp
    omega
  rw [positionAt_eq, unmoved, Position.make_natCast (by omega) (by omega)]
  exact ⟨_, rfl, rfl, rfl⟩

/-- **Later offsets have later positions.** -/
theorem positionAt_before {o' : Nat} (less : o < o') (inside : o' ≤ d.text.length)
    (small : d.text.length ≤ 2147483647) {p p' : Position} (first : d.positionAt o = .ok p)
    (second : d.positionAt o' = .ok p') : p.before p' = true := by
  have inside' : o ≤ d.text.length := by omega
  obtain ⟨q, made, line, column⟩ := positionAt_of_le inside' small
  obtain ⟨q', made', line', column'⟩ := positionAt_of_le inside small
  obtain rfl := Except.ok.inj (first.symm.trans made)
  obtain rfl := Except.ok.inj (second.symm.trans made')
  obtain ⟨-, begins, ends⟩ := lineOf_separates inside'
  obtain ⟨-, begins', ends'⟩ := lineOf_separates inside
  unfold Position.before
  rcases Nat.lt_trichotomy (d.lineOf o) (d.lineOf o') with above | same | below
  · simp [line, line', above]
  · have further : p.character < p'.character := by
      rw [same] at begins column
      omega
    simp [line, line', same, further]
  · have := d.lineStart_mono (show d.lineOf o' + 1 ≤ d.lineOf o from below)
    omega

/-! ## From positions to offsets -/

/-- A line break of two characters is split only at the end of a line with another one below it. -/
theorem splits_break_iff (h : d.lines[k]? = some line) {c : Nat} (inside : c ≤ line.length) :
    (0 < d.lineStart k + c ∧ d.text[d.lineStart k + c - 1]? = some '\r' ∧
        d.text[d.lineStart k + c]? = some '\n') ↔
      c = line.length ∧ line.getLast? = some '\r' ∧ k + 1 < d.lines.length := by
  constructor
  · rintro ⟨positive, return_, feed⟩
    obtain rfl : c = line.length := by
      refine Nat.le_antisymm inside (Nat.le_of_not_lt fun less => ?_)
      rw [getElem?_lineStart_add h less] at feed
      exact Text.not_mem_of_mem_lines (List.mem_of_getElem? h) (List.mem_of_getElem? feed)
    obtain ⟨front, rest, cut, whole⟩ := exists_cut h
    have start : d.lineStart k = front.length := (d.lineStart_eq k).trans cut.size.symm
    refine ⟨rfl, ?_, ?_⟩
    · rcases List.eq_nil_or_concat' line with rfl | ⟨init, last, rfl⟩
      · -- In front of an empty line there is the line feed of the line above, or nothing.
        rw [List.length_nil, Nat.add_zero, start] at positive return_
        rcases cut.before with rfl | ending
        · exact absurd positive (Nat.lt_irrefl 0)
        · rw [whole, List.append_assoc, List.getElem?_append_left (by omega),
            ← List.getLast?_eq_getElem?, ending] at return_
          exact absurd (Option.some.inj return_) (by decide)
      · rw [List.length_append, List.length_singleton, ← Nat.add_assoc, Nat.add_sub_cancel,
          getElem?_lineStart_add h (by simp), List.getElem?_concat_length] at return_
        rw [List.getLast?_concat, return_]
    · rcases cut.behind with ⟨rfl, -⟩ | ⟨-, more⟩
      · rw [start, whole, List.append_nil, ← List.length_append,
          List.getElem?_eq_none (Nat.le_refl _)] at feed
        cases feed
      · exact more
  · rintro ⟨rfl, return_, more⟩
    have feed := getElem?_of_lt h more
    obtain ⟨init, rfl⟩ := List.getLast?_eq_some_iff.1 return_
    rw [List.length_append, List.length_singleton, ← Nat.add_assoc] at feed ⊢
    refine ⟨Nat.succ_pos _, ?_, feed⟩
    rw [Nat.add_sub_cancel, getElem?_lineStart_add h (by simp), List.getElem?_concat_length]

/-- The text of a line is as long as the line, less the carriage return of its line break. -/
theorem length_lineText (h : d.lines[k]? = some line) :
    (d.lineText k).length =
      if line.getLast? = some '\r' ∧ k + 1 < d.lines.length then line.length - 1
      else line.length := by
  rcases lineText_of_getElem? h with ⟨same, last⟩ | ⟨same, more⟩
  · rw [same, if_neg fun both => by omega]
  · rw [same, Text.body]
    by_cases return_ : line.getLast? = some '\r'
    · rw [if_pos return_, if_pos ⟨return_, more⟩, List.length_dropLast]
    · rw [if_neg return_, if_neg fun both => return_ both.1]

/-- The offset of a place of a line is the place itself, unless it splits a line break. -/
theorem offsetOf_place (h : d.lines[k]? = some line) {c : Nat} (inside : c ≤ line.length) :
    d.offsetOf k c =
      if (d.text.take (d.lineStart k + c + 1)).drop (d.lineStart k + c - 1) = ['\r', '\n'] then
        d.lineStart k + c - 1
      else d.lineStart k + c := by
  simp only [Text.around_eq_iff, splits_break_iff h inside]
  rw [offsetOf_of_getElem? h, ← lineStart_eq, length_lineText h]
  by_cases broken : line.getLast? = some '\r' ∧ k + 1 < d.lines.length
  · have some_ : 0 < line.length := by
      obtain ⟨init, rfl⟩ := List.getLast?_eq_some_iff.1 broken.1
      simp
    rw [if_pos broken]
    by_cases whole : c = line.length
    · rw [if_pos ⟨whole, broken⟩]
      omega
    · rw [if_neg fun all => whole all.1]
      omega
  · rw [if_neg broken, if_neg fun all => broken all.2, Nat.min_eq_left inside]

/-- **Later positions have later offsets**, or the same one. -/
theorem offsetAt_mono {p q : Position} (order : q.before p = false) :
    d.offsetAt p ≤ d.offsetAt q := by
  have lines := Position.before_eq_false_iff.1 order
  unfold offsetAt
  cases below : d.lines[q.line]? with
  | none =>
    rw [offsetOf_of_none below]
    exact d.offsetOf_le _ _
  | some line' =>
    have bound := (List.getElem?_eq_some_iff.1 below).1
    have found := List.getElem?_eq_getElem (show p.line < d.lines.length by omega)
    rw [offsetOf_of_getElem? below, offsetOf_of_getElem? found, ← lineStart_eq, ← lineStart_eq]
    rcases lines with above | ⟨same, further⟩
    · have short := (lineText_front found).length_le
      have next := lineStart_succ found
      have := d.lineStart_mono (show p.line + 1 ≤ q.line from above)
      omega
    · rw [same]
      omega

/-! ## There and back -/

theorem lineAt_natCast (k : Nat) : d.lineAt k = d.lineText k := by
  rw [lineAt, if_neg (by omega), Int.toNat_natCast]

/-- The position of an offset is known by the line feeds in front of it, and leads back to the
offset unless this splits a line break. -/
theorem exists_positionAt (inside : o ≤ d.text.length) (small : d.text.length ≤ 2147483647) :
    ∃ s p, Text.LastLineBegins (d.text.take o) s ∧ d.positionAt o = .ok p ∧
      p.line = (d.text.take o).count '\n' ∧ p.character + s = o ∧
      d.offsetAt p =
        if (d.text.take (o + 1)).drop (o - 1) = ['\r', '\n'] then o - 1 else o := by
  obtain ⟨p, made, number, column⟩ := positionAt_of_le inside small
  obtain ⟨k, line, c, own, found, onLine, rfl⟩ := exists_place inside
  rw [own] at number column
  rw [Nat.add_sub_cancel_left] at column
  refine ⟨d.lineStart k, p, lastLineBegins found onLine, made, ?_, by omega, ?_⟩
  · rw [number, count_take_add found onLine]
  · rw [offsetAt, number, column, offsetOf_place found onLine]

/-- A place on the text of a line comes back from its offset. -/
theorem positionAt_offsetAt (few : k < d.lineCount) {c : Nat} (short : c ≤ (d.lineAt k).length)
    (small : d.text.length ≤ 2147483647) :
    ∃ p : Position, p.line = k ∧ p.character = c ∧ d.positionAt (d.offsetAt p) = .ok p := by
  have number : k < d.lines.length := d.lineCount_eq ▸ few
  have found := List.getElem?_eq_getElem number
  rw [lineAt_natCast] at short
  have onLine := Nat.le_trans short (lineText_front found).length_le
  have offset : d.offsetOf k c = d.lineStart k + c := by
    rw [offsetOf_of_getElem? found, Nat.min_eq_left short, lineStart_eq]
  have inText : d.lineStart k + c ≤ d.text.length := offset ▸ d.offsetOf_le k c
  have many := le_lineStart (Nat.le_of_lt number)
  refine ⟨⟨k, c, by omega, by omega⟩, rfl, rfl, ?_⟩
  obtain ⟨p, made, line, column⟩ := positionAt_of_le inText small
  rw [lineOf_add found onLine inText] at line column
  rw [offsetAt, offset, made]
  obtain ⟨l, x, _, _⟩ := p
  obtain rfl : l = k := line
  obtain rfl : x = c := column.trans (Nat.add_sub_cancel_left _ _)
  rfl

/-- A line is shown as it is if it is the last one, and else without a final carriage return. -/
theorem exists_lineAt (few : k < d.lineCount) :
    ∃ line, d.lines[k]? = some line ∧
      d.lineAt k = if k + 1 = d.lineCount then line else Text.body line := by
  have number : k < d.lines.length := d.lineCount_eq ▸ few
  have found := List.getElem?_eq_getElem number
  refine ⟨_, found, ?_⟩
  rw [lineAt_natCast, lineCount_eq]
  rcases lineText_of_getElem? found with ⟨same, last⟩ | ⟨same, more⟩
  · rw [same, if_pos last]
  · rw [same, if_neg (Nat.ne_of_lt more)]

/-- **Offsets and positions convert back and forth.** The position of an offset counts the line
feeds before it, and its column is the distance to the last of them; the offset of that position is
the offset again, unless it splits a line break of two characters. Places of lines come back as they
are. Positions grow with offsets, and offsets do not fall where positions grow. The lines are the
pieces between line feeds, all but the last one without a final carriage return. -/
theorem offsets_and_positions (d : Document) (small : d.text.length ≤ 2147483647) :
    (∀ o ≤ d.text.length, ∃ s p, Text.LastLineBegins (d.text.take o) s ∧
      d.positionAt o = .ok p ∧ p.line = (d.text.take o).count '\n' ∧ p.character + s = o ∧
      d.offsetAt p =
        if (d.text.take (o + 1)).drop (o - 1) = ['\r', '\n'] then o - 1 else o) ∧
    (∀ k < d.lineCount, ∀ c ≤ (d.lineAt k).length, ∃ p : Position, p.line = k ∧
      p.character = c ∧ d.positionAt (d.offsetAt p) = .ok p) ∧
    (∀ o o' : Nat, o < o' → o' ≤ d.text.length → ∀ p p', d.positionAt o = .ok p →
      d.positionAt o' = .ok p' → p.before p' = true) ∧
    (∀ p q : Position, q.before p = false → d.offsetAt p ≤ d.offsetAt q) ∧
    d.lineCount = d.lines.length ∧
    ∀ k < d.lineCount, ∃ line, d.lines[k]? = some line ∧
      d.lineAt k = if k + 1 = d.lineCount then line else Text.body line := by
  exact ⟨fun o inside => exists_positionAt inside small,
    fun k few c short => positionAt_offsetAt few short small,
    fun o o' less inside p p' first second => positionAt_before less inside small first second,
    fun p q => offsetAt_mono, d.lineCount_eq, fun k few => exists_lineAt few⟩

/-- The offset inside the second line break has a column behind its line, and goes back to the end
of that line. -/
theorem offsets_and_positions_split_break :
    let d : Document := ⟨"a\nbc\r\nd".toList, ""⟩
    d.text.length ≤ 2147483647 ∧
      (∃ p, d.positionAt 5 = .ok p ∧ p.line = 1 ∧ d.offsetAt p = 4) ∧
      ∃ p : Position, p.line = 1 ∧ p.character = 2 ∧ d.positionAt (d.offsetAt p) = .ok p := by
  intro d
  have small : d.text.length ≤ 2147483647 := by decide
  obtain ⟨offsets, places, -⟩ := offsets_and_positions d small
  obtain ⟨s, p, -, made, line, -, back⟩ := offsets 5 (by decide)
  exact ⟨small, ⟨p, made, line.trans (by decide), back.trans (if_pos (by decide))⟩,
    places 1 (by decide) 2 (by decide)⟩

end Document

end DialectBridge
