import DialectBridge.Proofs.Bases

/-!
# Marks and blocks

An indented empty line is left unmarked where the next line with text is indented deeper, since its
mark would open a block there. Which lines have text is decided on the lines as they are before any
of them is marked, although a marked line has text afterwards. So the line below a mark can still be
deeper than the mark, in one way only: an empty line further down, with nothing but empty lines in
between, is indented deeper and gets its own mark. No line that had text before is ever deeper than
the mark above it.

Whether a line is marked depends on the lines below it alone, so all of this is one induction over
those lines.
-/

set_option autoImplicit false

namespace DialectBridge

namespace Preparation

/-- A line is marked when it is empty and indented, and the next line with text is not deeper. -/
def isMarked (line : Text) (below : List Text) : Bool :=
  isIndentedEmpty line && !opensBlock (Text.body line).length below

/-- The lines with their marks. -/
def linesWithMarks (all : List Text) : List Text := (markEmptyLines all).map (·.line)

theorem isBlankLine_of_isIndentedEmpty {line : Text} (h : isIndentedEmpty line = true) :
    isBlankLine line = true := by
  rw [isIndentedEmpty, Bool.and_eq_true] at h
  exact h.1

/-! ## One line -/

theorem markEmptyLines_of_marked {line : Text} {below : List Text} (h : isMarked line below = true) :
    markEmptyLines (line :: below) =
      ⟨Text.body line ++ Marker.emptyLine.text ++ Text.tail line, true⟩ :: markEmptyLines below := by
  rw [markEmptyLines]
  exact congrArg (· :: _) (if_pos h)

theorem markEmptyLines_of_not_marked {line : Text} {below : List Text}
    (h : isMarked line below = false) :
    markEmptyLines (line :: below) = .keep line :: markEmptyLines below := by
  rw [markEmptyLines]
  exact congrArg (· :: _) (if_neg (by rw [← isMarked, h]; decide))

/-- A mark is text behind the indentation of its line. -/
theorem indentWidth_marked {line : Text} (blank : isBlankLine line = true) :
    indentWidth (Text.body line ++ Marker.emptyLine.text ++ Text.tail line) =
      (Text.body line).length := by
  have indents : ∀ c ∈ Text.body line, isIndent c = true := List.all_eq_true.1 blank
  unfold indentWidth
  rw [List.append_assoc, List.takeWhile_append_of_pos indents]
  exact congrArg List.length (List.append_nil _)

theorem isBlankLine_marked (line : Text) :
    isBlankLine (Text.body line ++ Marker.emptyLine.text ++ Text.tail line) = false := by
  unfold isBlankLine
  rw [Text.body_append_added line (by decide)]
  refine List.all_eq_false.2 ⟨'ᛟ', List.mem_append_right _ (by decide), by decide⟩

/-- A line with text decides whether a block is opened. -/
theorem opensBlock_of_text {width : Nat} {line : Text} (text : isBlankLine line = false)
    (below : List Text) : opensBlock width (line :: below) = decide (width < indentWidth line) := by
  unfold opensBlock
  rw [List.find?_cons_of_pos (by rw [text]; rfl)]
  rfl

/-- A blank line decides nothing. -/
theorem opensBlock_of_blank {width : Nat} {line : Text} (blank : isBlankLine line = true)
    (below : List Text) : opensBlock width (line :: below) = opensBlock width below := by
  unfold opensBlock
  rw [List.find?_cons_of_neg (by rw [blank]; decide)]

/-- What is deeper than a width is deeper than a smaller one. -/
theorem opensBlock_mono {width wider : Nat} {below : List Text} (le : width ≤ wider)
    (h : opensBlock wider below = true) : opensBlock width below = true := by
  unfold opensBlock at h ⊢
  rw [Option.any_eq_true] at h ⊢
  obtain ⟨line, found, deeper⟩ := h
  refine ⟨line, found, ?_⟩
  rw [decide_eq_true_eq] at deeper ⊢
  omega

/-! ## The lines below a mark -/

/-- **What is deeper below a mark.** Where the next line with text was not deeper before, it is
deeper afterwards exactly when the first line below that is marked was a deeper empty line. -/
theorem opensBlock_linesWithMarks_iff {width : Nat} {below : List Text}
    (closed : opensBlock width below = false) :
    opensBlock width (linesWithMarks below) = true ↔
      ∃ (j : Nat) (deeper : Text), below[j]? = some deeper ∧ isIndentedEmpty deeper = true ∧
        width < (Text.body deeper).length ∧ ∀ k < j, ∃ line, below[k]? = some line ∧
          isBlankLine line = true ∧ (markEmptyLines below)[k]? = some (EditedLine.keep line) := by
  unfold linesWithMarks
  induction below with
  | nil =>
    constructor
    · intro opened
      exact Bool.noConfusion (closed.symm.trans opened)
    · rintro ⟨j, deeper, found, -⟩
      cases found
  | cons line below ih =>
    cases blank : isBlankLine line with
    | false =>
      -- The line had text before, so it is the next one in both lists.
      have unmarked : isMarked line below = false := by
        rw [isMarked, isIndentedEmpty, blank]
        rfl
      rw [markEmptyLines_of_not_marked unmarked, List.map_cons]
      constructor
      · intro opened
        rw [opensBlock_of_text blank] at closed
        rw [EditedLine.keep, opensBlock_of_text blank, closed] at opened
        cases opened
      · rintro ⟨j, deeper, found, empty, -, above⟩
        cases j with
        | zero =>
          obtain rfl := Option.some.inj found
          exact Bool.noConfusion (blank.symm.trans (isBlankLine_of_isIndentedEmpty empty))
        | succ j =>
          obtain ⟨first, same, white, -⟩ := above 0 (Nat.succ_pos j)
          obtain rfl := Option.some.inj same
          exact Bool.noConfusion (blank.symm.trans white)
    | true =>
      rw [opensBlock_of_blank blank] at closed
      cases marked : isMarked line below with
      | true =>
        rw [markEmptyLines_of_marked marked, List.map_cons,
          opensBlock_of_text (isBlankLine_marked line), indentWidth_marked blank,
          decide_eq_true_eq]
        rw [isMarked, Bool.and_eq_true] at marked
        constructor
        · intro deeper
          exact ⟨0, line, rfl, marked.1, deeper, fun k bound => absurd bound (Nat.not_lt_zero k)⟩
        · rintro ⟨j, deeper, found, empty, less, above⟩
          cases j with
          | zero =>
            obtain rfl := Option.some.inj found
            exact less
          | succ j =>
            obtain ⟨first, -, -, kept⟩ := above 0 (Nat.succ_pos j)
            exact Bool.noConfusion (congrArg EditedLine.changed (Option.some.inj kept))
      | false =>
        rw [markEmptyLines_of_not_marked marked, List.map_cons, EditedLine.keep,
          opensBlock_of_blank blank, ih closed]
        constructor
        · rintro ⟨j, deeper, found, empty, less, above⟩
          refine ⟨j + 1, deeper, found, empty, less, fun k bound => ?_⟩
          cases k with
          | zero => exact ⟨line, rfl, blank, rfl⟩
          | succ k => exact above k (Nat.lt_of_succ_lt_succ bound)
        · rintro ⟨j, deeper, found, empty, less, above⟩
          cases j with
          | zero =>
            -- A deeper line would open a block only if the next line with text were deeper still.
            obtain rfl := Option.some.inj found
            rw [isMarked, empty, Bool.true_and, Bool.not_eq_false'] at marked
            exact Bool.noConfusion (closed.symm.trans (opensBlock_mono (Nat.le_of_lt less) marked))
          | succ j =>
            refine ⟨j, deeper, found, empty, less, fun k bound => ?_⟩
            exact above (k + 1) (Nat.succ_lt_succ bound)

/-! ## Marks by their numbers -/

/-- Whether lines are marked depends on what stands below them. -/
theorem drop_markEmptyLines (n : Nat) (all : List Text) :
    (markEmptyLines all).drop n = markEmptyLines (all.drop n) := by
  induction n generalizing all with
  | zero => rfl
  | succ n ih =>
    cases all with
    | nil => rfl
    | cons line below =>
      rw [markEmptyLines, List.drop_succ_cons, List.drop_succ_cons]
      exact ih below

theorem getElem?_markEmptyLines_add (all : List Text) (i k : Nat) :
    (markEmptyLines all)[i + k]? = (markEmptyLines (all.drop i))[k]? := by
  rw [← drop_markEmptyLines, List.getElem?_drop]

/-- A line without a mark on record stays as it is. -/
theorem not_mem_changed_iff {all : List Text} {k : Nat} {line : Text} (found : all[k]? = some line) :
    k ∉ changedFrom 0 (markEmptyLines all) ↔
      (markEmptyLines all)[k]? = some (EditedLine.keep line) := by
  obtain ⟨edited, at_, marking⟩ := exists_getElem?_right (forall₂_marking all) found
  have recorded := mem_changedFrom at_
  rw [at_]
  cases marking with
  | kept =>
    refine iff_of_true (fun member => ?_) rfl
    obtain ⟨j, other, same, there, changed⟩ := exists_of_mem_changedFrom member
    obtain rfl : k = j := by omega
    obtain rfl := Option.some.inj (at_.symm.trans there)
    cases changed
  | marked empty =>
    refine iff_of_false (fun absent => absent ?_) fun same => ?_
    · simpa using recorded rfl 0
    · exact Bool.noConfusion (congrArg EditedLine.changed (Option.some.inj same))

/-- A mark on record stands behind the indentation of a line that is marked. -/
theorem exists_isMarked {all : List Text} {i : Nat} (h : i ∈ changedFrom 0 (markEmptyLines all)) :
    ∃ source below, all.drop i = source :: below ∧ isMarked source below = true := by
  obtain ⟨j, edited, same, at_, changed⟩ := exists_of_mem_changedFrom h
  obtain rfl : i = j := by omega
  obtain ⟨source, found, -⟩ := exists_getElem?_left (forall₂_marking all) at_
  have whole := List.drop_eq_getElem?_toList_append (l := all) (i := i)
  rw [found] at whole
  refine ⟨source, all.drop (i + 1), whole, ?_⟩
  by_contra unmarked
  refine (not_mem_changed_iff found).2 ?_ h
  have here := getElem?_markEmptyLines_add all i 0
  rw [whole] at here
  exact here.trans (congrArg (·[0]?) (markEmptyLines_of_not_marked (Bool.not_eq_true _ ▸ unmarked)))

/-- **A mark opens a block only above a deeper mark.** The next line with text below a mark is
deeper than the mark exactly when the first mark further down is that of a deeper empty line, with
nothing but blank lines in between. -/
theorem mark_opensBlock_iff {all : List Text} {i : Nat}
    (recorded : i ∈ changedFrom 0 (markEmptyLines all)) :
    ∃ source mark, all[i]? = some source ∧ (linesWithMarks all)[i]? = some mark ∧
      (opensBlock (indentWidth mark) ((linesWithMarks all).drop (i + 1)) = true ↔
        ∃ (j : Nat) (deeper : Text), i < j ∧ all[j]? = some deeper ∧
          isIndentedEmpty deeper = true ∧ (Text.body source).length < (Text.body deeper).length ∧
          ∀ k, i < k → k < j → k ∉ changedFrom 0 (markEmptyLines all) ∧
            ∃ line, all[k]? = some line ∧ isBlankLine line = true) := by
  obtain ⟨source, below, whole, marked⟩ := exists_isMarked recorded
  have found : all[i]? = some source := by
    rw [← Nat.add_zero i, ← List.getElem?_drop, whole]
    rfl
  have behind : all.drop (i + 1) = below := by
    rw [← List.drop_drop, whole, List.drop_succ_cons, List.drop_zero]
  have at_ : ∀ k, all[i + 1 + k]? = below[k]? := fun k => by rw [← List.getElem?_drop, behind]
  have edited : ∀ k, (markEmptyLines all)[i + 1 + k]? = (markEmptyLines below)[k]? := fun k => by
    rw [getElem?_markEmptyLines_add, behind]
  have markAt : (linesWithMarks all)[i]? =
      some (Text.body source ++ Marker.emptyLine.text ++ Text.tail source) := by
    have here := getElem?_markEmptyLines_add all i 0
    rw [whole, markEmptyLines_of_marked marked, Nat.add_zero] at here
    rw [linesWithMarks, List.getElem?_map, here]
    rfl
  have rest : (linesWithMarks all).drop (i + 1) = linesWithMarks below := by
    rw [linesWithMarks, ← List.map_drop, drop_markEmptyLines, behind, linesWithMarks]
  rw [isMarked, Bool.and_eq_true, Bool.not_eq_true'] at marked
  refine ⟨source, _, found, markAt, ?_⟩
  rw [rest, indentWidth_marked (isBlankLine_of_isIndentedEmpty marked.1),
    opensBlock_linesWithMarks_iff marked.2]
  constructor
  · rintro ⟨j, deeper, there, empty, less, between⟩
    refine ⟨i + 1 + j, deeper, by omega, (at_ j).trans there, empty, less, fun k after before => ?_⟩
    obtain ⟨m, rfl⟩ := Nat.exists_eq_add_of_le (Nat.succ_le_of_lt after)
    obtain ⟨line, inside, blank, kept⟩ := between m (by omega)
    have line_ := (at_ m).trans inside
    exact ⟨(not_mem_changed_iff line_).2 ((edited m).trans kept), line, line_, blank⟩
  · rintro ⟨j, deeper, after, there, empty, less, between⟩
    obtain ⟨m, rfl⟩ := Nat.exists_eq_add_of_le (Nat.succ_le_of_lt after)
    refine ⟨m, deeper, (at_ m).symm.trans there, empty, less, fun k before => ?_⟩
    obtain ⟨unmarked, line, line_, blank⟩ := between (i + 1 + k) (by omega) (by omega)
    refine ⟨line, (at_ k).symm.trans line_, blank, ?_⟩
    exact (edited k).symm.trans ((not_mem_changed_iff line_).1 unmarked)

/-- Above a line with text that is as deep, and with an empty line in between that is too shallow
for a mark, a mark opens no block. -/
theorem mark_opensBlock_iff_object :
    let all : List Text := ["a =".toList, "  b: 1".toList, "  ".toList, " ".toList, "  c".toList]
    2 ∈ changedFrom 0 (markEmptyLines all) ∧
      (linesWithMarks all)[2]? = some "  ᛟ:ᛟ".toList ∧
      opensBlock (indentWidth "  ᛟ:ᛟ".toList) ((linesWithMarks all).drop 3) = false := by
  intro all
  have recorded : 2 ∈ changedFrom 0 (markEmptyLines all) := by decide
  obtain ⟨source, mark, found, there, opened⟩ := mark_opensBlock_iff recorded
  obtain rfl := Option.some.inj found
  have known : (linesWithMarks all)[2]? = some "  ᛟ:ᛟ".toList := by decide
  obtain rfl := Option.some.inj (there.symm.trans known)
  refine ⟨recorded, known, Bool.eq_false_iff.2 fun deep => ?_⟩
  obtain ⟨j, deeper, after, inside, empty, less, -⟩ := opened.1 deep
  have bound : j < 5 := (List.getElem?_eq_some_iff.1 inside).1
  obtain rfl | rfl : j = 3 ∨ j = 4 := by omega
  · obtain rfl := Option.some.inj inside
    exact absurd less (by decide)
  · obtain rfl := Option.some.inj inside
    exact absurd empty (by decide)

/-- Of two empty lines both are marked, although the second one is deeper. -/
theorem mark_opens_block :
    let all : List Text := [" ".toList, "  ".toList]
    changedFrom 0 (markEmptyLines all) = [0, 1] ∧
      linesWithMarks all = [" ᛟ:ᛟ".toList, "  ᛟ:ᛟ".toList] ∧
      opensBlock (indentWidth " ᛟ:ᛟ".toList) ((linesWithMarks all).drop 1) = true := by
  decide

end Preparation

end DialectBridge
