import Mathlib.Data.List.Forall2
import DialectBridge.Pipeline
import DialectBridge.Proofs.EditedLines

/-!
# Line bookkeeping

Preparation inserts lines and marks empty ones, and it records both in the numbering of the text it
hands to the compiler. This module shows that the records tell everything. The lines that were not
inserted are the edited lines of the source, in order; `Cleanup.sourceLine` takes each of them back
to its source line, and an inserted line to the one above it. A marked line is an indented empty
line of the source with its mark, and forceful preparation changes neither the number of lines nor
any line on record.

The recursion behind `insertedFrom` moves an index through the lines. `placesFrom` moves the same
index and keeps the places of the lines themselves, so that every fact is one induction over the
lines.
-/

set_option autoImplicit false

namespace DialectBridge

namespace Preparation

/-! ## Inserted lines and the places between them -/

/-- Where the lines themselves stand among all lines, when the first line has the index `index`. -/
def placesFrom (index : Nat) : List Text → List Nat
  | [] => []
  | line :: rest =>
    if startsBlockComment line then (index + 1) :: placesFrom (index + 2) rest
    else index :: placesFrom (index + 1) rest

/-- The lines with their comment lines, one line at a time. -/
theorem insertCommentLines_cons (line : Text) (rest : List Text) :
    insertCommentLines (line :: rest) =
      if startsBlockComment line then ['#'] :: line :: insertCommentLines rest
      else line :: insertCommentLines rest := by
  unfold insertCommentLines
  rw [List.flatMap_cons]
  split <;> rfl

theorem le_of_mem_insertedFrom {index j : Nat} {all : List Text}
    (h : j ∈ insertedFrom index all) : index ≤ j := by
  induction all generalizing index with
  | nil => exact absurd h List.not_mem_nil
  | cons line rest ih =>
    unfold insertedFrom at h
    split at h
    · rcases List.mem_cons.1 h with rfl | later
      · exact Nat.le_refl _
      · exact Nat.le_of_add_right_le (ih later)
    · exact Nat.le_of_succ_le (ih h)

/-- Inserted lines are recorded in ascending order. -/
theorem pairwise_insertedFrom (index : Nat) (all : List Text) :
    (insertedFrom index all).Pairwise (· < ·) := by
  induction all generalizing index with
  | nil => exact .nil
  | cons line rest ih =>
    unfold insertedFrom
    split
    · refine .cons (fun j later => ?_) (ih _)
      have := le_of_mem_insertedFrom later
      omega
    · exact ih _

theorem length_placesFrom (index : Nat) (all : List Text) :
    (placesFrom index all).length = all.length := by
  induction all generalizing index with
  | nil => rfl
  | cons line rest ih =>
    unfold placesFrom
    split <;> rw [List.length_cons, ih, List.length_cons]

/-- Every insertion makes the list longer by one. -/
theorem length_insertCommentLines (index : Nat) (all : List Text) :
    (insertCommentLines all).length = all.length + (insertedFrom index all).length := by
  induction all generalizing index with
  | nil => rfl
  | cons line rest ih =>
    rw [insertCommentLines_cons, insertedFrom]
    split
    · simp only [List.length_cons, ih (index + 2)]
      omega
    · simp only [List.length_cons, ih (index + 1)]
      omega

/-- The places of the lines are all the indices that were not inserted. -/
theorem filter_range'_eq_placesFrom (index : Nat) (all : List Text) :
    (List.range' index (insertCommentLines all).length).filter
      (fun j => decide (j ∉ insertedFrom index all)) = placesFrom index all := by
  induction all generalizing index with
  | nil => rfl
  | cons line rest ih =>
    rw [insertCommentLines_cons, insertedFrom, placesFrom]
    split
    · have apart : index + 1 ∉ index :: insertedFrom (index + 2) rest := by
        intro member
        rcases List.mem_cons.1 member with same | later
        · omega
        · have := le_of_mem_insertedFrom later
          omega
      rw [List.length_cons, List.length_cons, List.range'_succ, List.range'_succ,
        List.filter_cons_of_neg (by simp), List.filter_cons_of_pos (by simpa using apart),
        ← ih (index + 2)]
      refine congrArg (List.cons _) (List.filter_congr fun j member => ?_)
      have bound := (List.mem_range'_1.1 member).1
      have other : j ≠ index := by omega
      simp [other]
    · have apart : index ∉ insertedFrom (index + 1) rest := by
        intro member
        have := le_of_mem_insertedFrom member
        omega
      rw [List.length_cons, List.range'_succ, List.filter_cons_of_pos (by simpa using apart),
        ← ih (index + 1)]

/-- What stands at the place of a line is that line. -/
theorem getElem?_insertCommentLines_place {index l p : Nat} {all : List Text}
    (h : (placesFrom index all)[l]? = some p) :
    ∃ k, p = index + k ∧ (insertCommentLines all)[k]? = all[l]? := by
  induction all generalizing index l with
  | nil => cases h
  | cons line rest ih =>
    rw [placesFrom] at h
    rw [insertCommentLines_cons]
    split at h
    · next block =>
      rw [if_pos block]
      cases l with
      | zero =>
        obtain rfl := Option.some.inj h
        exact ⟨1, rfl, rfl⟩
      | succ l =>
        obtain ⟨k, rfl, found⟩ := ih h
        exact ⟨k + 2, by omega, found⟩
    · next plain =>
      rw [if_neg plain]
      cases l with
      | zero =>
        obtain rfl := Option.some.inj h
        exact ⟨0, rfl, rfl⟩
      | succ l =>
        obtain ⟨k, rfl, found⟩ := ih h
        exact ⟨k + 1, by omega, found⟩

/-- What was inserted is a comment sign, and the line below it begins a block comment. -/
theorem getElem?_insertCommentLines_inserted {index j : Nat} {all : List Text}
    (h : j ∈ insertedFrom index all) :
    ∃ k, j = index + k ∧ (insertCommentLines all)[k]? = some ['#'] ∧
      ∃ below, (insertCommentLines all)[k + 1]? = some below ∧ startsBlockComment below = true := by
  induction all generalizing index with
  | nil => exact absurd h List.not_mem_nil
  | cons line rest ih =>
    rw [insertedFrom] at h
    rw [insertCommentLines_cons]
    split at h
    · next block =>
      rw [if_pos block]
      rcases List.mem_cons.1 h with rfl | later
      · exact ⟨0, rfl, rfl, line, rfl, block⟩
      · obtain ⟨k, rfl, found⟩ := ih later
        exact ⟨k + 2, by omega, found⟩
    · next plain =>
      rw [if_neg plain]
      obtain ⟨k, rfl, found⟩ := ih h
      exact ⟨k + 1, by omega, found⟩

/-- Nothing is inserted at or before an index that comes before all lines. -/
theorem countP_insertedFrom_eq_zero {index j : Nat} (all : List Text) (h : j < index) :
    (insertedFrom index all).countP (fun i => decide (i ≤ j)) = 0 := by
  rw [List.countP_eq_zero]
  intro i member
  have := le_of_mem_insertedFrom member
  simp only [decide_eq_true_eq]
  omega

/-- The place of a line is its number and the number of insertions up to there. -/
theorem place_eq_add_countP {index l p : Nat} {all : List Text}
    (h : (placesFrom index all)[l]? = some p) :
    p = index + l + (insertedFrom index all).countP (fun i => decide (i ≤ p)) := by
  induction all generalizing index l with
  | nil => cases h
  | cons line rest ih =>
    rw [placesFrom] at h
    rw [insertedFrom]
    split at h
    · next block =>
      rw [if_pos block]
      cases l with
      | zero =>
        obtain rfl := Option.some.inj h
        rw [List.countP_cons_of_pos (by simp),
          countP_insertedFrom_eq_zero rest (by omega : index + 1 < index + 2)]
      | succ l =>
        have later := ih h
        rw [List.countP_cons_of_pos (by rw [decide_eq_true_eq]; omega)]
        omega
    · next plain =>
      rw [if_neg plain]
      cases l with
      | zero =>
        obtain rfl := Option.some.inj h
        rw [countP_insertedFrom_eq_zero rest (Nat.lt_succ_self _)]
        rfl
      | succ l =>
        have later := ih h
        omega

/-- Below an inserted line stands a line of the source. -/
theorem exists_place_of_inserted {index j : Nat} {all : List Text}
    (h : j ∈ insertedFrom index all) :
    ∃ l, (placesFrom index all)[l]? = some (j + 1) ∧
      j + 1 = index + l + (insertedFrom index all).countP (fun i => decide (i ≤ j)) := by
  induction all generalizing index with
  | nil => exact absurd h List.not_mem_nil
  | cons line rest ih =>
    rw [insertedFrom] at h ⊢
    rw [placesFrom]
    split at h
    · next block =>
      rw [if_pos block, if_pos block]
      rcases List.mem_cons.1 h with rfl | later
      · refine ⟨0, rfl, ?_⟩
        rw [List.countP_cons_of_pos (by simp),
          countP_insertedFrom_eq_zero rest (by omega : j < j + 2)]
      · obtain ⟨l, found, count⟩ := ih later
        have := le_of_mem_insertedFrom later
        refine ⟨l + 1, found, ?_⟩
        rw [List.countP_cons_of_pos (by rw [decide_eq_true_eq]; omega)]
        omega
    · next plain =>
      rw [if_neg plain, if_neg plain]
      obtain ⟨l, found, count⟩ := ih h
      exact ⟨l + 1, found, by omega⟩

/-! ## Marked lines -/

/-- What marking makes of a line: it stays, or it is an indented empty line and gets its mark. -/
inductive Marking (line : Text) : EditedLine → Prop
  | kept : Marking line (.keep line)
  | marked (empty : isIndentedEmpty line = true) :
      Marking line ⟨Text.body line ++ Marker.emptyLine.text ++ Text.tail line, true⟩

theorem forall₂_marking (all : List Text) : List.Forall₂ Marking all (markEmptyLines all) := by
  induction all with
  | nil => exact .nil
  | cons line rest ih =>
    unfold markEmptyLines
    refine .cons ?_ ih
    split
    · next marks =>
      rw [Bool.and_eq_true] at marks
      exact .marked marks.1
    · exact .kept

/-- Every index on record is that of a changed line. -/
theorem exists_of_mem_changedFrom {index j : Nat} {all : List EditedLine}
    (h : j ∈ changedFrom index all) :
    ∃ k edited, j = index + k ∧ all[k]? = some edited ∧ edited.changed = true := by
  induction all generalizing index with
  | nil => exact absurd h List.not_mem_nil
  | cons edited rest ih =>
    unfold changedFrom at h
    split at h
    · next changed =>
      rcases List.mem_cons.1 h with rfl | later
      · exact ⟨0, edited, rfl, rfl, changed⟩
      · obtain ⟨k, other, rfl, found, changed⟩ := ih later
        exact ⟨k + 1, other, by omega, found, changed⟩
    · obtain ⟨k, other, rfl, found, changed⟩ := ih h
      exact ⟨k + 1, other, by omega, found, changed⟩

/-- Changed lines are recorded in ascending order. -/
theorem pairwise_changedFrom (index : Nat) (all : List EditedLine) :
    (changedFrom index all).Pairwise (· < ·) := by
  induction all generalizing index with
  | nil => exact .nil
  | cons edited rest ih =>
    unfold changedFrom
    split
    · refine .cons (fun j later => ?_) (ih _)
      obtain ⟨k, _, rfl, -, -⟩ := exists_of_mem_changedFrom later
      omega
    · exact ih _

/-! ## The lines of prepared text -/

theorem not_mem_insertCommentLines {all : List Text} (unbroken : ∀ line ∈ all, '\n' ∉ line) :
    ∀ line ∈ insertCommentLines all, '\n' ∉ line := by
  intro line member
  unfold insertCommentLines at member
  obtain ⟨original, inside, within⟩ := List.mem_flatMap.1 member
  split at within
  · rcases List.mem_cons.1 within with rfl | same
    · decide
    · rw [List.mem_singleton.1 same]
      exact unbroken original inside
  · rw [List.mem_singleton.1 within]
    exact unbroken original inside

theorem prepare_text (t : Text) :
    (prepare t).text = Text.joinLines ((markedLines (editedLines t)).map (·.line)) := by
  simp only [prepare]

/-- The lines of prepared text are the edited lines with their comment lines and marks. -/
theorem lines_prepare (t : Text) :
    Text.lines (prepare t).text = (markedLines (editedLines t)).map (·.line) := by
  have pairs := forall₂_marking (insertCommentLines (editedLines t))
  rw [prepare_text, Text.lines_joinLines]
  · have some_ : editedLines t ≠ [] := Text.lines_ne_nil _
    have size := length_insertCommentLines 0 (editedLines t)
    rw [pairs.length_eq] at size
    have positive := List.length_pos_iff.2 some_
    rw [← List.length_pos_iff, List.length_map]
    unfold markedLines
    omega
  · intro line member
    obtain ⟨edited, inside, rfl⟩ := List.mem_map.1 member
    obtain ⟨k, found⟩ := List.mem_iff_getElem?.1 inside
    obtain ⟨original, same, marking⟩ := exists_getElem?_left pairs found
    have clean : '\n' ∉ original :=
      not_mem_insertCommentLines (fun line member => Text.not_mem_of_mem_lines member) original
        (List.mem_of_getElem? same)
    cases marking with
    | kept => exact clean
    | marked empty =>
      have mark : '\n' ∉ Marker.emptyLine.text := by decide
      simp [Text.not_mem_body clean, Text.not_mem_tail clean, mark]

/-! ## Forceful preparation line by line -/

theorem leadingSpread_eq_some {t : Text} {r : Replacement} (h : leadingSpread none t = some r) :
    ∃ c rest, isIdentifierStart c = true ∧ t = ['.', '.', '.', c] ++ rest ∧
      r = ⟨4, ['_', ':', ' ', c]⟩ := by
  unfold leadingSpread at h
  split at h
  · next c rest =>
    split at h
    · next start => exact ⟨c, rest, start, rfl, (Option.some.inj h).symm⟩
    · cases h
  · cases h

theorem trailingSpread_eq_some {t : Text} {r : Replacement} (h : trailingSpread none t = some r) :
    ∃ c rest, isIdentifierStart c = true ∧ t = [c, '.', '.', '.'] ++ rest ∧
      r = ⟨4, [c, ':', ' ', '_']⟩ := by
  unfold trailingSpread at h
  split at h
  · next c rest =>
    split at h
    · next start => exact ⟨c, rest, start, rfl, (Option.some.inj h).symm⟩
    · cases h
  · cases h

theorem leadingSpread_linewise : ReplacementRule.Linewise leadingSpread := by
  refine .of_window (fun _ _ => rfl) fun t r h => ?_
  obtain ⟨c, rest, start, rfl, rfl⟩ := leadingSpread_eq_some h
  have ordinary : '\n' ≠ c := by
    rintro rfl
    exact absurd start (by decide)
  refine ⟨_, rest, rfl, rfl, by simp, ?_, ?_, fun others => ?_⟩
  · simpa using ordinary
  · simpa using ordinary
  · simp [leadingSpread, start]

theorem trailingSpread_linewise : ReplacementRule.Linewise trailingSpread := by
  refine .of_window (fun _ _ => rfl) fun t r h => ?_
  obtain ⟨c, rest, start, rfl, rfl⟩ := trailingSpread_eq_some h
  have ordinary : '\n' ≠ c := by
    rintro rfl
    exact absurd start (by decide)
  refine ⟨_, rest, rfl, rfl, by simp, ?_, ?_, fun others => ?_⟩
  · simpa using ordinary
  · simpa using ordinary
  · simp [trailingSpread, start]

/-- A line after the forceful edits. -/
def forcefulLine (line : Text) : Text :=
  let closed := (closeString? line).getD line
  let called := (closeCall? closed).getD closed
  let bare := (removeBrace? called).getD called
  Text.scan trailingSpread (Text.scan leadingSpread bare)

/-- A quote that closes a string stands in the line already. -/
theorem mem_of_mem_closeString {line : Text} {c : Char}
    (h : c ∈ (closeString? line).getD line) : c ∈ line := by
  have whole := Text.body_append_tail line
  unfold closeString? at h
  dsimp only at h
  split at h
  · next quote only =>
    have inside : quote ∈ Text.body line :=
      List.mem_of_mem_filter (only ▸ List.mem_singleton_self quote)
    split at h
    · exact h
    · rw [← whole]
      rcases List.mem_append.1 h with code | ending
      · exact List.mem_append_left _ code
      · rcases List.mem_cons.1 ending with rfl | last
        · exact List.mem_append_left _ inside
        · exact List.mem_append_right _ last
  · exact h

/-- A call is closed by a parenthesis. -/
theorem mem_of_mem_closeCall {line : Text} {c : Char} (h : c ∈ (closeCall? line).getD line) :
    c ∈ line ∨ c = ')' := by
  have whole := Text.body_append_tail line
  unfold closeCall? at h
  cases place : Text.firstPlace? isOpenCall (Text.body line) with
  | none =>
    rw [place] at h
    exact .inl h
  | some found =>
    rw [place] at h
    rw [← whole]
    rcases List.mem_append.1 h with code | ending
    · exact .inl (List.mem_append_left _ code)
    · rcases List.mem_cons.1 ending with rfl | last
      · exact .inr rfl
      · exact .inl (List.mem_append_right _ last)

/-- A brace that goes takes only indentation with it. -/
theorem sublist_removeBrace (line : Text) : List.Sublist ((removeBrace? line).getD line) line := by
  have whole := Text.body_append_tail line
  unfold removeBrace?
  split
  · next before c split_ =>
    split
    · rw [Text.splitLast?_eq_some split_] at whole
      rw [Option.getD_some]
      conv => rhs; rw [← whole]
      have indentation := (List.dropWhile_sublist isIndent (l := before.reverse)).reverse
      rw [List.reverse_reverse] at indentation
      exact (indentation.trans (List.sublist_append_left before [c])).append (List.Sublist.refl _)
    · exact List.Sublist.refl _
  · exact List.Sublist.refl _

/-- **Forceful preparation treats its text line by line.** -/
theorem lines_prepareForcefully (t : Text) :
    Text.lines (prepareForcefully t) = (Text.lines t).map forcefulLine := by
  have strings : ∀ t, Text.lines (stringEdit.apply t) =
      (Text.lines t).map fun line => (closeString? line).getD line :=
    Edit.lines_onEachLine _ _ fun _ clean member => clean (mem_of_mem_closeString member)
  have calls : ∀ t, Text.lines (callEdit.apply t) =
      (Text.lines t).map fun line => (closeCall? line).getD line :=
    Edit.lines_onEachLine _ _ fun _ clean member =>
      (mem_of_mem_closeCall member).elim clean (by decide)
  have braces : ∀ t, Text.lines (braceEdit.apply t) =
      (Text.lines t).map fun line => (removeBrace? line).getD line :=
    Edit.lines_onEachLine _ _ fun _ clean member =>
      clean ((sublist_removeBrace _).subset member)
  have unfolded : prepareForcefully t = Text.scan trailingSpread (Text.scan leadingSpread
      (braceEdit.apply (callEdit.apply (stringEdit.apply t)))) := by
    rw [prepareForcefully, forcefulEdits, Edit.applyAll, List.foldl_cons, List.foldl_cons,
      List.foldl_cons, List.foldl_cons, List.foldl_cons, List.foldl_nil]
    rfl
  rw [unfolded, Text.lines_scan trailingSpread_linewise, Text.lines_scan leadingSpread_linewise,
    braces, calls, strings]
  simp only [List.map_map]
  rfl

/-- Characters that a forceful edit looks for. -/
def isForced (c : Char) : Bool :=
  isQuote c || c == '(' || c == '\x7b' || c == '\x7d' || c == '.'

section Plain

variable {line : Text}

theorem isForced_of_mem_body (plain : ∀ c ∈ line, isForced c = false) :
    ∀ c ∈ Text.body line, isForced c = false := by
  intro c member
  exact plain c (Text.body_append_tail line ▸ List.mem_append_left _ member)

theorem closeString?_eq_none (plain : ∀ c ∈ line, isForced c = false) :
    closeString? line = none := by
  have quotes : (Text.body line).filter isQuote = [] := by
    rw [List.filter_eq_nil_iff]
    intro c member quote
    have := isForced_of_mem_body plain c member
    simp [isForced, quote] at this
  simp [closeString?, quotes]

theorem closeCall?_eq_none (plain : ∀ c ∈ line, isForced c = false) : closeCall? line = none := by
  rw [closeCall?, Option.map_eq_none_iff]
  cases found : Text.firstPlace? isOpenCall (Text.body line) with
  | none => rfl
  | some place =>
    obtain ⟨whole, opened⟩ := Text.firstPlace?_sound found
    unfold isOpenCall at opened
    split at opened
    · next rest same =>
      have inside : '(' ∈ Text.body line := by
        rw [← whole, same]
        exact List.mem_append_right _ List.mem_cons_self
      exact absurd (isForced_of_mem_body plain _ inside) (by decide)
    · cases opened

theorem removeBrace?_eq_none (plain : ∀ c ∈ line, isForced c = false) :
    removeBrace? line = none := by
  unfold removeBrace?
  split
  · next before c split_ =>
    have inside : c ∈ Text.body line := by
      rw [Text.splitLast?_eq_some split_]
      exact List.mem_append_right _ (List.mem_singleton_self c)
    have := isForced_of_mem_body plain c inside
    rw [if_neg]
    intro braced
    rw [Bool.or_eq_true] at braced
    rcases braced with open_ | close_
    · simp [isForced, beq_iff_eq.1 open_] at this
    · simp [isForced, beq_iff_eq.1 close_] at this
  · rfl

theorem scan_leadingSpread_eq_self (plain : '.' ∉ line) : Text.scan leadingSpread line = line := by
  refine Text.scan_eq_self leadingSpread_linewise.forward fun k _ => ?_
  unfold leadingSpread
  split
  · next c rest same => exact absurd (List.mem_of_mem_drop (same ▸ List.mem_cons_self)) plain
  · rfl

theorem scan_trailingSpread_eq_self (plain : '.' ∉ line) :
    Text.scan trailingSpread line = line := by
  refine Text.scan_eq_self trailingSpread_linewise.forward fun k _ => ?_
  unfold trailingSpread
  split
  · next c rest same =>
    have inside := List.mem_of_mem_drop (same ▸ List.mem_cons_of_mem _ List.mem_cons_self)
    exact absurd inside plain
  · rfl

/-- A line without the characters the forceful edits look for stays as it is. -/
theorem forcefulLine_eq_self (plain : ∀ c ∈ line, isForced c = false) :
    forcefulLine line = line := by
  have noDot : '.' ∉ line := fun member => absurd (plain _ member) (by decide)
  simp only [forcefulLine, closeString?_eq_none plain, closeCall?_eq_none plain,
    removeBrace?_eq_none plain, scan_leadingSpread_eq_self noDot, scan_trailingSpread_eq_self noDot,
    Option.getD_none]

end Plain

/-! ## Back to source lines -/

/-- On recorded lines the source line is counted with natural numbers. -/
theorem sourceLine_numbers {inserted : List Nat} (sorted : inserted.Pairwise (· < ·)) (j : Nat) :
    Cleanup.sourceLine (Pipeline.numbers inserted) j =
      j - inserted.countP (fun i => decide (i ≤ j)) := by
  have ascending : (Pipeline.numbers inserted).Pairwise (· ≤ ·) := by
    refine List.pairwise_map.2 (sorted.imp fun less => ?_)
    exact Int.ofNat_le.2 (Nat.le_of_lt less)
  rw [Cleanup.sourceLine_eq ascending, Pipeline.numbers, List.countP_map]
  congr 3
  funext i
  simp

theorem prepare_inserted (t : Text) :
    (prepare t).inserted = insertedFrom 0 (editedLines t) := by
  simp only [prepare, insertedLines]

theorem prepare_tweaked (t : Text) :
    (prepare t).tweaked = changedFrom 0 (markedLines (editedLines t)) := by
  simp only [prepare]

/-- A line of the source comes back from its place. -/
theorem sourceLine_place {t : Text} {l p : Nat} (h : (placesFrom 0 (editedLines t))[l]? = some p) :
    Cleanup.sourceLine (Pipeline.numbers (prepare t).inserted) p = l := by
  have place := place_eq_add_countP h
  rw [prepare_inserted, sourceLine_numbers (pairwise_insertedFrom 0 _)]
  omega

/-- What prepared text has at an index: an edited line, a comment line, or a marked line. -/
theorem getElem?_lines_prepare {t line : Text} {k : Nat}
    (h : (insertCommentLines (editedLines t))[k]? = some line) :
    (Text.lines (prepare t).text)[k]? = some line ∨
      isIndentedEmpty line = true ∧ (Text.lines (prepare t).text)[k]? =
        some (Text.body line ++ Marker.emptyLine.text ++ Text.tail line) := by
  obtain ⟨edited, found, marking⟩ :=
    exists_getElem?_right (forall₂_marking (insertCommentLines (editedLines t))) h
  have same : (Text.lines (prepare t).text)[k]? = some edited.line := by
    rw [lines_prepare, List.getElem?_map, markedLines, found, Option.map_some]
  cases marking with
  | kept => exact .inl same
  | marked empty => exact .inr ⟨empty, same⟩

/-- An inserted line is a comment sign in prepared text, too. -/
theorem getElem?_lines_prepare_inserted {t : Text} {j : Nat} (h : j ∈ (prepare t).inserted) :
    (Text.lines (prepare t).text)[j]? = some ['#'] := by
  rw [prepare_inserted] at h
  obtain ⟨k, same, found, -⟩ := getElem?_insertCommentLines_inserted h
  obtain rfl : j = k := by omega
  rcases getElem?_lines_prepare found with plain | ⟨empty, -⟩
  · exact plain
  · exact absurd empty (by decide)

/-- The lines of prepared text that were not inserted, in ascending order. -/
def keptLines (prepared : Prepared) : List Nat :=
  (List.range (Text.lines prepared.text).length).filter fun j => decide (j ∉ prepared.inserted)

theorem length_lines_prepare (t : Text) :
    (Text.lines (prepare t).text).length =
      (Text.lines t).length + (prepare t).inserted.length := by
  have marks := (forall₂_marking (insertCommentLines (editedLines t))).length_eq
  have edits := (forall₂_edited t).length_eq
  rw [lines_prepare, List.length_map, markedLines, ← marks, length_insertCommentLines 0, edits,
    prepare_inserted]

/-- The lines that were not inserted are the places of the source lines. -/
theorem keptLines_prepare (t : Text) : keptLines (prepare t) = placesFrom 0 (editedLines t) := by
  have marks := (forall₂_marking (insertCommentLines (editedLines t))).length_eq
  have size : (Text.lines (prepare t).text).length =
      (insertCommentLines (editedLines t)).length := by
    rw [lines_prepare, List.length_map, markedLines, ← marks]
  rw [keptLines, size, prepare_inserted, List.range_eq_range', filter_range'_eq_placesFrom]

/-- A recorded mark stands behind the indentation of an empty source line. -/
theorem exists_of_mem_tweaked {t : Text} {i : Nat} (h : i ∈ (prepare t).tweaked) :
    i ∉ (prepare t).inserted ∧
      ∃ (l : Nat) (line : Text), isIndentedEmpty line = true ∧ (Text.lines t)[l]? = some line ∧
        (placesFrom 0 (editedLines t))[l]? = some i ∧
        (Text.lines (prepare t).text)[i]? =
          some (Text.body line ++ Marker.emptyLine.text ++ Text.tail line) := by
  rw [prepare_tweaked] at h
  obtain ⟨k, edited, same, found, changed⟩ := exists_of_mem_changedFrom h
  obtain rfl : i = k := by omega
  obtain ⟨line, inside, marking⟩ :=
    exists_getElem?_left (forall₂_marking (insertCommentLines (editedLines t))) found
  cases marking with
  | kept => cases changed
  | marked empty =>
    have apart : i ∉ (prepare t).inserted := by
      intro member
      rw [prepare_inserted] at member
      obtain ⟨k, same, comment, -⟩ := getElem?_insertCommentLines_inserted member
      obtain rfl : i = k := by omega
      rw [inside] at comment
      obtain rfl := Option.some.inj comment
      exact absurd empty (by decide)
    have bound : i < (Text.lines (prepare t).text).length := by
      rw [lines_prepare, List.length_map]
      exact (List.getElem?_eq_some_iff.1 found).1
    have place : i ∈ placesFrom 0 (editedLines t) := by
      rw [← keptLines_prepare, keptLines, List.mem_filter, List.mem_range]
      exact ⟨bound, by simpa using apart⟩
    obtain ⟨l, at_⟩ := List.mem_iff_getElem?.1 place
    obtain ⟨k, same, original⟩ := getElem?_insertCommentLines_place at_
    obtain rfl : i = k := by omega
    rw [inside] at original
    obtain ⟨source, from_, edits⟩ := exists_getElem?_left (forall₂_edited t) original.symm
    have blank : isBlankLine line = true := by
      rw [isIndentedEmpty, Bool.and_eq_true] at empty
      exact empty.1
    obtain rfl := edits.eq_of_isBlankLine blank
    refine ⟨apart, l, line, empty, from_, at_, ?_⟩
    rw [lines_prepare, List.getElem?_map, found, Option.map_some]

/-- A marked line has nothing the forceful edits look for. -/
theorem isForced_eq_false_of_isBlankLine {line : Text} (blank : isBlankLine line = true) :
    ∀ c ∈ Text.body line ++ Marker.emptyLine.text ++ Text.tail line, isForced c = false := by
  intro c member
  have marks : Marker.emptyLine.text.all (fun c => !isForced c) = true := by decide
  have parts : c ∈ line ∨ c ∈ Marker.emptyLine.text := by
    rw [← Text.body_append_tail line]
    rcases List.mem_append.1 member with front | ending
    · exact (List.mem_append.1 front).imp_left (List.mem_append_left _)
    · exact .inl (List.mem_append_right _ ending)
  rcases parts with inside | mark
  · rcases mem_of_isBlankLine blank inside with indent | rfl
    · simp only [isIndent, Bool.or_eq_true, beq_iff_eq] at indent
      rcases indent with rfl | rfl <;> decide
    · decide
  · simpa using List.all_eq_true.1 marks c mark

/-- What the records of a preparation tell about its text and its source. -/
structure Bookkeeping (source : Text) (prepared : Prepared) : Prop where
  inserted_ascending : prepared.inserted.Pairwise (· < ·)
  /-- Every inserted line is a comment sign. -/
  inserted_comment : ∀ j ∈ prepared.inserted, (Text.lines prepared.text)[j]? = some ['#']
  length_eq : (Text.lines prepared.text).length =
    (Text.lines source).length + prepared.inserted.length
  /-- There are as many other lines as source lines. -/
  length_kept : (keptLines prepared).length = (Text.lines source).length
  /-- The other lines are those of the source, in order. -/
  sourceLine_kept : ∀ (l j : Nat), (keptLines prepared)[l]? = some j →
    Cleanup.sourceLine (Pipeline.numbers prepared.inserted) j = l
  /-- An inserted line stands directly above a line of the source and counts as the one before. -/
  sourceLine_inserted : ∀ j ∈ prepared.inserted, ∃ l : Nat,
    (keptLines prepared)[l]? = some (j + 1) ∧
      Cleanup.sourceLine (Pipeline.numbers prepared.inserted) j = l - 1
  tweaked_ascending : prepared.tweaked.Pairwise (· < ·)
  tweaked_disjoint : ∀ i ∈ prepared.tweaked, i ∉ prepared.inserted
  /-- A marked line has the indentation of its source line, which has nothing else. -/
  tweaked_line : ∀ i ∈ prepared.tweaked, ∃ (indentation ending : Text) (l : Nat),
    indentation ≠ [] ∧ (∀ c ∈ indentation, c = ' ' ∨ c = '\t') ∧
      (ending = [] ∨ ending = ['\r']) ∧
      (Text.lines prepared.text)[i]? = some (indentation ++ ['ᛟ', ':', 'ᛟ'] ++ ending) ∧
      Cleanup.sourceLine (Pipeline.numbers prepared.inserted) i = l ∧
      (Text.lines source)[l]? = some (indentation ++ ending)
  /-- Forceful preparation keeps the number of lines. -/
  forceful_length : (Text.lines (prepareForcefully prepared.text)).length =
    (Text.lines prepared.text).length
  /-- Forceful preparation keeps every line on record. -/
  forceful_line : ∀ j, j ∈ prepared.inserted ∨ j ∈ prepared.tweaked →
    (Text.lines (prepareForcefully prepared.text))[j]? = (Text.lines prepared.text)[j]?

/-- **The line bookkeeping of preparation can be undone exactly.** -/
theorem prepare_bookkeeping (t : Text) : Bookkeeping t (prepare t) where
  inserted_ascending := by
    rw [prepare_inserted]
    exact pairwise_insertedFrom 0 _
  inserted_comment j member := getElem?_lines_prepare_inserted member
  length_eq := length_lines_prepare t
  length_kept := by
    rw [keptLines_prepare, length_placesFrom, (forall₂_edited t).length_eq]
  sourceLine_kept l j found := by
    rw [keptLines_prepare] at found
    exact sourceLine_place found
  sourceLine_inserted j member := by
    rw [prepare_inserted] at member
    obtain ⟨l, found, count⟩ := exists_place_of_inserted member
    refine ⟨l, by rw [keptLines_prepare]; exact found, ?_⟩
    rw [prepare_inserted, sourceLine_numbers (pairwise_insertedFrom 0 _)]
    omega
  tweaked_ascending := by
    rw [prepare_tweaked]
    exact pairwise_changedFrom 0 _
  tweaked_disjoint i member := (exists_of_mem_tweaked member).1
  tweaked_line i member := by
    obtain ⟨-, l, line, empty, from_, place, found⟩ := exists_of_mem_tweaked member
    rw [isIndentedEmpty, isBlankLine, Bool.and_eq_true] at empty
    refine ⟨Text.body line, Text.tail line, l, ?_, ?_, Text.tail_eq line, found,
      sourceLine_place place, ?_⟩
    · simpa using empty.2
    · intro c inside
      have indent := List.all_eq_true.1 empty.1 c inside
      simpa [isIndent] using indent
    · rw [Text.body_append_tail]
      exact from_
  forceful_length := by
    rw [lines_prepareForcefully, List.length_map]
  forceful_line j member := by
    rw [lines_prepareForcefully, List.getElem?_map]
    rcases member with comment | mark
    · rw [getElem?_lines_prepare_inserted comment, Option.map_some,
        forcefulLine_eq_self (List.forall_mem_singleton.2 (by decide))]
    · obtain ⟨-, l, line, empty, -, -, found⟩ := exists_of_mem_tweaked mark
      rw [isIndentedEmpty, Bool.and_eq_true] at empty
      rw [found, Option.map_some,
        forcefulLine_eq_self (isForced_eq_false_of_isBlankLine empty.1)]

end Preparation

end DialectBridge
