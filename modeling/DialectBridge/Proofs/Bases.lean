import DialectBridge.Proofs.LineBookkeeping
import DialectBridge.Proofs.Reconstruction

/-!
# The texts that are compiled

The compiler is asked for the prepared text and, if nothing comes of that, for the forcefully
prepared one. Both have the lines that preparation recorded: inserted lines are comment signs with a
block comment below them, and marked lines are indentation and the mark. Markers that the source is
free of stand in them only where they were recorded.

A line for which such a text is rejected was not inserted, so it is a line of the source. If it
could be replaced, it was not marked either.
-/

set_option autoImplicit false

namespace DialectBridge

open LineByLine

namespace Preparation

variable {t base line : Text} {j : Nat}

/-! ## Characters of forced lines -/

/-- A character that no forceful edit takes or writes. -/
structure Unforced (c : Char) : Prop where
  letter : isIdentifierStart c = false
  indent : isIndent c = false
  signs : c ∉ ['\x7b', '\x7d', ')', '.', '_', ':', ' ']

variable {c : Char}

theorem Unforced.mem_closeString_iff (line : Text) :
    c ∈ (closeString? line).getD line ↔ c ∈ line := by
  refine ⟨mem_of_mem_closeString, fun inside => ?_⟩
  unfold closeString?
  dsimp only
  split
  · split
    · exact inside
    · rw [← Text.body_append_tail line] at inside
      exact List.mem_append.2 ((List.mem_append.1 inside).imp_right (List.mem_cons_of_mem _))
  · exact inside

theorem Unforced.mem_closeCall_iff (h : Unforced c) (line : Text) :
    c ∈ (closeCall? line).getD line ↔ c ∈ line := by
  constructor
  · intro member
    refine (mem_of_mem_closeCall member).resolve_right ?_
    rintro rfl
    exact h.signs (by decide)
  · intro inside
    unfold closeCall?
    cases Text.firstPlace? isOpenCall (Text.body line) with
    | none => exact inside
    | some place =>
      rw [← Text.body_append_tail line] at inside
      exact List.mem_append.2 ((List.mem_append.1 inside).imp_right (List.mem_cons_of_mem _))

theorem Unforced.mem_removeBrace_iff (h : Unforced c) (line : Text) :
    c ∈ (removeBrace? line).getD line ↔ c ∈ line := by
  refine ⟨fun member => (sublist_removeBrace line).subset member, fun inside => ?_⟩
  unfold removeBrace?
  split
  · next before d split_ =>
    split
    · next brace =>
      rw [← Text.body_append_tail line, Text.splitLast?_eq_some split_] at inside
      rcases List.mem_append.1 inside with code | ending
      · refine List.mem_append_left _ ?_
        rcases List.mem_append.1 code with front | last
        · rw [← List.mem_reverse, ← List.takeWhile_append_dropWhile (p := isIndent)
            (l := before.reverse)] at front
          rw [List.mem_reverse]
          refine (List.mem_append.1 front).resolve_left fun blank => ?_
          exact Bool.noConfusion (h.indent.symm.trans (List.mem_takeWhile_imp blank))
        · obtain rfl := List.mem_singleton.1 last
          refine absurd ?_ h.signs
          rcases Bool.or_eq_true _ _ ▸ brace with opening | closing
          · simp [beq_iff_eq.1 opening]
          · simp [beq_iff_eq.1 closing]
      · exact List.mem_append_right _ ending
    · exact inside
  · exact inside

/-- A rule that takes and writes first letters of identifiers and signs of spreads only does not
concern such a character. -/
theorem Unforced.mem_spread_iff (h : Unforced c) {rule : ReplacementRule}
    (spread : ∀ before t r, rule before t = some r → ∃ taken rest, t = taken ++ rest ∧
      taken.length = r.length ∧ 1 ≤ r.length ∧
      ∀ d ∈ taken ++ r.output, isIdentifierStart d = true ∨ d ∈ ['.', '_', ':', ' '])
    (line : Text) : c ∈ Text.scan rule line ↔ c ∈ line := by
  refine Text.scan_induction (fun line line' => c ∈ line' ↔ c ∈ line) Iff.rfl ?_ ?_ line
  · intro d rest rest' ih
    rw [List.mem_cons, List.mem_cons, ih]
  · intro before t r replaced
    obtain ⟨taken, rest, rfl, size, positive, signs⟩ := spread before t r replaced
    refine ⟨taken, rest, rfl, size, positive, fun rest' ih => ?_⟩
    have absent : c ∉ taken ++ r.output := by
      intro member
      rcases signs c member with start | sign
      · exact Bool.noConfusion (h.letter.symm.trans start)
      · exact h.signs (List.mem_append_right ['\x7b', '\x7d', ')'] sign)
    rw [List.mem_append, not_or] at absent
    rw [List.mem_append, List.mem_append, ih, or_iff_right absent.1, or_iff_right absent.2]

theorem Unforced.mem_leadingSpread_iff (h : Unforced c) (line : Text) :
    c ∈ Text.scan leadingSpread line ↔ c ∈ line := by
  refine h.mem_spread_iff (fun before t r replaced => ?_) line
  obtain ⟨d, rest, start, rfl, rfl⟩ := leadingSpread_eq_some replaced
  refine ⟨_, rest, rfl, rfl, Nat.le_add_left 1 3, ?_⟩
  simp [start]

theorem Unforced.mem_trailingSpread_iff (h : Unforced c) (line : Text) :
    c ∈ Text.scan trailingSpread line ↔ c ∈ line := by
  refine h.mem_spread_iff (fun before t r replaced => ?_) line
  obtain ⟨d, rest, start, rfl, rfl⟩ := trailingSpread_eq_some replaced
  refine ⟨_, rest, rfl, rfl, Nat.le_add_left 1 3, ?_⟩
  simp [start]

/-- Forceful edits keep such a character and do not write it. -/
theorem Unforced.mem_forcefulLine_iff (h : Unforced c) (line : Text) :
    c ∈ forcefulLine line ↔ c ∈ line := by
  unfold forcefulLine
  dsimp only
  rw [h.mem_trailingSpread_iff, h.mem_leadingSpread_iff, h.mem_removeBrace_iff,
    h.mem_closeCall_iff, mem_closeString_iff]

theorem unforced_sign : Unforced '#' := ⟨by decide, by decide, by decide⟩

theorem unforced_placeholder : Unforced 'ᛝ' := ⟨by decide, by decide, by decide⟩

theorem unforced_mark : Unforced 'ᛟ' := ⟨by decide, by decide, by decide⟩

/-! ## The lines of both texts -/

/-- The texts that are compiled for a prepared text. -/
inductive Submitted (prepared : Text) : Text → Prop
  /-- The prepared text itself. -/
  | gentle : Submitted prepared prepared
  /-- The forcefully prepared text. -/
  | forceful : Submitted prepared (prepareForcefully prepared)

/-- A line of a compiled text is a line of the prepared text, as it is or forced. -/
theorem exists_prepared_line (h : Submitted (prepare t).text base)
    (found : (Text.lines base)[j]? = some line) :
    ∃ prepared, (Text.lines (prepare t).text)[j]? = some prepared ∧
      (line = prepared ∨ line = forcefulLine prepared) := by
  cases h with
  | gentle => exact ⟨line, found, .inl rfl⟩
  | forceful =>
    rw [lines_prepareForcefully, List.getElem?_map] at found
    obtain ⟨prepared, there, rfl⟩ := Option.map_eq_some_iff.1 found
    exact ⟨prepared, there, .inr rfl⟩

/-- Both texts have as many lines. -/
theorem length_lines_base (h : Submitted (prepare t).text base) :
    (Text.lines base).length = (Text.lines (prepare t).text).length := by
  cases h with
  | gentle => rfl
  | forceful => rw [lines_prepareForcefully, List.length_map]

/-- A line of the prepared text that no forceful edit touches is a line of both texts. -/
theorem getElem?_lines_base (h : Submitted (prepare t).text base)
    (found : (Text.lines (prepare t).text)[j]? = some line) :
    (Text.lines base)[j]? = some line ∨ (Text.lines base)[j]? = some (forcefulLine line) := by
  cases h with
  | gentle => exact .inl found
  | forceful =>
    rw [lines_prepareForcefully, List.getElem?_map, found]
    exact .inr rfl

/-- An inserted line is a comment sign, and the line below it has one, too. -/
theorem getElem?_lines_base_inserted (h : Submitted (prepare t).text base)
    (inserted : j ∈ (prepare t).inserted) :
    (Text.lines base)[j]? = some ['#'] ∧
      ∃ below, (Text.lines base)[j + 1]? = some below ∧ '#' ∈ below := by
  constructor
  · have same : forcefulLine ['#'] = ['#'] := by
      refine forcefulLine_eq_self fun c inside => ?_
      rw [List.mem_singleton.1 inside]
      decide
    rcases getElem?_lines_base h (getElem?_lines_prepare_inserted inserted) with plain | forced
    · exact plain
    · rw [forced, same]
  · rw [prepare_inserted] at inserted
    obtain ⟨k, same, -, below, found, block⟩ := getElem?_insertCommentLines_inserted inserted
    obtain rfl : j = k := by omega
    have sign : '#' ∈ below := by
      unfold startsBlockComment at block
      split at block
      · next rest opened =>
        refine (List.dropWhile_sublist isBlank).subset ?_
        change '#' ∈ Text.trimLeft below
        rw [Text.dropFront?_eq_some opened]
        exact List.mem_cons_self
      · cases block
    have inPrepared : (Text.lines (prepare t).text)[j + 1]? = some below := by
      rcases getElem?_lines_prepare found with plain | ⟨empty, -⟩
      · exact plain
      · rw [isIndentedEmpty, Bool.and_eq_true] at empty
        rcases mem_of_isBlankLine empty.1 sign with bad | bad
        · exact absurd bad (by decide)
        · exact absurd bad (by decide)
    rcases getElem?_lines_base h inPrepared with plain | forced
    · exact ⟨below, plain, sign⟩
    · exact ⟨_, forced, (unforced_sign.mem_forcefulLine_iff below).2 sign⟩

/-- A marked line: indentation, the mark, and maybe a carriage return. -/
structure MarkedLine (line blanks ending : Text) : Prop where
  whole : line = blanks ++ ['ᛟ', ':', 'ᛟ'] ++ ending
  white : ∀ c ∈ blanks, isIndent c = true
  ending_eq : ending = [] ∨ ending = ['\r']

/-- A line on record as marked is one. -/
theorem exists_markedLine (h : Submitted (prepare t).text base)
    (tweaked : j ∈ (prepare t).tweaked) :
    ∃ line blanks ending, (Text.lines base)[j]? = some line ∧ MarkedLine line blanks ending := by
  obtain ⟨-, l, blank, empty, -, -, found⟩ := exists_of_mem_tweaked tweaked
  rw [isIndentedEmpty, Bool.and_eq_true] at empty
  have same := forcefulLine_eq_self (isForced_eq_false_of_isBlankLine empty.1)
  have shape : MarkedLine (Text.body blank ++ Marker.emptyLine.text ++ Text.tail blank)
      (Text.body blank) (Text.tail blank) :=
    ⟨rfl, List.all_eq_true.1 empty.1, Text.tail_eq blank⟩
  rcases getElem?_lines_base h found with plain | forced
  · exact ⟨_, _, _, plain, shape⟩
  · rw [same] at forced
    exact ⟨_, _, _, forced, shape⟩

namespace MarkedLine

variable {blanks ending : Text}

theorem trimLeft_eq (h : MarkedLine line blanks ending) :
    Text.trimLeft line = ['ᛟ', ':', 'ᛟ'] ++ ending := by
  rw [h.whole, List.append_assoc]
  exact Text.trimLeft_append (fun c inside => isBlank_of_isIndent (h.white c inside)) (by decide) _

theorem trimRight_eq (h : MarkedLine line blanks ending) :
    Text.trimRight line = blanks ++ ['ᛟ', ':', 'ᛟ'] := by
  have blank : Text.trimRight ending = [] := by
    rcases h.ending_eq with rfl | rfl <;> decide
  have shape : line = blanks ++ ['ᛟ', ':'] ++ ['ᛟ'] ++ ending := by
    rw [h.whole]
    simp
  rw [shape, Text.trimRight_append (by decide), blank]
  simp

theorem isComment_eq_false (h : MarkedLine line blanks ending) : isComment line = false := by
  unfold isComment
  rw [h.trimLeft_eq]
  rfl

/-- A marked line has text. -/
theorem isEmptyLine_eq_false (h : MarkedLine line blanks ending) :
    Text.isEmptyLine line = false :=
  isEmptyLine_eq_false_of_trimLeft h.trimLeft_eq

/-- In compiled text it is indentation, the mark and the terminator. -/
theorem lineOutput_eq (h : MarkedLine line blanks ending) :
    lineOutput line = blanks ++ ['ᛟ', ':', 'ᛟ', ';'] := by
  unfold lineOutput
  rw [h.isComment_eq_false, h.trimRight_eq]
  simp

theorem not_incomplete (h : MarkedLine line blanks ending) : ¬ Incomplete line := by
  rintro ⟨-, dangling | bare⟩
  · have last : ∀ back : Text, Text.endsWith back (Text.trimRight line) = true →
        back.getLast? = none ∨ back.getLast? = some 'ᛟ' := by
      intro back ends
      rw [Text.endsWith, List.isSuffixOf_iff_suffix, h.trimRight_eq] at ends
      obtain ⟨front, same⟩ := ends
      have lasts := congrArg List.getLast? same
      rw [List.getLast?_append, List.getLast?_append] at lasts
      cases own : back.getLast? with
      | none => exact .inl rfl
      | some c =>
        rw [own] at lasts
        exact .inr lasts
    unfold isDangling at dangling
    rw [Bool.or_eq_true, Bool.or_eq_true] at dangling
    rcases dangling with (dot | terminated) | bracket
    · exact absurd (last _ dot) (by decide)
    · exact absurd (last _ terminated) (by decide)
    · exact absurd (last _ bracket) (by decide)
  · unfold isBareName at bare
    rw [h.trimLeft_eq] at bare
    have start := (Bool.and_eq_true _ _ ▸ bare).1
    exact absurd start (by decide)

theorem not_bracket (h : MarkedLine line blanks ending) {c : Char} (inside : c ∈ line) :
    c ∉ brackets := by
  have white : ∀ c, isBlank c = true → c ∉ brackets := by
    intro c blank bracket
    simp only [brackets, List.mem_cons, List.not_mem_nil, or_false] at bracket
    rcases bracket with rfl | rfl | rfl | rfl <;> exact absurd blank (by decide)
  rw [h.whole] at inside
  rcases List.mem_append.1 inside with front | last
  · rcases List.mem_append.1 front with blank | mark
    · exact white c (isBlank_of_isIndent (h.white c blank))
    · simp only [List.mem_cons, List.not_mem_nil, or_false] at mark
      rcases mark with rfl | rfl | rfl <;> decide
  · rcases h.ending_eq with rfl | rfl
    · exact absurd last List.not_mem_nil
    · rw [List.mem_singleton.1 last]
      decide

end MarkedLine

/-! ## Where markers stand -/

/-- The index of a changed line is on record. -/
theorem mem_changedFrom {all : List EditedLine} {edited : EditedLine} {k : Nat}
    (found : all[k]? = some edited) (changed : edited.changed = true) (index : Nat) :
    index + k ∈ changedFrom index all := by
  induction all generalizing index k with
  | nil => cases found
  | cons first rest ih =>
    unfold changedFrom
    cases k with
    | zero =>
      obtain rfl := Option.some.inj found
      rw [if_pos changed]
      exact List.mem_cons_self
    | succ k =>
      have later := ih found (index + 1)
      rw [Nat.add_right_comm, Nat.add_assoc] at later
      split
      · exact List.mem_cons_of_mem _ later
      · exact later

/-- Edits and inserted lines bring neither the placeholder nor the mark of empty lines. -/
theorem mem_of_mem_insertCommentLines (marker : c ∈ ['ᛝ', 'ᛟ'])
    (member : line ∈ insertCommentLines (editedLines t)) (inside : c ∈ line) : c ∈ t := by
  simp only [List.mem_cons, List.not_mem_nil, or_false] at marker
  unfold insertCommentLines at member
  obtain ⟨edited, editedLine, here⟩ := List.mem_flatMap.1 member
  have sign : line ≠ ['#'] := by
    rintro rfl
    rw [List.mem_singleton.1 inside] at marker
    exact absurd marker (by decide)
  obtain rfl : line = edited := by
    split at here
    · simpa [sign] using here
    · simpa using here
  obtain ⟨l, found⟩ := List.mem_iff_getElem?.1 editedLine
  obtain ⟨source, from_, edits⟩ := exists_getElem?_left (forall₂_edited t) found
  rcases edits.mem inside with kept | new
  · exact Text.mem_of_mem_lines (List.mem_of_getElem? from_) kept
  · rcases marker with rfl | rfl
    · exact absurd new (by decide)
    · exact absurd new (by decide)

/-- The placeholder and the mark of empty lines are not written into lines, unless the line is on
record as marked. -/
theorem mem_of_mem_base (h : Submitted (prepare t).text base)
    (found : (Text.lines base)[j]? = some line) (marker : c ∈ ['ᛝ', 'ᛟ']) (inside : c ∈ line) :
    c ∈ t ∨ c = 'ᛟ' ∧ j ∈ (prepare t).tweaked := by
  have unforced : Unforced c := by
    simp only [List.mem_cons, List.not_mem_nil, or_false] at marker
    rcases marker with rfl | rfl
    · exact unforced_placeholder
    · exact unforced_mark
  obtain ⟨prepared, there, shape⟩ := exists_prepared_line h found
  have member : c ∈ prepared := by
    rcases shape with rfl | rfl
    · exact inside
    · exact (unforced.mem_forcefulLine_iff prepared).1 inside
  rw [lines_prepare, List.getElem?_map] at there
  obtain ⟨edited, marked, rfl⟩ := Option.map_eq_some_iff.1 there
  obtain ⟨original, at_, marking⟩ :=
    exists_getElem?_left (forall₂_marking (insertCommentLines (editedLines t))) marked
  have old : c ∈ original → c ∈ t :=
    mem_of_mem_insertCommentLines marker (List.mem_of_getElem? at_)
  -- Only marking is left that could write such a character, and it puts the line on record.
  cases marking with
  | kept => exact .inl (old member)
  | marked empty =>
    rcases List.mem_append.1 member with front | ending
    · rcases List.mem_append.1 front with code | mark
      · refine .inl (old ?_)
        rw [← Text.body_append_tail original]
        exact List.mem_append_left _ code
      · refine .inr ⟨?_, ?_⟩
        · simp only [List.mem_cons, List.not_mem_nil, or_false] at marker
          refine marker.resolve_left ?_
          rintro rfl
          exact absurd mark (by decide)
        · rw [prepare_tweaked]
          have recorded := mem_changedFrom marked rfl 0
          rwa [Nat.zero_add] at recorded
    · refine .inl (old ?_)
      rw [← Text.body_append_tail original]
      exact List.mem_append_right _ ending

/-- The placeholder stands in no compiled text of a source without it. -/
theorem placeholder_not_mem_base (h : Submitted (prepare t).text base) (clean : 'ᛝ' ∉ t) :
    'ᛝ' ∉ base := by
  intro inside
  rw [← Text.joinLines_lines base] at inside
  rcases Text.mem_joinLines inside with feed | ⟨line, member, here⟩
  · exact absurd feed (by decide)
  · obtain ⟨j, found⟩ := List.mem_iff_getElem?.1 member
    rcases mem_of_mem_base h found (by decide) here with bad | ⟨bad, -⟩
    · exact clean bad
    · exact absurd bad (by decide)

/-! ## Lines of the source -/

/-- Every line that was not inserted is the place of a source line. -/
theorem exists_place (h : Submitted (prepare t).text base)
    (found : (Text.lines base)[j]? = some line) (apart : j ∉ (prepare t).inserted) :
    ∃ l < (Text.lines t).length, (placesFrom 0 (editedLines t))[l]? = some j := by
  have bound : j < (Text.lines (prepare t).text).length := by
    rw [← length_lines_base h]
    exact (List.getElem?_eq_some_iff.1 found).1
  have place : j ∈ placesFrom 0 (editedLines t) := by
    rw [← keptLines_prepare, keptLines, List.mem_filter, List.mem_range]
    exact ⟨bound, by simpa using apart⟩
  obtain ⟨l, at_⟩ := List.mem_iff_getElem?.1 place
  refine ⟨l, ?_, at_⟩
  have inside := (List.getElem?_eq_some_iff.1 at_).1
  rwa [length_placesFrom, ← (forall₂_edited t).length_eq] at inside

/-- **A faulty line is a line of the source**: it was not inserted, since an inserted line is a
comment and the line below it has text. -/
theorem not_mem_inserted_of_faulty (h : Submitted (prepare t).text base)
    (faulty : Faulty base j line) :
    j ∉ (prepare t).inserted := by
  intro inserted
  obtain ⟨found, below, next, sign⟩ := getElem?_lines_base_inserted h inserted
  rcases faulty.cause with incomplete | ⟨-, last⟩
  · have same := Option.some.inj (faulty.found.symm.trans found)
    subst same
    exact absurd incomplete.1 (by decide)
  · have empty := last (j + 1) below (Nat.lt_succ_self j) next
    rw [Text.isEmptyLine, List.all_eq_true] at empty
    exact absurd (empty _ sign) (by decide)

/-- A line that is incomplete or has a bracket is not a marked one. -/
theorem not_mem_tweaked_of_telling (h : Submitted (prepare t).text base)
    (found : (Text.lines base)[j]? = some line)
    (telling : Incomplete line ∨ ∃ c ∈ line, c ∈ brackets) : j ∉ (prepare t).tweaked := by
  intro tweaked
  obtain ⟨other, blanks, ending, there, marked⟩ := exists_markedLine h tweaked
  obtain rfl := Option.some.inj (found.symm.trans there)
  rcases telling with incomplete | ⟨c, inside, bracket⟩
  · exact marked.not_incomplete incomplete
  · exact marked.not_bracket inside bracket

end Preparation

end DialectBridge
