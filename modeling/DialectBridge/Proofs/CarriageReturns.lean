import DialectBridge.Proofs.MarkedBlocks
import DialectBridge.Proofs.SharedDots

/-!
# Preparing a text with carriage returns

A text with carriage returns in front of its line feeds is prepared like the text without them, up
to the carriage returns, and with the same records of inserted and marked lines. There is one
exception, and it is the text without carriage returns that is treated in the wrong way then: a
dangling dot above a line with nothing but a dot is overlooked, while a carriage return keeps the two
lines apart, so that each of the dots gets its terminator.

The records do not depend on this. What begins a block comment, what is empty and how far a line is
indented is decided by the front of a line (`Alike`), and marks and terminators come behind it.

The main statement, **prepare_withReturns_iff**, says for every text without carriage returns that
the prepared texts agree exactly when no dot is overlooked, and that all else agrees always.
-/

set_option autoImplicit false

namespace DialectBridge

namespace Preparation

open Text

variable {line line' : Text} {all all' : List Text}

/-! ## Lines that the line structure does not tell apart -/

/-- Two lines that count for the same: both begin a block comment or not, both are blank or not, and
they are indented alike, by the same characters if there is nothing else. -/
structure Alike (line line' : Text) : Prop where
  block : startsBlockComment line' = startsBlockComment line
  blank : isBlankLine line' = isBlankLine line
  width : indentWidth line' = indentWidth line
  body : isBlankLine line = true → Text.body line' = Text.body line

namespace Alike

theorem refl (line : Text) : Alike line line := ⟨rfl, rfl, rfl, fun _ => rfl⟩

theorem symm (h : Alike line line') : Alike line' line where
  block := h.block.symm
  blank := h.blank.symm
  width := h.width.symm
  body blank := (h.body (h.blank ▸ blank)).symm

theorem trans {line'' : Text} (first : Alike line line') (second : Alike line' line'') :
    Alike line line'' where
  block := second.block.trans first.block
  blank := second.blank.trans first.blank
  width := second.width.trans first.width
  body blank := (second.body (first.blank.trans blank)).trans (first.body blank)

end Alike

/-- Whether a block comment begins is decided by comment signs, and by nothing behind another
character. -/
theorem startsBlockComment_append {front rest : Text}
    (whole : trimLeft (front ++ rest) = trimLeft front ++ rest) (other : rest.head? ≠ some '#') :
    startsBlockComment (front ++ rest) = startsBlockComment front := by
  have foreign : ∀ c ∈ rest.head?, c ∉ ['#', '#', '#'] := by
    intro c first inside
    have sign : c = '#' := by simpa using inside
    exact other (sign ▸ first)
  unfold startsBlockComment
  rw [whole, dropFront?_append_of_head foreign]
  cases dropFront? ['#', '#', '#'] (trimLeft front) with
  | none => rfl
  | some behind =>
    cases behind with
    | nil => exact bne_iff_ne.2 other
    | cons c more => rfl

/-- Behind a character with ink that is no comment sign, lines may differ. -/
theorem Alike.of_ink {c : Char} (ink : isBlank c = false) (other : c ≠ '#') (front rest rest' : Text) :
    Alike (front ++ c :: rest) (front ++ c :: rest') := by
  have block : ∀ rest, startsBlockComment (front ++ c :: rest) = startsBlockComment front :=
    fun rest => startsBlockComment_append (leadingBlank_append ink front rest).2
      fun same => other (Option.some.inj same)
  have noIndent : isIndent c = false := by
    by_contra indent
    rw [Bool.not_eq_false] at indent
    exact Bool.noConfusion (ink.symm.trans (isBlank_of_isIndent indent))
  have text : ∀ rest, isBlankLine (front ++ c :: rest) = false := by
    intro rest
    by_contra blank
    rw [Bool.not_eq_false] at blank
    rcases mem_of_isBlankLine blank (List.mem_append_right _ List.mem_cons_self) with indent | rfl
    · exact Bool.noConfusion (noIndent.symm.trans indent)
    · exact absurd ink (by decide)
  have width : ∀ rest, indentWidth (front ++ c :: rest) = indentWidth front :=
    fun rest => congrArg List.length (takeWhile_append_cons noIndent front rest)
  exact ⟨(block rest').trans (block rest).symm, (text rest').trans (text rest).symm,
    (width rest').trans (width rest).symm, fun blank => Bool.noConfusion ((text rest).symm.trans blank)⟩

/-- A carriage return behind a line belongs to the line break. -/
theorem Alike.append_return (clean : '\r' ∉ line) : Alike line (line ++ ['\r']) where
  block := by
    cases text : trimLeft line with
    | nil =>
      have white : ∀ c ∈ line ++ ['\r'], isBlank c = true := by
        intro c member
        rcases List.mem_append.1 member with inside | last
        · exact List.dropWhile_eq_nil_iff.1 text c inside
        · rw [List.mem_singleton.1 last]
          decide
      unfold startsBlockComment
      rw [text, trimLeft, List.dropWhile_eq_nil_iff.2 white]
    | cons c rest =>
      refine startsBlockComment_append ?_ (by decide)
      rw [trimLeft_append_right text, text]
      rfl
  blank := by rw [isBlankLine, isBlankLine, body_append_return, body_of_not_mem clean]
  width := congrArg List.length (takeWhile_append_cons (by decide) line [])
  body _ := by rw [body_append_return, body_of_not_mem clean]

theorem Terminated.alike (h : Terminated line line') : Alike line line' := by
  cases h with
  | same => exact .refl line
  | @dot front => exact .of_ink (by decide) (by decide) front [] [';']

/-- Blotted texts are the same up to some comma. The comma may be the one that was just passed. -/
theorem Blotted.eq_or_comma {comma : Bool} {t t' : Text} (h : Blotted comma t t') (passed : Text)
    (behind : comma = true → passed.getLast? = some ',') :
    t' = t ∨ ∃ front rest rest', passed ++ t = front ++ ',' :: rest ∧
      passed ++ t' = front ++ ',' :: rest' := by
  induction h generalizing passed with
  | nil => exact .inl rfl
  | @keep comma d t t' rest ih =>
    have later := ih (passed ++ [d]) fun same => by simp [beq_iff_eq.1 same]
    rw [List.append_assoc, List.append_assoc] at later
    exact later.imp_left (congrArg (d :: ·))
  | @mark t t' free rest ih =>
    obtain ⟨front, rfl⟩ := List.getLast?_eq_some_iff.1 (behind rfl)
    exact .inr ⟨front, ' ' :: t, '↯' :: t', by simp, by simp⟩

theorem Blotted.alike (h : Blotted false line line') : Alike line line' := by
  rcases h.eq_or_comma [] (fun impossible => nomatch impossible) with
    rfl | ⟨front, rest, rest', whole, whole'⟩
  · exact .refl line'
  · rw [List.nil_append] at whole whole'
    subst whole whole'
    exact .of_ink (by decide) (by decide) front rest rest'

/-! ## The line structure of lines that count for the same -/

section Structure

variable (pairs : List.Forall₂ Alike all all')

include pairs

theorem insertedFrom_congr (index : Nat) : insertedFrom index all' = insertedFrom index all := by
  induction pairs generalizing index with
  | nil => rfl
  | cons here _ ih => rw [insertedFrom, insertedFrom, here.block, ih, ih]

theorem placesFrom_congr (index : Nat) : placesFrom index all' = placesFrom index all := by
  induction pairs generalizing index with
  | nil => rfl
  | cons here _ ih => rw [placesFrom, placesFrom, here.block, ih, ih]

theorem opensBlock_congr (width : Nat) : opensBlock width all' = opensBlock width all := by
  induction pairs with
  | nil => rfl
  | @cons line line' below below' here _ ih =>
    cases blank : isBlankLine line with
    | true => rw [opensBlock_of_blank blank, opensBlock_of_blank (here.blank.trans blank), ih]
    | false =>
      rw [opensBlock_of_text blank, opensBlock_of_text (here.blank.trans blank), here.width]

/-- Such lines are marked in the same places. -/
theorem isMarked_congr (here : Alike line line') : isMarked line' all' = isMarked line all := by
  unfold isMarked isIndentedEmpty
  rw [here.blank]
  cases blank : isBlankLine line with
  | false => rfl
  | true => rw [here.body blank, opensBlock_congr pairs]

end Structure

/-- Lines of a relation keep it when comment lines are put above some of them. -/
theorem forall₂_insertCommentLines {related : Text → Text → Prop} (sign : related ['#'] ['#'])
    (alike : ∀ line line', related line line' → Alike line line')
    (pairs : List.Forall₂ related all all') :
    List.Forall₂ related (insertCommentLines all) (insertCommentLines all') := by
  induction pairs with
  | nil => exact .nil
  | @cons line line' rest rest' here _ ih =>
    rw [insertCommentLines_cons, insertCommentLines_cons, (alike _ _ here).block]
    split
    · exact .cons sign (.cons here ih)
    · exact .cons here ih

/-- The marks of alike lines are on record alike. -/
theorem changedFrom_markEmptyLines_congr (pairs : List.Forall₂ Alike all all') (index : Nat) :
    changedFrom index (markEmptyLines all') = changedFrom index (markEmptyLines all) := by
  induction pairs generalizing index with
  | nil => rfl
  | @cons line line' below below' here pairs ih =>
    have decision := isMarked_congr pairs here
    cases marked : isMarked line below with
    | true =>
      rw [markEmptyLines_of_marked marked, markEmptyLines_of_marked (decision.trans marked),
        changedFrom, changedFrom, ih]
    | false =>
      rw [markEmptyLines_of_not_marked marked, markEmptyLines_of_not_marked (decision.trans marked),
        EditedLine.keep, EditedLine.keep, changedFrom, changedFrom, ih]

/-! ## Lines that may end in a carriage return -/

/-- A line without carriage returns, as it is or with one at its end. -/
inductive Ended (line : Text) : Text → Prop
  | plain (clean : '\r' ∉ line) : Ended line line
  | ended (clean : '\r' ∉ line) : Ended line (line ++ ['\r'])

namespace Ended

theorem alike (h : Ended line line') : Alike line line' := by
  cases h with
  | plain => exact .refl line
  | ended clean => exact .append_return clean

theorem withoutReturns_eq (h : Ended line line') : withoutReturns line' = line := by
  cases h with
  | plain clean => exact withoutReturns_of_not_mem clean
  | ended clean => rw [withoutReturns_append_return, withoutReturns_of_not_mem clean]

/-- A mark is put in front of the carriage return. -/
theorem marked (h : Ended line line') :
    Ended (body line ++ Marker.emptyLine.text ++ tail line)
      (body line' ++ Marker.emptyLine.text ++ tail line') := by
  have added : ∀ clean : '\r' ∉ line, '\r' ∉ line ++ Marker.emptyLine.text := by
    intro clean inside
    exact (List.mem_append.1 inside).elim clean (by decide)
  cases h with
  | plain clean =>
    rw [body_of_not_mem clean, tail_of_not_mem clean, List.append_nil]
    exact .plain (added clean)
  | ended clean =>
    rw [body_of_not_mem clean, tail_of_not_mem clean, body_append_return, tail_append_return,
      List.append_nil]
    exact .ended (added clean)

end Ended

theorem forall₂_ended (each : ∀ line ∈ all, '\r' ∉ line) :
    List.Forall₂ Ended all (endWithReturns all) := by
  induction all with
  | nil => exact .nil
  | cons line more ih =>
    have here := each line List.mem_cons_self
    have later := ih fun l inside => each l (List.mem_cons_of_mem _ inside)
    cases more with
    | nil => exact .cons (.plain here) .nil
    | cons next rest => exact .cons (.ended here) later

/-- Marking keeps such lines. -/
theorem forall₂_linesWithMarks (pairs : List.Forall₂ Ended all all') :
    List.Forall₂ Ended (linesWithMarks all) (linesWithMarks all') := by
  unfold linesWithMarks
  induction pairs with
  | nil => exact .nil
  | @cons line line' below below' here pairs ih =>
    have decision := isMarked_congr (pairs.imp fun _ _ => Ended.alike) here.alike
    cases marked : isMarked line below with
    | true =>
      rw [markEmptyLines_of_marked marked, markEmptyLines_of_marked (decision.trans marked)]
      exact .cons here.marked ih
    | false =>
      rw [markEmptyLines_of_not_marked marked, markEmptyLines_of_not_marked (decision.trans marked)]
      exact .cons here ih

/-- Without the carriage returns these are the old lines. -/
theorem map_withoutReturns_of_ended (pairs : List.Forall₂ Ended all all') :
    all'.map withoutReturns = all := by
  induction pairs with
  | nil => rfl
  | cons here _ ih => rw [List.map_cons, here.withoutReturns_eq, ih]

/-! ## Receivers and overlooked dots -/

/-- A dot that ends a line behind a receiver stands in what follows the receiver. -/
theorem suffix_append_iff {after : Text} (blank : after.head?.all isBlank = true) (front : Text)
    {e : Char} (other : e ≠ '.') (c : Char) :
    [c, '.'] <:+ front ++ [e] ++ after ↔ [c, '.'] <:+ after := by
  refine ⟨fun ending => ?_, fun ending => ending.trans (List.suffix_append _ _)⟩
  have last : (front ++ [e] ++ after).getLast? = some '.' := by
    obtain ⟨before, whole⟩ := ending
    rw [← whole, List.getLast?_append]
    rfl
  match after with
  | [] =>
    rw [List.append_nil, List.getLast?_concat] at last
    exact absurd (Option.some.inj last) other
  | [d] =>
    rw [List.getLast?_concat] at last
    obtain rfl := Option.some.inj last
    exact absurd blank (by decide)
  | d :: d' :: more =>
    exact List.suffix_of_suffix_length_le ending (List.suffix_append _ _) (by simp)

/-- A line whose receiver is marked, or the line itself. -/
theorem receiverLine_cases (line : Text) :
    receiverLine line = line ∨ ∃ before after, line = before ++ ['@'] ++ after ∧
      receiverLine line = before ++ "this.__coffeemapAtSig".toList ++ ['n'] ++ after ∧
      after.head?.all isBlank = true := by
  unfold receiverLine
  cases marked : markReceiver? line with
  | none => exact .inl rfl
  | some new =>
    obtain ⟨before, after, whole, rfl, blank, -⟩ := markReceiver?_eq_some marked
    have text : Marker.receiver.text = "this.__coffeemapAtSig".toList ++ ['n'] := by decide
    refine .inr ⟨before, after, by simpa using whole, ?_, blank⟩
    rw [Option.getD_some, text]
    simp only [List.append_assoc]

theorem receiverLine_eq_dot_iff (line : Text) : receiverLine line = ['.'] ↔ line = ['.'] := by
  rcases receiverLine_cases line with same | ⟨before, after, whole, marked, -⟩
  · rw [same]
  · rw [marked, whole]
    refine iff_of_false (fun alone => ?_) fun alone => ?_
    · have letter : 'n' ∈ ['.'] := alone ▸ by simp
      exact absurd letter (by decide)
    · have receiver : '@' ∈ ['.'] := alone ▸ by simp
      exact absurd receiver (by decide)

theorem mem_receiverLine_iff (line : Text) : '#' ∈ receiverLine line ↔ '#' ∈ line := by
  rcases receiverLine_cases line with same | ⟨before, after, whole, marked, -⟩
  · rw [same]
  · rw [marked, whole]
    simp

theorem dangling_receiverLine_iff (line : Text) : Dangling (receiverLine line) ↔ Dangling line := by
  unfold Dangling
  rw [mem_receiverLine_iff]
  refine and_congr_left fun _ => exists_congr fun c => and_congr_left fun _ => ?_
  rcases receiverLine_cases line with same | ⟨before, after, whole, marked, blank⟩
  · rw [same]
  · rw [marked, whole, suffix_append_iff blank _ (by decide), suffix_append_iff blank _ (by decide)]

/-- **Marking receivers overlooks no dot and no comment.** -/
theorem overlooked_map_receiverLine_iff (all : List Text) :
    Overlooked (all.map receiverLine) ↔ Overlooked all := by
  have at_ : ∀ holds : Text → Prop, (∀ line, holds (receiverLine line) ↔ holds line) →
      ∀ k : Nat, (∃ line, (all.map receiverLine)[k]? = some line ∧ holds line) ↔
        ∃ line, all[k]? = some line ∧ holds line := by
    intro holds same k
    rw [List.getElem?_map]
    cases all[k]? with
    | none => simp
    | some line => simpa using same line
  have dot : ∀ k : Nat, (all.map receiverLine)[k]? = some ['.'] ↔ all[k]? = some ['.'] := by
    intro k
    have same := at_ (· = ['.']) receiverLine_eq_dot_iff k
    rwa [exists_eq_right, exists_eq_right] at same
  have dangling := at_ Dangling dangling_receiverLine_iff
  have comment := at_ ('#' ∈ ·) mem_receiverLine_iff
  unfold Overlooked
  simp only [dot, dangling, comment]

/-! ## Both kinds of line breaks -/

variable {t : Text}

/-- **The edited lines** of a text with carriage returns count for the same as those without. -/
theorem forall₂_alike_editedLines (clean : '\r' ∉ t) :
    List.Forall₂ Alike (editedLines t) (editedLines (withReturns t)) := by
  have received := not_mem_receiverEdit clean
  have marks : List.Forall₂ Alike (editedLines t)
      (lines (spaceEdit.apply (keyEdit.apply (dotEdit.apply (receiverEdit.apply t))))) := by
    rw [editedLines_eq]
    exact List.Forall₂.flip ((roomedLines_scan _).blotted.imp fun _ _ h => h.alike.symm)
  have terminators := (forall₂_terminated received).imp fun _ _ => Terminated.alike
  have marks' : List.Forall₂ Alike
      (lines (spaceEdit.apply (keyEdit.apply (lineDotEdit.apply (receiverEdit.apply t)))))
      (lines (editLineByLine t)) := by
    rw [editLineByLine, ← scan_markTrailingComma]
    exact (roomedLines_scan _).blotted.imp fun _ _ => Blotted.alike
  have returns := (forall₂_ended (not_mem_lines (not_mem_editLineByLine clean))).imp
    fun _ _ => Ended.alike
  have compose : ∀ a b c, Alike a b → Alike b c → Alike a c := fun _ _ _ => Alike.trans
  rw [editedLines_withReturns clean]
  exact forall₂_trans compose marks (forall₂_trans compose terminators
    (forall₂_trans compose marks' returns))

theorem lines_prepare_withReturns (clean : '\r' ∉ t) :
    lines (prepare (withReturns t)).text =
      linesWithMarks (insertCommentLines (endWithReturns (lines (editLineByLine t)))) := by
  rw [lines_prepare, editedLines_withReturns clean, markedLines, linesWithMarks]

/-- Where no dot is overlooked, the edits treat each line on its own. -/
theorem editedLines_of_not_overlooked (clean : '\r' ∉ t)
    (attentive : ¬ Overlooked (lines (receiverEdit.apply t))) :
    editedLines t = lines (editLineByLine t) := by
  have dots : dotEdit.apply (receiverEdit.apply t) = lineDotEdit.apply (receiverEdit.apply t) := by
    apply eq_of_lines
    rw [lines_dotEdit, lines_lineDotEdit]
    exact (map_line_terminateDots_iff (not_mem_lines (not_mem_receiverEdit clean))).2 attentive
  rw [editedLines_eq, editLineByLine, scan_markTrailingComma, dots]

theorem text_prepare_of_not_overlooked (clean : '\r' ∉ t)
    (attentive : ¬ Overlooked (lines (receiverEdit.apply t))) :
    withoutReturns (prepare (withReturns t)).text = (prepare t).text := by
  apply eq_of_lines
  rw [lines_withoutReturns, lines_prepare_withReturns clean, lines_prepare,
    editedLines_of_not_overlooked clean attentive, markedLines, ← linesWithMarks]
  refine map_withoutReturns_of_ended (forall₂_linesWithMarks ?_)
  exact forall₂_insertCommentLines (.plain (by decide)) (fun _ _ => Ended.alike)
    (forall₂_ended (not_mem_lines (not_mem_editLineByLine clean)))

/-- The prepared line in the place of an edited line with a dot is that line. -/
theorem exists_prepared_place {k : Nat} (found : (editedLines t)[k]? = some line) (dot : '.' ∈ line)
    {p : Nat} (place : (placesFrom 0 (editedLines t))[k]? = some p) :
    (lines (prepare t).text)[p]? = some line := by
  obtain ⟨j, same, inserted⟩ := getElem?_insertCommentLines_place place
  rw [Nat.zero_add] at same
  subst same
  rcases getElem?_lines_prepare (inserted.trans found) with plain | ⟨empty, -⟩
  · exact plain
  · rw [isIndentedEmpty, Bool.and_eq_true] at empty
    rcases mem_of_isBlankLine empty.1 dot with bad | bad
    · exact absurd bad (by decide)
    · exact absurd bad (by decide)

/-- An overlooked dot makes its line one character shorter. -/
theorem exists_shorter (clean : '\r' ∉ t) (overlooked : Overlooked (lines (receiverEdit.apply t))) :
    ∃ (k : Nat) (edited edited' : Text), (editedLines t)[k]? = some edited ∧
      (lines (editLineByLine t))[k]? = some edited' ∧ '.' ∈ edited ∧ '.' ∈ edited' ∧
      edited'.length = edited.length + 1 := by
  obtain ⟨k, front, dotted, terminated⟩ :=
    exists_overlooked (not_mem_receiverEdit clean) overlooked
  obtain ⟨edited, found, blotted⟩ := exists_getElem?_right (roomedLines_scan _).blotted dotted
  obtain ⟨edited', found', blotted'⟩ :=
    exists_getElem?_right (roomedLines_scan _).blotted terminated
  rw [← editedLines_eq] at found
  rw [scan_markTrailingComma, ← editLineByLine] at found'
  refine ⟨k, edited, edited', found, found', blotted.mem_of_mem_left (by simp) (by decide),
    blotted'.mem_of_mem_left (by simp) (by decide), ?_⟩
  rw [blotted.length_eq, blotted'.length_eq, List.length_append, List.length_append]
  rfl

theorem text_prepare_of_overlooked (clean : '\r' ∉ t)
    (overlooked : Overlooked (lines (receiverEdit.apply t))) :
    withoutReturns (prepare (withReturns t)).text ≠ (prepare t).text := by
  intro same
  obtain ⟨k, edited, edited', found, found', dot, dot', longer⟩ := exists_shorter clean overlooked
  have each := not_mem_lines (not_mem_editLineByLine clean)
  obtain ⟨returned, there, ended⟩ := exists_getElem?_right (forall₂_ended each) found'
  rw [← editedLines_withReturns clean] at there
  have inside : '.' ∈ returned := by
    cases ended with
    | plain => exact dot'
    | ended => exact List.mem_append_left _ dot'
  have bound : k < (placesFrom 0 (editedLines t)).length := by
    rw [length_placesFrom]
    exact (List.getElem?_eq_some_iff.1 found).1
  obtain ⟨p, place⟩ : ∃ p, (placesFrom 0 (editedLines t))[k]? = some p :=
    ⟨_, List.getElem?_eq_getElem bound⟩
  have prepared := exists_prepared_place found dot place
  rw [← placesFrom_congr (forall₂_alike_editedLines clean) 0] at place
  have prepared' := exists_prepared_place there inside place
  rw [← same, lines_withoutReturns, List.getElem?_map, prepared', Option.map_some,
    ended.withoutReturns_eq] at prepared
  obtain rfl := Option.some.inj prepared
  omega

/-- Forceful preparation writes no carriage returns. -/
theorem not_mem_prepareForcefully (clean : '\r' ∉ t) : '\r' ∉ prepareForcefully t := by
  have unforced : Unforced '\r' := ⟨by decide, by decide, by decide⟩
  refine not_mem_of_forall₂ (by decide) ?_ clean
  rw [lines_prepareForcefully, List.forall₂_map_right_iff]
  exact List.forall₂_same.2 fun line _ => mt (unforced.mem_forcefulLine_iff line).1

/-- **Carriage returns make no difference, except to an overlooked dot.** A text and the same text
with carriage returns in front of its line feeds are prepared alike, both times; only where a dot is
overlooked does the text without carriage returns miss a terminator. -/
theorem prepare_withReturns_iff (clean : '\r' ∉ t) :
    (prepare (withReturns t)).inserted = (prepare t).inserted ∧
      (prepare (withReturns t)).tweaked = (prepare t).tweaked ∧
      withoutReturns (prepareForcefully (withReturns t)) = prepareForcefully t ∧
      (withoutReturns (prepare (withReturns t)).text = (prepare t).text ↔
        ¬ Overlooked (lines t)) := by
  have pairs := forall₂_alike_editedLines clean
  refine ⟨?_, ?_, ?_, ?_⟩
  · rw [prepare_inserted, prepare_inserted]
    exact insertedFrom_congr pairs 0
  · rw [prepare_tweaked, prepare_tweaked]
    exact changedFrom_markEmptyLines_congr
      (forall₂_insertCommentLines (.refl _) (fun _ _ => id) pairs) 0
  · rw [prepareForcefully_withReturns clean]
    exact withoutReturns_withReturns (not_mem_prepareForcefully clean)
  · rw [← overlooked_map_receiverLine_iff, ← lines_receiverEdit]
    exact ⟨fun same overlooked => text_prepare_of_overlooked clean overlooked same,
      text_prepare_of_not_overlooked clean⟩

/-- Dots that dangle above code are not overlooked. -/
theorem prepare_withReturns_iff_object :
    let t := "a =\n  ###\n  b: c.\n  \n  d\n. \n.\n".toList
    '\r' ∉ t ∧ ¬ Overlooked (lines t) ∧
      withoutReturns (prepare (withReturns t)).text = (prepare t).text ∧
      (prepare (withReturns t)).inserted = (prepare t).inserted ∧
      (prepare (withReturns t)).tweaked = (prepare t).tweaked := by
  intro t
  have clean : '\r' ∉ t := by decide
  obtain ⟨inserted, tweaked, -, text⟩ := prepare_withReturns_iff clean
  have same : withoutReturns (prepare (withReturns t)).text = (prepare t).text := by decide
  exact ⟨clean, text.1 same, same, inserted, tweaked⟩

/-- Above a dot alone a dangling dot gets its terminator with carriage returns only. -/
theorem prepare_overlooks_dot :
    let t := "a.\n.".toList
    '\r' ∉ t ∧ (prepare t).text = "a.\n.;".toList ∧
      (prepare (withReturns t)).text = "a.;\r\n.;".toList ∧
      withoutReturns (prepare (withReturns t)).text ≠ (prepare t).text := by
  decide

end Preparation

end DialectBridge
