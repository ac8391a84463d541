import Mathlib.Data.List.Find
import DialectBridge.Proofs.LineBookkeeping
import DialectBridge.Proofs.Offsets

/-!
# Lines that end in carriage returns

In some texts a line feed is the whole line break, in others a carriage return stands in front of
it. A carriage return is then the last character of every line but the last one. The edits of lines
set it apart as the tail of its line, so they do the same to a line with it as to the line without.

This holds of each edit on its own, with one exception. A line with nothing but a dot is terminated
together with the line above it, but a carriage return keeps the two apart: with carriage returns
every line is treated on its own (**dotEdit_withReturns**). The edits that follow do not see the
difference, so the edited lines are those of a text whose dots were terminated line by line
(**editedLines_withReturns**). Forceful edits know no exception (**prepareForcefully_withReturns**).
-/

set_option autoImplicit false

namespace DialectBridge

namespace Text

/-! ## Line breaks of both kinds -/

/-- The text with a carriage return in front of every line feed. -/
def withReturns (t : Text) : Text := t.flatMap fun c => if c = '\n' then ['\r', '\n'] else [c]

/-- The text without its carriage returns. -/
def withoutReturns (t : Text) : Text := t.filter (· != '\r')

/-- Lines with a carriage return behind each but the last. -/
def endWithReturns : List Text → List Text
  | [] => []
  | [line] => [line]
  | line :: next :: rest => (line ++ ['\r']) :: endWithReturns (next :: rest)

theorem withReturns_cons_lineFeed (t : Text) :
    withReturns ('\n' :: t) = '\r' :: '\n' :: withReturns t := rfl

theorem withReturns_cons_of_ne {c : Char} (h : c ≠ '\n') (t : Text) :
    withReturns (c :: t) = c :: withReturns t := by
  rw [withReturns, List.flatMap_cons, if_neg h]
  rfl

theorem endWithReturns_cons {line : Text} {more : List Text} (h : more ≠ []) :
    endWithReturns (line :: more) = (line ++ ['\r']) :: endWithReturns more := by
  cases more with
  | nil => exact absurd rfl h
  | cons next rest => rfl

/-- The carriage returns end the lines. -/
theorem lines_withReturns (t : Text) : lines (withReturns t) = endWithReturns (lines t) := by
  induction t with
  | nil => rfl
  | cons c rest ih =>
    by_cases feed : c = '\n'
    · subst feed
      rw [withReturns_cons_lineFeed, lines_cons_lineFeed, endWithReturns_cons (lines_ne_nil rest),
        ← ih]
      exact lines_cons_of_ne (by decide) (lines_cons_lineFeed _)
    · obtain ⟨line, more, whole⟩ := List.exists_cons_of_ne_nil (lines_ne_nil rest)
      rw [whole] at ih
      rw [withReturns_cons_of_ne feed, lines_cons_of_ne feed whole]
      cases more with
      | nil => exact lines_cons_of_ne feed ih
      | cons next others => exact lines_cons_of_ne feed ih

/-- Texts are the same when their lines are. -/
theorem eq_of_lines {t t' : Text} (h : lines t = lines t') : t = t' := by
  rw [← joinLines_lines t, h, joinLines_lines]

theorem withoutReturns_of_not_mem {t : Text} (clean : '\r' ∉ t) : withoutReturns t = t := by
  refine List.filter_eq_self.2 fun c member => ?_
  rw [bne_iff_ne]
  rintro rfl
  exact clean member

theorem withoutReturns_append_return (t : Text) :
    withoutReturns (t ++ ['\r']) = withoutReturns t := by
  rw [withoutReturns, List.filter_append]
  exact List.append_nil _

/-- Carriage returns go line by line. -/
theorem lines_withoutReturns (t : Text) :
    lines (withoutReturns t) = (lines t).map withoutReturns := by
  induction t with
  | nil => rfl
  | cons c rest ih =>
    by_cases feed : c = '\n'
    · subst feed
      rw [lines_cons_lineFeed, List.map_cons, ← ih]
      exact lines_cons_lineFeed _
    · obtain ⟨line, more, whole⟩ := List.exists_cons_of_ne_nil (lines_ne_nil rest)
      rw [lines_cons_of_ne feed whole, List.map_cons]
      rw [whole, List.map_cons] at ih
      by_cases return_ : c = '\r'
      · subst return_
        exact ih
      · have kept : ∀ t : Text, withoutReturns (c :: t) = c :: withoutReturns t :=
          fun t => List.filter_cons_of_pos (by simpa using return_)
        rw [kept, kept]
        exact lines_cons_of_ne feed ih

/-- Taking the carriage returns back gives the old text. -/
theorem withoutReturns_withReturns {t : Text} (clean : '\r' ∉ t) :
    withoutReturns (withReturns t) = t := by
  induction t with
  | nil => rfl
  | cons c rest ih =>
    have later := ih fun inside => clean (List.mem_cons_of_mem _ inside)
    by_cases feed : c = '\n'
    · subst feed
      exact congrArg ('\n' :: ·) later
    · have other : c ≠ '\r' := fun same => clean (same ▸ List.mem_cons_self)
      rw [withReturns_cons_of_ne feed, withoutReturns,
        List.filter_cons_of_pos (by simpa using other)]
      exact congrArg (c :: ·) later

/-- A line without carriage returns is all body. -/
theorem body_of_not_mem {line : Text} (clean : '\r' ∉ line) : body line = line :=
  body_of_getLast?_ne fun last => clean (List.mem_of_getLast? last)

theorem tail_of_not_mem {line : Text} (clean : '\r' ∉ line) : tail line = [] :=
  tail_of_getLast?_ne fun last => clean (List.mem_of_getLast? last)

theorem tail_append_return (front : Text) : tail (front ++ ['\r']) = ['\r'] := by
  have whole := body_append_tail (front ++ ['\r'])
  rw [body_append_return] at whole
  exact List.append_cancel_left whole

/-- A function that passes over a final carriage return of a line does so for all lines. -/
theorem map_endWithReturns {all : List Text} {f : Text → Text}
    (passes : ∀ line ∈ all, f (line ++ ['\r']) = f line ++ ['\r']) :
    (endWithReturns all).map f = endWithReturns (all.map f) := by
  induction all with
  | nil => rfl
  | cons line more ih =>
    have later := ih fun l inside => passes l (List.mem_cons_of_mem _ inside)
    cases more with
    | nil => rfl
    | cons next rest =>
      rw [endWithReturns_cons (List.cons_ne_nil next rest), List.map_cons, later,
        passes line List.mem_cons_self]
      rfl

/-- What cannot go on a front does not change whether a text begins with it. -/
theorem dropFront?_append_of_head {front rest : Text} (foreign : ∀ c ∈ rest.head?, c ∉ front)
    (t : Text) : dropFront? front (t ++ rest) = (dropFront? front t).map (· ++ rest) := by
  induction front generalizing t with
  | nil => rfl
  | cons a more ih =>
    have later := ih fun c first inside => foreign c first (List.mem_cons_of_mem _ inside)
    cases t with
    | nil =>
      cases rest with
      | nil => rfl
      | cons c behind =>
        refine if_neg ?_
        rintro rfl
        exact foreign a rfl List.mem_cons_self
    | cons d t =>
      rw [List.cons_append, dropFront?, dropFront?]
      split
      · exact later t
      · rfl

/-- The last place stays when a character is added that makes no difference to any place. -/
theorem lastPlace?_append_singleton {condition : Text → Text → Bool} {c : Char}
    (atEnd : ∀ before, condition before [] = false)
    (same : ∀ before after, condition before (after ++ [c]) = condition before after) (t : Text) :
    lastPlace? condition (t ++ [c]) =
      (lastPlace? condition t).map fun place => (place.1, place.2 ++ [c]) := by
  have conditions : ∀ n ∈ (List.range (t.length + 1)).reverse,
      condition ((t ++ [c]).take n) ((t ++ [c]).drop n) = condition (t.take n) (t.drop n) := by
    intro n member
    have bound : n ≤ t.length := by
      rw [List.mem_reverse, List.mem_range] at member
      omega
    rw [List.take_append_of_le_length bound, List.drop_append_of_le_length bound, same]
  unfold lastPlace?
  rw [List.length_append, List.length_singleton, List.range_succ, List.reverse_append,
    List.reverse_singleton, List.singleton_append, List.find?_cons_of_neg,
    List.find?_congr conditions, Option.map_map]
  · cases found : (List.range (t.length + 1)).reverse.find? fun n =>
        condition (t.take n) (t.drop n) with
    | none => rfl
    | some n =>
      have member := List.mem_of_find?_eq_some found
      have bound : n ≤ t.length := by
        rw [List.mem_reverse, List.mem_range] at member
        omega
      simp only [Option.map_some, Function.comp_apply, placeAt,
        List.take_append_of_le_length bound, List.drop_append_of_le_length bound]
  · have nothing : (t ++ [c]).drop (t.length + 1) = [] := List.drop_eq_nil_of_le (by simp)
    rw [nothing, atEnd]
    exact Bool.false_ne_true

end Text

namespace Preparation

open Text

variable {line above : Text}

/-! ## Edits of a line -/

theorem receiverLine_append_return (line : Text) :
    receiverLine (line ++ ['\r']) = receiverLine line ++ ['\r'] := by
  have same : ∀ before after, isLoneReceiver before (after ++ ['\r']) =
      isLoneReceiver before after := by
    intro before after
    cases after with
    | nil => rfl
    | cons c rest =>
      cases rest with
      | nil =>
        by_cases receiver : c = '@'
        · subst receiver
          rfl
        · simp [isLoneReceiver, receiver]
      | cons d more =>
        by_cases receiver : c = '@'
        · subst receiver
          rfl
        · simp [isLoneReceiver, receiver]
  unfold receiverLine markReceiver?
  rw [lastPlace?_append_singleton (fun _ => rfl) same]
  cases found : lastPlace? isLoneReceiver line with
  | none => rfl
  | some place =>
    obtain ⟨before, after⟩ := place
    have lone := (lastPlace?_sound found).2
    cases after with
    | nil => cases lone
    | cons c rest => simp

/-- A line with its own dot terminated, whatever stands below it. -/
def dottedLine (line : Text) : Text := (terminateDot? line).getD line

theorem dottedLine_append_return (clean : '\r' ∉ line) :
    dottedLine (line ++ ['\r']) = dottedLine line ++ ['\r'] := by
  unfold dottedLine terminateDot?
  rw [body_append_return, tail_append_return, body_of_not_mem clean, tail_of_not_mem clean]
  split
  · split <;> simp
  · simp

theorem spacedLine_append_return (clean : '\r' ∉ line) :
    spacedLine (line ++ ['\r']) = spacedLine line ++ ['\r'] := by
  unfold spacedLine markTrailingSpace?
  rw [body_append_return, tail_append_return, body_of_not_mem clean, tail_of_not_mem clean]
  split <;> simp

/-- The indentation of a key does not depend on the line break behind its value. -/
theorem keyIndentation?_append_return (clean : '\r' ∉ above) :
    keyIndentation? (above ++ ['\r']) = keyIndentation? above := by
  have noIndent : isIndent '\r' = false := by decide
  have noLetter : isIdentifier '\r' = false := by decide
  unfold keyIndentation?
  dsimp only
  rw [takeWhile_append_cons noIndent, dropWhile_append_cons noIndent,
    takeWhile_append_cons noLetter, dropWhile_append_cons noLetter,
    dropWhile_append_cons noIndent]
  have within : '\r' ∉ ((above.dropWhile isIndent).dropWhile isIdentifier).dropWhile isIndent :=
    fun inside => clean ((List.dropWhile_sublist _).subset
      ((List.dropWhile_sublist _).subset ((List.dropWhile_sublist _).subset inside)))
  generalize ((above.dropWhile isIndent).dropWhile isIdentifier).dropWhile isIndent = value at within ⊢
  generalize (above.dropWhile isIndent).takeWhile isIdentifier = key
  cases key with
  | nil => rfl
  | cons c more =>
    cases value with
    | nil => rfl
    | cons d rest =>
      by_cases colon : d = ':'
      · subst colon
        have plain : '\r' ∉ rest := fun inside => within (List.mem_cons_of_mem _ inside)
        rw [List.cons_append]
        simp only [body_append_return, body_of_not_mem plain]
      · simp [colon]

theorem loneWord?_append_return {indentation : Text}
    (indents : ∀ c ∈ indentation, isIndent c = true) (clean : '\r' ∉ line) :
    loneWord? indentation (line ++ ['\r']) = loneWord? indentation line := by
  have foreign : ∀ c ∈ ['\r'].head?, c ∉ indentation := by
    rintro c ⟨⟩ inside
    exact absurd (indents _ inside) (by decide)
  unfold loneWord?
  rw [dropFront?_append_of_head foreign]
  cases front : dropFront? indentation line with
  | none => rfl
  | some rest =>
    have plain : '\r' ∉ rest := fun inside =>
      clean (dropFront?_eq_some front ▸ List.mem_append_right _ inside)
    simp only [Option.map_some, body_append_return, body_of_not_mem plain]

/-- A completed line, given the line above it. -/
def completedLine (above line : Text) : Text := (completeKey? above line).getD line

theorem completedLine_append_return (clean : '\r' ∉ line) (above : Text) :
    completedLine above (line ++ ['\r']) = completedLine above line ++ ['\r'] := by
  unfold completedLine completeKey?
  cases indented : keyIndentation? above with
  | none => rfl
  | some indentation =>
    have same := loneWord?_append_return (isIndent_of_keyIndentation? indented) clean
    cases word : loneWord? indentation line with
    | none => simp [same, word]
    | some letters =>
      simp [same, word, body_append_return, tail_append_return, body_of_not_mem clean,
        tail_of_not_mem clean]

theorem completedLine_of_return (clean : '\r' ∉ above) (line : Text) :
    completedLine (above ++ ['\r']) line = completedLine above line := by
  unfold completedLine completeKey?
  rw [keyIndentation?_append_return clean]

theorem map_line_completeKeysBelow (above line : Text) (rest : List Text) :
    (completeKeysBelow above (line :: rest)).map (·.line) =
      completedLine above line :: (completeKeysBelow line rest).map (·.line) := by
  rw [completeKeysBelow, List.map_cons, Edit.line_become, completedLine]

theorem completeKeysBelow_endWithReturns {all : List Text} (clean : '\r' ∉ above)
    (each : ∀ line ∈ all, '\r' ∉ line) :
    (completeKeysBelow (above ++ ['\r']) (endWithReturns all)).map (·.line) =
      endWithReturns ((completeKeysBelow above all).map (·.line)) := by
  induction all generalizing above with
  | nil => rfl
  | cons line more ih =>
    have here := each line List.mem_cons_self
    cases more with
    | nil =>
      rw [endWithReturns, map_line_completeKeysBelow, map_line_completeKeysBelow,
        completedLine_of_return clean]
      rfl
    | cons next rest =>
      have later := ih here fun l inside => each l (List.mem_cons_of_mem _ inside)
      rw [endWithReturns_cons (List.cons_ne_nil next rest), map_line_completeKeysBelow,
        map_line_completeKeysBelow, later, completedLine_of_return clean,
        completedLine_append_return here]
      rfl

theorem completeKeys_endWithReturns {all : List Text} (each : ∀ line ∈ all, '\r' ∉ line) :
    (completeKeys (endWithReturns all)).map (·.line) =
      endWithReturns ((completeKeys all).map (·.line)) := by
  cases all with
  | nil => rfl
  | cons line more =>
    cases more with
    | nil => rfl
    | cons next rest =>
      have below := completeKeysBelow_endWithReturns (each line List.mem_cons_self)
        fun l inside => each l (List.mem_cons_of_mem _ inside)
      rw [endWithReturns_cons (List.cons_ne_nil next rest), completeKeys, completeKeys,
        List.map_cons, List.map_cons, below]
      rfl

/-- With carriage returns no dot shares its terminator with the line above it. -/
theorem terminateDots_endWithReturns {all : List Text} (each : ∀ line ∈ all, '\r' ∉ line) :
    (terminateDots (endWithReturns all)).map (·.line) = endWithReturns (all.map dottedLine) := by
  induction all with
  | nil => rfl
  | cons line more ih =>
    have later := ih fun l inside => each l (List.mem_cons_of_mem _ inside)
    cases more with
    | nil => exact congrArg ([·]) (Edit.line_become line _)
    | cons next rest =>
      obtain ⟨first, others, whole⟩ : ∃ first others,
          endWithReturns (next :: rest) = first :: others := by
        cases rest <;> exact ⟨_, _, rfl⟩
      have broken : isPlain (line ++ ['\r']) = false := by simp [isPlain]
      have here := dottedLine_append_return (each line List.mem_cons_self)
      rw [endWithReturns_cons (List.cons_ne_nil next rest), whole, terminateDots, broken,
        Bool.false_and, if_neg Bool.false_ne_true, ← whole, List.map_cons, later,
        Edit.line_become]
      exact congrArg (· :: endWithReturns ((next :: rest).map dottedLine)) here

/-! ## Forceful edits of a line -/

theorem closeString_append_return (clean : '\r' ∉ line) :
    (closeString? (line ++ ['\r'])).getD (line ++ ['\r']) =
      (closeString? line).getD line ++ ['\r'] := by
  unfold closeString?
  dsimp only
  rw [body_append_return, tail_append_return, body_of_not_mem clean, tail_of_not_mem clean]
  split
  · split <;> simp
  · simp

theorem closeCall_append_return (clean : '\r' ∉ line) :
    (closeCall? (line ++ ['\r'])).getD (line ++ ['\r']) =
      (closeCall? line).getD line ++ ['\r'] := by
  unfold closeCall?
  rw [body_append_return, tail_append_return, body_of_not_mem clean, tail_of_not_mem clean]
  cases firstPlace? isOpenCall line <;> simp

theorem removeBrace_append_return (clean : '\r' ∉ line) :
    (removeBrace? (line ++ ['\r'])).getD (line ++ ['\r']) =
      (removeBrace? line).getD line ++ ['\r'] := by
  unfold removeBrace?
  rw [body_append_return, tail_append_return, body_of_not_mem clean, tail_of_not_mem clean]
  split
  · split <;> simp
  · simp

/-- A rule that never takes a carriage return passes over one behind a line. -/
theorem scan_append_return {rule : ReplacementRule} (linewise : rule.Linewise)
    (window : ∀ t r, rule none t = some r → ∃ taken rest, t = taken ++ rest ∧ '\r' ∉ taken ∧
      ∀ others, rule none (taken ++ others) = some r) (line : Text) :
    scan rule (line ++ ['\r']) = scan rule line ++ ['\r'] := by
  have declined : rule none ['\r'] = none := by
    rw [← List.nil_append ['\r'], rule.within_of_window window]
    cases decision : rule none [] with
    | none => rfl
    | some r =>
      obtain ⟨positive, bounded⟩ := linewise.fitting _ r decision
      rw [List.length_nil] at bounded
      omega
  rw [scan_append linewise.forward linewise.fitting fun k _ =>
    rule.within_of_window window (line.drop k) [], scan_cons_of_none linewise.forward declined]
  rfl

theorem scan_leadingSpread_append_return (line : Text) :
    scan leadingSpread (line ++ ['\r']) = scan leadingSpread line ++ ['\r'] := by
  refine scan_append_return leadingSpread_linewise (fun t r h => ?_) line
  obtain ⟨c, rest, start, rfl, rfl⟩ := leadingSpread_eq_some h
  have other : '\r' ≠ c := by
    rintro rfl
    exact absurd start (by decide)
  exact ⟨_, rest, rfl, by simpa using other, fun others => by simp [leadingSpread, start]⟩

theorem scan_trailingSpread_append_return (line : Text) :
    scan trailingSpread (line ++ ['\r']) = scan trailingSpread line ++ ['\r'] := by
  refine scan_append_return trailingSpread_linewise (fun t r h => ?_) line
  obtain ⟨c, rest, start, rfl, rfl⟩ := trailingSpread_eq_some h
  have other : '\r' ≠ c := by
    rintro rfl
    exact absurd start (by decide)
  exact ⟨_, rest, rfl, by simpa using other, fun others => by simp [trailingSpread, start]⟩

theorem forcefulLine_append_return (clean : '\r' ∉ line) :
    forcefulLine (line ++ ['\r']) = forcefulLine line ++ ['\r'] := by
  unfold forcefulLine
  dsimp only
  have closed : '\r' ∉ (closeString? line).getD line :=
    fun inside => clean (mem_of_mem_closeString inside)
  rw [closeString_append_return clean]
  generalize (closeString? line).getD line = line at closed ⊢
  have called : '\r' ∉ (closeCall? line).getD line :=
    fun inside => (mem_of_mem_closeCall inside).elim closed (by decide)
  rw [closeCall_append_return closed]
  generalize (closeCall? line).getD line = line at called ⊢
  rw [removeBrace_append_return called, scan_leadingSpread_append_return,
    scan_trailingSpread_append_return]

/-! ## Edits of a text -/

variable {t : Text}

/-- A character that is new in no line is not new. -/
theorem not_mem_of_forall₂ {c : Char} {t' : Text} (other : c ≠ '\n')
    (pairs : List.Forall₂ (fun line line' => c ∉ line → c ∉ line') (lines t) (lines t'))
    (clean : c ∉ t) : c ∉ t' := by
  intro inside
  rw [← joinLines_lines t'] at inside
  rcases mem_joinLines inside with feed | ⟨line', member, here⟩
  · exact other feed
  · obtain ⟨k, found⟩ := List.mem_iff_getElem?.1 member
    obtain ⟨line, from_, kept⟩ := exists_getElem?_left pairs found
    exact kept (fun old => clean (mem_of_mem_lines (List.mem_of_getElem? from_) old)) here

/-- The dots of a text with each line treated on its own. -/
def lineDotEdit : Edit := .onEachLine "terminate dangling dot" terminateDot?

theorem lines_lineDotEdit (t : Text) : lines (lineDotEdit.apply t) = (lines t).map dottedLine :=
  Edit.lines_onEachLine _ terminateDot?
    (fun line clean => (extension_terminateDot line).not_mem_lineFeed clean) t

theorem not_mem_lines (clean : '\r' ∉ t) : ∀ line ∈ lines t, '\r' ∉ line :=
  fun _ member inside => clean (mem_of_mem_lines member inside)

theorem receiverEdit_withReturns (t : Text) :
    receiverEdit.apply (withReturns t) = withReturns (receiverEdit.apply t) := by
  apply eq_of_lines
  rw [lines_receiverEdit, lines_withReturns, lines_withReturns, lines_receiverEdit]
  exact map_endWithReturns fun line _ => receiverLine_append_return line

/-- **With carriage returns dots are terminated line by line.** -/
theorem dotEdit_withReturns (clean : '\r' ∉ t) :
    dotEdit.apply (withReturns t) = withReturns (lineDotEdit.apply t) := by
  apply eq_of_lines
  rw [lines_dotEdit, lines_withReturns, lines_withReturns, lines_lineDotEdit]
  exact terminateDots_endWithReturns (not_mem_lines clean)

theorem keyEdit_withReturns (clean : '\r' ∉ t) :
    keyEdit.apply (withReturns t) = withReturns (keyEdit.apply t) := by
  apply eq_of_lines
  rw [lines_keyEdit, lines_withReturns, lines_withReturns, lines_keyEdit]
  exact completeKeys_endWithReturns (not_mem_lines clean)

theorem spaceEdit_withReturns (clean : '\r' ∉ t) :
    spaceEdit.apply (withReturns t) = withReturns (spaceEdit.apply t) := by
  apply eq_of_lines
  rw [lines_spaceEdit, lines_withReturns, lines_withReturns, lines_spaceEdit]
  exact map_endWithReturns fun line member =>
    spacedLine_append_return (not_mem_lines clean line member)

/-- A carriage return is white space, as a line feed is. -/
theorem closesNext_withReturns (t : Text) : closesNext (withReturns t) = closesNext t := by
  induction t with
  | nil => rfl
  | cons c rest ih =>
    by_cases feed : c = '\n'
    · subst feed
      exact ih
    · rw [withReturns_cons_of_ne feed, closesNext_cons, closesNext_cons, ih]

/-- No space is new behind a comma, since carriage returns only come in front of line feeds. -/
theorem makeRoom_withReturns (t : Text) : makeRoom (withReturns t) = withReturns (makeRoom t) := by
  fun_induction makeRoom t with
  | case1 rest closes ih =>
    rw [show withReturns (',' :: ' ' :: rest) = ',' :: ' ' :: withReturns rest from rfl, makeRoom,
      closesNext_withReturns, if_pos closes, ih]
    rfl
  | case2 rest open_ ih =>
    rw [show withReturns (',' :: ' ' :: rest) = ',' :: ' ' :: withReturns rest from rfl, makeRoom,
      closesNext_withReturns, if_neg open_, ih]
    rfl
  | case3 c rest other ih =>
    by_cases feed : c = '\n'
    · subst feed
      rw [withReturns_cons_lineFeed, withReturns_cons_lineFeed, makeRoom, makeRoom, ih]
      · exact fun _ impossible => absurd impossible (by decide)
      · exact fun _ impossible => absurd impossible (by decide)
    · rw [withReturns_cons_of_ne feed, withReturns_cons_of_ne feed, makeRoom, ih]
      intro more comma space
      cases rest with
      | nil => cases space
      | cons d later =>
        by_cases break_ : d = '\n'
        · subst break_
          cases space
        · rw [withReturns_cons_of_ne break_] at space
          obtain ⟨rfl, -⟩ := List.cons.inj space
          exact other later comma rfl
  | case4 => rfl

/-! ## Both preparations -/

/-- The gentle edits with the dots of each line treated on their own. -/
def editLineByLine (t : Text) : Text :=
  makeRoom (spaceEdit.apply (keyEdit.apply (lineDotEdit.apply (receiverEdit.apply t))))

theorem not_mem_receiverEdit (clean : '\r' ∉ t) : '\r' ∉ receiverEdit.apply t := by
  refine not_mem_of_forall₂ (by decide) ?_ clean
  rw [lines_receiverEdit, List.forall₂_map_right_iff]
  refine List.forall₂_same.2 fun line _ plain inside => ?_
  exact (mem_receiverLine inside).elim plain (by decide)

theorem not_mem_lineDotEdit (clean : '\r' ∉ t) : '\r' ∉ lineDotEdit.apply t := by
  refine not_mem_of_forall₂ (by decide) ?_ clean
  rw [lines_lineDotEdit, List.forall₂_map_right_iff]
  exact List.forall₂_same.2 fun line _ => (extension_terminateDot line).not_mem (by decide)

theorem not_mem_keyEdit (clean : '\r' ∉ t) : '\r' ∉ keyEdit.apply t := by
  refine not_mem_of_forall₂ (by decide) ?_ clean
  rw [lines_keyEdit]
  exact (extension_completeKeys (lines t)).imp fun _ _ h => h.not_mem (by decide)

theorem not_mem_spaceEdit (clean : '\r' ∉ t) : '\r' ∉ spaceEdit.apply t := by
  refine not_mem_of_forall₂ (by decide) ?_ clean
  rw [lines_spaceEdit, List.forall₂_map_right_iff]
  exact List.forall₂_same.2 fun line _ => (extension_markTrailingSpace line).not_mem (by decide)

/-- No carriage returns are written. -/
theorem not_mem_editLineByLine (clean : '\r' ∉ t) : '\r' ∉ editLineByLine t := by
  intro inside
  unfold editLineByLine at inside
  rw [← scan_markTrailingComma] at inside
  rcases (roomed_scan _).blotted.mem_of_mem inside with old | mark
  · exact not_mem_spaceEdit (not_mem_keyEdit (not_mem_lineDotEdit (not_mem_receiverEdit clean))) old
  · exact absurd mark (by decide)

/-- **The gentle edits of a text with carriage returns** are those of each line on its own. -/
theorem editedLines_withReturns (clean : '\r' ∉ t) :
    editedLines (withReturns t) = endWithReturns (lines (editLineByLine t)) := by
  have received := not_mem_receiverEdit clean
  have dotted := not_mem_lineDotEdit received
  rw [editedLines_eq, receiverEdit_withReturns, dotEdit_withReturns received,
    keyEdit_withReturns dotted, spaceEdit_withReturns (not_mem_keyEdit dotted),
    scan_markTrailingComma, makeRoom_withReturns, lines_withReturns, editLineByLine]

/-- **Forceful preparation passes over carriage returns.** -/
theorem prepareForcefully_withReturns (clean : '\r' ∉ t) :
    prepareForcefully (withReturns t) = withReturns (prepareForcefully t) := by
  apply eq_of_lines
  rw [lines_prepareForcefully, lines_withReturns, lines_withReturns, lines_prepareForcefully]
  exact map_endWithReturns fun line member =>
    forcefulLine_append_return (not_mem_lines clean line member)

end Preparation

end DialectBridge
