import DialectBridge.Proofs.DottedLines
import DialectBridge.Proofs.ReturnedLines

/-!
# Dots that share a terminator

A line of code above a line with nothing but a dot is not looked at for a dot of its own: the two
lines are taken together, and only the lower one gets a terminator. If the upper line ends in a
dangling dot, that one is overlooked, and it takes the dot below as its member.

This module says when that happens (**map_line_terminateDots_iff**): the upper line dangles by
itself, or it is a dot alone as well and is not taken together with the line above it. The second
case is decided by the lines around it, since pairs are formed from the top. It also follows the
difference through the edits that come later: they leave lines that end in a dot or a terminator
alone, so in the end some lines miss their terminators and the others are the same
(**forall₂_terminated**).
-/

set_option autoImplicit false

namespace DialectBridge

/-- Related lists that differ do so at some index. -/
theorem exists_ne_of_forall₂ {α : Type} {related : α → α → Prop} {all all' : List α}
    (pairs : List.Forall₂ related all all') (different : all ≠ all') :
    ∃ (k : Nat) (a a' : α), all[k]? = some a ∧ all'[k]? = some a' ∧ related a a' ∧ a ≠ a' := by
  induction pairs with
  | nil => exact absurd rfl different
  | @cons a a' rest rest' here _ ih =>
    by_cases same : a = a'
    · subst same
      obtain ⟨k, later⟩ := ih fun same => different (congrArg (a :: ·) same)
      exact ⟨k + 1, later⟩
    · exact ⟨0, a, a', rfl, rfl, here, same⟩

namespace Preparation

open Text

variable {line line' : Text} {all : List Text}

/-! ## Dots of single lines -/

/-- Code that ends in a single dot with something else in front of it. -/
def Dangling (line : Text) : Prop := (∃ c, [c, '.'] <:+ line ∧ c ≠ '.') ∧ '#' ∉ line

theorem Dangling.getLast?_eq (h : Dangling line) : line.getLast? = some '.' := by
  obtain ⟨⟨c, ⟨front, rfl⟩, -⟩, -⟩ := h
  rw [List.getLast?_append]
  rfl

theorem dangling_append_iff (front : Text) (c : Char) :
    Dangling (front ++ [c, '.']) ↔ c ≠ '.' ∧ '#' ∉ front ++ [c, '.'] := by
  constructor
  · rintro ⟨⟨d, ⟨before, ending⟩, other⟩, code⟩
    obtain ⟨-, same⟩ := List.append_inj' ending rfl
    cases same
    exact ⟨other, code⟩
  · rintro ⟨other, code⟩
    exact ⟨⟨c, List.suffix_append front _, other⟩, code⟩

theorem splitLast?_concat (front : Text) (c : Char) :
    splitLast? (front ++ [c]) = some (front, c) := by
  rw [splitLast?, List.getLast?_concat, Option.map_some, List.dropLast_concat]

theorem dottedLine_concat_of_ne {front : Text} {c : Char} (clean : '\r' ∉ front ++ [c])
    (other : c ≠ '.') : dottedLine (front ++ [c]) = front ++ [c] := by
  unfold dottedLine terminateDot?
  rw [body_of_not_mem clean, splitLast?_concat]
  split
  · next same =>
    cases same
    exact absurd rfl other
  · rfl

theorem dottedLine_concat_dot {front : Text} (clean : '\r' ∉ front ++ ['.']) :
    dottedLine (front ++ ['.']) =
      if admitsDot front then front ++ ['.', ';'] else front ++ ['.'] := by
  unfold dottedLine terminateDot?
  rw [body_of_not_mem clean, tail_of_not_mem clean, splitLast?_concat]
  simp only [List.append_nil]
  split <;> rfl

theorem isPlain_eq_true_iff (clean : '\r' ∉ line) : isPlain line = true ↔ '#' ∉ line := by
  unfold isPlain
  rw [List.all_eq_true]
  constructor
  · intro plain member
    exact absurd (plain _ member) (by decide)
  · intro code c member
    rw [Bool.and_eq_true, bne_iff_ne, bne_iff_ne]
    exact ⟨fun same => code (same ▸ member), fun same => clean (same ▸ member)⟩

/-- A line of code is terminated when it is a dot alone or dangles. -/
theorem dottedLine_ne_iff (clean : '\r' ∉ line) (code : '#' ∉ line) :
    dottedLine line ≠ line ↔ line = ['.'] ∨ Dangling line := by
  rcases List.eq_nil_or_concat' line with rfl | ⟨front, d, rfl⟩
  · refine iff_of_false (fun changed => changed rfl) ?_
    rintro (alone | dangling)
    · cases alone
    · cases dangling.getLast?_eq
  · by_cases dot : d = '.'
    · subst dot
      rw [dottedLine_concat_dot clean]
      rcases List.eq_nil_or_concat' front with rfl | ⟨init, c, rfl⟩
      · exact iff_of_true (by decide) (.inl rfl)
      · have plain : isPlain init = true :=
          (isPlain_eq_true_iff fun inside => clean (by simp [inside])).2
            fun inside => code (by simp [inside])
        have decision : admitsDot (init ++ [c]) = (c != '.') := by
          rw [admitsDot, splitLast?_concat]
          simp only [plain, Bool.true_and]
        have longer : init ++ [c, '.'] ≠ ['.'] := by
          intro same
          simpa using congrArg List.length same
        have shape : init ++ [c] ++ ['.'] = init ++ [c, '.'] := by simp
        rw [shape] at code ⊢
        rw [decision, dangling_append_iff, or_iff_right longer, and_iff_left code]
        split
        · next other => exact iff_of_true (by simp) (bne_iff_ne.1 other)
        · next single =>
          exact iff_of_false (fun changed => changed rfl) fun other => single (bne_iff_ne.2 other)
    · rw [dottedLine_concat_of_ne clean dot]
      have last : (front ++ [d]).getLast? ≠ some '.' := by
        rw [List.getLast?_concat]
        exact fun same => dot (Option.some.inj same)
      refine iff_of_false (fun changed => changed rfl) ?_
      rintro (alone | dangling)
      · exact last (by rw [alone]; rfl)
      · exact last dangling.getLast?_eq

/-! ## Pairs of lines -/

/-- Some line ends in a dot that gets no terminator, because of a dot alone on the line below. Either
the upper line dangles, or it is a dot alone, too. In the second case it must be the upper one of its
pair: nothing stands above it, or a comment; or else a third dot stands below, and then one of the
first two is the upper one of a pair. -/
def Overlooked (all : List Text) : Prop :=
  ∃ k, all[k + 1]? = some ['.'] ∧
    ((∃ line, all[k]? = some line ∧ Dangling line) ∨
      all[k]? = some ['.'] ∧
        (all[k + 2]? = some ['.'] ∨ k = 0 ∨ ∃ above, all[k - 1]? = some above ∧ '#' ∈ above))

theorem not_dangling_dot : ¬ Dangling ['.'] := by
  rintro ⟨⟨c, ending, -⟩, -⟩
  exact absurd (show 2 ≤ 1 from ending.length_le) (by decide)

/-- A line of code above a dot alone makes a pair with it. -/
theorem overlooked_pair {rest : List Text} (code : '#' ∉ line) :
    Overlooked (line :: ['.'] :: rest) ↔ (line = ['.'] ∨ Dangling line) ∨ Overlooked rest := by
  constructor
  · rintro ⟨k, below, upper⟩
    match k with
    | 0 =>
      rcases upper with ⟨first, same, dangling⟩ | ⟨same, -⟩
      · obtain rfl := Option.some.inj same
        exact .inl (.inr dangling)
      · exact .inl (.inl (Option.some.inj same))
    | 1 =>
      rcases upper with ⟨first, same, dangling⟩ | ⟨-, third | zero | ⟨above, same, comment⟩⟩
      · obtain rfl := Option.some.inj same
        exact absurd dangling not_dangling_dot
      · exact .inr ⟨0, third, .inr ⟨below, .inr (.inl rfl)⟩⟩
      · cases zero
      · obtain rfl := Option.some.inj same
        exact absurd comment code
    | k + 2 =>
      rcases upper with dangling | ⟨dot, third | zero | ⟨above, same, comment⟩⟩
      · exact .inr ⟨k, below, .inl dangling⟩
      · exact .inr ⟨k, below, .inr ⟨dot, .inl third⟩⟩
      · cases zero
      · cases k with
        | zero => exact .inr ⟨0, below, .inr ⟨dot, .inr (.inl rfl)⟩⟩
        | succ k => exact .inr ⟨k + 1, below, .inr ⟨dot, .inr (.inr ⟨above, same, comment⟩)⟩⟩
  · rintro ((rfl | dangling) | ⟨k, below, upper⟩)
    · exact ⟨0, rfl, .inr ⟨rfl, .inr (.inl rfl)⟩⟩
    · exact ⟨0, rfl, .inl ⟨line, rfl, dangling⟩⟩
    · rcases upper with dangling | ⟨dot, third | zero | above⟩
      · exact ⟨k + 2, below, .inl dangling⟩
      · exact ⟨k + 2, below, .inr ⟨dot, .inl third⟩⟩
      · -- The lower dot of the pair is the first of three.
        subst zero
        exact ⟨1, dot, .inr ⟨rfl, .inl below⟩⟩
      · cases k with
        | zero => exact ⟨1, dot, .inr ⟨rfl, .inl below⟩⟩
        | succ k => exact ⟨k + 3, below, .inr ⟨dot, .inr (.inr above)⟩⟩

/-- Where two lines make no pair, the upper one is treated on its own. -/
theorem overlooked_apart {next : Text} {rest : List Text} (apart : next = ['.'] → '#' ∈ line) :
    Overlooked (line :: next :: rest) ↔ Overlooked (next :: rest) := by
  constructor
  · rintro ⟨k, below, upper⟩
    cases k with
    | zero =>
      have comment := apart (Option.some.inj below)
      rcases upper with ⟨first, same, dangling⟩ | ⟨same, -⟩
      · obtain rfl := Option.some.inj same
        exact absurd comment dangling.2
      · obtain rfl := Option.some.inj same
        exact absurd comment (by decide)
    | succ k =>
      rcases upper with dangling | ⟨dot, third | zero | ⟨above, same, comment⟩⟩
      · exact ⟨k, below, .inl dangling⟩
      · exact ⟨k, below, .inr ⟨dot, .inl third⟩⟩
      · cases zero
      · cases k with
        | zero => exact ⟨0, below, .inr ⟨dot, .inr (.inl rfl)⟩⟩
        | succ k => exact ⟨k + 1, below, .inr ⟨dot, .inr (.inr ⟨above, same, comment⟩)⟩⟩
  · rintro ⟨k, below, upper⟩
    refine ⟨k + 1, below, ?_⟩
    rcases upper with dangling | ⟨dot, third | zero | ⟨above, same, comment⟩⟩
    · exact .inl dangling
    · exact .inr ⟨dot, .inl third⟩
    · subst zero
      exact .inr ⟨dot, .inr (.inr ⟨line, rfl, apart (Option.some.inj dot)⟩)⟩
    · cases k with
      | zero => exact .inr ⟨dot, .inr (.inr ⟨line, rfl, apart (Option.some.inj dot)⟩)⟩
      | succ k => exact .inr ⟨dot, .inr (.inr ⟨above, same, comment⟩)⟩

/-- **Terminating dots is terminating them line by line, unless one is overlooked.** -/
theorem map_line_terminateDots_iff (each : ∀ line ∈ all, '\r' ∉ line) :
    (terminateDots all).map (·.line) = all.map dottedLine ↔ ¬ Overlooked all := by
  fun_induction terminateDots all with
  | case1 =>
    refine iff_of_true rfl ?_
    rintro ⟨k, below, -⟩
    cases below
  | case2 line =>
    refine iff_of_true (congrArg ([·]) (Edit.line_become line _)) ?_
    rintro ⟨k, below, -⟩
    cases below
  | case3 line next rest shared ih =>
    have clean := each line List.mem_cons_self
    have later := ih fun l inside => each l (List.mem_cons_of_mem _ (List.mem_cons_of_mem _ inside))
    rw [Bool.and_eq_true, beq_iff_eq, isPlain_eq_true_iff clean] at shared
    have alone : next = ['.'] := by
      rw [← body_of_not_mem (each next (List.mem_cons_of_mem _ List.mem_cons_self)), shared.2]
    subst alone
    rw [overlooked_pair shared.1, ← dottedLine_ne_iff clean shared.1, List.map_cons, List.map_cons,
      List.map_cons, List.map_cons, List.cons.injEq, List.cons.injEq, later, not_or, not_not]
    refine and_congr eq_comm ?_
    exact and_iff_right rfl
  | case4 line next rest apart ih =>
    have clean := each line List.mem_cons_self
    have later := ih fun l inside => each l (List.mem_cons_of_mem _ inside)
    have pairless : next = ['.'] → '#' ∈ line := by
      rintro rfl
      rw [Bool.and_eq_true, isPlain_eq_true_iff clean] at apart
      by_contra code
      exact apart ⟨code, rfl⟩
    rw [overlooked_apart pairless, ← later, List.map_cons, List.map_cons, List.cons.injEq]
    exact and_iff_right (Edit.line_become line _)

/-! ## Behind the dots -/

/-- A line, and the same line or the line with a terminator behind its final dot. -/
inductive Terminated : Text → Text → Prop
  | same {line : Text} : Terminated line line
  | dot {front : Text} : Terminated (front ++ ['.']) (front ++ ['.', ';'])

theorem Dotted.terminated_of_not_mem (h : Dotted line line') (clean : '\r' ∉ line) :
    Terminated line line' := by
  cases h with
  | kept => exact .same
  | @terminated front code admits =>
    rw [body_of_not_mem clean] at code
    rw [tail_of_not_mem clean, code, List.append_nil]
    exact .dot

theorem terminated_dottedLine (clean : '\r' ∉ line) : Terminated line (dottedLine line) :=
  (dotted_terminateDot line).terminated_of_not_mem clean

/-- A line that ends in a dot or in its terminator is settled. -/
theorem settled_of_append (front : Text) :
    Settled (front ++ ['.']) ∧ Settled (front ++ ['.', ';']) := by
  have dot : body (front ++ ['.']) = front ++ ['.'] := body_of_getLast?_ne (by simp)
  have terminator : body (front ++ ['.', ';']) = front ++ ['.', ';'] := body_of_getLast?_ne (by simp)
  refine ⟨⟨?_, ?_⟩, ⟨?_, ?_⟩⟩
  · rw [dot]
    simp
  · rw [dot]
    simp
  · rw [terminator]
    simp
  · rw [terminator]
    simp

theorem Settled.completedLine_eq (h : Settled line) (above : Text) :
    completedLine above line = line := by
  rw [completedLine, h.completeKey?_eq_none, Option.getD_none]

theorem Settled.spacedLine_eq (h : Settled line) : spacedLine line = line := by
  rw [spacedLine, h.markTrailingSpace?_eq_none, Option.getD_none]

/-- Later edits leave lines alone that end in a dot or its terminator. -/
theorem Terminated.map (h : Terminated line line') {f : Text → Text}
    (settled : ∀ line, Settled line → f line = line) : Terminated (f line) (f line') := by
  cases h with
  | same => exact .same
  | @dot front =>
    obtain ⟨dotted, terminated⟩ := settled_of_append front
    rw [settled _ dotted, settled _ terminated]
    exact .dot

/-- Missing terminators are all that the pairs of lines make a difference to. -/
theorem forall₂_terminated_dots (each : ∀ line ∈ all, '\r' ∉ line) :
    List.Forall₂ Terminated ((terminateDots all).map (·.line)) (all.map dottedLine) := by
  fun_induction terminateDots all with
  | case1 => exact .nil
  | case2 line =>
    rw [List.map_cons, Edit.line_become]
    exact .cons .same .nil
  | case3 line next rest shared ih =>
    rw [Bool.and_eq_true, beq_iff_eq] at shared
    have alone : next = ['.'] := by
      rw [← body_of_not_mem (each next (List.mem_cons_of_mem _ List.mem_cons_self)), shared.2]
    subst alone
    have later := ih fun l inside => each l (List.mem_cons_of_mem _ (List.mem_cons_of_mem _ inside))
    exact .cons (terminated_dottedLine (each line List.mem_cons_self)) (.cons .same later)
  | case4 line next rest apart ih =>
    rw [List.map_cons, Edit.line_become]
    exact .cons .same (ih fun l inside => each l (List.mem_cons_of_mem _ inside))

/-- A value may be a dot as well as a terminator. -/
theorem keyIndentation?_append_dot (front rest : Text) (clean : '\r' ∉ rest) :
    keyIndentation? (front ++ '.' :: rest) = keyIndentation? (front ++ ['.']) := by
  have noIndent : isIndent '.' = false := by decide
  have noLetter : isIdentifier '.' = false := by decide
  unfold keyIndentation?
  dsimp only
  rw [takeWhile_append_cons noIndent, dropWhile_append_cons noIndent,
    takeWhile_append_cons noLetter, dropWhile_append_cons noLetter, dropWhile_append_cons noIndent,
    takeWhile_append_cons noIndent, dropWhile_append_cons noIndent,
    takeWhile_append_cons noLetter, dropWhile_append_cons noLetter, dropWhile_append_cons noIndent]
  generalize ((front.dropWhile isIndent).dropWhile isIdentifier).dropWhile isIndent = value
  generalize (front.dropWhile isIndent).takeWhile isIdentifier = key
  cases key with
  | nil => rfl
  | cons c more =>
    cases value with
    | nil => rfl
    | cons d value =>
      by_cases colon : d = ':'
      · subst colon
        have bodies : ∀ rest : Text, '\r' ∉ rest →
            body (value ++ '.' :: rest) = value ++ '.' :: rest := by
          intro rest clean
          refine body_of_getLast?_ne fun last => ?_
          rw [List.getLast?_append_cons] at last
          rcases List.mem_cons.1 (List.mem_of_getLast? last) with bad | inside
          · exact absurd bad (by decide)
          · exact clean inside
        simp [bodies rest clean, bodies [] List.not_mem_nil, clean]
      · simp [colon]

/-- Keys are completed below such lines as they are below the old ones. -/
theorem Terminated.completedLine_eq {above above' : Text} (h : Terminated above above')
    (line : Text) : completedLine above' line = completedLine above line := by
  cases h with
  | same => rfl
  | dot =>
    unfold completedLine completeKey?
    rw [keyIndentation?_append_dot _ [';'] (by decide)]

theorem forall₂_terminated_completeKeysBelow {all' : List Text} {above above' : Text}
    (first : Terminated above above') (pairs : List.Forall₂ Terminated all all') :
    List.Forall₂ Terminated ((completeKeysBelow above all).map (·.line))
      ((completeKeysBelow above' all').map (·.line)) := by
  induction pairs generalizing above above' with
  | nil => exact .nil
  | @cons line line' rest rest' here _ ih =>
    rw [map_line_completeKeysBelow, map_line_completeKeysBelow, first.completedLine_eq]
    exact .cons (here.map fun line h => h.completedLine_eq above) (ih here)

theorem forall₂_terminated_completeKeys {all' : List Text}
    (pairs : List.Forall₂ Terminated all all') :
    List.Forall₂ Terminated ((completeKeys all).map (·.line))
      ((completeKeys all').map (·.line)) := by
  cases pairs with
  | nil => exact .nil
  | cons here rest => exact .cons here (forall₂_terminated_completeKeysBelow here rest)

variable {t : Text}

/-- **After all edits of lines** some terminators are missing, and nothing else is different. -/
theorem forall₂_terminated (clean : '\r' ∉ t) :
    List.Forall₂ Terminated (lines (spaceEdit.apply (keyEdit.apply (dotEdit.apply t))))
      (lines (spaceEdit.apply (keyEdit.apply (lineDotEdit.apply t)))) := by
  rw [lines_spaceEdit, lines_spaceEdit, lines_keyEdit, lines_keyEdit, lines_dotEdit,
    lines_lineDotEdit, List.forall₂_map_left_iff, List.forall₂_map_right_iff]
  have dots := forall₂_terminated_dots (not_mem_lines clean)
  refine (forall₂_terminated_completeKeys dots).imp fun line line' h => ?_
  exact h.map fun line => Settled.spacedLine_eq

/-- **An overlooked dot** misses its terminator after all edits of lines. -/
theorem exists_overlooked (clean : '\r' ∉ t) (overlooked : Overlooked (lines t)) :
    ∃ (k : Nat) (front : Text),
      (lines (spaceEdit.apply (keyEdit.apply (dotEdit.apply t))))[k]? = some (front ++ ['.']) ∧
      (lines (spaceEdit.apply (keyEdit.apply (lineDotEdit.apply t))))[k]? =
        some (front ++ ['.', ';']) := by
  have each := not_mem_lines clean
  have different : ¬ lines (dotEdit.apply t) = lines (lineDotEdit.apply t) := by
    rw [lines_dotEdit, lines_lineDotEdit, map_line_terminateDots_iff each, not_not]
    exact overlooked
  have pairs : List.Forall₂ Terminated (lines (dotEdit.apply t)) (lines (lineDotEdit.apply t)) := by
    rw [lines_dotEdit, lines_lineDotEdit]
    exact forall₂_terminated_dots each
  obtain ⟨k, line, line', found, there, relation, here⟩ := exists_ne_of_forall₂ pairs different
  cases relation with
  | same => exact absurd rfl here
  | @dot front =>
    obtain ⟨dotted, terminated⟩ := settled_of_append front
    obtain ⟨edited, at_, kept⟩ := exists_getElem?_right (Settled.forall₂_edits _) found
    obtain ⟨edited', at_', kept'⟩ := exists_getElem?_right (Settled.forall₂_edits _) there
    rw [kept dotted] at at_
    rw [kept' terminated] at at_'
    exact ⟨k, front, at_, at_'⟩

end Preparation

end DialectBridge
