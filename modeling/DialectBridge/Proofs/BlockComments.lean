import DialectBridge.Proofs.Entries
import DialectBridge.Proofs.Fronts

/-!
# Generated lines that begin a block comment

A generated line that begins a block comment is not looked up in the map. Cleaning can make such a
line out of a source line that does not begin one: the star of a generator moves in front of its
name, and if a slash stands there the two read as the beginning of a comment. This is the only way,
and then the source line and the generated line differ in content, so the one is not found again
from the other.
-/

set_option autoImplicit false

namespace DialectBridge

namespace LineContent

/-! ## How the content of a line begins -/

/-- Removing the end of a block comment keeps the first character, unless it is part of that end. -/
theorem exists_dropClosing_cons {c : Char} (noSign : c ≠ '#') (noStar : c ≠ '*') (rest : Text) :
    ∃ more, dropClosing (c :: rest) = c :: more := by
  -- A text that ends in a sign and has its length is that sign, so it begins like it.
  have kept : ∀ sign : Text, sign.head? ≠ some c → Text.endsWith sign (c :: rest) = true →
      ∃ more, (c :: rest).take ((c :: rest).length - sign.length) = c :: more := by
    intro sign other ends
    rw [Text.endsWith, List.isSuffixOf_iff_suffix] at ends
    obtain ⟨front, whole⟩ := ends
    rw [← whole, List.length_append, Nat.add_sub_cancel, List.take_left]
    cases front with
    | nil =>
      rw [List.nil_append] at whole
      rw [whole] at other
      exact absurd rfl other
    | cons d more =>
      obtain ⟨rfl, -⟩ := List.cons.inj whole
      exact ⟨more, rfl⟩
  unfold dropClosing
  split
  · next signs => exact kept ['#', '#', '#'] (by simpa using noSign.symm) signs
  · split
    · next star => exact kept ['*', '/'] (by simpa using noStar.symm) star
    · exact ⟨rest, rfl⟩

/-- The content of a line begins with the first character behind the sign of a comment. -/
theorem head?_content {line rest : Text} {c : Char}
    (opening : dropOpening (Text.trimLeft line) = c :: rest) (filled : isBlank c = false)
    (noSign : c ≠ '#') (noStar : c ≠ '*') : (content line).head? = some c := by
  have left : Text.trimLeft (c :: rest) = c :: rest :=
    Text.trimLeft_append (fun _ nothing => absurd nothing List.not_mem_nil) filled rest
  obtain ⟨trimmed, right⟩ := Text.exists_trimRight_cons filled rest
  obtain ⟨closed, closing⟩ := exists_dropClosing_cons noSign noStar trimmed
  obtain ⟨more, last⟩ := Text.exists_trimRight_cons filled closed
  rw [content, opening, Text.trim, left, right, closing, last]
  rfl

end LineContent

namespace ToSource

/-- A comment begins behind the indentation. -/
theorem exists_trimLeft_of_beginsBlockComment {line : Text} (h : beginsBlockComment line = true) :
    ∃ behind, Text.trimLeft line = '/' :: '*' :: behind := by
  rw [beginsBlockComment, Text.startsWith, List.isPrefixOf_iff_prefix] at h
  obtain ⟨behind, whole⟩ := h.trans (Text.trimRight_front (Text.trimLeft line))
  exact ⟨behind, whole.symm⟩

end ToSource

/-- A narrowed line that does not begin like a keyword is the line before narrowing. -/
theorem Declarations.Narrowed.eq_of_trimLeft {times : Nat} {line line' rest : Text} {c : Char}
    (h : Narrowed times line line') (first : Text.trimLeft line' = c :: rest) (noLet : c ≠ 'l')
    (noVar : c ≠ 'v') : line' = line := by
  have white : ∀ d ∈ Text.leadingBlank line, isBlank d = true := fun _ => Text.mem_leadingBlank
  rcases h with rfl | ⟨-, rfl | ⟨names, rfl⟩⟩
  · cases times with
    | zero => exact keyworded_zero line
    | succ n =>
      have letter := Text.trimLeft_append white (show isBlank 'l' = false by decide)
        ("et ".toList ++ ((List.replicate n keyword).flatten ++ Text.trimLeft line))
      rw [keyworded, List.replicate_succ, List.flatten_cons, List.append_assoc] at first
      exact absurd (List.cons.inj (first.symm.trans letter)).1 noLet
  · cases first
  · have letter := Text.trimLeft_append white (show isBlank 'v' = false by decide)
      ("ar ".toList ++ names)
    exact absurd (List.cons.inj (first.symm.trans letter)).1 noVar

namespace Cleanup

/-! ## The first character after cleaning -/

/-- Both markers' rules keep the first character, unless a receiver or a mark is there. -/
theorem replaced_first {c : Char} (other : c ≠ '↯') (rest : Text) :
    ∃ d behind, Text.scan Marker.newProperty.cleaning
      (Text.scan Marker.receiver.cleaning (c :: rest)) = d :: behind ∧ (d = c ∨ d = '(') := by
  rcases Marker.scan_receiver_cons c rest with kept | ⟨-, behind, receiver⟩
  · rw [kept, Marker.scan_newProperty_cons other]
    exact ⟨_, _, rfl, .inl rfl⟩
  · rw [receiver, Marker.scan_newProperty_cons (by decide)]
    exact ⟨_, _, rfl, .inr rfl⟩

/-- There is no mark in what a method is rewritten to. -/
theorem Method.not_mem_mark {name async star : Text} (h : Method name async star) :
    '↯' ∉ async ++ (star ++ name) := by
  intro inside
  rcases List.mem_append.1 inside with early | later
  · rcases h.async_or_not with rfl | rfl
    · exact absurd early List.not_mem_nil
    · exact absurd early (by decide)
  · rcases List.mem_append.1 later with sign | letter
    · rcases h.star_or_not with rfl | rfl
      · exact absurd sign List.not_mem_nil
      · exact absurd sign (by decide)
    · exact absurd (h.letters _ letter) (by decide)

/-- **What cleaning makes of the first character.** It stays; or it is a mark and becomes a space;
or a receiver begins with it, which becomes an expression in parentheses; or the name of a method
does, and what is written before that name comes first. -/
theorem replaceLine_cons (c : Char) (rest : Text) :
    replaceLine (c :: rest) = c :: replaceLine rest ∨
      (c = '↯' ∧ ∃ behind, replaceLine (c :: rest) = ' ' :: behind) ∨
      (isIdentifier c = true ∧ ∃ behind, replaceLine (c :: rest) = '(' :: behind) ∨
      ∃ name async star after d behind, Method name async star ∧
        c :: rest = methodWindow name async star ++ after ∧
        replaceLine (c :: rest) = d :: behind ∧ (async ++ (star ++ name)).head? = some d := by
  unfold replaceLine
  cases decision : methodShorthand none (c :: rest) with
  | none =>
    rw [Text.scan_cons_of_none methodShorthand_forward decision]
    rcases Marker.scan_receiver_cons c (Text.scan methodShorthand rest) with
      kept | ⟨rfl, behind, receiver⟩
    · rw [kept]
      by_cases mark : c = '↯'
      · subst mark
        exact .inr (.inl ⟨rfl, Marker.scan_newProperty_mark _⟩)
      · exact .inl (Marker.scan_newProperty_cons mark _)
    · rw [receiver, Marker.scan_newProperty_cons (by decide)]
      exact .inr (.inr (.inl ⟨by decide, _, rfl⟩))
  | some r =>
    obtain ⟨name, async, star, after, method, whole, rfl⟩ := methodShorthand_eq_some decision
    rw [Text.scan_cons_of_some methodShorthand_forward decision]
    obtain ⟨letter, letters, rfl⟩ := List.exists_cons_of_ne_nil method.some_letter
    obtain ⟨d, more, first⟩ : ∃ d more, async ++ (star ++ letter :: letters) = d :: more :=
      List.exists_cons_of_ne_nil (by simp)
    have plain : d ≠ '↯' := by
      rintro rfl
      exact method.not_mem_mark (first ▸ List.mem_cons_self)
    have shape : (methodReplacement (letter :: letters) async star).output =
        d :: (more ++ (List.replicate 10 ' ' ++ ['('])) := by
      unfold methodReplacement
      dsimp only
      rw [List.append_assoc async, List.append_assoc, first, List.cons_append]
    rw [shape, List.cons_append]
    obtain ⟨e, behind, replaced, rfl | rfl⟩ := replaced_first plain
      (more ++ (List.replicate 10 ' ' ++ ['(']) ++
        Text.scan methodShorthand (rest.drop ((methodReplacement (letter :: letters) async
          star).length - 1)))
    · rw [replaced]
      exact .inr (.inr (.inr ⟨_, _, _, after, e, behind, method, whole, rfl, by rw [first]; rfl⟩))
    · rw [replaced]
      obtain ⟨rfl, -⟩ := List.cons.inj whole
      exact .inr (.inr (.inl ⟨method.letters c List.mem_cons_self, _, rfl⟩))

/-- A character that is neither white space nor a mark leaves something else than white space. -/
theorem exists_replaceLine_cons {c : Char} (filled : isBlank c = false) (other : c ≠ '↯')
    (rest : Text) : ∃ d behind, replaceLine (c :: rest) = d :: behind ∧ isBlank d = false := by
  rcases replaceLine_cons c rest with kept | ⟨rfl, -⟩ | ⟨-, behind, receiver⟩ |
    ⟨name, async, star, after, d, behind, method, -, replaced, first⟩
  · exact ⟨c, _, kept, filled⟩
  · exact absurd rfl other
  · exact ⟨'(', behind, receiver, by decide⟩
  · refine ⟨d, behind, replaced, ?_⟩
    rcases method.async_or_not with rfl | rfl
    · rcases method.star_or_not with rfl | rfl
      · exact LineByLine.isBlank_eq_false_of_isIdentifier
          (method.letters d (List.mem_of_head? first))
      · obtain rfl := Option.some.inj first
        decide
    · obtain rfl := Option.some.inj first
      decide

/-- White space in front stays. -/
theorem replaceLine_append {blanks : Text} (white : ∀ c ∈ blanks, isBlank c = true) (rest : Text) :
    replaceLine (blanks ++ rest) = blanks ++ replaceLine rest := by
  induction blanks with
  | nil => rfl
  | cons c more ih =>
    have blank := white c List.mem_cons_self
    rw [List.cons_append]
    rcases replaceLine_cons c (more ++ rest) with kept | ⟨rfl, -⟩ | ⟨letter, -⟩ |
      ⟨name, async, star, after, d, behind, method, whole, -⟩
    · rw [kept, ih fun d inside => white d (List.mem_cons_of_mem _ inside), List.cons_append]
    · exact absurd blank (by decide)
    · rw [LineByLine.isBlank_eq_false_of_isIdentifier letter] at blank
      cases blank
    · obtain ⟨letter, letters, rfl⟩ := List.exists_cons_of_ne_nil method.some_letter
      obtain ⟨rfl, -⟩ := List.cons.inj whole
      have letter_ := method.letters c List.mem_cons_self
      rw [LineByLine.isBlank_eq_false_of_isIdentifier letter_] at blank
      cases blank

/-- A star comes first in cleaned text only if it did before, or if a generator comes first. -/
theorem star_of_replaceLine {t behind : Text} (h : replaceLine t = '*' :: behind) :
    (∃ rest, t = '*' :: rest) ∨
      ∃ name after, Method name [] ['*'] ∧ t = methodWindow name [] ['*'] ++ after := by
  cases t with
  | nil => cases h
  | cons c rest =>
    rcases replaceLine_cons c rest with kept | ⟨-, _, blank⟩ | ⟨-, _, receiver⟩ |
      ⟨name, async, star, after, d, more, method, whole, replaced, first⟩
    · rw [kept] at h
      obtain ⟨rfl, -⟩ := List.cons.inj h
      exact .inl ⟨rest, rfl⟩
    · rw [blank] at h
      exact absurd (List.cons.inj h).1 (by decide)
    · rw [receiver] at h
      exact absurd (List.cons.inj h).1 (by decide)
    · rw [replaced] at h
      obtain ⟨rfl, -⟩ := List.cons.inj h
      refine .inr ⟨name, after, ?_⟩
      rcases method.async_or_not with rfl | rfl
      · rcases method.star_or_not with rfl | rfl
        · have letter := method.letters '*' (List.mem_of_head? first)
          exact absurd letter (by decide)
        · exact ⟨method, whole⟩
      · exact absurd (Option.some.inj first) (by decide)

/-- A slash comes first in cleaned text only if it did before, and what follows is cleaned. -/
theorem slash_of_replaceLine {t behind : Text} (h : replaceLine t = '/' :: behind) :
    ∃ rest, t = '/' :: rest ∧ behind = replaceLine rest := by
  cases t with
  | nil => cases h
  | cons c rest =>
    rcases replaceLine_cons c rest with kept | ⟨-, _, blank⟩ | ⟨-, _, receiver⟩ |
      ⟨name, async, star, after, d, more, method, whole, replaced, first⟩
    · rw [kept] at h
      obtain ⟨rfl, rfl⟩ := List.cons.inj h
      exact ⟨rest, rfl, rfl⟩
    · rw [blank] at h
      exact absurd (List.cons.inj h).1 (by decide)
    · rw [receiver] at h
      exact absurd (List.cons.inj h).1 (by decide)
    · rw [replaced] at h
      obtain ⟨rfl, -⟩ := List.cons.inj h
      rcases method.async_or_not with rfl | rfl
      · rcases method.star_or_not with rfl | rfl
        · have letter := method.letters '/' (List.mem_of_head? first)
          exact absurd letter (by decide)
        · exact absurd (Option.some.inj first) (by decide)
      · exact absurd (Option.some.inj first) (by decide)

/-- The name of a generator, or a parenthesis, follows its star. -/
theorem replaceLine_generator {name : Text} (method : Method name [] ['*']) (after : Text) :
    ∃ c behind, replaceLine (methodWindow name [] ['*'] ++ after) = '*' :: c :: behind ∧
      (isIdentifier c = true ∨ c = '(') := by
  obtain ⟨letter, letters, rfl⟩ := List.exists_cons_of_ne_nil method.some_letter
  have isLetter := method.letters letter List.mem_cons_self
  have plain : letter ≠ '↯' := by
    rintro rfl
    exact absurd isLetter (by decide)
  have shape : Text.scan methodShorthand (methodWindow (letter :: letters) [] ['*'] ++ after) =
      '*' :: letter :: (letters ++ (List.replicate 10 ' ' ++ ['(']) ++
        Text.scan methodShorthand after) := by
    rw [Text.scan_of_some methodShorthand_forward methodShorthand_linewise.fitting
      (methodShorthand_of_window method after), ← length_methodWindow, List.drop_left]
    simp [methodReplacement]
  obtain ⟨c, behind, replaced, which⟩ := replaced_first plain
    (letters ++ (List.replicate 10 ' ' ++ ['(']) ++ Text.scan methodShorthand after)
  have named : isIdentifier c = true ∨ c = '(' := by
    rcases which with rfl | rfl
    · exact .inl isLetter
    · exact .inr rfl
  refine ⟨c, behind, ?_, named⟩
  unfold replaceLine
  rw [shape]
  rcases Marker.scan_receiver_cons '*' (letter :: (letters ++ (List.replicate 10 ' ' ++ ['(']) ++
    Text.scan methodShorthand after)) with kept | ⟨absurd_, -⟩
  · rw [kept, Marker.scan_newProperty_cons (by decide), replaced]
  · exact absurd absurd_ (by decide)

end Cleanup

namespace Preparation

/-! ## The beginning of an edited line -/

/-- The first mark of a text was there before, unless a comma stands in front of it. -/
theorem Blotted.mark_of_white {t blanks rest : Text} (h : Blotted false t (blanks ++ '↯' :: rest))
    (white : ∀ c ∈ blanks, isBlank c = true) : blanks ++ ['↯'] <+: t := by
  induction blanks generalizing t with
  | nil =>
    cases h with
    | keep => exact List.cons_prefix_cons.2 ⟨rfl, List.nil_prefix⟩
  | cons c more ih =>
    cases h with
    | keep inner =>
      have noComma : (c == ',') = false := by
        rw [beq_eq_false_iff_ne]
        rintro rfl
        exact absurd (white ',' List.mem_cons_self) (by decide)
      rw [noComma] at inner
      exact List.cons_prefix_cons.2
        ⟨rfl, ih inner fun d inside => white d (List.mem_cons_of_mem _ inside)⟩

/-- A front without a dot stands before a marked receiver. -/
theorem prefix_of_prefix_receiverLine {line front : Text} {c : Char}
    (whole : front ++ [c] <+: receiverLine line) (noDot : '.' ∉ front)
    (other : c ∉ Marker.receiver.text) : front ++ [c] <+: line := by
  unfold receiverLine at whole
  cases marked : markReceiver? line with
  | none =>
    rw [marked] at whole
    exact whole
  | some new =>
    rw [marked] at whole
    obtain ⟨before, after, rfl, rfl, -, -⟩ := markReceiver?_eq_some marked
    have inside : front ++ [c] <+: before := by
      have marker : Marker.receiver.text =
          "this".toList ++ '.' :: "__coffeemapAtSign".toList := by decide
      have shape : before ++ Marker.receiver.text ++ after =
          (before ++ "this".toList) ++ '.' :: ("__coffeemapAtSign".toList ++ after) := by
        rw [marker]
        simp only [List.append_assoc, List.cons_append]
      rw [Option.getD_some, shape] at whole
      have early : front ++ [c] <+: before ++ "this".toList := by
        refine List.prefix_of_prefix_length_le whole (List.prefix_append _ _) ?_
        by_contra long
        rw [List.length_append, List.length_cons, List.length_nil] at long
        obtain ⟨rest, same⟩ := whole
        have dot : (front ++ ([c] ++ rest))[(before ++ "this".toList).length]? = some '.' := by
          rw [← List.append_assoc, same, List.getElem?_append_right (Nat.le_refl _), Nat.sub_self]
          rfl
        by_cases end_ : (before ++ "this".toList).length < front.length
        · rw [List.getElem?_append_left end_] at dot
          exact noDot (List.mem_of_getElem? dot)
        · rw [List.getElem?_append_right (by omega),
            show (before ++ "this".toList).length - front.length = 0 by omega] at dot
          obtain rfl := Option.some.inj dot
          exact other (by decide)
      refine Text.prefix_of_prefix_append early fun letter => other ?_
      have part : "this".toList ⊆ Marker.receiver.text := by decide
      exact part letter
    exact inside.trans (List.prefix_append _ _)

namespace Edited

variable {line edited : Text}

/-- A front of an edited line that ends in a sign no edit writes is a front of the line. -/
theorem front_of_front {front : Text} {c : Char} (h : Edited line edited)
    (whole : front ++ [c] <+: edited) (unmarked : '↯' ∉ front) (noDot : '.' ∉ front)
    (sign : c ∈ ['*', '(', '#']) : front ++ [c] <+: line := by
  obtain ⟨extended, extension, blotted⟩ := h
  have foreign : ¬ (isIdentifier c = true ∨ c = ';' ∨ c = ':' ∨ c = '↯') ∧ c ≠ '\r' ∧
      c ∉ Marker.receiver.text := by
    simp only [List.mem_cons, List.not_mem_nil, or_false] at sign
    rcases sign with rfl | rfl | rfl <;> decide
  obtain ⟨unwritten, noReturn, outside⟩ := foreign
  have clean : '↯' ∉ front ++ [c] := by
    intro member
    rcases List.mem_append.1 member with early | last
    · exact unmarked early
    · exact unwritten (.inr (.inr (.inr (List.mem_singleton.1 last).symm)))
  have before := blotted.front_of_front clean whole
  have marked := extension.front_of_front before unwritten noReturn
  exact prefix_of_prefix_receiverLine marked noDot outside

/-- A line with text, and without marks, does not get a mark before its text. -/
theorem not_mark_first {blanks : Text} (h : Edited line edited) (clean : '↯' ∉ line)
    (filled : Text.isEmptyLine line = false) (white : ∀ c ∈ blanks, isBlank c = true) :
    ¬ blanks ++ ['↯'] <+: edited := by
  rintro ⟨rest, rfl⟩
  obtain ⟨extended, ⟨added, -, rfl, -⟩, blotted⟩ := h
  rw [List.append_assoc blanks] at blotted
  obtain ⟨more, same⟩ := blotted.mark_of_white white
  have unmarked : '↯' ∉ receiverLine line := by
    intro member
    rcases mem_receiverLine member with old | written
    · exact clean old
    · exact absurd written (by decide)
  -- The mark is behind the body of the line, so that body is white space.
  have short : (Text.body (receiverLine line)).length ≤ blanks.length := by
    by_contra long
    have mark : (Text.body (receiverLine line) ++ added ++
        Text.tail (receiverLine line))[blanks.length]? = some '↯' := by
      rw [← same, List.append_assoc, List.getElem?_append_right (Nat.le_refl _), Nat.sub_self]
      rfl
    rw [List.append_assoc, List.getElem?_append_left (by omega)] at mark
    exact Text.not_mem_body unmarked (List.mem_of_getElem? mark)
  have part : Text.body (receiverLine line) <+: blanks := by
    have first : Text.body (receiverLine line) <+: blanks ++ ['↯'] ++ more := by
      rw [same, List.append_assoc]
      exact List.prefix_append _ _
    rw [List.append_assoc] at first
    exact List.prefix_of_prefix_length_le first (List.prefix_append _ _) short
  have empty : Text.isEmptyLine (receiverLine line) = true := by
    refine List.all_eq_true.2 fun c member => ?_
    rw [← Text.body_append_tail (receiverLine line)] at member
    rcases List.mem_append.1 member with code | ending
    · exact white c (part.subset code)
    · rcases Text.tail_eq (receiverLine line) with none_ | return_
      · rw [none_] at ending
        exact absurd ending List.not_mem_nil
      · rw [return_, List.mem_singleton] at ending
        subst ending
        decide
  exact Bool.noConfusion ((isEmptyLine_receiverLine filled).symm.trans empty)

end Edited

/-! ## Comments that cleaning begins -/

/-- A line on which a generator stands directly behind a slash. -/
def SlashedGenerator (line : Text) : Prop :=
  ∃ name after, Cleanup.Method name [] ['*'] ∧
    Text.trimLeft line = '/' :: (Cleanup.methodWindow name [] ['*'] ++ after)

namespace Edited

variable {line edited blanks : Text}

/-- White space is neither a mark nor a dot. -/
theorem not_mem_white (white : ∀ c ∈ blanks, isBlank c = true) : '↯' ∉ blanks ∧ '.' ∉ blanks := by
  constructor
  · intro inside
    exact absurd (white _ inside) (by decide)
  · intro inside
    exact absurd (white _ inside) (by decide)

/-- The terminator behind an edited line is no part of a front that ends otherwise. -/
theorem prefix_of_output {front : Text} {c : Char}
    (whole : front ++ [c] <+: Text.trimRight edited ++ [';']) (other : c ≠ ';') :
    front ++ [c] <+: edited :=
  (Text.prefix_of_prefix_append whole (by simpa using other)).trans (Text.trimRight_front edited)

/-- A comment in the output of a line is a comment of the line. -/
theorem startsWith_of_output {rest : Text} (h : Edited line edited)
    (white : ∀ c ∈ blanks, isBlank c = true)
    (whole : Text.trimRight edited ++ [';'] = blanks ++ '/' :: '*' :: rest) :
    Text.startsWith ['/', '*'] (Text.trim line) = true := by
  obtain ⟨noMark, noDot⟩ := not_mem_white white
  have found : (blanks ++ ['/']) ++ ['*'] <+: line := by
    refine h.front_of_front (prefix_of_output ⟨rest, ?_⟩ (by decide)) ?_ ?_ (by decide)
    · rw [whole]
      simp only [List.append_assoc, List.cons_append, List.nil_append]
    · simp [noMark]
    · simp [noDot]
  obtain ⟨ending, same⟩ := found
  rw [Text.startsWith, List.isPrefixOf_iff_prefix, Text.trim, ← same, List.append_assoc,
    List.append_assoc]
  have opened := Text.trimLeft_append white (show isBlank '/' = false by decide) ('*' :: ending)
  have front : ['/'] ++ ['*'] <+: '/' :: '*' :: ending := ⟨ending, rfl⟩
  rw [← opened] at front
  exact Text.prefix_trimRight (by decide) front

/-- A generator behind a slash in the output of a line is one of the line. -/
theorem slashedGenerator_of_output {name after : Text} (h : Edited line edited)
    (white : ∀ c ∈ blanks, isBlank c = true) (method : Cleanup.Method name [] ['*'])
    (whole : Text.trimRight edited ++ [';'] =
      blanks ++ '/' :: (Cleanup.methodWindow name [] ['*'] ++ after)) : SlashedGenerator line := by
  obtain ⟨noMark, noDot⟩ := not_mem_white white
  have window := Cleanup.methodWindow_eq name [] ['*']
  have found : (blanks ++ '/' :: Cleanup.methodHead name [] ['*']) ++ ['('] <+: line := by
    refine h.front_of_front (prefix_of_output ⟨after, ?_⟩ (by decide)) ?_ ?_ (by decide)
    · rw [whole, window]
      simp only [List.append_assoc, List.cons_append]
    · simp [noMark, Cleanup.not_mem_methodHead method (c := '↯') (by decide) (by decide)]
    · simp [noDot, Cleanup.not_mem_methodHead method (c := '.') (by decide) (by decide)]
  obtain ⟨ending, same⟩ := found
  refine ⟨name, ending, method, ?_⟩
  rw [← same, window, List.append_assoc, List.append_assoc, List.cons_append,
    Text.trimLeft_append white (by decide), List.append_assoc]

/-- **A comment that cleaning begins belongs to a slashed generator**, and its text begins with a
name or with a parenthesis. -/
theorem slashedGenerator {behind : Text} (h : Edited line edited)
    (clean : '↯' ∉ line) (filled : Text.isEmptyLine line = false)
    (code : Text.startsWith ['/', '*'] (Text.trim line) = false)
    (comment : Text.trimLeft (Cleanup.replaceLine (Text.trimRight edited ++ [';'])) =
      '/' :: '*' :: behind) :
    SlashedGenerator line ∧ ∃ c more, behind = c :: more ∧ (isIdentifier c = true ∨ c = '(') := by
  have white : ∀ c ∈ Text.leadingBlank (Text.trimRight edited ++ [';']), isBlank c = true :=
    fun _ => Text.mem_leadingBlank
  have parts := Text.leadingBlank_append_trimLeft (Text.trimRight edited ++ [';'])
  generalize Text.leadingBlank (Text.trimRight edited ++ [';']) = blanks at white parts
  cases text : Text.trimLeft (Text.trimRight edited ++ [';']) with
  | nil =>
    have terminator : ';' ∈ blanks := by
      rw [text, List.append_nil] at parts
      simp [parts]
    exact absurd (white _ terminator) (by decide)
  | cons c rest =>
    rw [text] at parts
    have unmarked : c ≠ '↯' := by
      rintro rfl
      refine h.not_mark_first clean filled white (prefix_of_output ⟨rest, ?_⟩ (by decide))
      rw [List.append_assoc]
      exact parts
    obtain ⟨d, more, replaced, visible⟩ :=
      Cleanup.exists_replaceLine_cons (Text.isBlank_of_trimLeft text) unmarked rest
    rw [← parts, Cleanup.replaceLine_append white, replaced,
      Text.trimLeft_append white visible] at comment
    obtain ⟨rfl, rfl⟩ := List.cons.inj comment
    obtain ⟨later, same, star⟩ := Cleanup.slash_of_replaceLine replaced
    obtain ⟨rfl, rfl⟩ := List.cons.inj same
    rcases Cleanup.star_of_replaceLine star.symm with ⟨others, rfl⟩ | ⟨name, after, method, rfl⟩
    · exact Bool.noConfusion (code.symm.trans (h.startsWith_of_output white parts.symm))
    · refine ⟨h.slashedGenerator_of_output white method parts.symm, ?_⟩
      obtain ⟨c, more, generated, letter⟩ := Cleanup.replaceLine_generator method after
      rw [generated] at star
      exact ⟨c, more, (List.cons.inj star).2, letter⟩

/-- The content of a slashed generator begins with the slash. -/
theorem head?_content_of_slashedGenerator (h : SlashedGenerator line) :
    (LineContent.content line).head? = some '/' := by
  obtain ⟨name, after, method, first⟩ := h
  obtain ⟨letter, letters, rfl⟩ := List.exists_cons_of_ne_nil method.some_letter
  have isLetter := method.letters letter List.mem_cons_self
  have opening : LineContent.dropOpening (Text.trimLeft line) =
      '/' :: (Cleanup.methodWindow (letter :: letters) [] ['*'] ++ after) := by
    rw [first]
    unfold LineContent.dropOpening
    split
    · next same =>
      obtain ⟨-, rest⟩ := List.cons.inj same
      obtain ⟨rfl, -⟩ := List.cons.inj rest
      exact absurd isLetter (by decide)
    · next same =>
      obtain ⟨-, rest⟩ := List.cons.inj same
      obtain ⟨rfl, -⟩ := List.cons.inj rest
      exact absurd isLetter (by decide)
    · next same => exact absurd (List.cons.inj same).1 (by decide)
    · exact List.dropWhile_cons_of_neg (by decide)
  exact LineContent.head?_content opening (by decide) (by decide) (by decide)

/-- **When a generated line begins a block comment**, its source line is a slashed generator, and
the two lines have different contents. -/
theorem of_beginsBlockComment {times : Nat} {line' text ending : Text} (h : Edited line edited)
    (clean : '↯' ∉ line) (filled : Text.isEmptyLine line = false)
    (code : Text.startsWith ['/', '*'] (Text.trim line) = false)
    (shape : Declarations.Narrowed times
      (Cleanup.replaceLine (Text.trimRight edited ++ [';'])) line')
    (whole : line' = text ++ ending) (ends : ending = [] ∨ ending = ['\r'])
    (comment : ToSource.beginsBlockComment text = true) :
    SlashedGenerator line ∧ LineContent.content line ≠ LineContent.content text := by
  obtain ⟨behind, opened⟩ := ToSource.exists_trimLeft_of_beginsBlockComment comment
  have first := Text.trimLeft_append_right opened ending
  rw [← whole] at first
  rw [shape.eq_of_trimLeft first (by decide) (by decide)] at first
  obtain ⟨generator, c, more, next, letter⟩ := h.slashedGenerator clean filled code first
  refine ⟨generator, fun same => ?_⟩
  obtain ⟨later, rfl⟩ : ∃ later, behind = c :: later := by
    cases behind with
    | nil =>
      rcases ends with rfl | rfl
      · cases next
      · obtain ⟨rfl, -⟩ := List.cons.inj next
        rcases letter with identifier | paren
        · exact absurd identifier (by decide)
        · exact absurd paren (by decide)
    | cons d later =>
      obtain ⟨rfl, -⟩ := List.cons.inj next
      exact ⟨later, rfl⟩
  have target : (LineContent.content text).head? = some c := by
    have opening : LineContent.dropOpening (Text.trimLeft text) = c :: later := by
      rw [opened]
      rfl
    refine LineContent.head?_content opening ?_ ?_ ?_
    · rcases letter with identifier | rfl
      · exact LineByLine.isBlank_eq_false_of_isIdentifier identifier
      · decide
    · rintro rfl
      exact absurd letter (by decide)
    · rintro rfl
      exact absurd letter (by decide)
  rw [← same, head?_content_of_slashedGenerator generator] at target
  obtain rfl := Option.some.inj target
  exact absurd letter (by decide)

end Edited

end Preparation

end DialectBridge
