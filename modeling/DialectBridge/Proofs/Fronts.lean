import DialectBridge.Proofs.GeneratedLines

/-!
# Fronts of lines

What a line begins with is kept on its way to the generated text as far as no marker and no addition
is reached. This module says so step by step, for trimming, for the additions at the end of a line
and for marks behind commas, and in both directions: a front of the later line is one of the earlier
line, and the reverse.
-/

set_option autoImplicit false

namespace DialectBridge

namespace Text

/-! ## Behind the indentation -/

/-- What stands behind leading white space. -/
theorem trimLeft_append {blanks : Text} (white : ∀ c ∈ blanks, isBlank c = true) {c : Char}
    (filled : isBlank c = false) (rest : Text) : trimLeft (blanks ++ c :: rest) = c :: rest := by
  unfold trimLeft
  rw [List.dropWhile_append_of_pos white, List.dropWhile_cons_of_neg (by simp [filled])]

theorem mem_leadingBlank {t : Text} {c : Char} (h : c ∈ leadingBlank t) : isBlank c = true :=
  List.mem_takeWhile_imp h

/-- A text is its leading white space and what stands behind it. -/
theorem leadingBlank_append_trimLeft (t : Text) : leadingBlank t ++ trimLeft t = t :=
  List.takeWhile_append_dropWhile

/-- Behind leading white space stands something else. -/
theorem isBlank_of_trimLeft {t rest : Text} {c : Char} (h : trimLeft t = c :: rest) :
    isBlank c = false := by
  have first := List.head?_dropWhile_not isBlank t
  rw [show t.dropWhile isBlank = c :: rest from h] at first
  simpa using first

/-- Something behind the last character that counts does not change where a text begins. -/
theorem trimLeft_append_right {t rest : Text} {c : Char} (h : trimLeft t = c :: rest)
    (ending : Text) : trimLeft (t ++ ending) = c :: (rest ++ ending) := by
  rw [← leadingBlank_append_trimLeft t, h, List.append_assoc]
  exact trimLeft_append (fun _ => mem_leadingBlank) (isBlank_of_trimLeft h) _

/-- A character with ink ends the indentation of a line. -/
theorem leadingBlank_append {c : Char} (filled : isBlank c = false) (front rest : Text) :
    leadingBlank (front ++ c :: rest) = leadingBlank front ∧
      trimLeft (front ++ c :: rest) = trimLeft front ++ c :: rest :=
  ⟨takeWhile_append_cons filled front rest, dropWhile_append_cons filled front rest⟩

/-- Trimming on the right keeps a front that ends in something else than white space. -/
theorem prefix_trimRight {front t : Text} {c : Char} (filled : isBlank c = false)
    (h : front ++ [c] <+: t) : front ++ [c] <+: trimRight t := by
  obtain ⟨rest, whole⟩ := h
  have last : t[front.length]? = some c := by
    rw [← whole, List.append_assoc, List.getElem?_append_right (Nat.le_refl _), Nat.sub_self]
    rfl
  have bound := lt_length_trimRight last filled
  refine List.prefix_of_prefix_length_le ⟨rest, whole⟩ (trimRight_front t) ?_
  rw [List.length_append, List.length_cons, List.length_nil]
  omega

/-- Trimming on the right keeps the first character, if it is not white space. -/
theorem exists_trimRight_cons {c : Char} (filled : isBlank c = false) (rest : Text) :
    ∃ more, trimRight (c :: rest) = c :: more := by
  have front : [] ++ [c] <+: c :: rest := ⟨rest, rfl⟩
  obtain ⟨more, whole⟩ := prefix_trimRight filled front
  exact ⟨more, whole.symm⟩

/-- A character that is at an end of a front and in none of the parts behind is in the first. -/
theorem prefix_of_prefix_append {front first second : Text} {c : Char}
    (whole : front ++ [c] <+: first ++ second) (other : c ∉ second) : front ++ [c] <+: first := by
  obtain ⟨rest, same⟩ := whole
  have last : (first ++ second)[front.length]? = some c := by
    rw [← same, List.append_assoc, List.getElem?_append_right (Nat.le_refl _), Nat.sub_self]
    rfl
  refine List.prefix_of_prefix_length_le ⟨rest, same⟩ (List.prefix_append _ _) ?_
  rw [List.length_append, List.length_cons, List.length_nil]
  by_contra short
  rw [List.getElem?_append_right (by omega)] at last
  exact other (List.mem_of_getElem? last)

/-- A front that ends in a part without the first character behind a text is a front of the text. -/
theorem prefix_of_prefix_append_of_head {front part first second : Text}
    (whole : front ++ part <+: first ++ second) (inside : front.length ≤ first.length)
    (other : ∀ c ∈ second.head?, c ∉ part) : front ++ part <+: first := by
  refine List.prefix_of_prefix_length_le whole (List.prefix_append _ _) ?_
  by_contra long
  rw [List.length_append] at long
  obtain ⟨rest, same⟩ := whole
  have found : (first ++ second)[first.length]? = part[first.length - front.length]? := by
    rw [← same, List.append_assoc, List.getElem?_append_right inside,
      List.getElem?_append_left (by omega)]
  rw [List.getElem?_append_right (Nat.le_refl _), Nat.sub_self, ← List.head?_eq_getElem?,
    List.getElem?_eq_getElem (by omega)] at found
  exact other _ found (List.getElem_mem _)

/-- A front that reaches behind the first of two parts goes on in the second. -/
theorem exists_of_prefix_append {front part first second : Text}
    (whole : front ++ part <+: first ++ second) (reaching : first.length ≤ front.length) :
    ∃ later, front = first ++ later ∧ later ++ part <+: second := by
  have both : first <+: front := List.prefix_of_prefix_length_le (List.prefix_append _ _)
    ((List.prefix_append front part).trans whole) reaching
  obtain ⟨later, rfl⟩ := both
  refine ⟨later, rfl, ?_⟩
  rwa [List.append_assoc, List.prefix_append_right_inj] at whole

/-- A text occurs where it stands. -/
theorem occursIn_append (front needle rest : Text) :
    occursIn needle (front ++ (needle ++ rest)) = true := by
  unfold occursIn
  induction front with
  | nil =>
    have here : startsWith needle (needle ++ rest) = true := by
      rw [startsWith, List.isPrefixOf_iff_prefix]
      exact List.prefix_append _ _
    rw [List.nil_append]
    cases whole : needle ++ rest with
    | nil =>
      obtain ⟨rfl, -⟩ := List.append_eq_nil_iff.1 whole
      rfl
    | cons c more =>
      rw [whole] at here
      rw [find?, if_pos here]
      rfl
  | cons c more ih =>
    rw [List.cons_append, find?]
    split
    · rfl
    · rw [Option.isSome_map]
      exact ih

/-- Trimming on the right goes on behind a character that is not white space. -/
theorem trimRight_append {front : Text} {c : Char} (filled : isBlank c = false) (rest : Text) :
    trimRight (front ++ [c] ++ rest) = front ++ [c] ++ trimRight rest := by
  obtain ⟨blanks, whole, white⟩ := exists_trimRight_append rest
  have stays : ((front ++ [c] ++ trimRight rest).reverse).dropWhile isBlank =
      (front ++ [c] ++ trimRight rest).reverse := by
    rw [List.reverse_append]
    cases last : (trimRight rest).reverse with
    | nil =>
      rw [List.nil_append, List.reverse_append]
      exact List.dropWhile_cons_of_neg (by simp [filled])
    | cons d more =>
      have visible : isBlank d = false := by
        have first := List.head?_dropWhile_not isBlank rest.reverse
        rw [trimRight, List.reverse_reverse] at last
        rw [last] at first
        simpa using first
      exact List.dropWhile_cons_of_neg (by simp [visible])
  have reversed : (front ++ [c] ++ rest).reverse =
      blanks.reverse ++ (front ++ [c] ++ trimRight rest).reverse := by
    rw [← List.reverse_append, List.append_assoc _ _ blanks, ← whole]
  conv_lhs => rw [trimRight, reversed]
  rw [List.dropWhile_append_of_pos (fun d inside => white d (List.mem_reverse.1 inside)), stays,
    List.reverse_reverse]

/-- The tail of a line is the tail of what follows a character that is none. -/
theorem body_append {front : Text} {c : Char} (other : c ≠ '\r') (rest : Text) :
    body (front ++ [c] ++ rest) = front ++ [c] ++ body rest ∧
      tail (front ++ [c] ++ rest) = tail rest := by
  cases rest with
  | nil =>
    have last : (front ++ [c]).getLast? ≠ some '\r' := by simpa using other
    rw [List.append_nil, body_of_getLast?_ne last, tail_of_getLast?_ne last]
    exact ⟨(List.append_nil _).symm, rfl⟩
  | cons d more =>
    have last : (front ++ [c] ++ d :: more).getLast? = (d :: more).getLast? := by
      rw [List.getLast?_append, List.getLast?_cons]
      rfl
    unfold body tail
    rw [last]
    split
    · exact ⟨List.dropLast_append_of_ne_nil (List.cons_ne_nil d more), rfl⟩
    · exact ⟨rfl, rfl⟩

end Text

/-- Keywords stand in front of everything that is not indentation. -/
theorem Declarations.keyworded_append {c : Char} (filled : isBlank c = false) (times : Nat)
    (front rest : Text) :
    keyworded times (front ++ c :: rest) = keyworded times front ++ c :: rest := by
  obtain ⟨blank, text⟩ := Text.leadingBlank_append filled front rest
  rw [keyworded, blank, text, keyworded]
  simp only [List.append_assoc]

namespace Preparation

/-- A front without marks is blotted into itself. -/
theorem Blotted.front_of_front {comma : Bool} {t t' front : Text} (h : Blotted comma t t')
    (unmarked : '↯' ∉ front) (whole : front <+: t') : front <+: t := by
  induction h generalizing front with
  | nil => exact whole
  | @keep comma c t t' rest ih =>
    cases front with
    | nil => exact List.nil_prefix
    | cons d more =>
      obtain ⟨rfl, part⟩ := List.cons_prefix_cons.1 whole
      exact List.cons_prefix_cons.2
        ⟨rfl, ih (fun inside => unmarked (List.mem_cons_of_mem _ inside)) part⟩
  | mark free rest ih =>
    cases front with
    | nil => exact List.nil_prefix
    | cons d more =>
      obtain ⟨rfl, -⟩ := List.cons_prefix_cons.1 whole
      exact absurd List.mem_cons_self unmarked

/-- A front without spaces is blotted into itself. -/
theorem Blotted.front_of_front_left {comma : Bool} {t t' front : Text} (h : Blotted comma t t')
    (filled : ' ' ∉ front) (whole : front <+: t) : front <+: t' := by
  induction h generalizing front with
  | nil => exact whole
  | @keep comma c t t' rest ih =>
    cases front with
    | nil => exact List.nil_prefix
    | cons d more =>
      obtain ⟨rfl, part⟩ := List.cons_prefix_cons.1 whole
      exact List.cons_prefix_cons.2
        ⟨rfl, ih (fun inside => filled (List.mem_cons_of_mem _ inside)) part⟩
  | mark free rest ih =>
    cases front with
    | nil => exact List.nil_prefix
    | cons d more =>
      obtain ⟨rfl, -⟩ := List.cons_prefix_cons.1 whole
      exact absurd List.mem_cons_self filled

/-- A text without spaces has no marks put in. -/
theorem Blotted.eq_of_filled {comma : Bool} {t t' : Text} (h : Blotted comma t t')
    (filled : ' ' ∉ t) : t' = t :=
  ((h.front_of_front_left filled (List.prefix_refl t)).eq_of_length h.length_eq.symm).symm

/-- A text that is cut is blotted part by part. -/
theorem Blotted.exists_of_append {comma : Bool} {first second t' : Text}
    (h : Blotted comma (first ++ second) t') :
    ∃ first' second' flag, t' = first' ++ second' ∧ Blotted comma first first' ∧
      Blotted flag second second' := by
  induction first generalizing comma t' with
  | nil => exact ⟨[], t', comma, rfl, .nil, h⟩
  | cons c more ih =>
    cases h with
    | keep rest =>
      obtain ⟨first', second', flag, rfl, front, behind⟩ := ih rest
      exact ⟨c :: first', second', flag, rfl, .keep front, behind⟩
    | mark free rest =>
      obtain ⟨first', second', flag, rfl, front, behind⟩ := ih rest
      refine ⟨'↯' :: first', second', flag, rfl, .mark (fun colon => free ?_) front, behind⟩
      exact List.head?_append.trans (by rw [colon]; rfl)

/-- A blotted text ends in an identifier character only if the text does. -/
theorem Blotted.getLast_free {comma : Bool} {t t' : Text} (h : Blotted comma t t')
    (free : ∀ c ∈ t.getLast?, isIdentifier c = false) :
    ∀ c ∈ t'.getLast?, isIdentifier c = false := by
  rcases List.eq_nil_or_concat' t with rfl | ⟨front, d, rfl⟩
  · cases h
    exact fun c nothing => nomatch nothing
  · obtain ⟨front', last, flag, rfl, -, ending⟩ := h.exists_of_append
    intro c found
    cases ending with
    | keep nothing =>
      obtain rfl := List.length_eq_zero_iff.1 nothing.length_eq
      rw [List.getLast?_concat] at found
      obtain rfl := Option.some.inj found
      exact free d List.getLast?_concat
    | mark _ nothing =>
      obtain rfl := List.length_eq_zero_iff.1 nothing.length_eq
      rw [List.getLast?_concat] at found
      obtain rfl := Option.some.inj found
      decide

/-- A blotted text that is cut comes from a text that is cut. -/
theorem Blotted.exists_of_append_right {comma : Bool} {t first' second' : Text}
    (h : Blotted comma t (first' ++ second')) :
    ∃ first second flag, t = first ++ second ∧ Blotted comma first first' ∧
      Blotted flag second second' := by
  have size := h.length_eq
  rw [List.length_append] at size
  rw [← List.take_append_drop first'.length t] at h
  obtain ⟨front, rest, flag, whole, early, late⟩ := h.exists_of_append
  have same : front.length = first'.length := by
    rw [early.length_eq, List.length_take, Nat.min_eq_left (by omega)]
  obtain ⟨rfl, rfl⟩ := List.append_inj whole same.symm
  exact ⟨_, _, flag, (List.take_append_drop _ t).symm, early, late⟩

/-- The characters in front of an addition stay, and so does what they begin with. -/
theorem Extension.front_of_front {growth : Nat → Nat} {line line' front : Text} {c : Char}
    (h : Extension growth line line') (whole : front ++ [c] <+: line')
    (other : ¬ (isIdentifier c = true ∨ c = ';' ∨ c = ':' ∨ c = '↯')) (noReturn : c ≠ '\r') :
    front ++ [c] <+: line := by
  obtain ⟨added, addition, rfl, -⟩ := h
  have noTail : c ∉ Text.tail line := by
    rcases Text.tail_eq line with none_ | return_
    · rw [none_]
      exact List.not_mem_nil
    · rw [return_]
      simpa using noReturn
  have code := Text.prefix_of_prefix_append whole noTail
  have body := Text.prefix_of_prefix_append code fun inside => other (addition.signs c inside)
  exact body.trans ⟨Text.tail line, Text.body_append_tail line⟩

end Preparation

end DialectBridge
