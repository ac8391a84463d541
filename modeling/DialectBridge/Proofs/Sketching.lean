import DialectBridge.Proofs.Fronts
import DialectBridge.Sketch

/-!
# What a sketch keeps apart

A sketch keeps the characters of a text in their order and puts separators between them or in the
place of some of them. A relation between texts that is compatible with this (`Congruence`) holds
between every text and its sketch; it is enough to look at the separators one by one.

Two relations of this kind are used. A sketch of something is something. And a needle that no
separator can be part of occurs in a sketch only if it occurs in the text (`infix_of_sketch`).
-/

set_option autoImplicit false

namespace DialectBridge

namespace Text

variable {needle front rest body : Text} {d : Char}

/-! ## Occurrences around a separator -/

theorem not_infix_of_occursIn {t : Text} (h : occursIn needle t = false) : ¬ needle <:+: t := by
  rintro ⟨before, behind, rfl⟩
  rw [List.append_assoc, occursIn_append] at h
  cases h

/-- A needle without the character at which a text is cut lies on one side of it. -/
theorem infix_of_infix_append_cons (h : needle <:+: front ++ d :: rest) (foreign : d ∉ needle) :
    needle <:+: front ∨ needle <:+: rest := by
  obtain ⟨before, behind, same⟩ := h
  rcases List.append_eq_append_iff.1 same with ⟨more, whole, -⟩ | ⟨more, reach, ending⟩
  · exact .inl ⟨before, more, whole.symm⟩
  · cases more with
    | nil =>
      rw [List.append_nil] at reach
      exact .inl ⟨before, [], by rw [List.append_nil, reach]⟩
    | cons e more =>
      obtain ⟨rfl, rfl⟩ := List.cons.inj ending
      rcases List.append_eq_append_iff.1 reach with ⟨part, -, shape⟩ | ⟨part, -, shape⟩
      · refine absurd ?_ foreign
        rw [shape]
        exact List.mem_append_right _ List.mem_cons_self
      · cases part with
        | nil =>
          refine absurd ?_ foreign
          rw [List.nil_append] at shape
          rw [← shape]
          exact List.mem_cons_self
        | cons e part =>
          obtain ⟨-, rfl⟩ := List.cons.inj shape
          exact .inr ⟨part, behind, rfl⟩

/-- A needle whose last character is missing behind a cut lies before it. -/
theorem infix_of_infix_append (h : needle <:+: front ++ body)
    (unfinished : ∀ c ∈ needle.getLast?, c ∉ body) (some_ : needle ≠ []) : needle <:+: front := by
  obtain ⟨before, behind, same⟩ := h
  rcases List.append_eq_append_iff.1 same with ⟨more, whole, -⟩ | ⟨more, reach, ending⟩
  · exact ⟨before, more, whole.symm⟩
  · rcases List.eq_nil_or_concat' more with rfl | ⟨part, c, rfl⟩
    · exact ⟨before, [], by rw [List.append_nil, reach, List.append_nil]⟩
    · have last : needle.getLast? = some c := by
        have lasts := congrArg List.getLast? reach
        rw [List.getLast?_append_of_ne_nil _ some_, ← List.append_assoc,
          List.getLast?_concat] at lasts
        exact lasts
      refine absurd ?_ (unfinished c last)
      rw [ending]
      exact List.mem_append_left _ (List.mem_append_right _ (List.mem_singleton_self c))

/-- Wherever the second text takes the place of the first, the needle does not occur anew. -/
def NoNew (needle t t' : Text) : Prop :=
  ∀ front rest, needle <:+: front ++ t' ++ rest → needle <:+: front ++ t ++ rest

theorem NoNew.append {a a' b b' : Text} (first : NoNew needle a a') (second : NoNew needle b b') :
    NoNew needle (a ++ b) (a' ++ b') := by
  intro front rest found
  have early := second (front ++ a') rest (by simpa using found)
  have late := first front (b ++ rest) (by simpa using early)
  simpa using late

/-- Text with which a needle can neither end nor go on. -/
def separates (needle separator : Text) : Bool :=
  separator.getLast?.any (!needle.contains ·) &&
    separator.dropLast.all fun c => needle.getLast? != some c

/-- A separator in the place of anything makes no needle. -/
theorem noNew_of_separates {separator : Text} (some_ : needle ≠ [])
    (h : separates needle separator = true) (taken : Text) : NoNew needle taken separator := by
  intro front rest found
  rw [separates, Bool.and_eq_true, Option.any_eq_true_iff_get] at h
  obtain ⟨⟨present, foreign⟩, unfinished⟩ := h
  obtain ⟨d, last⟩ := Option.isSome_iff_exists.1 present
  obtain ⟨body, rfl⟩ := List.getLast?_eq_some_iff.1 last
  simp only [last, Option.get_some] at foreign
  rw [List.dropLast_concat, List.all_eq_true] at unfinished
  rw [List.append_assoc, List.append_assoc, List.singleton_append, ← List.append_assoc] at found
  -- The needle does not reach across the last character of the separator, and it does not end in
  -- the characters before that one.
  rcases infix_of_infix_append_cons found (by simpa using foreign) with early | late
  · have before := infix_of_infix_append early (fun c last inside => by
      have other := unfinished c inside
      rw [Option.mem_def] at last
      simp [last] at other) some_
    exact before.trans ⟨[], taken ++ rest, by simp⟩
  · exact late.trans ⟨front ++ taken, [], by simp⟩

end Text

namespace Sketch

/-! ## What the passes replace -/

/-- What sketching puts between or in the place of the characters of a text. -/
def separators : List Text :=
  [receiverText, ['('], callEnd, ['\x7b'], [':'], declarationKeyword, ['/', '*'], ['\x60'],
    ['$', '\x7b'], ['/', '/']] ++
    foreignWords.map fun word => Text.padRight word.length ['&', '&']

/-- A line in which a space may have become a parenthesis that is closed behind the line. -/
inductive Enclosed : Text → Text → Prop
  | itself (line : Text) : Enclosed line line
  | call (before rest : Text) : Enclosed (before ++ ' ' :: rest) (before ++ '(' :: rest ++ callEnd)

theorem enclosed_enclosesCallback (line : Text) : Enclosed line (enclosesCallback line) := by
  unfold enclosesCallback
  split
  · next before after found =>
    obtain ⟨whole, gap⟩ := Text.firstPlace?_sound found
    unfold isCallbackGap at gap
    split at gap
    · next same =>
      dsimp only at whole same
      rw [← whole, same]
      exact .call before _
    · cases gap
  · exact .itself line

theorem enclosed_enclosesArgument (line : Text) : Enclosed line (enclosesArgument line) := by
  unfold enclosesArgument
  split
  · next before after found =>
    split
    · exact .itself line
    · obtain ⟨whole, gap⟩ := Text.lastPlace?_sound found
      unfold isArgumentGap at gap
      split at gap
      · next same =>
        dsimp only at whole same
        rw [← whole, same]
        exact .call before _
      · cases gap
  · exact .itself line

/-- A key ends in a colon, and a space follows it. -/
theorem exists_of_key? {t key : Text} (h : key? t = some key) :
    ∃ name rest, key = name ++ [':'] ∧ t = name ++ [':', ' '] ++ rest := by
  unfold key? at h
  split at h
  · next c rest =>
    split at h
    · dsimp only at h
      have whole := List.takeWhile_append_dropWhile (p := isIdentifier) (l := c :: rest)
      rw [← Text.drop_length_takeWhile] at whole
      split at h
      · next others behind =>
        rw [behind] at whole
        refine ⟨(c :: rest).takeWhile isIdentifier ++ [' '], others, ?_, ?_⟩
        · rw [← Option.some.inj h]
          simp
        · refine whole.symm.trans ?_
          simp
      · next others behind =>
        rw [behind] at whole
        refine ⟨(c :: rest).takeWhile isIdentifier, others, (Option.some.inj h).symm, ?_⟩
        refine whole.symm.trans ?_
        simp
      · cases h
    · cases h
  · cases h

theorem openObject_eq_some {before : Option Char} {t : Text} {r : Replacement}
    (h : openObject before t = some r) :
    ∃ c gap name rest, t = c :: gap :: (name ++ [':', ' '] ++ rest) ∧
      r = ⟨name.length + 4, c :: gap :: '\x7b' :: (name ++ [':'])⟩ := by
  unfold openObject at h
  split at h
  · next c gap others =>
    split at h
    · obtain ⟨key, found, rfl⟩ := Option.map_eq_some_iff.1 h
      obtain ⟨name, rest, rfl, rfl⟩ := exists_of_key? found
      exact ⟨c, gap, name, rest, rfl, by simp⟩
    · cases h
  · cases h

theorem openBlockComment_eq_some {before : Option Char} {t : Text} {r : Replacement}
    (h : openBlockComment before t = some r) :
    ∃ front next rest, t = front ++ ['#', '#', '#'] ++ next ++ rest ∧
      r = ⟨front.length + 3 + next.length, front ++ ['/', '*'] ++ next⟩ := by
  unfold openBlockComment at h
  split at h
  · next others =>
    split at h
    · refine ⟨[], others.take 1, others.drop 1, ?_, ?_⟩
      · rw [List.append_assoc, List.take_append_drop]
        rfl
      · rw [← Option.some.inj h]
        simp
    · cases h
  · next c others _ =>
    split at h
    · refine ⟨[c], others.take 1, others.drop 1, ?_, ?_⟩
      · rw [List.append_assoc, List.take_append_drop]
        rfl
      · rw [← Option.some.inj h]
        simp
    · cases h
  · cases h

/-- A foreign word is replaced by what is as long and stands in one line. -/
theorem replaceForeignWord_eq_some {before : Option Char} {t : Text} {r : Replacement}
    (h : replaceForeignWord before t = some r) :
    t.takeWhile isWordChar ∈ foreignWords ∧ before.any isWordChar = false ∧
      r = ⟨(t.takeWhile isWordChar).length,
        Text.padRight (t.takeWhile isWordChar).length ['&', '&']⟩ := by
  unfold replaceForeignWord at h
  dsimp only at h
  split at h
  · next foreign =>
    rw [Bool.and_eq_true, Bool.not_eq_true'] at foreign
    exact ⟨List.contains_iff_mem.1 foreign.1, foreign.2, (Option.some.inj h).symm⟩
  · cases h

/-! ## Relations that a sketch respects -/

/-- A relation between texts that is compatible with keeping characters and with putting separators
in the place of others. -/
structure Congruence (related : Text → Text → Prop) : Prop where
  refl : ∀ t, related t t
  trans : ∀ {a b c}, related a b → related b c → related a c
  append : ∀ {a a' b b'}, related a a' → related b b' → related (a ++ b) (a' ++ b')
  separator : ∀ taken, ∀ separator ∈ separators, related taken separator

namespace Congruence

variable {related : Text → Text → Prop}

theorem keep (h : Congruence related) {t t' : Text} (front : Text) (rest : related t t') :
    related (front ++ t) (front ++ t') :=
  h.append (h.refl front) rest

/-- A separator in the place of some characters, and the rest. -/
theorem replace (h : Congruence related) {t t' separator : Text} (taken : Text)
    (member : separator ∈ separators) (rest : related t t') :
    related (taken ++ t) (separator ++ t') :=
  h.append (h.separator taken separator member) rest

theorem joinLines (h : Congruence related) {all all' : List Text}
    (pairs : List.Forall₂ related all all') :
    related (Text.joinLines all) (Text.joinLines all') := by
  induction pairs with
  | nil => exact h.refl _
  | cons first others ih =>
    cases others with
    | nil => exact first
    | cons second more => exact h.append first (h.keep ['\n'] ih)

theorem mapLines (h : Congruence related) {f : Text → Text} (each : ∀ line, related line (f line))
    (t : Text) : related t (Text.mapLines f t) := by
  have joined := h.joinLines (List.forall₂_map_right_iff.2
    (List.forall₂_same.2 fun line (_ : line ∈ Text.lines t) => each line))
  rw [Text.joinLines_lines] at joined
  exact joined

/-! ## The passes -/

theorem expandReceivers (h : Congruence related) (t : Text) :
    related t (Sketch.expandReceivers t) := by
  induction t with
  | nil => exact h.refl _
  | cons c rest ih =>
    rw [Sketch.expandReceivers, List.flatMap_cons]
    split
    · exact h.replace [c] (by decide) ih
    · exact h.keep [c] ih

/-- A space that becomes a parenthesis, which is closed at the end. -/
theorem enclosed (h : Congruence related) {line line' : Text} (called : Enclosed line line') :
    related line line' := by
  cases called with
  | itself => exact h.refl line
  | call before rest =>
    have closed : related rest (rest ++ callEnd) := by
      have ending := h.keep rest (h.separator [] callEnd (by decide))
      rwa [List.append_nil] at ending
    rw [List.append_assoc]
    exact h.keep before (h.append (h.separator [' '] ['('] (by decide)) closed)

theorem enclosesCallback (h : Congruence related) (line : Text) :
    related line (Sketch.enclosesCallback line) :=
  h.enclosed (enclosed_enclosesCallback line)

theorem enclosesArgument (h : Congruence related) (line : Text) :
    related line (Sketch.enclosesArgument line) :=
  h.enclosed (enclosed_enclosesArgument line)

/-- An object gets its brace, and the space behind the colon of its key goes. -/
theorem openObject (h : Congruence related) (t : Text) :
    related t (Text.scan Sketch.openObject t) := by
  refine Text.scan_induction related (h.refl []) (fun c _ _ => h.keep [c]) ?_ t
  intro before t r replaced
  obtain ⟨c, gap, name, rest, rfl, rfl⟩ := openObject_eq_some replaced
  refine ⟨c :: gap :: (name ++ [':', ' ']), rest, by simp, by simp, by simp, fun rest' ih => ?_⟩
  have key : related (name ++ ([':', ' '] ++ rest)) (name ++ ([':'] ++ rest')) :=
    h.keep name (h.replace [':', ' '] (by decide) ih)
  have object := h.keep [c, gap] (h.append (h.separator [] ['\x7b'] (by decide)) key)
  simpa using object

theorem replaceForeignWord (h : Congruence related) (t : Text) :
    related t (Text.scan Sketch.replaceForeignWord t) := by
  refine Text.scan_induction related (h.refl []) (fun c _ _ => h.keep [c]) ?_ t
  intro before t r replaced
  obtain ⟨member, -, rfl⟩ := replaceForeignWord_eq_some replaced
  have sizes : ∀ word ∈ foreignWords, 1 ≤ word.length := by decide
  have written := List.mem_append_right [receiverText, ['('], callEnd, ['\x7b'], [':'],
    declarationKeyword, ['/', '*'], ['\x60'], ['$', '\x7b'], ['/', '/']]
    (List.mem_map_of_mem (f := fun word => Text.padRight word.length ['&', '&']) member)
  refine ⟨t.takeWhile isWordChar, t.dropWhile isWordChar, ?_, rfl, sizes _ member,
    fun rest' ih => ?_⟩
  · exact List.takeWhile_append_dropWhile.symm
  · conv => arg 1; rw [← List.takeWhile_append_dropWhile (p := isWordChar) (l := t)]
    exact h.replace _ written ih

theorem declare (h : Congruence related) (line : Text) : related line (Sketch.declare line) := by
  unfold Sketch.declare
  split
  · exact h.replace [] (by decide) (h.refl line)
  · exact h.refl _

/-- Three comment signs become the beginning of a comment. -/
theorem openBlockComment (h : Congruence related) (t : Text) :
    related t (Text.scan Sketch.openBlockComment t) := by
  refine Text.scan_induction related (h.refl []) (fun c _ _ => h.keep [c]) ?_ t
  intro before t r replaced
  obtain ⟨front, next, rest, rfl, rfl⟩ := openBlockComment_eq_some replaced
  refine ⟨front ++ ['#', '#', '#'] ++ next, rest, by simp, by simp; omega, by simp; omega,
    fun rest' ih => ?_⟩
  have fence := h.keep front
    (h.append (h.separator ['#', '#', '#'] ['/', '*'] (by decide)) (h.keep next ih))
  simpa using fence

theorem literally (h : Congruence related) {old new : Text} (some_ : old ≠ [])
    (member : new ∈ separators) (t : Text) : related t (Text.replaceAll old new t) := by
  refine Text.scan_induction related (h.refl []) (fun c _ _ => h.keep [c]) ?_ t
  intro before t r replaced
  obtain ⟨rest, rfl, rfl⟩ := Text.literally_eq_some replaced
  exact ⟨old, rest, rfl, rfl, List.length_pos_iff.2 some_, fun rest' ih =>
    h.replace old member ih⟩

theorem templates (h : Congruence related) (line : Text) :
    related line (Sketch.templates line) := by
  unfold Sketch.templates
  split
  · exact h.refl _
  · next code =>
    clear code
    refine h.trans ?_ (h.literally (by decide) (by decide) _)
    induction line with
    | nil => exact h.refl _
    | cons c rest ih =>
      rw [List.map_cons]
      split
      · exact h.append (h.separator [c] ['\x60'] (by decide)) ih
      · exact h.keep [c] ih

/-- **A sketch is related to its text.** -/
theorem sketch (h : Congruence related) (t : Text) : related t (DialectBridge.sketch t) := by
  have each : ∀ pass ∈ passes, ∀ t, related t (pass t) := by
    simp only [passes, List.mem_cons, List.not_mem_nil, or_false]
    rintro pass (rfl | rfl | rfl | rfl | rfl | rfl | rfl | rfl | rfl) t
    · exact h.expandReceivers t
    · exact h.mapLines h.enclosesCallback t
    · exact h.mapLines h.enclosesArgument t
    · exact h.openObject t
    · exact h.replaceForeignWord t
    · exact h.mapLines h.declare t
    · exact h.mapLines h.openBlockComment t
    · exact h.mapLines h.templates t
    · exact h.literally (by decide) (by decide) t
  unfold DialectBridge.sketch
  generalize passes = all at each
  induction all generalizing t with
  | nil => exact h.refl t
  | cons pass rest ih =>
    refine h.trans (each pass List.mem_cons_self t) ?_
    exact ih (pass t) fun later inside => each later (List.mem_cons_of_mem _ inside)

end Congruence

/-! ## What follows -/

/-- A sketch of something is something. -/
theorem congruence_ne_nil : Congruence fun t t' => t' = [] → t = [] where
  refl _ := id
  trans first second gone := first (second gone)
  append := by
    intro a a' b b' first second gone
    obtain ⟨none_, nothing⟩ := List.append_eq_nil_iff.1 gone
    rw [first none_, second nothing]
    rfl
  separator := by
    intro taken separator member gone
    subst gone
    exact absurd member (by decide)

theorem sketch_ne_nil {t : Text} (some_ : t ≠ []) : sketch t ≠ [] := fun gone =>
  some_ (congruence_ne_nil.sketch t gone)

/-- A needle with which no separator has to do. -/
theorem congruence_noNew {needle : Text} (some_ : needle ≠ [])
    (apart : ∀ separator ∈ separators, Text.separates needle separator = true) :
    Congruence (Text.NoNew needle) where
  refl _ _ _ := id
  trans first second front rest found := first front rest (second front rest found)
  append := Text.NoNew.append
  separator taken separator member := Text.noNew_of_separates some_ (apart separator member) taken

/-- **A needle occurs in a sketch only if it occurs in the text.** -/
theorem infix_of_sketch {needle t : Text} (some_ : needle ≠ [])
    (apart : ∀ separator ∈ separators, Text.separates needle separator = true)
    (h : needle <:+: sketch t) : needle <:+: t := by
  have found := (congruence_noNew some_ apart).sketch t [] [] (by simpa using h)
  simpa using found

/-- A character that sketching does not write is not new in a sketch. -/
theorem mem_of_mem_sketch {c : Char} {t : Text}
    (apart : ∀ separator ∈ separators, Text.separates [c] separator = true)
    (h : c ∈ sketch t) : c ∈ t := by
  obtain ⟨before, behind, whole⟩ := List.append_of_mem h
  have occurs : [c] <:+: sketch t := ⟨before, behind, by simp [whole]⟩
  exact (infix_of_sketch (List.cons_ne_nil c []) apart occurs).subset (List.mem_singleton_self c)

end Sketch

end DialectBridge
