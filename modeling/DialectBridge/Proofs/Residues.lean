import DialectBridge.Cleanup
import DialectBridge.Proofs.EditedLines

/-!
# Replacing residues line by line

The rules that clean generated text never look beyond the line they work on. So the lines of cleaned
text are the lines of generated text, each cleaned on its own, and all rules but the one for empty
lines keep the length of every line.
-/

set_option autoImplicit false

namespace DialectBridge

namespace Text

@[simp]
theorem dropFront?_append (front rest : Text) : dropFront? front (front ++ rest) = some rest := by
  induction front with
  | nil => cases rest <;> rfl
  | cons c more ih => rw [List.cons_append, dropFront?, if_pos rfl, ih]

/-- A run ends where the condition does. -/
theorem takeWhile_append_of_head {condition : Char → Bool} {run rest : Text}
    (inside : ∀ c ∈ run, condition c = true) (behind : ∀ c ∈ rest.head?, condition c = false) :
    (run ++ rest).takeWhile condition = run := by
  rw [List.takeWhile_append_of_pos inside]
  cases rest with
  | nil => rw [List.takeWhile_nil, List.append_nil]
  | cons c more =>
    rw [List.takeWhile_cons_of_neg (by simp [behind c rfl]), List.append_nil]

end Text

namespace Cleanup

/-! ## Methods -/

/-- The parts of a property that is a function. -/
structure Method (name async star : Text) : Prop where
  letters : ∀ c ∈ name, isIdentifier c = true
  some_letter : name ≠ []
  async_or_not : async = [] ∨ async = ['a', 's', 'y', 'n', 'c', ' ']
  star_or_not : star = [] ∨ star = ['*']

/-- A property that is a function, up to its parenthesis. -/
def methodWindow (name async star : Text) : Text :=
  name ++ ([':', ' '] ++ (async ++ (['f', 'u', 'n', 'c', 't', 'i', 'o', 'n'] ++ (star ++ ['(']))))

/-- The window of a method without its parenthesis. -/
def methodHead (name async star : Text) : Text :=
  name ++ ([':', ' '] ++ (async ++ (['f', 'u', 'n', 'c', 't', 'i', 'o', 'n'] ++ star)))

theorem methodWindow_eq (name async star : Text) :
    methodWindow name async star = methodHead name async star ++ ['('] := by
  simp only [methodWindow, methodHead, List.append_assoc]

/-- The characters of a window. -/
theorem not_mem_methodHead {name async star : Text} (method : Method name async star) {c : Char}
    (noLetter : isIdentifier c = false) (noSign : c ∉ [':', ' ', '*']) :
    c ∉ methodHead name async star := by
  have letters : c ∉ name := fun inside =>
    Bool.noConfusion (noLetter.symm.trans (method.letters c inside))
  have words : ∀ d ∈ "asyncfunction".toList, c ≠ d := by
    rintro d inside rfl
    have all : "asyncfunction".toList.all isIdentifier = true := by decide
    exact Bool.noConfusion (noLetter.symm.trans (List.all_eq_true.1 all c inside))
  simp only [List.mem_cons, List.not_mem_nil, or_false, not_or] at noSign
  simp at words
  rcases method.async_or_not with rfl | rfl <;> rcases method.star_or_not with rfl | rfl <;>
    simp [methodHead, letters, words, noSign]

/-- What a property that is a function becomes. -/
def methodReplacement (name async star : Text) : Replacement :=
  ⟨name.length + async.length + star.length + 11,
    async ++ star ++ name ++ List.replicate 10 ' ' ++ ['(']⟩

theorem optionalFront_append (front rest : Text) :
    optionalFront front (front ++ rest) = (front, rest) := by
  rw [optionalFront, Text.dropFront?_append]

/-- An optional front is there or not. -/
theorem optionalFront_eq (front t : Text) :
    (optionalFront front t).1 ++ (optionalFront front t).2 = t ∧
      ((optionalFront front t).1 = [] ∨ (optionalFront front t).1 = front) := by
  unfold optionalFront
  split
  · next rest found => exact ⟨(Text.dropFront?_eq_some found).symm, .inr rfl⟩
  · exact ⟨rfl, .inl rfl⟩

theorem methodShorthand_forward : ReplacementRule.Forward methodShorthand := fun _ _ => rfl

/-- Only properties that are functions are replaced. -/
theorem methodShorthand_eq_some {t : Text} {r : Replacement}
    (h : methodShorthand none t = some r) :
    ∃ name async star rest, Method name async star ∧ t = methodWindow name async star ++ rest ∧
      r = methodReplacement name async star := by
  unfold methodShorthand at h
  dsimp only at h
  split at h
  · cases h
  · next named =>
    split at h
    · cases h
    · next behind colon =>
      obtain ⟨asyncWhole, asyncParts⟩ := optionalFront_eq "async ".toList behind
      split at h
      · cases h
      · next value function_ =>
        obtain ⟨starWhole, starParts⟩ := optionalFront_eq ['*'] value
        split at h
        · next rest opened =>
          obtain rfl := Option.some.inj h
          refine ⟨t.takeWhile isIdentifier, (optionalFront "async ".toList behind).1,
            (optionalFront ['*'] value).1, rest,
            ⟨fun c member => List.mem_takeWhile_imp member, by simpa using named, asyncParts,
              starParts⟩, ?_, rfl⟩
          have first := Text.dropFront?_eq_some colon
          have second := Text.dropFront?_eq_some function_
          rw [opened] at starWhole
          rw [← starWhole] at second
          rw [second] at asyncWhole
          rw [← asyncWhole, Text.drop_length_takeWhile] at first
          have whole := List.takeWhile_append_dropWhile (l := t) (p := isIdentifier)
          rw [first] at whole
          refine whole.symm.trans ?_
          simp [methodWindow]
        · cases h

/-- Properties that are functions are replaced, whatever follows. -/
theorem methodShorthand_of_window {name async star : Text} (method : Method name async star)
    (rest : Text) : methodShorthand none (methodWindow name async star ++ rest) =
      some (methodReplacement name async star) := by
  have named : name.isEmpty = false := by simpa using method.some_letter
  have shape : methodWindow name async star ++ rest = name ++ (": ".toList ++ (async ++
      ("function".toList ++ (star ++ '(' :: rest)))) := by
    simp [methodWindow]
  have run : (name ++ (": ".toList ++ (async ++ ("function".toList ++
      (star ++ '(' :: rest))))).takeWhile isIdentifier = name :=
    Text.takeWhile_append_of_head method.letters (by rintro c ⟨⟩; decide)
  have optional : optionalFront "async ".toList (async ++ ("function".toList ++
      (star ++ '(' :: rest))) = (async, "function".toList ++ (star ++ '(' :: rest)) := by
    rcases method.async_or_not with rfl | rfl
    · rfl
    · exact optionalFront_append _ _
  have starred : optionalFront ['*'] (star ++ '(' :: rest) = (star, '(' :: rest) := by
    rcases method.star_or_not with rfl | rfl
    · rfl
    · rfl
  rw [shape, methodShorthand]
  simp only [run, named, List.drop_left, Text.dropFront?_append, optional, starred]
  rfl

theorem dot_not_mem_methodWindow {name async star : Text} (method : Method name async star) :
    '.' ∉ methodWindow name async star := by
  rw [methodWindow_eq]
  simp [not_mem_methodHead method (show isIdentifier '.' = false by decide) (by decide)]

/-- What follows does not matter where it completes no window. -/
theorem methodShorthand_append {front rest : Text}
    (apart : ∀ name async star, Method name async star →
      methodWindow name async star <+: front ++ rest → methodWindow name async star <+: front) :
    methodShorthand none (front ++ rest) = methodShorthand none front := by
  cases decision : methodShorthand none (front ++ rest) with
  | some r =>
    obtain ⟨name, async, star, behind, method, whole, rfl⟩ := methodShorthand_eq_some decision
    obtain ⟨more, rfl⟩ := apart name async star method ⟨behind, whole.symm⟩
    exact (methodShorthand_of_window method more).symm
  | none =>
    cases shorter : methodShorthand none front with
    | none => rfl
    | some r =>
      obtain ⟨name, async, star, behind, method, rfl, rfl⟩ := methodShorthand_eq_some shorter
      rw [List.append_assoc, methodShorthand_of_window method] at decision
      cases decision

theorem length_methodWindow (name async star : Text) :
    (methodWindow name async star).length = (methodReplacement name async star).length := by
  simp only [methodWindow, methodReplacement, List.length_append, List.length_cons,
    List.length_nil]
  omega

theorem methodShorthand_linewise : ReplacementRule.Linewise methodShorthand := by
  refine .of_window methodShorthand_forward fun t r h => ?_
  obtain ⟨name, async, star, rest, method, rfl, rfl⟩ := methodShorthand_eq_some h
  have plain : '\n' ∉ name := fun member =>
    absurd (method.letters _ member) (by decide)
  refine ⟨_, rest, rfl, length_methodWindow name async star, ?_, ?_, ?_,
    methodShorthand_of_window method⟩
  · unfold methodReplacement
    dsimp only
    omega
  · rcases method.async_or_not with rfl | rfl <;> rcases method.star_or_not with rfl | rfl <;>
      simp [methodWindow, plain]
  · rcases method.async_or_not with rfl | rfl <;> rcases method.star_or_not with rfl | rfl <;>
      simp [methodReplacement, plain]

theorem methodShorthand_lengthKeeping : ReplacementRule.LengthKeeping methodShorthand := by
  intro t r h
  obtain ⟨name, async, star, rest, -, -, rfl⟩ := methodShorthand_eq_some h
  simp only [methodReplacement, List.length_append, List.length_cons, List.length_nil,
    List.length_replicate]
  omega

end Cleanup

namespace Marker

/-! ## Residues of markers -/

theorem cleaning_forward (m : Marker) : ReplacementRule.Forward m.cleaning := fun _ _ => rfl

/-- What cleaning does is decided by the residue alone. -/
theorem cleaning_eq_some {m : Marker} {t : Text} {r : Replacement}
    (h : m.cleaning none t = some r) :
    ∃ length, m.residue? t = some length ∧ r = ⟨length, m.fill length⟩ := by
  obtain ⟨length, found, rfl⟩ := Option.map_eq_some_iff.1 h
  exact ⟨length, found, rfl⟩

theorem receiver_residue? (t : Text) : Marker.receiver.residue? t =
    if Text.startsWith Marker.receiver.text t then some 22 else none := by
  cases t with
  | nil => rfl
  | cons c rest => rfl

/-- What follows does not matter where it completes no marker. -/
theorem receiver_cleaning_append {front rest : Text}
    (apart : Marker.receiver.text <+: front ++ rest → Marker.receiver.text <+: front) :
    Marker.receiver.cleaning none (front ++ rest) = Marker.receiver.cleaning none front := by
  have same : Text.startsWith Marker.receiver.text (front ++ rest) =
      Text.startsWith Marker.receiver.text front := by
    rw [Bool.eq_iff_iff, Text.startsWith, Text.startsWith, List.isPrefixOf_iff_prefix,
      List.isPrefixOf_iff_prefix]
    exact ⟨apart, fun inside => inside.trans (List.prefix_append _ _)⟩
  unfold cleaning
  rw [receiver_residue?, receiver_residue?, same]

theorem receiver_linewise : ReplacementRule.Linewise Marker.receiver.cleaning := by
  refine .of_window (cleaning_forward _) fun t r h => ?_
  obtain ⟨length, found, rfl⟩ := cleaning_eq_some h
  rw [receiver_residue?] at found
  split at found
  · next front =>
    obtain rfl := Option.some.inj found
    rw [Text.startsWith, List.isPrefixOf_iff_prefix] at front
    obtain ⟨rest, rfl⟩ := front
    refine ⟨Marker.receiver.text, rest, rfl, by decide, by decide, by decide, by decide, ?_⟩
    intro others
    have again : Text.startsWith Marker.receiver.text (Marker.receiver.text ++ others) = true := by
      rw [Text.startsWith, List.isPrefixOf_iff_prefix]
      exact List.prefix_append _ _
    rw [cleaning, receiver_residue?, if_pos again]
    rfl
  · cases found

theorem receiver_lengthKeeping : ReplacementRule.LengthKeeping Marker.receiver.cleaning := by
  intro t r h
  obtain ⟨length, found, rfl⟩ := cleaning_eq_some h
  rw [receiver_residue?] at found
  split at found
  · obtain rfl := Option.some.inj found
    decide
  · cases found

theorem newProperty_residue?_of_ne {c : Char} (h : c ≠ '↯') (rest : Text) :
    Marker.newProperty.residue? (c :: rest) = none := by
  unfold Marker.residue?
  split <;> simp_all

/-- The residue of a new property takes a colon and a space with it. -/
theorem newProperty_residue?_mark (rest : Text) :
    Marker.newProperty.residue? ('↯' :: rest) =
      some (if Text.startsWith [':', ' '] rest then 3 else 1) := by
  unfold Marker.residue?
  split
  · next same => cases same
  · next more same =>
    obtain ⟨-, rfl⟩ := List.cons.inj same
    rfl
  · next more other _ same =>
    obtain ⟨-, rfl⟩ := List.cons.inj same
    rw [if_neg]
    intro front
    rw [Text.startsWith, List.isPrefixOf_iff_prefix] at front
    obtain ⟨behind, rfl⟩ := front
    exact other behind rfl
  all_goals simp_all

/-- A text begins with two signs whether or not something follows its line. -/
theorem startsWith_append_lineFeed {front : Text} (clean : '\n' ∉ front) (line rest : Text) :
    Text.startsWith front (line ++ '\n' :: rest) = Text.startsWith front line := by
  rw [Bool.eq_iff_iff, Text.startsWith, Text.startsWith, List.isPrefixOf_iff_prefix,
    List.isPrefixOf_iff_prefix]
  constructor
  · rintro ⟨behind, whole⟩
    obtain ⟨more, rfl⟩ := Text.exists_of_append_eq clean whole.symm
    exact List.prefix_append _ _
  · rintro ⟨behind, rfl⟩
    rw [List.append_assoc]
    exact List.prefix_append _ _

/-- What follows does not matter where it goes on neither in a colon nor in a space. -/
theorem newProperty_cleaning_append {front rest : Text} (some_ : front ≠ [])
    (apart : ∀ c ∈ rest.head?, c ≠ ':' ∧ c ≠ ' ') :
    Marker.newProperty.cleaning none (front ++ rest) = Marker.newProperty.cleaning none front := by
  obtain ⟨c, more, rfl⟩ := List.exists_cons_of_ne_nil some_
  unfold cleaning
  by_cases mark : c = '↯'
  · subst mark
    have same : Text.startsWith [':', ' '] (more ++ rest) = Text.startsWith [':', ' '] more := by
      cases rest with
      | nil => rw [List.append_nil]
      | cons d behind =>
        obtain ⟨colon, space⟩ := apart d rfl
        rcases more with _ | ⟨e, _ | ⟨f, later⟩⟩
        · simp [Text.startsWith, List.isPrefixOf, colon.symm]
        · simp [Text.startsWith, List.isPrefixOf, space.symm]
        · simp [Text.startsWith, List.isPrefixOf]
    rw [List.cons_append, newProperty_residue?_mark, newProperty_residue?_mark, same]
  · rw [List.cons_append, newProperty_residue?_of_ne mark, newProperty_residue?_of_ne mark]

theorem newProperty_linewise : ReplacementRule.Linewise Marker.newProperty.cleaning where
  forward := cleaning_forward _
  fitting t r h := by
    obtain ⟨length, found, rfl⟩ := cleaning_eq_some h
    cases t with
    | nil => cases found
    | cons c rest =>
      by_cases mark : c = '↯'
      · subst mark
        rw [newProperty_residue?_mark] at found
        obtain rfl := Option.some.inj found
        split
        · next front =>
          rw [Text.startsWith, List.isPrefixOf_iff_prefix] at front
          have size := front.length_le
          simp only [List.length_cons, List.length_nil] at size ⊢
          omega
        · simp
      · rw [newProperty_residue?_of_ne mark] at found
        cases found
  within line rest clean := by
    unfold cleaning
    cases line with
    | nil => rw [List.nil_append, newProperty_residue?_of_ne (by decide)]; rfl
    | cons c more =>
      by_cases mark : c = '↯'
      · subst mark
        rw [List.cons_append, newProperty_residue?_mark, newProperty_residue?_mark,
          startsWith_append_lineFeed (by decide)]
      · rw [List.cons_append, newProperty_residue?_of_ne mark, newProperty_residue?_of_ne mark]
  unbroken t r clean h := by
    obtain ⟨length, found, rfl⟩ := cleaning_eq_some h
    simp [fill, Text.padRight]

theorem newProperty_lengthKeeping : ReplacementRule.LengthKeeping Marker.newProperty.cleaning := by
  intro t r h
  obtain ⟨length, found, rfl⟩ := cleaning_eq_some h
  simp [fill, Text.padRight]

theorem emptyLine_residue?_of_ne {c : Char} (h : c ≠ 'ᛟ') (rest : Text) :
    Marker.emptyLine.residue? (c :: rest) = none := by
  unfold Marker.residue?
  split <;> simp_all

/-- The residue of an empty line may have a space inside and a comma behind. -/
theorem emptyLine_residue?_mark (rest : Text) :
    Marker.emptyLine.residue? ('ᛟ' :: rest) =
      match Text.dropFront? [':', ' ', 'ᛟ'] rest, Text.dropFront? [':', 'ᛟ'] rest with
      | some behind, _ => some (4 + optionally ',' behind)
      | none, some behind => some (3 + optionally ',' behind)
      | none, none => none := by
  cases spaced : Text.dropFront? [':', ' ', 'ᛟ'] rest with
  | some behind =>
    obtain rfl := Text.dropFront?_eq_some spaced
    rfl
  | none =>
    cases tight : Text.dropFront? [':', 'ᛟ'] rest with
    | some behind =>
      obtain rfl := Text.dropFront?_eq_some tight
      rfl
    | none =>
      unfold Marker.residue?
      split
      all_goals simp_all
      · next same => subst same; cases spaced
      · next same => subst same; cases tight

theorem dropFront?_append_lineFeed {front : Text} (clean : '\n' ∉ front) (line rest : Text) :
    Text.dropFront? front (line ++ '\n' :: rest) =
      (Text.dropFront? front line).map (· ++ '\n' :: rest) := by
  cases here : Text.dropFront? front line with
  | some behind =>
    obtain rfl := Text.dropFront?_eq_some here
    rw [List.append_assoc, Text.dropFront?_append]
    rfl
  | none =>
    cases later : Text.dropFront? front (line ++ '\n' :: rest) with
    | none => rfl
    | some behind =>
      obtain ⟨more, rfl⟩ := Text.exists_of_append_eq clean (Text.dropFront?_eq_some later)
      rw [Text.dropFront?_append] at here
      cases here

theorem optionally_append_lineFeed {c : Char} (other : c ≠ '\n') (line rest : Text) :
    optionally c (line ++ '\n' :: rest) = optionally c line := by
  cases line with
  | nil =>
    unfold optionally
    simp [other.symm]
  | cons d more => rfl

theorem optionally_le (c : Char) (t : Text) : optionally c t ≤ t.length := by
  unfold optionally
  split
  · next first =>
    obtain ⟨more, rfl⟩ := List.head?_eq_some_iff.1 first
    rw [List.length_cons]
    omega
  · omega

theorem emptyLine_linewise : ReplacementRule.Linewise Marker.emptyLine.cleaning where
  forward := cleaning_forward _
  fitting t r h := by
    obtain ⟨length, found, rfl⟩ := cleaning_eq_some h
    cases t with
    | nil => cases found
    | cons c rest =>
      by_cases mark : c = 'ᛟ'
      · subst mark
        rw [emptyLine_residue?_mark] at found
        split at found
        · next behind spaced =>
          obtain rfl := Option.some.inj found
          have comma := optionally_le ',' behind
          rw [Text.dropFront?_eq_some spaced]
          simp only [List.length_cons, List.length_append, List.length_nil]
          omega
        · next behind _ tight =>
          obtain rfl := Option.some.inj found
          have comma := optionally_le ',' behind
          rw [Text.dropFront?_eq_some tight]
          simp only [List.length_cons, List.length_append, List.length_nil]
          omega
        · cases found
      · rw [emptyLine_residue?_of_ne mark] at found
        cases found
  within line rest clean := by
    unfold cleaning
    cases line with
    | nil => rw [List.nil_append, emptyLine_residue?_of_ne (by decide)]; rfl
    | cons c more =>
      by_cases mark : c = 'ᛟ'
      · subst mark
        rw [List.cons_append, emptyLine_residue?_mark, emptyLine_residue?_mark,
          dropFront?_append_lineFeed (by decide), dropFront?_append_lineFeed (by decide)]
        cases Text.dropFront? [':', ' ', 'ᛟ'] more with
        | some behind => simp [optionally_append_lineFeed]
        | none =>
          cases Text.dropFront? [':', 'ᛟ'] more with
          | some behind => simp [optionally_append_lineFeed]
          | none => rfl
      · rw [List.cons_append, emptyLine_residue?_of_ne mark, emptyLine_residue?_of_ne mark]
  unbroken t r clean h := by
    obtain ⟨length, found, rfl⟩ := cleaning_eq_some h
    exact List.not_mem_nil

/-- A front without the first sign of a residue stays as it is. -/
theorem scan_emptyLine_append {front : Text} (clean : 'ᛟ' ∉ front) (rest : Text) :
    Text.scan Marker.emptyLine.cleaning (front ++ rest) =
      front ++ Text.scan Marker.emptyLine.cleaning rest := by
  refine Text.scan_append_of_declined (cleaning_forward _) fun k bound => ?_
  have other : front[k] ≠ 'ᛟ' := fun same => clean (same ▸ List.getElem_mem bound)
  rw [List.drop_eq_getElem_cons bound, List.cons_append, cleaning, emptyLine_residue?_of_ne other]
  rfl

theorem scan_emptyLine_of_not_mem {t : Text} (clean : 'ᛟ' ∉ t) :
    Text.scan Marker.emptyLine.cleaning t = t := by
  have whole := scan_emptyLine_append clean []
  rwa [List.append_nil, Text.scan_nil, List.append_nil] at whole

/-! ## The first character -/

/-- Cleaning keeps the first character, or a receiver begins there. -/
theorem scan_receiver_cons (c : Char) (rest : Text) :
    Text.scan Marker.receiver.cleaning (c :: rest) =
        c :: Text.scan Marker.receiver.cleaning rest ∨
      c = 't' ∧ ∃ behind, Text.scan Marker.receiver.cleaning (c :: rest) = '(' :: behind := by
  cases decision : Marker.receiver.cleaning none (c :: rest) with
  | none => exact .inl (Text.scan_cons_of_none (cleaning_forward _) decision)
  | some r =>
    obtain ⟨length, found, rfl⟩ := cleaning_eq_some decision
    rw [Text.scan_cons_of_some (cleaning_forward _) decision]
    refine .inr ⟨?_, _, rfl⟩
    rw [receiver_residue?] at found
    split at found
    · next front =>
      rw [Text.startsWith, List.isPrefixOf_iff_prefix] at front
      obtain ⟨behind, whole⟩ := front
      exact (List.cons.inj whole).1.symm
    · cases found

/-- The marker of a receiver becomes an expression in parentheses. -/
theorem exists_scan_receiver {t : Text} (h : Marker.receiver.text <+: t) :
    ∃ behind, Text.scan Marker.receiver.cleaning t = '(' :: behind := by
  have front : Text.startsWith Marker.receiver.text t = true := by
    rw [Text.startsWith, List.isPrefixOf_iff_prefix]
    exact h
  have decision : Marker.receiver.cleaning none t = some ⟨22, Marker.receiver.fill 22⟩ := by
    rw [cleaning, receiver_residue?, if_pos front]
    rfl
  rw [Text.scan_of_some (cleaning_forward _) receiver_linewise.fitting decision]
  exact ⟨_, rfl⟩

theorem scan_newProperty_cons {c : Char} (other : c ≠ '↯') (rest : Text) :
    Text.scan Marker.newProperty.cleaning (c :: rest) =
      c :: Text.scan Marker.newProperty.cleaning rest := by
  refine Text.scan_cons_of_none (cleaning_forward _) ?_
  rw [cleaning, newProperty_residue?_of_ne other]
  rfl

theorem scan_newProperty_append {front : Text} (clean : '↯' ∉ front) (rest : Text) :
    Text.scan Marker.newProperty.cleaning (front ++ rest) =
      front ++ Text.scan Marker.newProperty.cleaning rest := by
  induction front with
  | nil => rfl
  | cons c more ih =>
    have other : c ≠ '↯' := fun same => clean (same ▸ List.mem_cons_self)
    rw [List.cons_append, scan_newProperty_cons other,
      ih fun inside => clean (List.mem_cons_of_mem _ inside), List.cons_append]

/-- The mark of a new property becomes a space. -/
theorem scan_newProperty_mark (rest : Text) :
    ∃ behind, Text.scan Marker.newProperty.cleaning ('↯' :: rest) = ' ' :: behind := by
  have decision : Marker.newProperty.cleaning none ('↯' :: rest) =
      some ⟨if Text.startsWith [':', ' '] rest then 3 else 1,
        Marker.newProperty.fill (if Text.startsWith [':', ' '] rest then 3 else 1)⟩ := by
    rw [cleaning, newProperty_residue?_mark]
    rfl
  rw [Text.scan_cons_of_some (cleaning_forward _) decision]
  split
  · exact ⟨_, rfl⟩
  · exact ⟨_, rfl⟩

/-- Cleaning keeps the class of a first character that is not part of an identifier. -/
theorem exists_scan_newProperty_cons {c : Char} (other : isIdentifier c = false) (rest : Text) :
    ∃ d behind, Text.scan Marker.newProperty.cleaning (c :: rest) = d :: behind ∧
      isIdentifier d = false := by
  by_cases mark : c = '↯'
  · subst mark
    obtain ⟨behind, same⟩ := scan_newProperty_mark rest
    exact ⟨' ', behind, same, by decide⟩
  · exact ⟨c, _, scan_newProperty_cons mark rest, other⟩

end Marker

namespace Cleanup

/-! ## Whole lines -/

/-- A generated line with its methods in short form and all residues of fixed width replaced. -/
def replaceLine (line : Text) : Text :=
  Text.scan Marker.newProperty.cleaning
    (Text.scan Marker.receiver.cleaning (Text.scan methodShorthand line))

/-- **Residues are replaced line by line.** -/
theorem lines_replaceResidues (js : Text) :
    Text.lines (replaceResidues js) = (Text.lines js).map replaceLine := by
  unfold replaceResidues preferMethods Marker.clean
  rw [Text.lines_scan Marker.newProperty_linewise, Text.lines_scan Marker.receiver_linewise,
    Text.lines_scan methodShorthand_linewise, List.map_map, List.map_map]
  rfl

/-- Replacing residues writes letters, signs of expressions and spaces only. -/
theorem mem_of_mem_replaceLine {line : Text} {c : Char} (h : c ∈ replaceLine line)
    (foreign : isIdentifier c = false ∧ c ∉ Marker.receiverValue ∧ c ≠ ' ' ∧ c ≠ '*') :
    c ∈ line := by
  obtain ⟨noLetter, noValue, noSpace, noStar⟩ := foreign
  have noParen : c ≠ '(' := by
    rintro rfl
    exact noValue (by decide)
  refine Text.mem_of_mem_scan methodShorthand_forward ?_
    (Text.mem_of_mem_scan (Marker.cleaning_forward _) ?_
      (Text.mem_of_mem_scan (Marker.cleaning_forward _) ?_ h))
  · intro t r found member
    obtain ⟨name, async, star, rest, method, -, rfl⟩ := methodShorthand_eq_some found
    have letters : c ∉ name := fun inside =>
      Bool.noConfusion (noLetter.symm.trans (method.letters c inside))
    have async_ : c ∉ async := by
      rcases method.async_or_not with rfl | rfl
      · exact List.not_mem_nil
      · intro inside
        simp only [List.mem_cons, List.not_mem_nil, or_false] at inside
        rcases inside with rfl | rfl | rfl | rfl | rfl | rfl
        · exact absurd noLetter (by decide)
        · exact absurd noLetter (by decide)
        · exact absurd noLetter (by decide)
        · exact absurd noLetter (by decide)
        · exact absurd noLetter (by decide)
        · exact noSpace rfl
    have star_ : c ∉ star := by
      rcases method.star_or_not with rfl | rfl
      · exact List.not_mem_nil
      · simpa using noStar
    simp [methodReplacement, letters, async_, star_, noParen, noSpace] at member
  · intro t r found member
    obtain ⟨length, size, rfl⟩ := Marker.cleaning_eq_some found
    simp [Marker.fill, Text.padRight, noValue, noSpace] at member
  · intro t r found member
    obtain ⟨length, size, rfl⟩ := Marker.cleaning_eq_some found
    simp [Marker.fill, Text.padRight, noSpace] at member

/-- Replacing residues keeps the length of a line. -/
theorem length_replaceLine (line : Text) : (replaceLine line).length = line.length := by
  unfold replaceLine
  rw [Text.length_scan Marker.newProperty_linewise.forward Marker.newProperty_linewise.fitting
      Marker.newProperty_lengthKeeping,
    Text.length_scan Marker.receiver_linewise.forward Marker.receiver_linewise.fitting
      Marker.receiver_lengthKeeping,
    Text.length_scan methodShorthand_linewise.forward methodShorthand_linewise.fitting
      methodShorthand_lengthKeeping]

end Cleanup

end DialectBridge
