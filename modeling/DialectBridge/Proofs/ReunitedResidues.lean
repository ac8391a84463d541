import DialectBridge.Proofs.KeptMappings
import DialectBridge.Proofs.Unmarked

/-!
# Residues that cleaning brings about

Cleaning takes residues away from left to right, once. For most markers nothing is left afterwards:
what is written in the place of a receiver or of a new property is no part of another residue, and
a placeholder is a single sign.

The residue of an empty line has several signs, and nothing is written in its place. So what stands
on both sides of it comes together, and this can be a residue again: in `ᛟᛟ:ᛟ:ᛟ` the residue in
the middle is taken away, and `ᛟ:ᛟ` is left. A text reunites a residue (`Reunites`) if cleaning comes
to a first sign that is torn from its colon by residues, and the colon and the last sign follow with
nothing else between them. These are all the texts in which cleaning leaves a residue, and the texts
for which it has to be done again.
-/

set_option autoImplicit false

namespace DialectBridge

namespace Text

variable {rule : ReplacementRule}

/-- Scanning a text comes to the place behind a front of it: in the front there are characters at
which the rule declines, and whole replacements. -/
inductive ComesTo (rule : ReplacementRule) : Text → Text → Prop where
  | here (rest : Text) : ComesTo rule [] rest
  | keep {c : Char} {front rest : Text} (declined : rule none (c :: (front ++ rest)) = none) :
      ComesTo rule front rest → ComesTo rule (c :: front) rest
  | replace {taken front rest : Text} {r : Replacement}
      (replaced : rule none (taken ++ (front ++ rest)) = some r) (size : taken.length = r.length) :
      ComesTo rule front rest → ComesTo rule (taken ++ front) rest

/-- Behind a place to which scanning comes, the text is scanned as it would be alone. -/
theorem ComesTo.exists_scan {front rest : Text} (h : ComesTo rule front rest)
    (forward : rule.Forward) (fitting : rule.Fitting) :
    ∃ written, scan rule (front ++ rest) = written ++ scan rule rest := by
  induction h with
  | here rest => exact ⟨[], rfl⟩
  | @keep c front rest declined _ ih =>
    obtain ⟨written, whole⟩ := ih
    exact ⟨c :: written, by rw [List.cons_append, scan_cons_of_none forward declined, whole,
      List.cons_append]⟩
  | @replace taken front rest r replaced size _ ih =>
    obtain ⟨written, whole⟩ := ih
    refine ⟨r.output ++ written, ?_⟩
    rw [List.append_assoc, scan_of_some forward fitting replaced, ← size, List.drop_left, whole,
      List.append_assoc]

end Text

namespace Marker

/-! ## Residues of empty lines -/

/-- A residue of an empty line, with or without a space inside and a comma behind. -/
def emptyLineResidue (spaced closed : Bool) : Text :=
  'ᛟ' :: ':' :: ((if spaced then [' '] else []) ++ 'ᛟ' :: if closed then [','] else [])

/-- Residues of empty lines, one behind the other. -/
inductive Residues : Text → Prop where
  | nil : Residues []
  | cons (spaced closed : Bool) {more : Text} :
      Residues more → Residues (emptyLineResidue spaced closed ++ more)

theorem length_emptyLineResidue (spaced closed : Bool) :
    (emptyLineResidue spaced closed).length =
      (if spaced then 4 else 3) + if closed then 1 else 0 := by
  cases spaced <;> cases closed <;> rfl

/-- A residue is found where no comma follows that would be part of it. -/
theorem residue?_emptyLineResidue {spaced closed : Bool} {rest : Text}
    (whole : closed = false → rest.head? ≠ some ',') :
    Marker.emptyLine.residue? (emptyLineResidue spaced closed ++ rest) =
      some (emptyLineResidue spaced closed).length := by
  have comma : optionally ',' ((if closed then [','] else []) ++ rest) =
      if closed then 1 else 0 := by
    cases closed with
    | false => exact if_neg (whole rfl)
    | true => rfl
  rw [length_emptyLineResidue]
  cases spaced <;> simp [emptyLineResidue, residue?, comma]

/-- The comma behind a residue is part of it. -/
theorem exists_closed (behind : Text) :
    ∃ closed rest, behind = (if closed then [','] else []) ++ rest ∧
      optionally ',' behind = (if closed then 1 else 0) ∧
      (closed = false → rest.head? ≠ some ',') := by
  by_cases comma : behind.head? = some ','
  · obtain ⟨rest, rfl⟩ := List.head?_eq_some_iff.1 comma
    exact ⟨true, rest, rfl, rfl, nofun⟩
  · exact ⟨false, behind, rfl, if_neg comma, fun _ => comma⟩

/-- What begins with a residue begins with the whole of it. -/
theorem exists_of_emptyLine_residue? {t : Text} {length : Nat}
    (h : Marker.emptyLine.residue? t = some length) :
    ∃ spaced closed rest, t = emptyLineResidue spaced closed ++ rest ∧
      (emptyLineResidue spaced closed).length = length ∧
      (closed = false → rest.head? ≠ some ',') := by
  obtain ⟨rest, rfl⟩ := core_front_of_residue? h
  change Marker.emptyLine.residue? ('ᛟ' :: rest) = some length at h
  rw [emptyLine_residue?_mark] at h
  split at h
  · next behind spaced =>
    obtain ⟨closed, others, rfl, comma, free⟩ := exists_closed behind
    rw [Text.dropFront?_eq_some spaced]
    refine ⟨true, closed, others, by simp [emptyLineResidue, core], ?_, free⟩
    rw [length_emptyLineResidue, ← Option.some.inj h, comma, if_pos rfl]
  · next behind _ tight =>
    obtain ⟨closed, others, rfl, comma, free⟩ := exists_closed behind
    rw [Text.dropFront?_eq_some tight]
    refine ⟨false, closed, others, by simp [emptyLineResidue, core], ?_, free⟩
    rw [length_emptyLineResidue, ← Option.some.inj h, comma, if_neg Bool.false_ne_true]
  · cases h

theorem emptyLine_cleaning_eq_none {t : Text} :
    Marker.emptyLine.cleaning none t = none ↔ Marker.emptyLine.residue? t = none :=
  Option.map_eq_none_iff

/-- Cleaning a text keeps a character or takes a residue away. -/
theorem clean_emptyLine_steps {motive : Text → Text → Prop} (nil : motive [] [])
    (keep : ∀ c rest, Marker.emptyLine.residue? (c :: rest) = none →
      motive rest (Marker.emptyLine.clean rest) →
      motive (c :: rest) (c :: Marker.emptyLine.clean rest))
    (take : ∀ spaced closed rest, (closed = false → rest.head? ≠ some ',') →
      motive rest (Marker.emptyLine.clean rest) →
      motive (emptyLineResidue spaced closed ++ rest) (Marker.emptyLine.clean rest)) (t : Text) :
    motive t (Marker.emptyLine.clean t) := by
  refine Text.scan_steps emptyLine_linewise.forward emptyLine_linewise.fitting nil
    (fun c rest declined => keep c rest (emptyLine_cleaning_eq_none.1 declined))
    (fun taken rest r decision size later => ?_) t
  obtain ⟨length, found, rfl⟩ := cleaning_eq_some decision
  obtain ⟨spaced, closed, others, whole, width, free⟩ := exists_of_emptyLine_residue? found
  obtain ⟨rfl, rfl⟩ := List.append_inj whole (size.trans width.symm)
  exact take spaced closed rest free later

theorem clean_emptyLine_cons {c : Char} {rest : Text}
    (kept : Marker.emptyLine.residue? (c :: rest) = none) :
    Marker.emptyLine.clean (c :: rest) = c :: Marker.emptyLine.clean rest :=
  Text.scan_cons_of_none emptyLine_linewise.forward (emptyLine_cleaning_eq_none.2 kept)

theorem clean_emptyLineResidue {spaced closed : Bool} {rest : Text}
    (whole : closed = false → rest.head? ≠ some ',') :
    Marker.emptyLine.clean (emptyLineResidue spaced closed ++ rest) =
      Marker.emptyLine.clean rest := by
  have decision : Marker.emptyLine.cleaning none (emptyLineResidue spaced closed ++ rest) =
      some ⟨(emptyLineResidue spaced closed).length, []⟩ := by
    rw [cleaning, residue?_emptyLineResidue whole]
    rfl
  rw [clean, Text.scan_of_some emptyLine_linewise.forward emptyLine_linewise.fitting decision,
    List.drop_left]
  rfl

/-! ## Residues one behind the other -/

namespace Residues

variable {g : Text}

/-- Residues begin with the first sign of one, if there are any. -/
theorem exists_cons (h : Residues g) (some_ : g ≠ []) : ∃ more, g = 'ᛟ' :: ':' :: more := by
  cases h with
  | nil => exact absurd rfl some_
  | cons spaced closed more => exact ⟨_, rfl⟩

/-- Residues in front of a sign begin with a sign. -/
theorem exists_append_cons (h : Residues g) (behind : Text) :
    ∃ more, g ++ 'ᛟ' :: behind = 'ᛟ' :: more := by
  cases h with
  | nil => exact ⟨behind, rfl⟩
  | cons spaced closed more => exact ⟨_, rfl⟩

theorem head?_append_ne (h : Residues g) {rest : Text} (free : rest.head? ≠ some ',') :
    (g ++ rest).head? ≠ some ',' := by
  cases h with
  | nil => exact free
  | cons spaced closed more =>
    intro comma
    cases comma

/-- Residues one behind the other are taken away. -/
theorem clean_append (h : Residues g) {rest : Text} (free : rest.head? ≠ some ',') :
    Marker.emptyLine.clean (g ++ rest) = Marker.emptyLine.clean rest := by
  induction h with
  | nil => rfl
  | cons spaced closed more ih =>
    rw [List.append_assoc, clean_emptyLineResidue fun _ => more.head?_append_ne free, ih]

end Residues

/-- The first character that cleaning keeps stands behind residues. -/
theorem exists_of_clean_eq_cons {t u : Text} {c : Char}
    (h : Marker.emptyLine.clean t = c :: u) :
    ∃ g behind, Residues g ∧ t = g ++ c :: behind ∧
      Marker.emptyLine.residue? (c :: behind) = none ∧ u = Marker.emptyLine.clean behind := by
  revert h
  refine clean_emptyLine_steps (motive := fun t t' => t' = c :: u → ∃ g behind, Residues g ∧
    t = g ++ c :: behind ∧ Marker.emptyLine.residue? (c :: behind) = none ∧
      u = Marker.emptyLine.clean behind) nofun (fun d rest declined _ same => ?_)
    (fun spaced closed rest _ later same => ?_) t
  · obtain ⟨rfl, rfl⟩ := List.cons.inj same
    exact ⟨[], rest, .nil, rfl, declined, rfl⟩
  · obtain ⟨g, behind, residues, rfl, declined, rfl⟩ := later same
    exact ⟨_, behind, .cons spaced closed residues, (List.append_assoc _ _ _).symm, declined, rfl⟩

/-! ## Reunited residues -/

/-- The colon of a residue up to its last sign, with residues in between. -/
inductive Torn : Text → Prop where
  | tight {second : Text} : Residues second → Torn (':' :: second)
  | spaced {second third : Text} : Residues second → Residues third →
      Torn (':' :: (second ++ ' ' :: third))

namespace Torn

variable {s : Text}

/-- Cleaning keeps the colon, and the space if there is one. -/
theorem clean_append (h : Torn s) {behind : Text}
    (kept : Marker.emptyLine.residue? ('ᛟ' :: behind) = none) :
    Marker.emptyLine.clean (s ++ 'ᛟ' :: behind) = ':' :: 'ᛟ' :: Marker.emptyLine.clean behind ∨
      Marker.emptyLine.clean (s ++ 'ᛟ' :: behind) =
        ':' :: ' ' :: 'ᛟ' :: Marker.emptyLine.clean behind := by
  cases h with
  | tight second =>
    left
    rw [List.cons_append, clean_emptyLine_cons (emptyLine_residue?_of_ne (by decide) _),
      second.clean_append (by simp), clean_emptyLine_cons kept]
  | spaced second third =>
    right
    rw [List.cons_append, clean_emptyLine_cons (emptyLine_residue?_of_ne (by decide) _),
      List.append_assoc, second.clean_append (by simp), List.cons_append,
      clean_emptyLine_cons (emptyLine_residue?_of_ne (by decide) _),
      third.clean_append (by simp), clean_emptyLine_cons kept]

/-- A first sign in front of the colon makes a residue at once. -/
theorem residue?_isSome (h : Torn s) (behind : Text) :
    (Marker.emptyLine.residue? ('ᛟ' :: (s ++ 'ᛟ' :: behind))).isSome := by
  have tight : ∀ {second : Text}, Residues second → ∀ more : Text,
      (Marker.emptyLine.residue? ('ᛟ' :: ':' :: (second ++ 'ᛟ' :: more))).isSome := by
    intro second residues more
    obtain ⟨others, whole⟩ := residues.exists_append_cons more
    rw [whole]
    rfl
  cases h with
  | tight second => exact tight second behind
  | @spaced second third residues last =>
    rw [List.cons_append, List.append_assoc, List.cons_append]
    by_cases none_ : second = []
    · obtain ⟨others, whole⟩ := last.exists_append_cons behind
      rw [none_, List.nil_append, whole]
      rfl
    · obtain ⟨others, rfl⟩ := residues.exists_cons none_
      exact tight .nil _

end Torn

/-- Cleaning comes to a first sign, which it keeps because of the residues behind it; then the colon
and the last sign of a residue follow, with nothing but residues in between. -/
structure Reunion (front first torn behind : Text) : Prop where
  reached : Text.ComesTo Marker.emptyLine.cleaning front ('ᛟ' :: (first ++ (torn ++ 'ᛟ' :: behind)))
  some_residue : first ≠ []
  first_residues : Residues first
  torn_apart : Torn torn
  last_kept : Marker.emptyLine.residue? ('ᛟ' :: behind) = none

/-- A text in which cleaning brings the signs of a residue together. -/
def Reunites (t : Text) : Prop :=
  ∃ front first torn behind, t = front ++ 'ᛟ' :: (first ++ (torn ++ 'ᛟ' :: behind)) ∧
    Reunion front first torn behind

namespace Reunion

variable {front first torn behind : Text}

/-- The first sign is kept: two signs in a row make no residue. -/
theorem first_kept (h : Reunion front first torn behind) :
    Marker.emptyLine.residue? ('ᛟ' :: (first ++ (torn ++ 'ᛟ' :: behind))) = none := by
  obtain ⟨more, rfl⟩ := h.first_residues.exists_cons h.some_residue
  rfl

/-- **What is brought together is left.** -/
theorem foundIn_clean (h : Reunion front first torn behind) :
    Marker.emptyLine.foundIn
      (Marker.emptyLine.clean (front ++ 'ᛟ' :: (first ++ (torn ++ 'ᛟ' :: behind)))) = true := by
  obtain ⟨written, whole⟩ := h.reached.exists_scan emptyLine_linewise.forward
    emptyLine_linewise.fitting
  have colon : (torn ++ 'ᛟ' :: behind).head? ≠ some ',' := by
    cases h.torn_apart <;> simp
  have rest : Marker.emptyLine.clean ('ᛟ' :: (first ++ (torn ++ 'ᛟ' :: behind))) =
      'ᛟ' :: Marker.emptyLine.clean (torn ++ 'ᛟ' :: behind) := by
    rw [clean_emptyLine_cons h.first_kept, h.first_residues.clean_append colon]
  rw [clean, whole]
  refine foundIn_append written ?_
  change Marker.emptyLine.foundIn (Marker.emptyLine.clean _) = true
  rw [rest, foundIn]
  rcases h.torn_apart.clean_append h.last_kept with tight | spaced
  · rw [tight]
    rfl
  · rw [spaced]
    rfl

end Reunion

/-- A residue at the beginning of a cleaned text whose first sign was kept has been brought
together. -/
theorem exists_reunion {rest : Text}
    (kept : Marker.emptyLine.residue? ('ᛟ' :: rest) = none)
    (found : (Marker.emptyLine.residue? ('ᛟ' :: Marker.emptyLine.clean rest)).isSome) :
    ∃ first torn behind, rest = first ++ (torn ++ 'ᛟ' :: behind) ∧
      Reunion [] first torn behind := by
  -- The signs of the residue are looked for in the text one after the other.
  have signs : ∃ first torn behind, rest = first ++ (torn ++ 'ᛟ' :: behind) ∧ Residues first ∧
      Torn torn ∧ Marker.emptyLine.residue? ('ᛟ' :: behind) = none := by
    rw [emptyLine_residue?_mark] at found
    split at found
    · next others spaced =>
      obtain ⟨first, t₁, firsts, rfl, -, colon⟩ :=
        exists_of_clean_eq_cons (Text.dropFront?_eq_some spaced)
      obtain ⟨second, t₂, seconds, rfl, -, space⟩ := exists_of_clean_eq_cons colon.symm
      obtain ⟨third, behind, thirds, rfl, last, -⟩ := exists_of_clean_eq_cons space.symm
      exact ⟨first, _, behind, by simp, firsts, .spaced seconds thirds, last⟩
    · next others _ tight =>
      obtain ⟨first, t₁, firsts, rfl, -, colon⟩ :=
        exists_of_clean_eq_cons (Text.dropFront?_eq_some tight)
      obtain ⟨second, behind, seconds, rfl, last, -⟩ := exists_of_clean_eq_cons colon.symm
      exact ⟨first, _, behind, by simp, firsts, .tight seconds, last⟩
    · cases found
  obtain ⟨first, torn, behind, rfl, firsts, apart, last⟩ := signs
  refine ⟨first, torn, behind, rfl, .here _, ?_, firsts, apart, last⟩
  -- With nothing in front of the colon the residue would have been taken away.
  rintro rfl
  have whole := apart.residue?_isSome behind
  rw [List.nil_append] at kept
  rw [kept] at whole
  cases whole

/-- **What is left was brought together.** -/
theorem reunites_of_foundIn_clean {t : Text}
    (h : Marker.emptyLine.foundIn (Marker.emptyLine.clean t) = true) : Reunites t := by
  revert h
  refine clean_emptyLine_steps
    (motive := fun t t' => Marker.emptyLine.foundIn t' = true → Reunites t) nofun
    (fun c rest declined later found => ?_) (fun spaced closed rest free later found => ?_) t
  · rw [foundIn, Bool.or_eq_true] at found
    rcases found with here | behind_
    · by_cases mark : c = 'ᛟ'
      · subst mark
        obtain ⟨first, torn, behind, rfl, reunion⟩ := exists_reunion declined here
        exact ⟨[], first, torn, behind, rfl, reunion⟩
      · rw [emptyLine_residue?_of_ne mark] at here
        cases here
    · obtain ⟨front, first, torn, behind, rfl, reunion⟩ := later behind_
      exact ⟨c :: front, first, torn, behind, rfl,
        { reunion with reached := .keep (emptyLine_cleaning_eq_none.2 declined) reunion.reached }⟩
  · obtain ⟨front, first, torn, behind, rfl, reunion⟩ := later found
    refine ⟨emptyLineResidue spaced closed ++ front, first, torn, behind,
      (List.append_assoc _ _ _).symm, { reunion with reached := ?_ }⟩
    refine .replace (r := ⟨(emptyLineResidue spaced closed).length, []⟩) ?_ rfl reunion.reached
    rw [cleaning, residue?_emptyLineResidue free]
    rfl

/-- Cleaning leaves a residue of an empty line exactly in the texts that reunite one. -/
theorem foundIn_clean_emptyLine (t : Text) :
    Marker.emptyLine.foundIn (Marker.emptyLine.clean t) = true ↔ Reunites t := by
  refine ⟨reunites_of_foundIn_clean, ?_⟩
  rintro ⟨front, first, torn, behind, rfl, reunion⟩
  exact reunion.foundIn_clean

/-- Only where two signs stand side by side can a residue be brought together: the first sign and
that of the residue behind it. -/
theorem Reunites.two_signs {t : Text} (h : Reunites t) : ['ᛟ', 'ᛟ'] <:+: t := by
  obtain ⟨front, first, torn, behind, rfl, reunion⟩ := h
  obtain ⟨more, rfl⟩ := reunion.first_residues.exists_cons reunion.some_residue
  exact ⟨front, ':' :: more ++ (torn ++ 'ᛟ' :: behind), by simp⟩

/-- So cleaning leaves nothing of a text with no two signs side by side. -/
theorem foundIn_clean_of_apart {t : Text} (apart : ¬ ['ᛟ', 'ᛟ'] <:+: t) :
    Marker.emptyLine.foundIn (Marker.emptyLine.clean t) = false :=
  Bool.eq_false_iff.2 fun found => apart ((foundIn_clean_emptyLine t).1 found).two_signs

/-! ## Cleaning twice -/

theorem length_clean_emptyLine_le (t : Text) : (Marker.emptyLine.clean t).length ≤ t.length := by
  refine clean_emptyLine_steps (motive := fun t t' => t'.length ≤ t.length) (Nat.le_refl 0)
    (fun c rest _ later => Nat.succ_le_succ later) (fun spaced closed rest _ later => ?_) t
  rw [List.length_append]
  exact Nat.le_add_left_of_le later

/-- A text that cleaning leaves alone has no residues. -/
theorem foundIn_of_clean_eq_self {t : Text} (h : Marker.emptyLine.clean t = t) :
    Marker.emptyLine.foundIn t = false := by
  revert h
  refine clean_emptyLine_steps
    (motive := fun t t' => t' = t → Marker.emptyLine.foundIn t = false) (fun _ => rfl)
    (fun c rest declined later same => ?_) (fun spaced closed rest _ _ same => ?_) t
  · rw [foundIn, declined, later (List.cons.inj same).2]
    rfl
  · have shorter := length_clean_emptyLine_le rest
    rw [same, List.length_append] at shorter
    exact absurd shorter (by simp [emptyLineResidue])

theorem placeholder_cleaning_fitting : ReplacementRule.Fitting Marker.placeholder.cleaning := by
  intro t r h
  obtain ⟨length, found, rfl⟩ := cleaning_eq_some h
  obtain ⟨rest, rfl⟩ := core_front_of_residue? found
  obtain rfl := Option.some.inj found
  simp [core]

/-- Of the markers other than the mark of an empty line nothing is left. -/
theorem foundIn_clean_of_ne {m : Marker} (other : m ≠ .emptyLine) (t : Text) :
    m.foundIn (m.clean t) = false := by
  refine Bool.eq_false_iff.2 fun found => ?_
  have occurs := core_infix_of_foundIn found
  cases m with
  | placeholder =>
    refine Text.not_mem_scan (cleaning_forward _) placeholder_cleaning_fitting
      (fun rest declined => by cases declined) (fun t r decision => ?_) t (Text.mem_of_infix_singleton occurs)
    obtain ⟨length, -, rfl⟩ := cleaning_eq_some decision
    exact List.not_mem_nil
  | newProperty => exact Cleanup.not_mem_scan_newProperty t (Text.mem_of_infix_singleton occurs)
  | emptyLine => exact other rfl
  | receiver => exact Cleanup.not_infix_scan_receiver t occurs

/-- **Cleaning a text takes a marker away** and is done with it, except for the mark of an empty line
in the texts that reunite a residue: one is left there, and cleaning again takes more away. -/
theorem foundIn_clean_iff (m : Marker) (t : Text) :
    (m.foundIn (m.clean t) = true ↔ m = .emptyLine ∧ Reunites t) ∧
      (m.clean (m.clean t) = m.clean t ↔ ¬ (m = .emptyLine ∧ Reunites t)) := by
  have left_ : m.foundIn (m.clean t) = true ↔ m = .emptyLine ∧ Reunites t := by
    by_cases mark : m = .emptyLine
    · subst mark
      rw [foundIn_clean_emptyLine, eq_self, true_and]
    · rw [foundIn_clean_of_ne mark, eq_false mark, false_and]
      exact iff_of_false Bool.false_ne_true not_false
  refine ⟨left_, ?_⟩
  rw [← left_, Bool.not_eq_true]
  refine ⟨fun same => ?_, scan_cleaning_of_not_foundIn⟩
  by_cases mark : m = .emptyLine
  · subst mark
    exact foundIn_of_clean_eq_self same
  · exact foundIn_clean_of_ne mark t

/-- The signs around a residue are a residue when it is gone, and cleaning again takes it away. -/
theorem foundIn_clean_around :
    Marker.emptyLine.foundIn (Marker.emptyLine.clean "ᛟᛟ:ᛟ:ᛟ".toList) = true ∧
      Marker.emptyLine.clean (Marker.emptyLine.clean "ᛟᛟ:ᛟ:ᛟ".toList) ≠
        Marker.emptyLine.clean "ᛟᛟ:ᛟ:ᛟ".toList := by
  decide

end Marker

end DialectBridge
