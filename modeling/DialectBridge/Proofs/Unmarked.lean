import DialectBridge.Proofs.BlockComments
import DialectBridge.Proofs.Rendering

/-!
# No marker is left

Generated text has no marker in it, whichever way it was generated. Every residue has a text in it
that stands for its marker (`Marker.core`), so it is enough that this text does not occur.

Replacing residues takes it away, and nothing that is done afterwards brings it back: keywords and
the commas between names are not part of it. The mark of an empty line stands only on lines that
were marked; such a line is indentation and the mark, and taking the mark away leaves white space. A
line that was put back is not one of them. The placeholder is not in what was compiled, since the
line with the placeholder is the one that was put back.
-/

set_option autoImplicit false

namespace DialectBridge

open LineByLine

/-! ## Where markers are found -/

namespace Marker

/-- What every residue of a marker begins with. -/
def core : Marker → Text
  | .placeholder => ['ᛝ']
  | .newProperty => ['↯']
  | .emptyLine => ['ᛟ']
  | .receiver => Marker.receiver.text

theorem core_front_of_residue? {m : Marker} {t : Text} {length : Nat}
    (h : m.residue? t = some length) : m.core <+: t := by
  have single : ∀ {mark : Char}, (∀ c rest, c ≠ mark → m.residue? (c :: rest) = none) →
      m.residue? [] = none → [mark] <+: t := by
    intro mark others empty
    cases t with
    | nil => cases empty.symm.trans h
    | cons c rest =>
      by_cases same : c = mark
      · rw [same]
        exact ⟨rest, rfl⟩
      · cases (others c rest same).symm.trans h
  cases m with
  | placeholder =>
    refine single (fun c rest other => ?_) rfl
    unfold residue?
    split <;> simp_all
  | newProperty => exact single (fun c rest other => newProperty_residue?_of_ne other rest) rfl
  | emptyLine => exact single (fun c rest other => emptyLine_residue?_of_ne other rest) rfl
  | receiver =>
    rw [receiver_residue?] at h
    split at h
    · next front => exact List.isPrefixOf_iff_prefix.1 front
    · cases h

theorem core_infix_of_foundIn {m : Marker} {t : Text} (h : m.foundIn t = true) : m.core <:+: t := by
  induction t with
  | nil => cases h
  | cons c rest ih =>
    rw [foundIn, Bool.or_eq_true, Option.isSome_iff_exists] at h
    rcases h with ⟨length, here⟩ | later
    · exact (core_front_of_residue? here).isInfix
    · exact (ih later).trans (List.suffix_cons c rest).isInfix

/-- A text in which no marker has left anything violates no stage. -/
theorem violations_eq_nil {t : Text} (clean : ∀ m : Marker, ¬ m.core <:+: t) (stage : Stage) :
    violations t stage = [] := by
  refine List.filter_eq_nil_iff.2 fun m _ found => ?_
  rw [Bool.and_eq_true] at found
  exact clean m (core_infix_of_foundIn found.2)

end Marker

/-! ## Occurrences -/

/-- What has no line feed in it occurs on a line. -/
theorem Text.exists_infix_line {needle t : Text} (some_ : needle ≠ []) (unbroken : '\n' ∉ needle)
    (h : needle <:+: t) : ∃ line ∈ lines t, needle <:+: line := by
  have joined : ∀ all : List Text, needle <:+: joinLines all → ∃ line ∈ all, needle <:+: line := by
    intro all
    induction all with
    | nil => exact fun nothing => absurd (List.eq_nil_of_infix_nil nothing) some_
    | cons line more ih =>
      intro found
      cases more with
      | nil => exact ⟨line, List.mem_cons_self, found⟩
      | cons next rest =>
        rw [joinLines_cons (List.cons_ne_nil _ _)] at found
        rcases infix_of_infix_append_cons found unbroken with here | later
        · exact ⟨line, List.mem_cons_self, here⟩
        · obtain ⟨other, inside, there⟩ := ih later
          exact ⟨other, List.mem_cons_of_mem _ inside, there⟩
  rw [← joinLines_lines t] at h
  exact joined _ h

theorem Text.mem_of_infix_singleton {c : Char} {t : Text} (h : [c] <:+: t) : c ∈ t :=
  h.subset (List.mem_singleton_self c)

namespace Declarations

variable {needle : Text}

theorem infix_joinNames {name : Text} {names : List Text} (h : name ∈ names) :
    name <:+: joinNames names := by
  fun_induction joinNames names with
  | case1 => cases h
  | case2 only =>
    obtain rfl := List.mem_singleton.1 h
    exact List.infix_refl _
  | case3 first more some_ ih =>
    rcases List.mem_cons.1 h with rfl | later
    · exact (List.prefix_append _ _).isInfix
    · obtain ⟨before, behind, same⟩ := ih later
      exact ⟨first ++ ',' :: ' ' :: before, behind, by simp [← same]⟩

/-- What has neither a comma nor a space in it occurs in one of the names. -/
theorem exists_infix_of_joinNames (some_ : needle ≠ []) (comma : ',' ∉ needle)
    (space : ' ' ∉ needle) {names : List Text} (h : needle <:+: joinNames names) :
    ∃ name ∈ names, needle <:+: name := by
  fun_induction joinNames names with
  | case1 => exact absurd (List.eq_nil_of_infix_nil h) some_
  | case2 only => exact ⟨only, List.mem_singleton_self _, h⟩
  | case3 first more filled ih =>
    rcases Text.infix_of_infix_append_cons h comma with here | behind
    · exact ⟨first, List.mem_cons_self, here⟩
    · change needle <:+: [] ++ ' ' :: joinNames more at behind
      rcases Text.infix_of_infix_append_cons behind space with nothing | later
      · exact absurd (List.eq_nil_of_infix_nil nothing) some_
      · obtain ⟨name, inside, there⟩ := ih later
        exact ⟨name, List.mem_cons_of_mem _ inside, there⟩

/-- Names that remain were there before. -/
theorem infix_of_remainingLine {lines : List Text} {line : Text} {d : DeclarationLine}
    (some_ : needle ≠ []) (noComma : ',' ∉ needle) (noSpace : ' ' ∉ needle)
    (noEnd : ';' ∉ needle) (declares : d ∈ find lines)
    (found : lines[d.line]? = some line) {narrowed : List Narrowing}
    (h : needle <:+: remainingLine narrowed d) : needle <:+: line := by
  obtain ⟨own, at_, parsed⟩ := parse?_of_mem_find declares
  obtain rfl := Option.some.inj (found.symm.trans at_)
  have shape := (declaring_of_parse? parsed).shape
  unfold remainingLine at h
  split at h
  · exact absurd (List.eq_nil_of_infix_nil h) some_
  · rcases Text.infix_of_infix_append_cons h noEnd with code | nothing
    · have cut : d.indentation ++ "var ".toList ++ joinNames (remaining narrowed d) =
          (d.indentation ++ ['v', 'a', 'r']) ++ ' ' :: joinNames (remaining narrowed d) := by simp
      rw [cut] at code
      rcases Text.infix_of_infix_append_cons code noSpace with front | names
      · refine front.trans (List.IsPrefix.isInfix ⟨' ' :: (joinNames d.names ++ [';']), ?_⟩)
        rw [shape]
        simp
      · obtain ⟨name, inside, there⟩ := exists_infix_of_joinNames some_ noComma noSpace names
        have old := there.trans (infix_joinNames (List.mem_of_mem_filter inside))
        refine old.trans ⟨d.indentation ++ "var ".toList, [';'], ?_⟩
        rw [shape]
        simp
    · exact absurd (List.eq_nil_of_infix_nil nothing) some_

/-- Keywords that separate bring nothing about. -/
theorem infix_of_keyworded (some_ : needle ≠ []) (apart : Text.separates needle keyword = true)
    {line : Text} {times : Nat} (h : needle <:+: keyworded times line) : needle <:+: line := by
  induction times with
  | zero => rwa [keyworded_zero] at h
  | succ times ih =>
    refine ih ?_
    rw [keyworded, List.replicate_succ, List.flatten_cons, List.append_assoc,
      ← List.append_assoc] at h
    have without := Text.noNew_of_separates some_ apart [] _ _ h
    rwa [List.append_nil] at without

/-- **Narrowing brings nothing about** that has no part in keywords and no commas, spaces and
terminators. -/
theorem not_infix_narrowLines {lines : List Text} (some_ : needle ≠ [])
    (apart : Text.separates needle keyword = true) (noComma : ',' ∉ needle) (noSpace : ' ' ∉ needle)
    (noEnd : ';' ∉ needle) (each : ∀ line ∈ lines, ¬ needle <:+: line) :
    ∀ line ∈ narrowLines lines, ¬ needle <:+: line :=
  forall_narrowLines each (fun _ _ free found => free (infix_of_keyworded some_ apart found))
    fun _ _ declares at_ free found =>
      free (infix_of_remainingLine some_ noComma noSpace noEnd declares at_ found)

end Declarations

/-! ## Replaced residues -/

namespace Cleanup

/-- What takes the place of a receiver begins with a parenthesis. -/
theorem front_of_scan_receiver {front t : Text} (plain : '(' ∉ front)
    (h : front <+: Text.scan Marker.receiver.cleaning t) : front <+: t := by
  induction t generalizing front with
  | nil => exact h
  | cons c rest ih =>
    cases front with
    | nil => exact List.nil_prefix
    | cons d more =>
      rcases Marker.scan_receiver_cons c rest with kept | ⟨-, behind, replaced⟩
      · rw [kept, List.cons_prefix_cons] at h
        obtain ⟨rfl, later⟩ := h
        exact List.cons_prefix_cons.2
          ⟨rfl, ih (fun inside => plain (List.mem_cons_of_mem _ inside)) later⟩
      · rw [replaced, List.cons_prefix_cons] at h
        exact absurd (h.1 ▸ List.mem_cons_self) plain

/-- **No receiver is left when receivers are replaced**: what is written for one ends in a space,
and what is not replaced is no receiver. -/
theorem not_infix_scan_receiver (t : Text) :
    ¬ Marker.receiver.text <:+: Text.scan Marker.receiver.cleaning t := by
  have forward := Marker.cleaning_forward .receiver
  refine Text.scan_steps (motive := fun _ t' => ¬ Marker.receiver.text <:+: t') forward
    Marker.receiver_linewise.fitting (by decide) (fun c rest declined later occurs => ?_)
    (fun taken rest r decision _ later occurs => ?_) t
  · rw [List.infix_cons_iff] at occurs
    rcases occurs with front | behind
    · -- A receiver at the beginning was there before, and would have been replaced.
      rw [← Text.scan_cons_of_none forward declined] at front
      have here := front_of_scan_receiver (by decide) front
      rw [Marker.cleaning, Marker.receiver_residue?, Text.startsWith,
        if_pos (List.isPrefixOf_iff_prefix.2 here)] at declined
      cases declined
    · exact later behind
  · obtain ⟨length, found, rfl⟩ := Marker.cleaning_eq_some decision
    have written : Marker.receiver.fill length = "(this.valueOf(),this)".toList ++ [' '] := by
      rw [Marker.receiver_residue?] at found
      split at found
      · obtain rfl := Option.some.inj found
        decide
      · cases found
    dsimp only at occurs
    rw [written, List.append_assoc, List.singleton_append] at occurs
    -- No receiver reaches across the space, and what stands before it is too short for one.
    rcases Text.infix_of_infix_append_cons occurs (by decide) with here | behind
    · exact absurd here.length_le (by decide)
    · exact later behind

/-- The residue of a new property is one or three characters, and spaces take its place. -/
theorem newProperty_eq_some {t : Text} {r : Replacement}
    (h : Marker.newProperty.cleaning none t = some r) :
    r.length ∈ [1, 3] ∧ r.output = List.replicate r.length ' ' := by
  obtain ⟨length, found, rfl⟩ := Marker.cleaning_eq_some h
  refine ⟨?_, rfl⟩
  cases t with
  | nil => cases found
  | cons c rest =>
    by_cases mark : c = '↯'
    · rw [mark, Marker.newProperty_residue?_mark] at found
      rw [← Option.some.inj found]
      split <;> decide
    · rw [Marker.newProperty_residue?_of_ne mark] at found
      cases found

/-- Spaces in the place of new properties bring nothing about that has no spaces. -/
theorem noNew_scan_newProperty {needle : Text} (some_ : needle ≠ [])
    (apart : ∀ length ∈ [1, 3], Text.separates needle (List.replicate length ' ') = true)
    (t : Text) : Text.NoNew needle t (Text.scan Marker.newProperty.cleaning t) := by
  refine Text.scan_induction (Text.NoNew needle) (fun _ _ => id)
    (fun c rest rest' later => Text.NoNew.append (a := [c]) (b := rest) (fun _ _ => id) later) ?_ t
  intro before t r decision
  obtain ⟨length, written⟩ := newProperty_eq_some decision
  obtain ⟨positive, bounded⟩ := Marker.newProperty_linewise.fitting t r decision
  refine ⟨t.take r.length, t.drop r.length, (List.take_append_drop _ _).symm,
    List.length_take_of_le bounded, positive, fun rest' later => ?_⟩
  have whole := (Text.noNew_of_separates some_ (apart _ length) (t.take r.length)).append later
  rwa [List.take_append_drop, ← written] at whole

/-- No new property is left when new properties are replaced. -/
theorem not_mem_scan_newProperty (t : Text) :
    '↯' ∉ Text.scan Marker.newProperty.cleaning t := by
  refine Text.not_mem_scan Marker.newProperty_linewise.forward Marker.newProperty_linewise.fitting
    (fun rest declined => ?_) (fun t r decision => ?_) t
  · rw [Marker.cleaning, Marker.newProperty_residue?_mark] at declined
    cases declined
  · rw [(newProperty_eq_some decision).2]
    exact fun member => absurd (List.eq_of_mem_replicate member) (by decide)

theorem not_mem_replaceLine (line : Text) : '↯' ∉ replaceLine line := not_mem_scan_newProperty _

theorem not_infix_replaceLine (line : Text) : ¬ Marker.receiver.text <:+: replaceLine line := by
  intro occurs
  have quiet : Text.NoNew Marker.receiver.text
      (Text.scan Marker.receiver.cleaning (Text.scan methodShorthand line)) (replaceLine line) :=
    noNew_scan_newProperty (by decide) (by decide) _
  exact not_infix_scan_receiver _ (by simpa using quiet [] [] (by simpa using occurs))

end Cleanup

/-! ## Marks of empty lines -/

/-- A line with the mark of an empty line on it is white space, the mark, and a terminator or a
space. -/
def MarkedAlone (line : Text) : Prop :=
  'ᛟ' ∈ line → ∃ blanks last, (∀ c ∈ blanks, isBlank c = true) ∧ (last = ';' ∨ last = ' ') ∧
    line = blanks ++ ['ᛟ', ':', 'ᛟ', last]

/-- A line that is free of marks, or on which there is nothing but white space, keywords and
terminators once marks are taken away. -/
def Wiped (line : Text) : Prop :=
  'ᛟ' ∉ line ∨ ∀ c ∈ Text.scan Marker.emptyLine.cleaning line,
    isBlank c = true ∨ c ∈ Declarations.keyword ∨ c = ';'

namespace MarkedAlone

variable {line : Text}

theorem keyworded (h : MarkedAlone line) (times : Nat) :
    Wiped (Declarations.keyworded times line) := by
  by_cases marked : 'ᛟ' ∈ line
  · right
    obtain ⟨blanks, last, white, last_, rfl⟩ := h marked
    have indentation : Text.leadingBlank (blanks ++ ['ᛟ', ':', 'ᛟ', last]) = blanks := by
      refine Text.takeWhile_append_of_head white fun c first => ?_
      obtain rfl := Option.some.inj first
      decide
    have front : 'ᛟ' ∉ blanks ++ (List.replicate times Declarations.keyword).flatten := by
      intro member
      rcases List.mem_append.1 member with blank | written
      · exact absurd (white _ blank) (by decide)
      · obtain ⟨word, repeated, inside⟩ := List.mem_flatten.1 written
        rw [List.eq_of_mem_replicate repeated] at inside
        exact absurd inside (by decide)
    have ending : Text.scan Marker.emptyLine.cleaning ['ᛟ', ':', 'ᛟ', last] = [last] := by
      rcases last_ with rfl | rfl <;> decide
    rw [Declarations.keyworded, indentation, Text.trimLeft_append white (by decide),
      ← List.append_assoc, Marker.scan_emptyLine_append front, ending]
    intro c member
    rcases List.mem_append.1 member with code | last'
    · rcases List.mem_append.1 code with blank | written
      · exact .inl (white c blank)
      · obtain ⟨word, repeated, inside⟩ := List.mem_flatten.1 written
        rw [List.eq_of_mem_replicate repeated] at inside
        exact .inr (.inl inside)
    · rw [List.mem_singleton.1 last']
      rcases last_ with rfl | rfl
      · exact .inr (.inr rfl)
      · exact .inl (by decide)
  · left
    intro member
    rcases Declarations.mem_keyworded member with old | new
    · exact marked old
    · exact absurd new (by decide)

/-- A declaration line is not a marked one. -/
theorem remainingLine (h : MarkedAlone line) {lines : List Text} {d : DeclarationLine}
    (declares : d ∈ Declarations.find lines) (found : lines[d.line]? = some line) :
    Wiped (Declarations.remainingLine (Declarations.narrowings lines) d) := by
  obtain ⟨own, at_, parsed⟩ := Declarations.parse?_of_mem_find declares
  obtain rfl := Option.some.inj (found.symm.trans at_)
  have letter : 'v' ∈ line := by
    rw [(Declarations.declaring_of_parse? parsed).shape]
    exact List.mem_append_right _ (List.mem_append_left _ (by decide))
  left
  intro member
  rcases Declarations.mem_remainingLine declares found member with old | new | new
  · obtain ⟨blanks, last, white, last_, rfl⟩ := h old
    rcases List.mem_append.1 letter with blank | mark
    · exact absurd (white _ blank) (by decide)
    · rcases last_ with rfl | rfl <;> exact absurd mark (by decide)
  · exact absurd new (by decide)
  · exact absurd new (by decide)

end MarkedAlone

/-! ## Cleaned text -/

namespace Preparation

variable {t base raw js : Text} {i : Nat} {map : ColumnMap} {fake : Option (Nat × Mechanism)}

/-- The mark of an empty line stands alone on rendered lines. -/
theorem markedAlone_replaceLine (clean : 'ᛟ' ∉ t) (submitted : Submitted (prepare t).text base)
    (h : RenderedLine base i raw) : MarkedAlone (Cleanup.replaceLine raw) := by
  intro member
  have inRaw := Cleanup.mem_of_mem_replaceLine member (by decide)
  obtain ⟨line, j, found, inside⟩ := h.exists_mem inRaw (by decide) (by decide)
  have inBase := (getElem?_of_filledLines found).1
  obtain ⟨-, tweaked⟩ := (mem_of_mem_base submitted inBase (by decide) inside).resolve_left clean
  obtain ⟨line', blanks, ending, there, marked⟩ := exists_markedLine submitted tweaked
  obtain rfl := Option.some.inj (inBase.symm.trans there)
  have white : ∀ c ∈ blanks, isBlank c = true := fun c blank =>
    isBlank_of_isIndent (marked.white c blank)
  cases h with
  | output found' released =>
    obtain ⟨rfl, rfl⟩ := Prod.mk.inj (Option.some.inj (found.symm.trans found'))
    rw [marked.lineOutput_eq] at released
    rcases released with rfl | ⟨front, whole, rfl⟩
    · exact ⟨blanks, ';', white, .inl rfl, Cleanup.replaceLine_append white _⟩
    · have same : blanks ++ ['ᛟ', ':', 'ᛟ'] = front := by
        have ends : blanks ++ ['ᛟ', ':', 'ᛟ'] ++ [';'] = front ++ [';'] := by
          rw [← whole, List.append_assoc]
          rfl
        exact List.append_cancel_right ends
      refine ⟨blanks, ' ', white, .inr rfl, ?_⟩
      rw [← same, List.append_assoc, Cleanup.replaceLine_append white]
      rfl
  | back found' _ telling =>
    obtain ⟨rfl, rfl⟩ := Prod.mk.inj (Option.some.inj (found.symm.trans found'))
    refine absurd tweaked (not_mem_tweaked_of_telling submitted inBase (telling.imp_right ?_))
    rintro ⟨c, text, bracket⟩
    exact ⟨c, List.mem_append_left _ text, bracket⟩

/-- The placeholder does not stand on rendered lines. -/
theorem placeholder_not_mem_replaceLine (clean : 'ᛝ' ∉ t)
    (submitted : Submitted (prepare t).text base) (h : RenderedLine base i raw) :
    'ᛝ' ∉ Cleanup.replaceLine raw := by
  intro member
  have inRaw := Cleanup.mem_of_mem_replaceLine member (by decide)
  obtain ⟨line, j, found, inside⟩ := h.exists_mem inRaw (by decide) (by decide)
  have source := List.mem_of_getElem? (getElem?_of_filledLines found).1
  exact placeholder_not_mem_base submitted clean (Text.mem_of_mem_lines source inside)

/-- A line of rendered text is one of its lines with text, unless there are none. -/
theorem renderedLine_of_mem_lines {raw : Text} (rendered : Rendered base js map fake)
    (member : raw ∈ Text.lines js) : raw = [] ∨ ∃ i, RenderedLine base i raw := by
  rcases rendered.lines_eq with ⟨-, only⟩ | ⟨-, lines_⟩
  · rw [only] at member
    exact .inl (List.mem_singleton.1 member)
  · obtain ⟨i, found⟩ := List.mem_iff_getElem?.1 member
    exact .inr ⟨i, lines_ i raw found⟩

/-- Marks stand alone before the lines are narrowed, and narrowing adds nothing but keywords. -/
theorem wiped_of_mem_narrowLines (clean : 'ᛟ' ∉ t) (submitted : Submitted (prepare t).text base)
    (rendered : Rendered base js map fake) :
    ∀ line ∈ Declarations.narrowLines ((Text.lines js).map Cleanup.replaceLine), Wiped line := by
  have alone : ∀ line ∈ (Text.lines js).map Cleanup.replaceLine, MarkedAlone line := by
    intro line member
    obtain ⟨raw, inside, rfl⟩ := List.mem_map.1 member
    rcases renderedLine_of_mem_lines rendered inside with rfl | ⟨i, known⟩
    · exact fun marked => absurd marked (by decide)
    · exact markedAlone_replaceLine clean submitted known
  exact Declarations.forall_narrowLines alone (fun line times own => own.keyworded times)
    fun line d declares found own => own.remainingLine declares found

/-- Markers other than the mark of empty lines are gone before the lines are narrowed, and
narrowing does not bring them back. -/
theorem core_not_infix_narrowLines (clean : 'ᛝ' ∉ t) (submitted : Submitted (prepare t).text base)
    (rendered : Rendered base js map fake) {m : Marker} (other : m ≠ .emptyLine) :
    ∀ line ∈ Declarations.narrowLines ((Text.lines js).map Cleanup.replaceLine),
      ¬ m.core <:+: line := by
  refine Declarations.not_infix_narrowLines (by cases m <;> decide) (by cases m <;> decide)
    (by cases m <;> decide) (by cases m <;> decide) (by cases m <;> decide) fun line member => ?_
  obtain ⟨raw, inside, rfl⟩ := List.mem_map.1 member
  cases m with
  | placeholder =>
    refine fun occurs => absurd (Text.mem_of_infix_singleton occurs) ?_
    rcases renderedLine_of_mem_lines rendered inside with rfl | ⟨i, known⟩
    · decide
    · exact placeholder_not_mem_replaceLine clean submitted known
  | newProperty =>
    exact fun occurs => Cleanup.not_mem_replaceLine raw (Text.mem_of_infix_singleton occurs)
  | emptyLine => exact absurd rfl other
  | receiver => exact Cleanup.not_infix_replaceLine raw

/-- **No marker is left in cleaned text.** -/
theorem core_not_infix_cleanText (clean : 'ᛝ' ∉ t ∧ 'ᛟ' ∉ t)
    (submitted : Submitted (prepare t).text base) (rendered : Rendered base js map fake)
    (m : Marker) : ¬ m.core <:+: Cleanup.cleanText js := by
  have foreign : ∃ c ∈ m.core, ¬ (isBlank c = true ∨ c ∈ Declarations.keyword ∨ c = ';') := by
    cases m with
    | placeholder => exact ⟨'ᛝ', by decide, by decide⟩
    | newProperty => exact ⟨'↯', by decide, by decide⟩
    | emptyLine => exact ⟨'ᛟ', by decide, by decide⟩
    | receiver => exact ⟨'h', by decide, by decide⟩
  intro occurs
  obtain ⟨final, member, here⟩ :=
    Text.exists_infix_line (by cases m <;> decide) (by cases m <;> decide) occurs
  rw [Cleanup.lines_cleanText] at member
  obtain ⟨line, inside, rfl⟩ := List.mem_map.1 member
  rcases wiped_of_mem_narrowLines clean.2 submitted rendered line inside with free | wiped
  · rw [Marker.scan_emptyLine_of_not_mem free] at here
    by_cases mark : m = .emptyLine
    · subst mark
      exact free (Text.mem_of_infix_singleton here)
    · exact core_not_infix_narrowLines clean.1 submitted rendered mark line inside here
  · -- Of what is left on a wiped line no marker can be made.
    obtain ⟨c, part, strange⟩ := foreign
    exact strange (wiped c (here.subset part))

end Preparation

/-- A sketch has no more markers in it than the text. -/
theorem Sketch.core_not_infix_sketch {t : Text} (clean : 'ᛝ' ∉ t ∧ '↯' ∉ t ∧ 'ᛟ' ∉ t)
    (unnamed : Text.occursIn "__coffeemapAtSign".toList t = false) (m : Marker) :
    ¬ m.core <:+: sketch t := by
  intro occurs
  cases m with
  | placeholder =>
    exact clean.1 (mem_of_mem_sketch (by decide) (Text.mem_of_infix_singleton occurs))
  | newProperty =>
    exact clean.2.1 (mem_of_mem_sketch (by decide) (Text.mem_of_infix_singleton occurs))
  | emptyLine =>
    exact clean.2.2 (mem_of_mem_sketch (by decide) (Text.mem_of_infix_singleton occurs))
  | receiver =>
    have part : "__coffeemapAtSign".toList <:+: Marker.receiver.core := ⟨"this.".toList, [], rfl⟩
    exact Text.not_infix_of_occursIn unnamed
      (infix_of_sketch (by decide) (by decide) (part.trans occurs))

namespace Pipeline

open Preparation

/-- **No marker reaches the reader.** A source without markers is generated, and whether it
compiles, a line of it is replaced, it is forced or only sketched, no marker is left. Nothing can
fail but the address of a place that a position cannot count up to. No place is further than the
longest line of the prepared text and six characters, or than its last line, and preparation at most
doubles the longest line and the number of lines, up to the marks. -/
theorem generate_unmarked {source : Document}
    (clean : 'ᛝ' ∉ source.text ∧ '↯' ∉ source.text ∧ 'ᛟ' ∉ source.text)
    (unnamed : Text.occursIn "__coffeemapAtSign".toList source.text = false) :
    Ends (generate LineByLine.compile source).outcome
        (fun g => ∃ js, g.js = some js ∧ Marker.violations js .final = [])
        (Unaddressable (Text.span (Text.lines (prepare source.text).text) + 6)) ∧
      Text.span (Text.lines (prepare source.text).text) ≤
        2 * Text.span (Text.lines source.text) + 48 := by
  refine ⟨(generate_ends clean.1).mono (fun g concluded => ?_) fun _ => id, span_prepare_le _⟩
  cases concluded with
  | cleaned submitted rendered text =>
    refine ⟨_, text, Marker.violations_eq_nil ?_ .final⟩
    exact core_not_infix_cleanText ⟨clean.1, clean.2.2⟩ submitted rendered
  | sketched text =>
    exact ⟨_, text, Marker.violations_eq_nil (Sketch.core_not_infix_sketch clean unnamed) .final⟩

/-- A receiver, an empty line that is marked and a line that has to be replaced leave no markers in
one text. -/
theorem generate_unmarked_replaced :
    let source : Document := ⟨"a =\n  b: @\n  \nc.d[".toList, ""⟩
    (prepare source.text).tweaked = [2] ∧
      Returns (generate LineByLine.compile source).outcome
        fun g => ∃ js, g.js = some js ∧ Marker.violations js .final = [] := by
  intro source
  have clean : 'ᛝ' ∉ source.text ∧ '↯' ∉ source.text ∧ 'ᛟ' ∉ source.text := by decide
  obtain ⟨ends, few⟩ := generate_unmarked clean (by decide)
  have narrow : Text.span (Text.lines source.text) = 6 := by decide
  exact ⟨by decide +kernel, ends.returns (not_unaddressable (by omega))⟩

end Pipeline

end DialectBridge
