import DialectBridge.Proofs.BlockComments
import DialectBridge.Proofs.Rendering

/-!
# The order of lines

A map is made in four steps: the compiler writes it, a line that was put back collapses to one
mapping, lines of the prepared text become lines of the source, and mappings follow the keywords of
narrowed declarations. After each step the mappings are regrouped, and of two mappings for one place
only the first survives.

Columns change on the way, but lines do not: what `Relates` says about the first map is true of the
last one. So the final map relates a source line to at most one generated line, in the order of both
texts. If no line was faked, every line of code and every marked empty line is related.
-/

set_option autoImplicit false

namespace DialectBridge

open LineByLine

/-! ## Related lines -/

/-- Some mapping leads from a source line to an output line. -/
def Relates (mappings : List Mapping) (source output : Int) : Prop :=
  ∃ m ∈ mappings, m.sourceLine = source ∧ m.outputLine = output

/-- Mappings that lead from lines of one text to lines of another one, from each line to one line at
most, and in order. -/
structure InOrder (mappings : List Mapping) (sources outputs : Nat) : Prop where
  inside : ∀ {x y}, Relates mappings x y → (0 ≤ x ∧ x < sources) ∧ 0 ≤ y ∧ y < outputs
  functional : ∀ {x y y'}, Relates mappings x y → Relates mappings x y' → y = y'
  increasing : ∀ {x y x' y'}, Relates mappings x y → Relates mappings x' y' → x < x' → y < y'

namespace Relates

variable {mappings : List Mapping} {map : ColumnMap} {x y : Int} {k : Nat}

/-- Regrouping relates no new lines. -/
theorem of_ofMappings (h : Relates (ColumnMap.ofMappings mappings).mappings x y) :
    Relates mappings x y := by
  obtain ⟨m, member, lines_⟩ := h
  exact ⟨m, ColumnMap.mem_of_mem_mappings member, lines_⟩

/-- Regrouping keeps lines related, if the output line is related to no other line: what takes the
place of a mapping leads from the same line. -/
theorem ofMappings (h : Relates mappings x k) (only : ∀ x', Relates mappings x' k → x' = x) :
    Relates (ColumnMap.ofMappings mappings).mappings x k := by
  obtain ⟨m, member, -, output⟩ := h
  obtain ⟨first, kept, output', -⟩ := ColumnMap.exists_mem_mappings member output
  exact ⟨first, kept, only _ ⟨first, ColumnMap.mem_of_mem_mappings kept, rfl, output'⟩, output'⟩

end Relates

namespace Declarations

variable {mappings : List Mapping} {map : ColumnMap} {x y : Int}

/-- A keyword moves mappings inside their lines. -/
theorem relates_insertKeywordMappings (n : Narrowing) :
    Relates (insertKeywordMappings mappings n) x y ↔ Relates mappings x y := by
  constructor
  · rintro ⟨m, member, source, output⟩
    obtain ⟨old, known, shift⟩ := exists_shifted member
    cases shift with
    | kept => exact ⟨_, known, source, output⟩
    | moved => exact ⟨_, known, source, output⟩
    | copied => exact ⟨_, known, source, output⟩
  · rintro ⟨m, member, source, output⟩
    refine ⟨_, exists_mem_insertKeywordMappings n member, ?_⟩
    split
    · exact ⟨source, output⟩
    · exact ⟨source, output⟩

theorem relates_foldl_insertKeywordMappings (narrowed : List Narrowing) :
    Relates (narrowed.foldl insertKeywordMappings mappings) x y ↔ Relates mappings x y := by
  induction narrowed generalizing mappings with
  | nil => exact Iff.rfl
  | cons n rest ih => rw [List.foldl_cons, ih, relates_insertKeywordMappings]

theorem relates_of_narrowMap {lines : List Text} (h : Relates (narrowMap lines map).mappings x y) :
    Relates map.mappings x y := by
  unfold narrowMap at h
  dsimp only at h
  split at h
  · exact h
  · exact (relates_foldl_insertKeywordMappings _).1 h.of_ofMappings

theorem relates_narrowMap {k : Nat} (lines : List Text) (h : Relates map.mappings x k)
    (only : ∀ x', Relates map.mappings x' k → x' = x) :
    Relates (narrowMap lines map).mappings x k := by
  unfold narrowMap
  dsimp only
  split
  · exact h
  · refine Relates.ofMappings ((relates_foldl_insertKeywordMappings _).2 h) fun x' other => ?_
    exact only x' ((relates_foldl_insertKeywordMappings _).1 other)

end Declarations

namespace Cleanup

variable {js : Text} {map : ColumnMap} {inserted tweaked : List Int} {x y : Int}

/-- A mapping is dropped only where the mark of an empty line is gone. -/
theorem exists_keptMapping? {lines : List Text} (inserted : List Int) {m : Mapping} {k : Nat}
    (output : m.outputLine = k)
    (kept : m.sourceLine ∈ tweaked → Marker.emptyLine.foundIn (lines.getD k []) = true) :
    ∃ m', keptMapping? lines inserted tweaked m = some m' := by
  rw [keptMapping?_of_nonneg (output ▸ Int.natCast_nonneg k)]
  split
  · next marked =>
    rw [output, Int.toNat_natCast, if_pos (kept (List.contains_iff_mem.1 marked))]
    exact ⟨_, rfl⟩
  · exact ⟨_, rfl⟩

theorem exists_of_relates_filterMap {lines : List Text}
    (h : Relates (map.mappings.filterMap (keptMapping? lines inserted tweaked)) x y) :
    ∃ j, Relates map.mappings j y ∧ x = sourceLine inserted j := by
  obtain ⟨m', member, source, output⟩ := h
  obtain ⟨m, known, same⟩ := List.mem_filterMap.1 member
  obtain ⟨moved, kept⟩ := keptMapping?_eq_some same
  exact ⟨m.sourceLine, ⟨m, known, rfl, kept.symm.trans output⟩, source.symm.trans moved⟩

/-- **Cleaning relates no new lines**: it only replaces lines of the prepared text by lines of the
source. -/
theorem exists_of_relates_cleanedMap (h : Relates (cleanedMap js map inserted tweaked).mappings x y) :
    ∃ j, Relates map.mappings j y ∧ x = sourceLine inserted j :=
  exists_of_relates_filterMap (Declarations.relates_of_narrowMap h).of_ofMappings

/-- **Cleaning keeps lines related**, if the output line is related to no other line and the mark of
an empty line can still be seen on it. -/
theorem relates_cleanedMap {j : Int} {k : Nat} (h : Relates map.mappings j k)
    (only : ∀ j', Relates map.mappings j' k → j' = j)
    (kept : j ∈ tweaked → Marker.emptyLine.foundIn
      ((Text.lines (replaceResidues js)).getD k []) = true) :
    Relates (cleanedMap js map inserted tweaked).mappings (sourceLine inserted j) k := by
  have moved : Relates (map.mappings.filterMap
      (keptMapping? (Text.lines (replaceResidues js)) inserted tweaked))
      (sourceLine inserted j) k := by
    obtain ⟨m, member, source, output⟩ := h
    obtain ⟨m', same⟩ := exists_keptMapping? inserted output
      (by rw [source]; exact kept)
    obtain ⟨source', output'⟩ := keptMapping?_eq_some same
    rw [source] at source'
    exact ⟨m', List.mem_filterMap.2 ⟨m, member, same⟩, source', output'.trans output⟩
  have alone : ∀ x, Relates (map.mappings.filterMap
      (keptMapping? (Text.lines (replaceResidues js)) inserted tweaked)) x k →
      x = sourceLine inserted j := by
    intro x other
    obtain ⟨j', known, rfl⟩ := exists_of_relates_filterMap other
    rw [only j' known]
  exact Declarations.relates_narrowMap _ (moved.ofMappings alone) fun x' other =>
    alone x' other.of_ofMappings

end Cleanup

theorem Marker.foundIn_append {m : Marker} {t : Text} (front : Text) (h : m.foundIn t = true) :
    m.foundIn (front ++ t) = true := by
  induction front with
  | nil => exact h
  | cons c rest ih =>
    rw [List.cons_append, foundIn, ih, Bool.or_true]

/-! ## Rendered text -/

namespace LineByLine

variable {t : Text} {x y : Int}

/-- The compiler relates the lines of code to their outputs. -/
theorem exists_of_relates_mappings (h : Relates (mappings t) x y) :
    ∃ (i j : Nat) (line : Text), (filledLines t)[i]? = some (line, j) ∧ isComment line = false ∧
      x = j ∧ y = i := by
  obtain ⟨m, member, source, output⟩ := h
  obtain ⟨i, line, j, found, inside⟩ := mem_mappings_iff.1 member
  obtain ⟨code, column, -, rfl⟩ := Preparation.exists_of_mem_lineMappings inside
  exact ⟨i, j, line, found, code, source.symm, output.symm⟩

theorem relates_mappings {line : Text} {i j : Nat} (found : (filledLines t)[i]? = some (line, j))
    (code : isComment line = false) : Relates (mappings t) j i := by
  have tokens : tokenColumns false 0 line ≠ [] :=
    tokenColumns_ne_nil (getElem?_of_filledLines found).2
  obtain ⟨column, token⟩ := List.exists_mem_of_ne_nil _ tokens
  refine ⟨⟨j, column, i, column⟩, mem_mappings_iff.2 ⟨i, line, j, found, ?_⟩, rfl, rfl⟩
  unfold lineMappings
  rw [code]
  exact List.mem_map_of_mem token

/-- A text with one line exchanged has the related lines of the text, and maybe those of the faulty
line. -/
theorem Exchanged.exists_of_relates {t' text ending : Text} {n k : Nat}
    (h : Exchanged t t' n k text ending) (relates : Relates (mappings t') x y) :
    ∃ (i j : Nat) (line : Text), (filledLines t)[i]? = some (line, j) ∧ x = j ∧ y = i ∧
      (isComment line = false ∨ Faulty t j line) := by
  obtain ⟨i, j, line, found, code, rfl, rfl⟩ := exists_of_relates_mappings relates
  obtain ⟨new, others⟩ := h.others
  rw [others] at found
  by_cases here : k = i
  · subst here
    rw [List.getElem?_set_self (List.getElem?_eq_some_iff.1 h.number).1] at found
    obtain ⟨-, rfl⟩ := Prod.mk.inj (Option.some.inj found)
    exact ⟨k, n, _, h.number, rfl, rfl, .inr h.faulty⟩
  · rw [List.getElem?_set_ne here] at found
    exact ⟨i, j, line, found, rfl, rfl, .inl code⟩

/-- **Rendered text relates lines with text to their outputs**, and those lines are code or faulty.
-/
theorem Rendered.exists_of_relates {js : Text} {map : ColumnMap} {fake : Option (Nat × Mechanism)}
    (h : Rendered t js map fake) (relates : Relates map.mappings x y) :
    ∃ (i j : Nat) (line : Text), (filledLines t)[i]? = some (line, j) ∧ x = j ∧ y = i ∧
      (isComment line = false ∨ Faulty t j line) := by
  cases h with
  | direct =>
    obtain ⟨i, j, line, found, code, rfl, rfl⟩ := exists_of_relates_mappings relates.of_ofMappings
    exact ⟨i, j, line, found, rfl, rfl, .inl code⟩
  | sketched exchanged =>
    obtain ⟨m, member, source, output⟩ := relates.of_ofMappings
    rcases List.mem_append.1 member with others | own
    · have old : Relates (mappings _) x y :=
        Relates.of_ofMappings ⟨m, (List.mem_filter.1 others).1, source, output⟩
      exact exchanged.exists_of_relates old
    · obtain rfl := List.mem_singleton.1 own
      exact ⟨_, _, _, exchanged.number, source.symm, output.symm, .inr exchanged.faulty⟩
  | restored line => exact line.exists_of_relates relates.of_ofMappings

end LineByLine

/-! ## Lines of the source -/

namespace Preparation

variable {t base js : Text} {map : ColumnMap} {fake : Option (Nat × Mechanism)} {x y : Int}

/-- Places of source lines are in the order of the lines. -/
theorem place_lt_iff {l l' p p' : Nat} (h : (placesFrom 0 (editedLines t))[l]? = some p)
    (h' : (placesFrom 0 (editedLines t))[l']? = some p') : p < p' ↔ l < l' := by
  have ascending :
      (placesFrom 0 (editedLines t)).Pairwise fun place later => id place < id later := by
    rw [← keptLines_prepare, keptLines]
    exact List.Pairwise.sublist List.filter_sublist List.pairwise_lt_range
  exact lt_iff_of_ascending ascending h h'

/-- What the map of a compiled text relates are places of source lines. -/
theorem exists_of_relates (submitted : Submitted (prepare t).text base)
    (rendered : Rendered base js map fake) (relates : Relates map.mappings x y) :
    ∃ (l p i : Nat) (line : Text), l < (Text.lines t).length ∧
      (placesFrom 0 (editedLines t))[l]? = some p ∧ (filledLines base)[i]? = some (line, p) ∧
      Cleanup.sourceLine (Pipeline.numbers (prepare t).inserted) x = l ∧ y = i := by
  obtain ⟨i, p, line, found, rfl, rfl, kind⟩ := rendered.exists_of_relates relates
  have inText := (getElem?_of_filledLines found).1
  -- An inserted line is a comment sign, so it has no mappings of its own, and no substitute either.
  have kept : p ∉ (prepare t).inserted := by
    rcases kind with code | faulty
    · intro inserted
      have sign := (getElem?_lines_base_inserted submitted inserted).1
      obtain rfl := Option.some.inj (inText.symm.trans sign)
      exact absurd code (by decide)
    · exact not_mem_inserted_of_faulty submitted faulty
  obtain ⟨l, bound, place⟩ := exists_place submitted inText kept
  exact ⟨l, p, i, line, bound, place, found, sourceLine_place place, rfl⟩

/-- The map of a source relates a line to the number its place has among the lines with text. -/
theorem exists_of_relates_cleanedMap (submitted : Submitted (prepare t).text base)
    (rendered : Rendered base js map fake)
    (relates : Relates (Cleanup.cleanedMap js map (Pipeline.numbers (prepare t).inserted)
      (Pipeline.numbers (prepare t).tweaked)).mappings x y) :
    ∃ (l p i : Nat) (line : Text), l < (Text.lines t).length ∧
      (placesFrom 0 (editedLines t))[l]? = some p ∧ (filledLines base)[i]? = some (line, p) ∧
      x = l ∧ y = i := by
  obtain ⟨j, old, rfl⟩ := Cleanup.exists_of_relates_cleanedMap relates
  exact exists_of_relates submitted rendered old

/-- **The map of a source relates lines in order.** -/
theorem inOrder (submitted : Submitted (prepare t).text base)
    (rendered : Rendered base js map fake) :
    InOrder (Cleanup.cleanedMap js map (Pipeline.numbers (prepare t).inserted)
      (Pipeline.numbers (prepare t).tweaked)).mappings (Text.lines t).length
      (Text.lines (Cleanup.cleanText js)).length where
  inside := by
    intro x y relates
    obtain ⟨l, p, i, line, bound, -, found, rfl, rfl⟩ :=
      exists_of_relates_cleanedMap submitted rendered relates
    have few := (List.getElem?_eq_some_iff.1 found).1
    rw [Cleanup.length_lines_cleanText]
    rcases rendered.lines_eq with ⟨none_, -⟩ | ⟨size, -⟩
    · rw [none_] at few
      exact absurd few (Nat.not_lt_zero i)
    · omega
  functional := by
    intro x y y' relates relates'
    obtain ⟨l, p, i, line, -, place, found, rfl, rfl⟩ :=
      exists_of_relates_cleanedMap submitted rendered relates
    obtain ⟨l', p', i', line', -, place', found', same, rfl⟩ :=
      exists_of_relates_cleanedMap submitted rendered relates'
    obtain rfl : l = l' := Int.ofNat.inj same
    obtain rfl := Option.some.inj (place.symm.trans place')
    rw [filledLines_injective found found']
  increasing := by
    intro x y x' y' relates relates' less
    obtain ⟨l, p, i, line, -, place, found, rfl, rfl⟩ :=
      exists_of_relates_cleanedMap submitted rendered relates
    obtain ⟨l', p', i', line', -, place', found', rfl, rfl⟩ :=
      exists_of_relates_cleanedMap submitted rendered relates'
    have places := (place_lt_iff place place').2 (by omega)
    have numbers := (number_lt_iff found found').1 places
    omega

/-! ## Lines that are related -/

/-- Code stays code when it is prepared. -/
theorem Edited.isComment_eq_false {line edited : Text} (h : Edited line edited)
    (code : isComment line = false) : isComment edited = false := by
  by_contra comment
  rw [Bool.not_eq_false] at comment
  unfold isComment at comment code
  rw [beq_iff_eq] at comment
  rw [beq_eq_false_iff_ne] at code
  obtain ⟨rest, first⟩ := List.head?_eq_some_iff.1 comment
  have white : ∀ c ∈ Text.leadingBlank edited, isBlank c = true :=
    fun c inside => List.mem_takeWhile_imp inside
  obtain ⟨noMark, noDot⟩ := not_mem_white white
  have front : Text.leadingBlank edited ++ ['#'] <+: line := by
    refine h.front_of_front ⟨rest, ?_⟩ noMark noDot (by decide)
    rw [List.append_assoc]
    exact (congrArg (Text.leadingBlank edited ++ ·) first.symm).trans
      (Text.leadingBlank_append_trimLeft edited)
  obtain ⟨others, same⟩ := front
  refine code ?_
  rw [← same, List.append_assoc, List.singleton_append,
    Text.trimLeft_append white (by decide)]
  rfl

/-- A line of code is related to its output, unless it is an empty line whose mark is gone. -/
theorem relates_generatedMap {t line : Text} {k p : Nat}
    (found : (filledLines (prepare t).text)[k]? = some (line, p)) (code : isComment line = false)
    (kept : p ∈ (prepare t).tweaked →
      Marker.emptyLine.foundIn (Cleanup.replaceLine (lineOutput line)) = true) :
    Relates (generatedMap t).mappings
      (Cleanup.sourceLine (Pipeline.numbers (prepare t).inserted) p) k := by
  have some_ : filledLines (prepare t).text ≠ [] := List.ne_nil_of_mem (List.mem_of_getElem? found)
  have only : ∀ j, Relates (mappings (prepare t).text) j k → j = p := by
    intro j other
    obtain ⟨i, j', line', found', -, rfl, same⟩ := exists_of_relates_mappings other
    obtain rfl : k = i := Int.ofNat.inj same
    obtain ⟨-, rfl⟩ := Prod.mk.inj (Option.some.inj (found.symm.trans found'))
    rfl
  have compiled := (relates_mappings found code).ofMappings only
  refine Cleanup.relates_cleanedMap compiled (fun j other => only j other.of_ofMappings) ?_
  intro marked
  have output_ : (generatedLines t)[k]? = some (Cleanup.replaceLine (lineOutput line)) := by
    rw [generatedLines, List.getElem?_map, found, Option.map_some]
  rw [lines_replaceResidues_output some_, List.getD_eq_getElem?_getD, output_, Option.getD_some]
  exact kept ((contains_numbers _ p).1 (List.contains_iff_mem.2 marked))

/-- Lines of code are related. -/
theorem exists_relates_of_code {t line : Text} {l : Nat} (found : (Text.lines t)[l]? = some line)
    (filled : Text.isEmptyLine line = false) (code : isComment line = false) :
    ∃ k : Nat, Relates (generatedMap t).mappings l k := by
  obtain ⟨edited, p, k, carried⟩ := exists_carried found filled
  have relates := relates_generatedMap carried.filled (carried.edits.isComment_eq_false code)
    fun marked => absurd marked carried.unmarked
  rw [sourceLine_place carried.place] at relates
  exact ⟨k, relates⟩

/-- Marked empty lines are related. -/
theorem exists_relates_of_tweaked {t : Text} {p : Nat} (tweaked : p ∈ (prepare t).tweaked) :
    ∃ k : Nat, Relates (generatedMap t).mappings
      (Cleanup.sourceLine (Pipeline.numbers (prepare t).inserted) p) k := by
  obtain ⟨line, blanks, ending, found, marked⟩ := exists_markedLine .gentle tweaked
  obtain ⟨k, number⟩ := exists_filledLines found marked.isEmptyLine_eq_false
  refine ⟨k, relates_generatedMap number marked.isComment_eq_false fun _ => ?_⟩
  rw [marked.lineOutput_eq,
    Cleanup.replaceLine_append fun c inside => isBlank_of_isIndent (marked.white c inside)]
  exact Marker.foundIn_append blanks (by decide)

end Preparation

namespace Pipeline

open Preparation

/-- **The map relates lines one to one and in order**, however the source was brought to compile.
Without a diagnostic it relates every line of code and every marked empty line. -/
theorem generate_inOrder {source : Document} {g : Generated} {map : ColumnMap}
    (clean : 'ᛝ' ∉ source.text) (made : (generate LineByLine.compile source).outcome = .ok g)
    (mapped : g.map = some map) :
    ∃ js, g.js = some js ∧ InOrder map.mappings source.lineCount (Text.lines js).length ∧
      (g.diagnostics = none →
        (∀ (l : Nat) (line : Text), source.lines[l]? = some line → Text.isEmptyLine line = false →
          isComment line = false → ∃ k : Nat, Relates map.mappings l k) ∧
        ∀ p ∈ (prepare source.text).tweaked, ∃ k : Nat, Relates map.mappings
          (Cleanup.sourceLine (numbers (prepare source.text).inserted) p) k) := by
  rw [Document.lineCount_eq]
  cases (generate_ends clean).of_ok made with
  | sketched text mapless =>
    rw [mapless] at mapped
    cases mapped
  | cleaned submitted rendered text own =>
    obtain rfl := Option.some.inj (own.symm.trans mapped)
    refine ⟨_, text, inOrder submitted rendered, fun clear => ?_⟩
    obtain ⟨-, whole, -⟩ := parts_of_generate made clear
    rw [Option.some.inj (own.symm.trans whole)]
    exact ⟨fun l line => exists_relates_of_code, fun p => exists_relates_of_tweaked⟩

/-- An empty line inside an object below a block comment is related to a generated line, although
the comment moved it down and its mark was taken away. -/
theorem generate_inOrder_markedLine :
    let source : Document := ⟨"###\nc\n###\na =\n  \n  b: @".toList, ""⟩
    ∃ g map, (generate LineByLine.compile source).outcome = .ok g ∧ g.map = some map ∧
      g.diagnostics = none ∧ (prepare source.text).inserted = [0, 3] ∧
      (prepare source.text).tweaked = [6] ∧ ∃ js, g.js = some js ∧
        InOrder map.mappings 6 (Text.lines js).length ∧ ∃ k : Nat, Relates map.mappings 4 k := by
  intro source
  let g := (generate LineByLine.compile source).outcome.toOption.get (by decide +kernel)
  have made : (generate LineByLine.compile source).outcome = .ok g := by decide +kernel
  let map := g.map.get (by decide +kernel)
  have mapped : g.map = some map := by decide +kernel
  have clear : g.diagnostics = none := by decide +kernel
  have tweaked : (prepare source.text).tweaked = [6] := by decide +kernel
  obtain ⟨js, text, order, covers⟩ := generate_inOrder (by decide) made mapped
  obtain ⟨k, relates⟩ := (covers clear).2 6 (by rw [tweaked]; exact List.mem_singleton_self 6)
  have moved : Cleanup.sourceLine (numbers (prepare source.text).inserted) (6 : Nat) = 4 := by
    decide +kernel
  rw [moved] at relates
  exact ⟨g, map, made, mapped, clear, by decide +kernel, tweaked, js, text, order, k, relates⟩

end Pipeline

end DialectBridge
