import Mathlib.Algebra.Group.Nat.Defs
import Mathlib.Data.List.Nodup
import DialectBridge.Compiler.LineByLine
import DialectBridge.Proofs.Course
import DialectBridge.Proofs.LineBookkeeping
import DialectBridge.Proofs.Narrowing
import DialectBridge.Proofs.RepairedMaps
import DialectBridge.Proofs.Residues

/-!
# From source lines to generated lines

The line-by-line compiler drops the empty lines of prepared text and numbers the others anew. So
every line of a source that is neither empty nor a comment has a generated line of its own: it is
the edited line with a terminator and with its residues replaced, narrowed like every other line.
The entries of the map that lead from the one are those that lead to the other.
-/

set_option autoImplicit false

namespace DialectBridge

namespace Text

/-! ## White space at the end -/

theorem trimRight_front (t : Text) : trimRight t <+: t := by
  unfold trimRight
  rw [← List.reverse_suffix, List.reverse_reverse]
  exact List.dropWhile_suffix _

/-- A text is its right-trimmed front and white space. -/
theorem exists_trimRight_append (t : Text) :
    ∃ blanks, t = trimRight t ++ blanks ∧ ∀ c ∈ blanks, isBlank c = true := by
  refine ⟨(t.reverse.takeWhile isBlank).reverse, ?_, fun c member => ?_⟩
  · have whole := congrArg List.reverse
      (List.takeWhile_append_dropWhile (l := t.reverse) (p := isBlank))
    rw [List.reverse_append, List.reverse_reverse] at whole
    exact whole.symm
  · exact List.mem_takeWhile_imp (List.mem_reverse.1 member)

/-- A character that is not white space is not trimmed off. -/
theorem lt_length_trimRight {t : Text} {i : Nat} {c : Char} (h : t[i]? = some c)
    (filled : isBlank c = false) : i < (trimRight t).length := by
  obtain ⟨blanks, whole, white⟩ := exists_trimRight_append t
  by_contra outside
  rw [whole, List.getElem?_append_right (Nat.not_lt.1 outside)] at h
  exact Bool.noConfusion (filled.symm.trans (white c (List.mem_of_getElem? h)))

/-! ## Extents -/

theorem length_lt_extent {all : List Text} {line : Text} (h : line ∈ all) :
    line.length < extent all := by
  induction all with
  | nil => exact absurd h List.not_mem_nil
  | cons first rest ih =>
    rw [extent]
    rcases List.mem_cons.1 h with rfl | later
    · omega
    · have := ih later
      omega

theorem extent_le_of_sublist {all all' : List Text} (h : List.Sublist all all') :
    extent all ≤ extent all' := by
  induction h with
  | slnil => exact Nat.le_refl _
  | cons line _ ih =>
    rw [extent]
    omega
  | cons_cons line _ ih =>
    rw [extent, extent]
    omega

/-- Lines that are longer by a bounded amount take up more by a bounded amount. -/
theorem extent_le_of_forall₂ {α : Type} {measure : α → Text} {factor extra : Nat} {all : List Text}
    {all' : List α} (pairs : List.Forall₂ (fun line a =>
      (measure a).length + 1 ≤ factor * (line.length + 1) + extra) all all') :
    extent (all'.map measure) ≤ factor * extent all + extra * all.length := by
  induction pairs with
  | nil => exact Nat.zero_le _
  | cons here _ ih =>
    rw [List.map_cons, extent, extent, List.length_cons, Nat.mul_add factor, Nat.mul_add extra,
      Nat.mul_one]
    omega

/-! ## Spans -/

/-- The greater one of the number of lines and the length of the longest line: no place of the lines
has a greater coordinate. -/
def span (all : List Text) : Nat := (all.map List.length).foldr max all.length

theorem foldr_max_le_iff {values : List Nat} {base bound : Nat} :
    values.foldr max base ≤ bound ↔ base ≤ bound ∧ ∀ v ∈ values, v ≤ bound := by
  induction values with
  | nil => simp
  | cons v rest ih =>
    rw [List.foldr_cons, Nat.max_le, ih, List.forall_mem_cons]
    exact and_left_comm

theorem span_le_iff {all : List Text} {bound : Nat} :
    span all ≤ bound ↔ all.length ≤ bound ∧ ∀ line ∈ all, line.length ≤ bound := by
  rw [span, foldr_max_le_iff, List.forall_mem_map]

theorem length_le_span (all : List Text) : all.length ≤ span all :=
  (span_le_iff.1 (Nat.le_refl _)).1

theorem length_le_span_of_mem {all : List Text} {line : Text} (h : line ∈ all) :
    line.length ≤ span all :=
  (span_le_iff.1 (Nat.le_refl _)).2 line h

end Text

namespace LineByLine

/-! ## Tokens -/

/-- Identifiers are written with characters between the dollar sign and the last letter. -/
theorem toNat_of_isIdentifier {c : Char} (h : isIdentifier c = true) :
    36 ≤ c.toNat ∧ c.toNat ≤ 122 := by
  rcases isIdentifier_iff.1 h with lower | upper | digit | rfl | rfl
  · exact ⟨Nat.le_trans (by decide) lower.1, lower.2⟩
  · exact ⟨Nat.le_trans (by decide) upper.1, Nat.le_trans upper.2 (by decide)⟩
  · exact ⟨Nat.le_trans (by decide) digit.1, Nat.le_trans digit.2 (by decide)⟩
  · decide
  · decide

/-- Identifiers have no white space in them. -/
theorem isBlank_eq_false_of_isIdentifier {c : Char} (h : isIdentifier c = true) :
    isBlank c = false := by
  obtain ⟨low, high⟩ := toNat_of_isIdentifier h
  unfold isBlank
  simp
  omega

/-- A token begins at a character that is not white space. -/
theorem exists_of_mem_tokenColumns {inWord : Bool} {start column : Nat} {code : Text}
    (h : column ∈ tokenColumns inWord start code) :
    ∃ i c, column = start + i ∧ code[i]? = some c ∧ isBlank c = false := by
  induction code generalizing inWord start with
  | nil => exact absurd h List.not_mem_nil
  | cons c rest ih =>
    have later : ∀ {inWord : Bool}, column ∈ tokenColumns inWord (start + 1) rest →
        ∃ i d, column = start + i ∧ (c :: rest)[i]? = some d ∧ isBlank d = false := by
      intro inWord member
      obtain ⟨i, d, place, found, filled⟩ := ih member
      exact ⟨i + 1, d, by omega, found, filled⟩
    unfold tokenColumns at h
    split at h
    · next letter =>
      split at h
      · exact later h
      · rcases List.mem_cons.1 h with rfl | inside
        · exact ⟨0, c, rfl, rfl, isBlank_eq_false_of_isIdentifier letter⟩
        · exact later inside
    · split at h
      · exact later h
      · next filled =>
        rcases List.mem_cons.1 h with rfl | inside
        · exact ⟨0, c, rfl, rfl, by simpa using filled⟩
        · exact later inside

/-- A token begins with an identifier character that does not continue a word. -/
theorem mem_tokenColumns {front rest : Text} {c : Char} (letter : isIdentifier c = true)
    (free : ∀ d ∈ front.getLast?, isIdentifier d = false) {inWord : Bool}
    (fresh : front = [] → inWord = false) (start : Nat) :
    start + front.length ∈ tokenColumns inWord start (front ++ c :: rest) := by
  induction front generalizing inWord start with
  | nil =>
    rw [List.nil_append, tokenColumns, if_pos letter, fresh rfl]
    exact List.mem_cons_self
  | cons d more ih =>
    have later : ∀ {inWord : Bool}, (more = [] → inWord = false) →
        start + (d :: more).length ∈ tokenColumns inWord (start + 1) (more ++ c :: rest) := by
      intro inWord apart
      have step := ih (fun e last => free e (by rw [List.getLast?_cons, last]; rfl)) apart
        (start + 1)
      rwa [List.length_cons, Nat.add_comm more.length, ← Nat.add_assoc]
    rw [List.cons_append, tokenColumns]
    split
    · next own =>
      have inside : more = [] → true = false := by
        rintro rfl
        exact own.symm.trans (free d rfl)
      split
      · exact later inside
      · exact List.mem_cons_of_mem _ (later inside)
    · split
      · exact later fun _ => rfl
      · exact List.mem_cons_of_mem _ (later fun _ => rfl)

/-- A line with text has a token. -/
theorem tokenColumns_ne_nil {start : Nat} {line : Text} (h : Text.isEmptyLine line = false) :
    tokenColumns false start line ≠ [] := by
  induction line generalizing start with
  | nil => cases h
  | cons c rest ih =>
    unfold tokenColumns
    split
    · simp
    · split
      · next blank =>
        refine ih ?_
        rw [Text.isEmptyLine, List.all_cons, blank, Bool.true_and] at h
        exact h
      · simp

/-! ## Filled lines -/

section Filled

variable {t line : Text} {i j : Nat}

/-- A filled line is a line with text, beside its number. -/
theorem getElem?_of_filledLines (h : (filledLines t)[i]? = some (line, j)) :
    (Text.lines t)[j]? = some line ∧ Text.isEmptyLine line = false := by
  obtain ⟨inside, filled⟩ := List.mem_filter.1 (List.mem_of_getElem? h)
  rw [List.mem_zipIdx_iff_getElem?] at inside
  exact ⟨inside, by simpa using filled⟩

/-- Every line with text is a filled line. -/
theorem exists_filledLines (h : (Text.lines t)[j]? = some line)
    (filled : Text.isEmptyLine line = false) : ∃ i : Nat, (filledLines t)[i]? = some (line, j) := by
  refine List.mem_iff_getElem?.1 (List.mem_filter.2 ⟨?_, by simpa using filled⟩)
  rw [List.mem_zipIdx_iff_getElem?]
  exact h

/-- No line is filled in twice. -/
theorem filledLines_injective {line' : Text} {i' : Nat}
    (h : (filledLines t)[i]? = some (line, j)) (h' : (filledLines t)[i']? = some (line', j)) :
    i = i' := by
  have distinct : ((filledLines t).map Prod.snd).Nodup := by
    refine List.Nodup.sublist (List.Sublist.map _ List.filter_sublist) ?_
    rw [List.zipIdx_map_snd]
    exact List.nodup_range'
  have at_ : ((filledLines t).map Prod.snd)[i]? = some j := by
    rw [List.getElem?_map, h]
    rfl
  have at' : ((filledLines t).map Prod.snd)[i']? = some j := by
    rw [List.getElem?_map, h']
    rfl
  obtain ⟨bound, same⟩ := List.getElem?_eq_some_iff.1 at_
  obtain ⟨bound', same'⟩ := List.getElem?_eq_some_iff.1 at'
  exact (List.Nodup.getElem_inj_iff distinct).1 (same.trans same'.symm)

/-- The mappings are those of the filled lines. -/
theorem mem_mappings_iff {m : Mapping} :
    m ∈ mappings t ↔ ∃ (i : Nat) (line : Text) (j : Nat), (filledLines t)[i]? = some (line, j) ∧
      m ∈ lineMappings j i line := by
  unfold mappings
  rw [List.mem_flatMap]
  constructor
  · rintro ⟨⟨⟨line, j⟩, i⟩, inside, member⟩
    rw [List.mem_zipIdx_iff_getElem?] at inside
    exact ⟨i, line, j, inside, member⟩
  · rintro ⟨i, line, j, found, member⟩
    exact ⟨((line, j), i), List.mem_zipIdx_iff_getElem?.2 found, member⟩

theorem not_mem_lineOutput {line : Text} (clean : '\n' ∉ line) : '\n' ∉ lineOutput line := by
  unfold lineOutput
  split
  · unfold commentOutput
    intro member
    rcases List.mem_append.1 member with front | behind
    · rcases List.mem_append.1 front with before | sign
      · exact clean ((List.takeWhile_sublist _).subset before)
      · exact absurd sign (by decide)
    · exact clean ((List.dropWhile_sublist _).subset (List.mem_of_mem_drop behind))
  · intro member
    rcases List.mem_append.1 member with front | last
    · exact clean ((Text.trimRight_front line).subset front)
    · exact absurd last (by decide)

/-- The lines of generated text are the outputs of the filled lines. -/
theorem lines_output (some_ : filledLines t ≠ []) :
    Text.lines (output t) = (filledLines t).map fun entry => lineOutput entry.1 := by
  refine Text.lines_joinLines (by simpa using some_) fun line member => ?_
  obtain ⟨⟨original, j⟩, inside, rfl⟩ := List.mem_map.1 member
  obtain ⟨index, found⟩ := List.mem_iff_getElem?.1 inside
  have known := (getElem?_of_filledLines found).1
  exact not_mem_lineOutput (Text.not_mem_of_mem_lines (List.mem_of_getElem? known))

end Filled

end LineByLine

/-- Mappings that stay inside their line, or above another line, are entries with a character behind
them. -/
theorem Declarations.LineMappings.lineEntries {l k width bound : Nat} {map : ColumnMap}
    {generated : Document} {line : Text} (h : LineMappings l k width map.mappings)
    (found : generated.lines[k]? = some line)
    (room : k + 1 < generated.lines.length ∨ width ≤ line.length) (bounded : width ≤ bound + 1) :
    ToOutput.LineEntries map generated l k bound where
  same_line := h.same_line
  some_entry := h.some_mapping
  room m member here := by
    have inside := h.inside m member here
    refine ⟨m.outputColumn.toNat, ?_, by omega, ?_⟩
    · unfold Target.ofMapping
      rw [here, Int.toNat_of_nonneg inside.1]
    · exact Document.offsetOf_lt found (room.imp_right fun wide => by omega)
  source_column m member here := by
    have column := h.source_column m member here
    exact ⟨m.sourceColumn.toNat, by omega, by omega⟩

namespace Preparation

open LineByLine

/-! ## The generated line of a source line -/

/-- A source line with text, the line it was edited to, its place in the prepared text and its
number among the lines with text there. -/
structure Carried (t : Text) (l : Nat) (line edited : Text) (p k : Nat) : Prop where
  source : (Text.lines t)[l]? = some line
  edits : Edited line edited
  inEdited : (editedLines t)[l]? = some edited
  place : (placesFrom 0 (editedLines t))[l]? = some p
  filled : (filledLines (prepare t).text)[k]? = some (edited, p)
  unmarked : p ∉ (prepare t).tweaked

/-- A source line that is no comment, either. -/
structure Coded (t : Text) (l : Nat) (line edited : Text) (p k : Nat) : Prop
    extends Carried t l line edited p k where
  code : isComment edited = false

/-- A source line that has no comment sign at all. -/
structure Traced (t : Text) (l : Nat) (line edited : Text) (p k : Nat) : Prop
    extends Coded t l line edited p k where
  plain : '#' ∉ edited

/-- Every line with text is carried into the prepared text. -/
theorem exists_carried {t line : Text} {l : Nat} (found : (Text.lines t)[l]? = some line)
    (filled : Text.isEmptyLine line = false) : ∃ edited p k, Carried t l line edited p k := by
  obtain ⟨edited, at_, edits⟩ := exists_getElem?_right (forall₂_edited t) found
  have bound : l < (placesFrom 0 (editedLines t)).length := by
    rw [length_placesFrom]
    exact (List.getElem?_eq_some_iff.1 at_).1
  obtain ⟨p, place⟩ : ∃ p, (placesFrom 0 (editedLines t))[l]? = some p :=
    ⟨_, List.getElem?_eq_getElem bound⟩
  have text := edits.isEmptyLine_eq_false filled
  have indented : ∀ other, isIndentedEmpty other = true → Text.isEmptyLine other = true := by
    intro other empty
    rw [isIndentedEmpty, Bool.and_eq_true] at empty
    refine List.all_eq_true.2 fun c member => ?_
    rcases mem_of_isBlankLine empty.1 member with indent | rfl
    · exact isBlank_of_isIndent indent
    · decide
  have prepared : (Text.lines (prepare t).text)[p]? = some edited := by
    obtain ⟨k, same, original⟩ := getElem?_insertCommentLines_place place
    obtain rfl : p = k := by omega
    rcases getElem?_lines_prepare (original.trans at_) with plain | ⟨empty, -⟩
    · exact plain
    · exact Bool.noConfusion (text.symm.trans (indented edited empty))
  obtain ⟨k, number⟩ := exists_filledLines prepared text
  refine ⟨edited, p, k, found, edits, at_, place, number, fun marked => ?_⟩
  obtain ⟨-, l', other, empty, from_, place', -⟩ := exists_of_mem_tweaked marked
  have same := (sourceLine_place place).symm.trans (sourceLine_place place')
  obtain rfl : l = l' := Int.ofNat.inj same
  rw [found] at from_
  obtain rfl := Option.some.inj from_
  exact Bool.noConfusion (filled.symm.trans (indented line empty))

/-- A line with text and without a comment sign can be traced. -/
theorem exists_traced {t line : Text} {l : Nat} (found : (Text.lines t)[l]? = some line)
    (filled : Text.isEmptyLine line = false) (clean : '#' ∉ line) :
    ∃ edited p k, Traced t l line edited p k := by
  obtain ⟨edited, p, k, carried⟩ := exists_carried found filled
  have plain : '#' ∉ edited := by
    intro member
    rcases carried.edits.mem member with old | written | new
    · exact clean old
    · exact absurd written (by decide)
    · revert new
      decide
  have code : isComment edited = false := by
    unfold isComment
    rw [beq_eq_false_iff_ne]
    exact fun first => plain ((List.dropWhile_sublist _).subset (List.mem_of_head? first))
  exact ⟨edited, p, k, ⟨carried, code⟩, plain⟩

/-- The mappings of the generated text with the lines of the source. -/
def sourceMappings (t : Text) (lines : List Text) : List Mapping :=
  (ColumnMap.ofMappings (mappings (prepare t).text)).mappings.filterMap
    (Cleanup.keptMapping? lines (Pipeline.numbers (prepare t).inserted)
      (Pipeline.numbers (prepare t).tweaked))

theorem contains_numbers (all : List Nat) (j : Nat) :
    (Pipeline.numbers all).contains (j : Int) = true ↔ j ∈ all := by
  unfold Pipeline.numbers
  rw [List.contains_iff_mem, List.mem_map]
  constructor
  · rintro ⟨i, inside, same⟩
    exact Int.ofNat.inj same ▸ inside
  · exact fun inside => ⟨j, inside, rfl⟩

/-- A mapping of a filled line that is no comment belongs to one of its tokens. -/
theorem exists_of_mem_lineMappings {j i : Nat} {other : Text} {m : Mapping}
    (h : m ∈ lineMappings j i other) :
    isComment other = false ∧
      ∃ column ∈ tokenColumns false 0 other, m = ⟨j, column, i, column⟩ := by
  unfold lineMappings at h
  split at h
  · exact absurd h List.not_mem_nil
  · next code =>
    obtain ⟨column, token, rfl⟩ := List.mem_map.1 h
    exact ⟨by simpa using code, column, token, rfl⟩

/-- Every mapping with a source line comes from a token of a prepared line, and keeps its columns
unless that line was marked. -/
theorem exists_of_mem_sourceMappings {t : Text} {lines : List Text} {x : Mapping}
    (h : x ∈ sourceMappings t lines) :
    ∃ (i j : Nat) (other : Text), (filledLines (prepare t).text)[i]? = some (other, j) ∧
      isComment other = false ∧ x.outputLine = i ∧
      x.sourceLine = Cleanup.sourceLine (Pipeline.numbers (prepare t).inserted) j ∧
      (j ∉ (prepare t).tweaked → ∃ column ∈ tokenColumns false 0 other,
        x.sourceColumn = column ∧ x.outputColumn = column) := by
  obtain ⟨m, known, same⟩ := List.mem_filterMap.1 h
  obtain ⟨i, other, j, found, member⟩ := mem_mappings_iff.1 (ColumnMap.mem_of_mem_mappings known)
  obtain ⟨code, column, token, rfl⟩ := exists_of_mem_lineMappings member
  refine ⟨i, j, other, found, code, ?_⟩
  have counted := ColumnMap.outputLine_nonneg known
  rw [Cleanup.keptMapping?_of_nonneg counted] at same
  split at same
  · next marked =>
    split at same
    · obtain rfl := Option.some.inj same
      exact ⟨rfl, rfl, fun unmarked => absurd ((contains_numbers _ j).1 marked) unmarked⟩
    · cases same
  · obtain rfl := Option.some.inj same
    exact ⟨rfl, rfl, fun _ => ⟨column, token, rfl, rfl⟩⟩

/-- A place of an unmarked prepared line keeps its mapping. -/
theorem mem_sourceMappings {t : Text} (lines : List Text) {m : Mapping} {j : Nat}
    (h : m ∈ (ColumnMap.ofMappings (mappings (prepare t).text)).mappings)
    (line : m.sourceLine = j) (unmarked : j ∉ (prepare t).tweaked) :
    { m with sourceLine := Cleanup.sourceLine (Pipeline.numbers (prepare t).inserted) j } ∈
      sourceMappings t lines := by
  refine List.mem_filterMap.2 ⟨m, h, ?_⟩
  rw [Cleanup.keptMapping?_of_nonneg (ColumnMap.outputLine_nonneg h), line,
    if_neg fun marked => unmarked ((contains_numbers _ j).1 marked)]

namespace Coded

variable {t line edited : Text} {l p k : Nat}

theorem isEmptyLine_eq_false (h : Coded t l line edited p k) :
    Text.isEmptyLine edited = false := (getElem?_of_filledLines h.filled).2

/-- A mapping that leads to the source line comes from the prepared line. -/
theorem place_of_sourceLine (h : Coded t l line edited p k) {j : Nat} {other : Text}
    (found : (Text.lines (prepare t).text)[j]? = some other) (code : isComment other = false)
    (same : Cleanup.sourceLine (Pipeline.numbers (prepare t).inserted) j = l) : j = p := by
  have kept : j ∉ (prepare t).inserted := by
    intro member
    rw [getElem?_lines_prepare_inserted member] at found
    obtain rfl := Option.some.inj found
    exact absurd code (by decide)
  have place : j ∈ placesFrom 0 (editedLines t) := by
    rw [← keptLines_prepare, keptLines, List.mem_filter, List.mem_range]
    exact ⟨(List.getElem?_eq_some_iff.1 found).1, by simpa using kept⟩
  obtain ⟨l', at_⟩ := List.mem_iff_getElem?.1 place
  have number := (sourceLine_place at_).symm.trans same
  obtain rfl : l' = l := Int.ofNat.inj number
  exact Option.some.inj (at_.symm.trans h.place)

/-- The number of a line of code is that of its place. -/
theorem number_iff (h : Coded t l line edited p k) {i j : Nat} {other : Text}
    (found : (filledLines (prepare t).text)[i]? = some (other, j)) : i = k ↔ j = p := by
  constructor
  · rintro rfl
    have same := Option.some.inj (found.symm.trans h.filled)
    exact congrArg Prod.snd same
  · rintro rfl
    exact filledLines_injective found h.filled

/-- A token of a line of code has a mapping of its own. -/
theorem sole (h : Coded t l line edited p k) (lines : List Text) {column : Nat}
    (token : column ∈ tokenColumns false 0 edited) :
    Declarations.Sole (sourceMappings t lines) ⟨l, column, k, column⟩ := by
  have here : Cleanup.sourceLine (Pipeline.numbers (prepare t).inserted) p = l :=
    sourceLine_place h.place
  constructor
  · have first : (⟨p, column, k, column⟩ : Mapping) ∈ mappings (prepare t).text := by
      refine mem_mappings_iff.2 ⟨k, edited, p, h.filled, ?_⟩
      unfold LineByLine.lineMappings
      rw [h.code]
      exact List.mem_map_of_mem token
    obtain ⟨x, member, outputLine, outputColumn⟩ := ColumnMap.exists_mem_mappings first rfl
    obtain ⟨i, other, j, found, inside⟩ :=
      mem_mappings_iff.1 (ColumnMap.mem_of_mem_mappings member)
    obtain ⟨-, column', -, rfl⟩ := exists_of_mem_lineMappings inside
    obtain rfl : i = k := Int.ofNat.inj outputLine
    obtain rfl : column' = column := Int.ofNat.inj outputColumn
    obtain rfl := (h.number_iff found).1 rfl
    have kept := mem_sourceMappings lines member rfl h.unmarked
    rwa [here] at kept
  · intro x member outputLine outputColumn
    obtain ⟨i, j, other, found, -, output, source, columns⟩ := exists_of_mem_sourceMappings member
    dsimp only at outputLine outputColumn
    obtain rfl : i = k := Int.ofNat.inj (output.symm.trans outputLine)
    obtain rfl := (h.number_iff found).1 rfl
    obtain ⟨column', -, first, second⟩ := columns h.unmarked
    rw [Mapping.mk.injEq]
    exact ⟨source.trans here, by omega, outputLine, outputColumn⟩

/-- **The mappings of a line of code are those of its generated line**, and they stay before its
terminator. -/
theorem lineMappings (h : Coded t l line edited p k) (lines : List Text)
    (small : edited.length ≤ 2147483647) :
    Declarations.LineMappings l k (Text.trimRight edited).length (sourceMappings t lines) := by
  have token : ∀ x ∈ sourceMappings t lines, x.outputLine = k →
      ∃ column : Nat, x.sourceColumn = column ∧ x.outputColumn = column ∧
        column < (Text.trimRight edited).length := by
    intro x member here
    obtain ⟨i, j, other, found, -, output, -, columns⟩ := exists_of_mem_sourceMappings member
    obtain rfl : i = k := by omega
    obtain rfl := (h.number_iff found).1 rfl
    obtain ⟨column, inside, first, second⟩ := columns h.unmarked
    obtain rfl : other = edited :=
      congrArg Prod.fst (Option.some.inj (found.symm.trans h.filled))
    obtain ⟨place, c, rfl, at_, text⟩ := exists_of_mem_tokenColumns inside
    rw [Nat.zero_add] at first second
    exact ⟨place, first, second, Text.lt_length_trimRight at_ text⟩
  have shorter := (Text.trimRight_front edited).length_le
  refine ⟨fun x member => ?_, ?_, fun x member here => ?_, fun x member here => ?_⟩
  · obtain ⟨i, j, other, found, code, output, source, -⟩ := exists_of_mem_sourceMappings member
    rw [output, source]
    constructor
    · intro same
      have inText := (getElem?_of_filledLines found).1
      exact congrArg Int.ofNat ((h.number_iff found).2 (h.place_of_sourceLine inText code same))
    · intro same
      obtain rfl := (h.number_iff found).1 (Int.ofNat.inj same)
      exact sourceLine_place h.place
  · have tokens : tokenColumns false 0 edited ≠ [] := tokenColumns_ne_nil h.isEmptyLine_eq_false
    obtain ⟨column, inside⟩ := List.exists_mem_of_ne_nil _ tokens
    exact ⟨_, (h.sole lines inside).1, rfl⟩
  · obtain ⟨column, -, output, bound⟩ := token x member here
    omega
  · obtain ⟨column, source, -, bound⟩ := token x member here
    omega

end Coded

/-! ## How long everything is -/

theorem extent_insertCommentLines_le (all : List Text) :
    Text.extent (insertCommentLines all) ≤ Text.extent all + 2 * all.length := by
  induction all with
  | nil => exact Nat.le_refl _
  | cons line rest ih =>
    rw [insertCommentLines_cons]
    split
    · simp only [Text.extent, List.length_cons, List.length_nil]
      omega
    · simp only [Text.extent, List.length_cons]
      omega

theorem length_insertCommentLines_le (all : List Text) :
    (insertCommentLines all).length ≤ 2 * all.length := by
  induction all with
  | nil => exact Nat.le_refl _
  | cons line rest ih =>
    rw [insertCommentLines_cons]
    split
    · simp only [List.length_cons]
      omega
    · simp only [List.length_cons]
      omega

/-- Prepared text has at most twice as many lines as the source, and not much more in them. -/
theorem extent_prepare_le (t : Text) :
    Text.extent (Text.lines (prepare t).text) ≤ 57 * Text.extent (Text.lines t) ∧
      (Text.lines (prepare t).text).length ≤ 2 * Text.extent (Text.lines t) := by
  have edits : Text.extent (editedLines t) ≤ 2 * Text.extent (Text.lines t) +
      47 * (Text.lines t).length := by
    have pairs : List.Forall₂ (fun line line' : Text =>
        (id line').length + 1 ≤ 2 * (line.length + 1) + 47) (Text.lines t) (editedLines t) := by
      refine (forall₂_edited t).imp fun line line' edited => ?_
      have := edited.length_le
      dsimp only [id]
      omega
    have bound := Text.extent_le_of_forall₂ pairs
    rwa [List.map_id] at bound
  have marks : Text.extent (Text.lines (prepare t).text) ≤
      1 * Text.extent (insertCommentLines (editedLines t)) +
        3 * (insertCommentLines (editedLines t)).length := by
    rw [lines_prepare]
    refine Text.extent_le_of_forall₂ ((forall₂_marking _).imp fun line edited marking => ?_)
    cases marking with
    | kept =>
      dsimp only [EditedLine.keep]
      omega
    | marked =>
      have whole := congrArg List.length (Text.body_append_tail line)
      have mark : Marker.emptyLine.text.length = 3 := rfl
      simp only [List.length_append, mark] at whole ⊢
      omega
  have size : (Text.lines (prepare t).text).length =
      (insertCommentLines (editedLines t)).length := by
    rw [lines_prepare, List.length_map, markedLines, (forall₂_marking _).length_eq]
  have same := (forall₂_edited t).length_eq
  have inserted := extent_insertCommentLines_le (editedLines t)
  have doubled := length_insertCommentLines_le (editedLines t)
  have few := Text.length_le_extent (Text.lines t)
  omega

/-- **What preparation can add**: at most as many lines as there are, and in a line at most what
stands there and a few marks. -/
theorem span_prepare_le (t : Text) :
    Text.span (Text.lines (prepare t).text) ≤ 2 * Text.span (Text.lines t) + 48 := by
  have edited : ∀ line' ∈ editedLines t, ∃ line ∈ Text.lines t, Edited line line' := by
    intro line' member
    obtain ⟨i, found⟩ := List.mem_iff_getElem?.1 member
    obtain ⟨line, source, edits⟩ := exists_getElem?_left (forall₂_edited t) found
    exact ⟨line, List.mem_of_getElem? source, edits⟩
  rw [Text.span_le_iff]
  constructor
  · have doubled := length_insertCommentLines_le (editedLines t)
    have same := (forall₂_edited t).length_eq
    have few := Text.length_le_span (Text.lines t)
    rw [lines_prepare, List.length_map, markedLines, ← (forall₂_marking _).length_eq]
    omega
  · intro line' member
    rw [lines_prepare] at member
    obtain ⟨marked, inside, rfl⟩ := List.mem_map.1 member
    obtain ⟨i, found⟩ := List.mem_iff_getElem?.1 inside
    obtain ⟨line, there, marking⟩ := exists_getElem?_left (forall₂_marking _) found
    obtain ⟨old, known, here⟩ := List.mem_flatMap.1 (List.mem_of_getElem? there)
    obtain ⟨source, own, edits⟩ := edited old known
    have short := Text.length_le_span_of_mem own
    have size := edits.length_le
    have kept : line = old ∨ line = ['#'] := by
      split at here
      · exact (List.mem_pair.1 here).symm
      · exact .inl (List.mem_singleton.1 here)
    cases marking with
    | kept =>
      rcases kept with rfl | rfl
      · exact Nat.le_trans size (by omega)
      · exact Nat.le_trans (by decide : (['#'] : Text).length ≤ 48) (Nat.le_add_left _ _)
    | marked empty =>
      -- A line that is marked was not edited.
      rcases kept with rfl | rfl
      · obtain rfl := edits.eq_of_isBlankLine (Bool.and_eq_true_iff.1 empty).1
        have whole := congrArg List.length (Text.body_append_tail line)
        have mark : Marker.emptyLine.text.length = 3 := rfl
        simp only [List.length_append, mark] at whole ⊢
        omega
      · exact absurd empty (by decide)

/-- The lines of the compiled text with their residues replaced. -/
def generatedLines (t : Text) : List Text :=
  (filledLines (prepare t).text).map fun entry => Cleanup.replaceLine (lineOutput entry.1)

theorem length_lineOutput_le (line : Text) : (lineOutput line).length ≤ line.length + 2 := by
  unfold lineOutput
  split
  · unfold commentOutput
    have whole := congrArg List.length
      (List.takeWhile_append_dropWhile (l := line) (p := (· != '#')))
    simp only [List.length_append, List.length_drop, List.length_cons, List.length_nil] at whole ⊢
    omega
  · have := (Text.trimRight_front line).length_le
    rw [List.length_append, List.length_cons, List.length_nil]
    omega

/-- The outputs of the lines with text take up little more than the lines. -/
theorem extent_lineOutput_le (t : Text) :
    Text.extent ((filledLines t).map fun entry => lineOutput entry.1) ≤
      Text.extent (Text.lines t) + 2 * (Text.lines t).length := by
  have part : List.Sublist ((filledLines t).map Prod.fst) (Text.lines t) := by
    have whole := List.Sublist.map Prod.fst
      (List.filter_sublist (l := (Text.lines t).zipIdx)
        (p := fun entry => !Text.isEmptyLine entry.1))
    rwa [List.zipIdx_map_fst] at whole
  have kept := Text.extent_le_of_sublist part
  have few := part.length_le
  have outputs : Text.extent ((filledLines t).map fun entry => lineOutput entry.1) ≤
      1 * Text.extent ((filledLines t).map Prod.fst) +
        2 * ((filledLines t).map Prod.fst).length := by
    refine Text.extent_le_of_forall₂ (List.forall₂_map_left_iff.2 (List.forall₂_same.2 ?_))
    intro entry _
    have := length_lineOutput_le entry.1
    omega
  omega

/-- The generated lines take up a bounded multiple of the source. -/
theorem extent_generatedLines_le (t : Text) :
    Text.extent (generatedLines t) ≤ 61 * (t.length + 1) := by
  obtain ⟨prepared, lines_⟩ := extent_prepare_le t
  rw [Text.extent_lines t] at prepared lines_
  have outputs := extent_lineOutput_le (prepare t).text
  have replaced : Text.extent (generatedLines t) ≤
      1 * Text.extent ((filledLines (prepare t).text).map fun entry => lineOutput entry.1) +
        0 * ((filledLines (prepare t).text).map fun entry => lineOutput entry.1).length := by
    refine Text.extent_le_of_forall₂ (List.forall₂_map_left_iff.2 (List.forall₂_same.2 ?_))
    intro entry _
    rw [Cleanup.length_replaceLine]
    omega
  omega

/-- The generated text of a source that compiles. -/
@[irreducible]
def generatedText (t : Text) : Text := Cleanup.cleanText (output (prepare t).text)

/-- The map of a source that compiles. -/
def generatedMap (t : Text) : ColumnMap :=
  Cleanup.cleanedMap (output (prepare t).text) (.ofMappings (mappings (prepare t).text))
    (Pipeline.numbers (prepare t).inserted) (Pipeline.numbers (prepare t).tweaked)

theorem lines_replaceResidues_output {t : Text} (some_ : filledLines (prepare t).text ≠ []) :
    Text.lines (Cleanup.replaceResidues (output (prepare t).text)) = generatedLines t := by
  rw [Cleanup.lines_replaceResidues, lines_output some_, List.map_map]
  rfl

theorem not_mem_generatedLines {t : Text} (some_ : filledLines (prepare t).text ≠ []) :
    ∀ line ∈ generatedLines t, '\n' ∉ line := by
  rw [← lines_replaceResidues_output some_]
  exact fun line member => Text.not_mem_of_mem_lines member

/-- The lines of the generated text are the narrowed lines without marks of empty lines. -/
theorem lines_generatedText {t : Text} (some_ : filledLines (prepare t).text ≠ []) :
    Text.lines (generatedText t) = (Declarations.narrowLines (generatedLines t)).map
      (Text.scan Marker.emptyLine.cleaning) := by
  unfold generatedText Cleanup.cleanText Marker.clean
  rw [Text.lines_scan Marker.emptyLine_linewise, lines_replaceResidues_output some_,
    Text.lines_joinLines]
  · rw [← List.length_pos_iff, Declarations.length_narrowLines, generatedLines, List.length_map]
    exact List.length_pos_iff.2 some_
  · exact Declarations.not_mem_narrowLines (not_mem_generatedLines some_)

theorem length_lines_generatedText {t : Text} (some_ : filledLines (prepare t).text ≠ []) :
    (Document.lines ⟨generatedText t, ""⟩).length = (generatedLines t).length := by
  rw [Document.lines, lines_generatedText some_, List.length_map, Declarations.length_narrowLines]

/-- A narrowed line without a mark of an empty line is a line of the generated text. -/
theorem getElem?_lines_generatedText {t line' : Text} {k : Nat}
    (some_ : filledLines (prepare t).text ≠ [])
    (found : (Declarations.narrowLines (generatedLines t))[k]? = some line')
    (unmarked : 'ᛟ' ∉ line') : (Document.lines ⟨generatedText t, ""⟩)[k]? = some line' := by
  rw [Document.lines, lines_generatedText some_, List.getElem?_map, found, Option.map_some,
    Marker.scan_emptyLine_of_not_mem unmarked]

theorem generatedMap_eq {t : Text} (some_ : filledLines (prepare t).text ≠ []) :
    generatedMap t = Declarations.narrowMap (generatedLines t)
      (.ofMappings (sourceMappings t (generatedLines t))) := by
  unfold generatedMap Cleanup.cleanedMap sourceMappings
  rw [lines_replaceResidues_output some_]

/-- The generated line of a source line and its entries in the final map, where the base is the
generated line before narrowing. Each entry has a character behind it. -/
structure LineResult (t base : Text) (l k times : Nat) (mappings : List Mapping) (line' : Text) :
    Prop where
  map : generatedMap t = .ofMappings mappings
  entries : ToOutput.LineEntries (.ofMappings mappings) ⟨generatedText t, ""⟩ l k
    (246 * (t.length + 1) + 49)
  /-- The entries stay before the terminator, unless the line lost names. -/
  inside : Declarations.LineMappings l k (base.length - 1 + 4 * times)
    (ColumnMap.ofMappings mappings).mappings
  /-- A mapping that is the only one at its place moves with the keywords and stays the only one. -/
  alone : ∀ source column : Nat, (Text.leadingBlank base).length ≤ column →
    Declarations.Sole (sourceMappings t (generatedLines t)) ⟨l, source, k, column⟩ →
    Declarations.Sole mappings ⟨l, source, k, (column + 4 * times : Nat)⟩
  found : (Document.lines ⟨generatedText t, ""⟩)[k]? = some line'
  narrowed : Declarations.Narrowed times base line'

/-- The generated line of a line of code has few characters that the line does not have. -/
theorem Edited.mem_of_mem_replaceLine {line edited : Text} {c : Char} (h : Edited line edited)
    (member : c ∈ Cleanup.replaceLine (Text.trimRight edited ++ [';']))
    (foreign : isIdentifier c = false ∧
      c ∉ Marker.receiverValue ++ Marker.receiver.text ++ [' ', '*', ';', ':', '↯']) :
    c ∈ line := by
  obtain ⟨noLetter, others⟩ := foreign
  simp only [List.mem_append, List.mem_cons, not_or] at others
  obtain ⟨⟨noValue, noMarker⟩, noSpace, noStar, noEnd, noColon, noMark, -⟩ := others
  have inLine := Cleanup.mem_of_mem_replaceLine member ⟨noLetter, noValue, noSpace, noStar⟩
  rcases List.mem_append.1 inLine with inside | last
  · rcases h.mem ((Text.trimRight_front edited).subset inside) with
      old | marker | letter | end_ | colon | mark
    · exact old
    · exact absurd marker noMarker
    · exact absurd letter (noLetter ▸ Bool.false_ne_true)
    · exact absurd end_ noEnd
    · exact absurd colon noColon
    · exact absurd mark noMark
  · exact absurd (List.mem_singleton.1 last) noEnd

namespace Coded

variable {t line edited : Text} {l p k : Nat}

theorem filledLines_ne_nil (h : Coded t l line edited p k) :
    filledLines (prepare t).text ≠ [] := List.ne_nil_of_mem (List.mem_of_getElem? h.filled)

/-- The generated line of a line of code before narrowing. -/
theorem getElem?_generatedLines (h : Coded t l line edited p k) :
    (generatedLines t)[k]? = some (Cleanup.replaceLine (Text.trimRight edited ++ [';'])) := by
  rw [generatedLines, List.getElem?_map, h.filled, Option.map_some, lineOutput,
    h.code]
  rfl

/-- The generated line of a line of code is free of marks of empty lines. -/
theorem not_mem_replaceLine (h : Coded t l line edited p k) (clean : 'ᛟ' ∉ t) :
    'ᛟ' ∉ Cleanup.replaceLine (Text.trimRight edited ++ [';']) := fun member =>
  clean (Text.mem_of_mem_lines (List.mem_of_getElem? h.source)
    (h.edits.mem_of_mem_replaceLine member (by decide)))

/-- Generated lines have addressable numbers, if the source is not too long. -/
theorem number_le (h : Coded t l line edited p k) (small : t.length < 2 ^ 23) :
    k ≤ 2147483647 := by
  have bound := (List.getElem?_eq_some_iff.1 h.getElem?_generatedLines).1
  have few := Text.length_le_extent (generatedLines t)
  have size := extent_generatedLines_le t
  omega

/-- How long the generated line of a line of code can get. -/
theorem length_keyworded_le (h : Coded t l line edited p k) {times : Nat}
    (few : times ≤ (Declarations.narrowings (generatedLines t)).length) :
    (Declarations.keyworded times (Cleanup.replaceLine (Text.trimRight edited ++ [';']))).length ≤
      246 * (t.length + 1) + 49 := by
  have names := Declarations.length_narrowings_le (generatedLines t)
  have bound := extent_generatedLines_le t
  have shorter := (Text.trimRight_front edited).length_le
  have double := h.edits.length_le
  have part := Text.length_lt_extent (List.mem_of_getElem? h.source)
  rw [Text.extent_lines] at part
  rw [Declarations.length_keyworded, Cleanup.length_replaceLine, List.length_append,
    List.length_cons, List.length_nil]
  omega

/-- **What becomes of a line of code.** The entries of the final map that lead from it are those of
its generated line, and this line is narrowed like every other. -/
theorem exists_lineResult (h : Coded t l line edited p k) (clean : 'ᛟ' ∉ t)
    (small : t.length < 2 ^ 23) :
    ∃ times mappings line', LineResult t (Cleanup.replaceLine (Text.trimRight edited ++ [';']))
      l k times mappings line' := by
  have bound := extent_generatedLines_le t
  have part := Text.length_lt_extent (List.mem_of_getElem? h.source)
  have double := h.edits.length_le
  rw [Text.extent_lines] at part
  have size : (Cleanup.replaceLine (Text.trimRight edited ++ [';'])).length =
      (Text.trimRight edited).length + 1 := by
    rw [Cleanup.length_replaceLine, List.length_append, List.length_cons, List.length_nil]
  have relation := h.lineMappings (generatedLines t) (by omega)
  obtain ⟨times, few, mappings, line', map, kept, alone, found, letters, shape⟩ :=
    Declarations.narrow_line h.getElem?_generatedLines relation
  have unmarked : 'ᛟ' ∉ line' := by
    intro member
    rcases letters _ member with old | new | new
    · exact h.not_mem_replaceLine clean old
    · exact absurd new (by decide)
    · exact absurd new (by decide)
  have inDocument := getElem?_lines_generatedText h.filledLines_ne_nil found unmarked
  have entries := kept.ofMappings
  rw [show (Text.trimRight edited).length =
    (Cleanup.replaceLine (Text.trimRight edited ++ [';'])).length - 1 by omega] at entries
  have longest := h.length_keyworded_le few
  rw [Declarations.length_keyworded] at longest
  refine ⟨times, mappings, line', ?_, entries.lineEntries inDocument ?_ (by omega), entries,
    alone, inDocument, shape.imp_right fun reduced => reduced.2.2⟩
  · rw [generatedMap_eq h.filledLines_ne_nil, map]
  · rcases shape with rfl | ⟨-, more, -⟩
    · rw [Declarations.length_keyworded]
      exact .inr (by omega)
    · rw [length_lines_generatedText h.filledLines_ne_nil]
      exact .inl more

end Coded

end Preparation

namespace Pipeline

open Preparation

/-- What the line-by-line compiler does not reject becomes its output and its mappings. -/
theorem compile_of_compiles {t : Text} (h : Compiler.Compiles LineByLine.compile t) :
    LineByLine.compile t =
      .compiled (LineByLine.output t) (.ofMappings (LineByLine.mappings t)) := by
  obtain ⟨js, map, answer⟩ := h
  unfold LineByLine.compile at answer ⊢
  split at answer
  · cases answer
  · split at answer
    · cases answer
    · rfl

/-- A text that compiles at once is not looked at again. -/
theorem toDraft_of_compiled {compiler : Compiler} {prepared js : Text} {map : ColumnMap}
    {uri : String} {g : Generated} (answer : compiler prepared = .compiled js map)
    (h : (compile compiler prepared uri).outcome = .ok g) :
    g.toDraft = { js := some js, map := some map } := by
  unfold compile at h
  simp only [Run.bind_eq_andThen] at h
  obtain ⟨first, reached, later⟩ := Run.outcome_andThen_eq_ok_iff.1 h
  have parts : first.toDraft = { js := some js, map := some map } := by
    generalize first.toDraft = draft, Recovery.recovered_of_compile reached = recovered
    cases recovered with
    | direct same =>
      rw [answer] at same
      cases same
      rfl
    | substituted rejected =>
      rw [Compiler.Compiles.rejection?_eq_none ⟨js, map, answer⟩] at rejected
      cases rejected
    | exhausted rejected =>
      rw [Compiler.Compiles.rejection?_eq_none ⟨js, map, answer⟩] at rejected
      cases rejected
  have text : first.js.isSome = true := by
    rw [parts]
    rfl
  rw [if_pos text] at later
  cases later
  exact parts

/-- A source whose prepared text compiles at once has the cleaned answer of the compiler as its
outcome. -/
theorem toDraft_of_generate {compiler : Compiler} {source : Document} {js : Text} {map : ColumnMap}
    {g : Generated} (answer : compiler (prepare source.text).text = .compiled js map)
    (h : (generate compiler source).outcome = .ok g) :
    g.toDraft =
      { js := some (Cleanup.cleanText js)
        map := some (Cleanup.cleanedMap js map (numbers (prepare source.text).inserted)
          (numbers (prepare source.text).tweaked)) } := by
  obtain ⟨compiled, located, first, moving, last⟩ := stages_of_generate h
  have parts := toDraft_of_compiled answer first
  obtain rfl := locateDiagnostics_of_none (by rw [parts]) moving
  rcases toDraft_of_finish last with ⟨own, entries, text, mapped, final⟩ | ⟨unmapped, -⟩
  · rw [parts] at text mapped final
    obtain rfl := Option.some.inj text
    obtain rfl := Option.some.inj mapped
    exact final
  · rw [Generated.hasMap, parts] at unmapped
    cases unmapped

/-- **A source that compiles without a diagnostic** becomes its generated text and its map, and no
line of it is faked. -/
theorem parts_of_generate {source : Document} {g : Generated}
    (h : (generate LineByLine.compile source).outcome = .ok g) (clear : g.diagnostics = none) :
    g.js = some (generatedText source.text) ∧ g.map = some (generatedMap source.text) ∧
      g.fakeLine = none := by
  have compiles := (diagnostics_eq_none_iff h).1 clear
  rw [toDraft_of_generate (compile_of_compiles compiles) h, generatedText, generatedMap]
  exact ⟨rfl, rfl, rfl⟩

end Pipeline

end DialectBridge
