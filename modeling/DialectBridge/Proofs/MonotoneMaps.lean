import DialectBridge.Proofs.GroupedMappings
import DialectBridge.Proofs.Overruns
import Mathlib.Data.List.Flatten

/-!
# Monotone maps

On the way back to the source, a generated position follows the last entry of its line that is not
behind it. Where there is none, it follows the first entry from the beginning of its line on, be it
on the same line or further down. These two cases (`Answers`) are all there is, however the entry
was looked for; only a line that begins a block comment, or one without entries whose content stands
in the source, is found in another way (`FollowsMap` says that it is not).

Of two positions the later one does not follow an earlier entry. So where the source places of the
entries ascend with their generated places, the source positions ascend as well, and no range is
turned around. The main result is `Generated.toSource_monotone`.
-/

set_option autoImplicit false

namespace DialectBridge

namespace Mapping

/-- The source place of a mapping is not behind that of another one. -/
def SourceLE (x y : Mapping) : Prop :=
  x.sourceLine < y.sourceLine ∨ x.sourceLine = y.sourceLine ∧ x.sourceColumn ≤ y.sourceColumn

instance : DecidableRel SourceLE := fun x y =>
  inferInstanceAs (Decidable (x.sourceLine < y.sourceLine ∨
    x.sourceLine = y.sourceLine ∧ x.sourceColumn ≤ y.sourceColumn))

theorem SourceLE.refl (x : Mapping) : x.SourceLE x := .inr ⟨rfl, Int.le_refl _⟩

theorem Before.not_before {x y : Mapping} (h : x.Before y) : ¬ y.Before x := by
  unfold Before at h ⊢
  omega

end Mapping

namespace ColumnMap

section Entries

variable {mappings : List Mapping} {x y : Mapping} {k : Nat}

/-- The entries of a line are those with its number. -/
theorem mem_columnsOf_natCast_iff :
    x ∈ columnsOf (k : Nat) mappings ↔ x ∈ (ofMappings mappings).mappings ∧ x.outputLine = k := by
  rw [mem_columnsOf_iff, mem_mappings_ofMappings_iff]
  constructor
  · rintro ⟨line, first⟩
    exact ⟨⟨by omega, first⟩, line⟩
  · rintro ⟨⟨-, first⟩, line⟩
    exact ⟨line, first⟩

/-- The line with a number, also behind the last one. -/
theorem line?_bind_entry? (column : Int) :
    (((ofMappings mappings).line? k).bind fun line => ToSource.entry? line column) =
      ToSource.entry? ⟨k, columnsOf k mappings⟩ column := by
  unfold line?
  rw [if_neg (by omega), Int.toNat_natCast]
  by_cases inside : k < height mappings
  · simp [ofMappings, inside]
  · have empty : columnsOf k mappings = [] := List.eq_nil_iff_forall_not_mem.2 fun m member =>
      inside (lt_height (mem_of_mem_columnsOf member).1 (mem_of_mem_columnsOf member).2)
    simp [ofMappings, inside, empty, ToSource.entry?, LineMap.at?, LineMap.closestBefore?,
      LineMap.rightmost?, LineMap.first?]

/-- The entries below a line are those with a greater number. -/
theorem mem_drop_lines_iff :
    x ∈ ((ofMappings mappings).lines.drop (k + 1)).flatMap (·.columns) ↔
      x ∈ (ofMappings mappings).mappings ∧ (k : Int) < x.outputLine := by
  rw [mem_mappings_ofMappings, List.mem_flatMap]
  constructor
  · rintro ⟨line, below, inside⟩
    obtain ⟨i, found⟩ := List.mem_iff_getElem?.1 below
    rw [List.getElem?_drop] at found
    obtain ⟨bound, rfl⟩ := getElem?_lines_ofMappings found
    have own := (mem_of_mem_columnsOf inside).2
    exact ⟨⟨_, bound, inside⟩, by omega⟩
  · rintro ⟨⟨j, bound, inside⟩, later⟩
    have own := (mem_of_mem_columnsOf inside).2
    refine ⟨⟨j, columnsOf j mappings⟩, List.mem_iff_getElem?.2 ⟨j - (k + 1), ?_⟩, inside⟩
    rw [List.getElem?_drop, Nat.add_sub_cancel' (by omega)]
    simp [ofMappings, bound]

/-- **Where the source places ascend, entries in reading order have source places in order.** -/
theorem sourceLE_of_not_before
    (ascending : (ofMappings mappings).mappings.Pairwise Mapping.SourceLE)
    (hx : x ∈ (ofMappings mappings).mappings) (hy : y ∈ (ofMappings mappings).mappings)
    (order : ¬ y.Before x) : x.SourceLE y := by
  have forwards : (ofMappings mappings).mappings.Pairwise fun x y =>
      ¬ y.Before x → x.SourceLE y := ascending.imp fun {x y} less (_ : ¬ y.Before x) => less
  have backwards : (ofMappings mappings).mappings.Pairwise (flip fun x y : Mapping =>
      ¬ y.Before x → x.SourceLE y) :=
    (pairwise_mappings_ofMappings mappings).imp fun before late => absurd before late
  exact List.Pairwise.forall_of_forall_of_flip (fun x _ _ => Mapping.SourceLE.refl x) forwards
    backwards hx hy order

end Entries

end ColumnMap

namespace ToSource

/-! ## The entry that answers -/

/-- The entry that a generated position follows: the last one of its line that is not behind it or,
if all are, the first one from the beginning of its line on. -/
inductive Answers (map : ColumnMap) (p : Position) (m : Mapping) : Prop
  | reached (line : m.outputLine = p.line) (column : m.outputColumn ≤ p.character)
      (last : ∀ x ∈ map.mappings, x.outputLine = p.line → x.outputColumn ≤ p.character →
        ¬ m.Before x)
  | ahead (later : (p.line : Int) ≤ m.outputLine)
      (none_ : ∀ x ∈ map.mappings, x.outputLine = p.line → (p.character : Int) < x.outputColumn)
      (first : ∀ x ∈ map.mappings, (p.line : Int) ≤ x.outputLine → ¬ x.Before m)

/-- The entry of a generated position, if content is not asked. -/
def entryFor? (map : ColumnMap) (p : Position) : Option Mapping :=
  ((map.line? p.line).bind fun line => entry? line p.character).or (entryBelow? map p)

/-- A generated line is left to the map: it begins no block comment, and it has an entry, or its
content, if there is any, is not that of a source line. -/
def FollowsMap (js : Text) (map : ColumnMap) (source : Text) (k : Nat) : Prop :=
  beginsBlockComment (Document.lineText ⟨js, ""⟩ k) = false ∧
    ((∃ m ∈ map.mappings, m.outputLine = k) ∨
      LineContent.content (Document.lineText ⟨js, ""⟩ k) = [] ∨
      ∀ line ∈ Text.lines source,
        LineContent.content line ≠ LineContent.content (Document.lineText ⟨js, ""⟩ k))

instance (js : Text) (map : ColumnMap) (source : Text) (k : Nat) :
    Decidable (FollowsMap js map source k) :=
  inferInstanceAs (Decidable (_ = false ∧ ((∃ m ∈ map.mappings, m.outputLine = (k : Int)) ∨
    LineContent.content (Document.lineText ⟨js, ""⟩ k) = [] ∨
    ∀ line ∈ Text.lines source,
      LineContent.content line ≠ LineContent.content (Document.lineText ⟨js, ""⟩ k))))

section Answers

variable {mappings : List Mapping} {p q : Position} {m m' : Mapping}

/-- Of entries in the order of their columns, the one that is chosen is the last one up to a column,
or the first one if all are behind the column. -/
theorem entry?_cases {line : LineMap} {column : Int}
    (ascending : line.columns.Pairwise fun x y => x.outputColumn < y.outputColumn)
    (h : entry? line column = some m) :
    (m.outputColumn ≤ column ∧
        ∀ x ∈ line.columns, x.outputColumn ≤ column → x.outputColumn ≤ m.outputColumn) ∨
      (∀ x ∈ line.columns, column < x.outputColumn) ∧
        ∀ x ∈ line.columns, m.outputColumn ≤ x.outputColumn := by
  unfold entry? at h
  rcases Option.or_eq_some_iff.1 h with exact_ | ⟨-, other⟩
  · have same : m.outputColumn = column := by simpa using List.find?_some exact_
    exact .inl ⟨by omega, fun x _ reached => by omega⟩
  rcases Option.or_eq_some_iff.1 other with closest | ⟨none_, first⟩
  · obtain ⟨-, reached, last⟩ := LineMap.mem_of_closestBefore? closest
    exact .inl ⟨reached, last⟩
  · obtain ⟨rest, whole⟩ := List.head?_eq_some_iff.1 first
    refine .inr ⟨fun x inside => ?_, fun x inside => ?_⟩
    · have behind := List.filter_eq_nil_iff.1 (LineMap.rightmost?_eq_none_iff.1 none_) x inside
      exact Int.not_le.1 fun reached => behind (decide_eq_true reached)
    · rw [whole] at ascending inside
      rcases List.mem_cons.1 inside with rfl | later
      · exact Int.le_refl _
      · exact Int.le_of_lt ((List.pairwise_cons.1 ascending).1 x later)

/-- A line on which a mapping has its place has an entry for every column. -/
theorem exists_entry?_of_mem {k : Nat} (h : m ∈ (ColumnMap.ofMappings mappings).mappings)
    (line : m.outputLine = k) (column : Int) :
    ∃ m, entry? ⟨k, ColumnMap.columnsOf k mappings⟩ column = some m :=
  exists_entry? (List.ne_nil_of_mem (ColumnMap.mem_columnsOf_natCast_iff.2 ⟨h, line⟩)) column

/-- **What answers for a generated position is the entry it follows.** -/
theorem answers_of_entryFor? (h : entryFor? (.ofMappings mappings) p = some m) :
    m ∈ (ColumnMap.ofMappings mappings).mappings ∧ Answers (.ofMappings mappings) p m := by
  rw [entryFor?, ColumnMap.line?_bind_entry?] at h
  rcases Option.or_eq_some_iff.1 h with own | ⟨none_, below⟩
  · obtain ⟨known, line⟩ := ColumnMap.mem_columnsOf_natCast_iff.1 (entry?_mem own)
    refine ⟨known, ?_⟩
    rcases entry?_cases (ColumnMap.pairwise_foldl List.Pairwise.nil) own with
      ⟨column, last⟩ | ⟨behind, first⟩
    · refine .reached line column fun x inside same reached before => ?_
      have le := last x (ColumnMap.mem_columnsOf_natCast_iff.2 ⟨inside, same⟩) reached
      unfold Mapping.Before at before
      omega
    · refine .ahead (by omega) (fun x inside same =>
        behind x (ColumnMap.mem_columnsOf_natCast_iff.2 ⟨inside, same⟩)) ?_
      intro x inside later before
      -- An entry from this line on that is in front of one of this line is on this line, too.
      unfold Mapping.Before at before
      have same : x.outputLine = p.line := by omega
      have le := first x (ColumnMap.mem_columnsOf_natCast_iff.2 ⟨inside, same⟩)
      omega
  · have empty : ∀ x ∈ (ColumnMap.ofMappings mappings).mappings, x.outputLine ≠ p.line := by
      intro x inside same
      obtain ⟨m, found⟩ := exists_entry?_of_mem inside same p.character
      cases none_.symm.trans found
    obtain ⟨rest, whole⟩ := List.head?_eq_some_iff.1 (List.head?_flatMap.trans below)
    have sorted := (ColumnMap.pairwise_mappings_ofMappings mappings).sublist
      ((List.drop_sublist (p.line + 1) (ColumnMap.ofMappings mappings).lines).flatMap (·.columns))
    rw [whole] at sorted
    have later : ∀ x, x ∈ (ColumnMap.ofMappings mappings).mappings ∧ (p.line : Int) < x.outputLine ↔
        x = m ∨ x ∈ rest := by
      intro x
      rw [← ColumnMap.mem_drop_lines_iff, whole, List.mem_cons]
    obtain ⟨known, behind⟩ := (later m).2 (.inl rfl)
    refine ⟨known, .ahead (Int.le_of_lt behind) (fun x inside same => absurd same (empty x inside))
      fun x inside reached before => ?_⟩
    have apart := empty x inside
    rcases (later x).1 ⟨inside, by omega⟩ with rfl | further
    · exact before.not_before before
    · exact before.not_before ((List.pairwise_cons.1 sorted).1 x further)

/-- **Of two positions the later one does not follow an earlier entry.** -/
theorem Answers.not_before {map : ColumnMap} (order : q.before p = false)
    (known : m ∈ map.mappings) (known' : m' ∈ map.mappings) (hp : Answers map p m)
    (hq : Answers map q m') : ¬ m'.Before m := by
  have lines : p.line ≤ q.line ∧ (p.line = q.line → p.character ≤ q.character) := by
    unfold Position.before at order
    grind
  intro before
  cases hp with
  | ahead later none_ first =>
    -- The later position follows an entry from the beginning of its own line on, at least.
    refine first m' known' ?_ before
    cases hq with
    | reached line' _ _ => omega
    | ahead later' _ _ => omega
  | reached line column last =>
    have below : (q.line : Int) ≤ m'.outputLine := by
      cases hq with
      | reached line' _ _ => omega
      | ahead later' _ _ => exact later'
    have same : m.outputLine = q.line := by
      unfold Mapping.Before at before
      omega
    have reached : m.outputColumn ≤ q.character := by
      have further := lines.2 (by omega)
      omega
    cases hq with
    | reached _ _ last' => exact last' m known same reached before
    | ahead _ none_' _ => exact absurd (none_' m known same) (Int.not_lt.2 reached)

/-- A line whose content is empty, or nowhere in a text, is not found there. -/
theorem contentPosition?_eq_none {line inText : Text} (character : Nat)
    (unknown : LineContent.content line = [] ∨
      ∀ other ∈ Text.lines inText, LineContent.content other ≠ LineContent.content line) :
    LineContent.position? character line inText = .ok none := by
  unfold LineContent.position?
  dsimp only
  rcases unknown with empty | other
  · simp [empty]
  · have none_ : LineContent.findLine? (LineContent.content line) (Text.lines inText) = none := by
      refine List.find?_eq_none.2 fun entry inside same => ?_
      exact other _ (List.fst_mem_of_mem_zipIdx inside) (beq_iff_eq.1 same)
    rw [none_]
    simp

/-- A generated line that is left to the map is found by the entry for it. -/
theorem position?_of_followsMap {js source : Text}
    (follows : FollowsMap js (.ofMappings mappings) source p.line) :
    position? js (.ofMappings mappings) p source =
      match entryFor? (.ofMappings mappings) p with
      | some m => (entryPosition m).map some
      | none => .ok none := by
  obtain ⟨plain, known⟩ := follows
  unfold position? entryOnLine? entryFor?
  rw [plain, if_neg (by decide), ColumnMap.line?_bind_entry?]
  cases own : entry? ⟨p.line, ColumnMap.columnsOf p.line mappings⟩ p.character with
  | some m => rfl
  | none =>
    have unknown : LineContent.position? p.character (Document.lineText ⟨js, ""⟩ p.line) source =
        .ok none := by
      refine contentPosition?_eq_none _ (known.resolve_left ?_)
      rintro ⟨m, inside, line⟩
      obtain ⟨m, found⟩ := exists_entry?_of_mem inside line p.character
      cases own.symm.trans found
    rw [unknown]
    rfl

end Answers

end ToSource

/-- Entries whose source places are in order have source positions in order. -/
theorem Mapping.SourceLE.not_before {x y : Mapping} (h : x.SourceLE y) {r s : Position}
    (hr : ToSource.entryPosition x = .ok r) (hs : ToSource.entryPosition y = .ok s) :
    s.before r = false := by
  obtain ⟨line, column⟩ := Position.coordinates_of_make hr
  obtain ⟨line', column'⟩ := Position.coordinates_of_make hs
  unfold Mapping.SourceLE at h
  unfold Position.before
  grind

namespace Generated

open ToSource

/-- A generated position on a line that is left to the map comes back to the source place of the
entry it follows. -/
theorem exists_answers_of_toSource {g : Generated} {js source : Text} {mappings : List Mapping}
    {p r : Position} (text : g.js = some js) (mapped : g.map = some (.ofMappings mappings))
    (follows : FollowsMap js (.ofMappings mappings) source p.line)
    (h : g.toSource p source = .ok (some r)) :
    ∃ m ∈ (ColumnMap.ofMappings mappings).mappings,
      Answers (.ofMappings mappings) p m ∧ entryPosition m = .ok r := by
  rw [toSource, text, mapped] at h
  dsimp only at h
  rw [position?_of_followsMap follows] at h
  cases found : entryFor? (.ofMappings mappings) p with
  | none =>
    rw [found] at h
    cases h
  | some m =>
    obtain ⟨known, answers⟩ := answers_of_entryFor? found
    rw [found] at h
    refine ⟨m, known, answers, ?_⟩
    dsimp only at h
    cases made : entryPosition m with
    | error fault =>
      rw [made] at h
      cases h
    | ok position =>
      rw [made] at h
      rw [Option.some.inj (Except.ok.inj h)]

/-- The ends of a source range are the source positions of the ends of the generated range. -/
theorem ends_of_rangeToSource {g : Generated} {range found : Range} {source : Text}
    (h : g.rangeToSource range source = .ok (some found)) :
    g.toSource range.start source = .ok (some found.start) ∧
      g.toSource range.stop source = .ok (some found.stop) := by
  unfold rangeToSource at h
  obtain ⟨start, first, h⟩ := exists_ok_of_bind h
  obtain ⟨stop, second, h⟩ := exists_ok_of_bind h
  cases start with
  | none => cases Except.ok.inj h
  | some start =>
    cases stop with
    | none => cases Except.ok.inj h
    | some stop =>
      obtain rfl := Option.some.inj (Except.ok.inj h)
      exact ⟨first, second⟩

/-- **Where the source places of a map ascend, so do the source positions** of generated positions
on lines that are left to the map: of two positions the later one does not come back to an earlier
place, and the range between them is not turned around. -/
theorem toSource_monotone (g : Generated) (js source : Text) (mappings : List Mapping)
    (p q : Position) (text : g.js = some js) (mapped : g.map = some (.ofMappings mappings))
    (ascending : (ColumnMap.ofMappings mappings).mappings.Pairwise Mapping.SourceLE)
    (order : q.before p = false)
    (start : FollowsMap js (.ofMappings mappings) source p.line)
    (stop : FollowsMap js (.ofMappings mappings) source q.line) :
    (∀ r s, g.toSource p source = .ok (some r) → g.toSource q source = .ok (some s) →
        s.before r = false) ∧
      ∀ range, g.rangeToSource ⟨p, q⟩ source = .ok (some range) → range.isInverted = false := by
  have monotone : ∀ r s, g.toSource p source = .ok (some r) → g.toSource q source = .ok (some s) →
      s.before r = false := by
    intro r s first second
    obtain ⟨m, known, answers, made⟩ := exists_answers_of_toSource text mapped start first
    obtain ⟨m', known', answers', made'⟩ := exists_answers_of_toSource text mapped stop second
    have later : ¬ m'.Before m := answers.not_before order known known' answers'
    exact (ColumnMap.sourceLE_of_not_before ascending known known' later).not_before made made'
  refine ⟨monotone, fun range h => ?_⟩
  obtain ⟨first, second⟩ := ends_of_rangeToSource h
  exact monotone range.start range.stop first second

/-- The range from the end of the first statement to the blank line behind it: its start follows the
closest entry before it, its end the first entry below. -/
theorem toSource_monotone_to_blank_line :
    let js : Text := "f(1);\n\ng(2);".toList
    let source : Text := "f 1\ng 2".toList
    let p : Position := ⟨0, 4, by decide, by decide⟩
    let q : Position := ⟨1, 0, by decide, by decide⟩
    let found : Range := ⟨⟨0, 2, by decide, by decide⟩, ⟨1, 0, by decide, by decide⟩⟩
    ∃ g : Generated, g.js = some js ∧ g.rangeToSource ⟨p, q⟩ source = .ok (some found) ∧
      found.stop.before found.start = false ∧ found.isInverted = false := by
  intro js source p q found
  let entries : List Mapping := [⟨0, 0, 0, 0⟩, ⟨0, 2, 0, 2⟩, ⟨1, 0, 2, 0⟩, ⟨1, 2, 2, 2⟩]
  let g : Generated := ⟨{ js := some js, map := some (.ofMappings entries) }, by decide⟩
  have made : g.rangeToSource ⟨p, q⟩ source = .ok (some found) := by decide +kernel
  obtain ⟨first, second⟩ := ends_of_rangeToSource made
  obtain ⟨positions, ranges⟩ := toSource_monotone g js source entries p q rfl rfl
    (by decide +kernel) (by decide) (by decide +kernel) (by decide +kernel)
  exact ⟨g, rfl, made, positions _ _ first second, ranges found made⟩

end Generated

end DialectBridge
