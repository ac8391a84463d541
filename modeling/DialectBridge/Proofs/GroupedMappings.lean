import DialectBridge.Proofs.Entries
import Mathlib.Data.List.Sort

/-!
# Grouped mappings

A column map made from a list of mappings has one entry for every generated place that the list
speaks of: the first mapping of the list that claims the place. Its entries stand in the reading
order of their places, and no two of them share one. So a map is known as soon as it is known which
entries it has, and so are the entries of each source line.

A source line that is put as a whole in the place of a generated line gives up its mappings for a
single one between the beginnings of the two lines. This mapping is grouped behind all others. It is
the only one of its source line, and all other source lines keep theirs; but where another source
line already claims the beginning of the generated line it comes too late, and the source line is
left without any mapping.
-/

set_option autoImplicit false

namespace DialectBridge

namespace Mapping

/-- Both mappings claim the same generated place. -/
def sharesPlace (x m : Mapping) : Bool :=
  m.outputLine == x.outputLine && m.outputColumn == x.outputColumn

/-- The reading order of generated places. -/
def Before (x y : Mapping) : Prop :=
  x.outputLine < y.outputLine ∨ x.outputLine = y.outputLine ∧ x.outputColumn < y.outputColumn

instance : Std.Irrefl Before := ⟨fun x before => by unfold Before at before; omega⟩

instance : Std.Antisymm Before := ⟨fun x y before after => by unfold Before at before after; omega⟩

theorem sharesPlace_iff {x m : Mapping} :
    x.sharesPlace m = true ↔ m.outputLine = x.outputLine ∧ m.outputColumn = x.outputColumn := by
  simp [sharesPlace]

end Mapping

namespace ColumnMap

/-! ## The first mapping of a place -/

section Line

variable {ordered mappings : List Mapping} {x m : Mapping}

/-- Of a line in order no two entries have the same column. -/
theorem eq_of_ascending (ascending : ordered.Pairwise fun x y => x.outputColumn < y.outputColumn)
    {y : Mapping} (hx : x ∈ ordered) (hy : y ∈ ordered) (same : x.outputColumn = y.outputColumn) :
    x = y := by
  have apart : ordered.Pairwise fun x y => x.outputColumn = y.outputColumn → x = y :=
    ascending.imp fun less equal => absurd equal (Int.ne_of_lt less)
  have turned : ordered.Pairwise (flip fun x y : Mapping =>
      x.outputColumn = y.outputColumn → x = y) :=
    ascending.imp fun less equal => absurd equal.symm (Int.ne_of_lt less)
  exact List.Pairwise.forall_of_forall_of_flip (fun _ _ _ => rfl) apart turned hx hy same

/-- A mapping is inserted where its column is free. -/
theorem mem_insertColumn_iff
    (ascending : ordered.Pairwise fun x y => x.outputColumn < y.outputColumn) :
    x ∈ insertColumn ordered m ↔
      x ∈ ordered ∨ x = m ∧ ∀ y ∈ ordered, y.outputColumn ≠ m.outputColumn := by
  constructor
  · intro member
    rcases mem_of_mem_insertColumn member with rfl | before
    · by_cases known : x ∈ ordered
      · exact .inl known
      · refine .inr ⟨rfl, fun y inside same => known ?_⟩
        rw [← eq_of_ascending (pairwise_insertColumn ascending x)
          (mem_insertColumn_of_mem x inside) member same]
        exact inside
    · exact .inl before
  · rintro (before | ⟨rfl, free⟩)
    · exact mem_insertColumn_of_mem m before
    · obtain ⟨y, inside, same⟩ := exists_mem_insertColumn ordered x
      rcases mem_of_mem_insertColumn inside with rfl | older
      · exact inside
      · exact absurd same (free y older)

/-- **Insertion one after the other keeps the first mapping of every column** that is free. -/
theorem mem_foldl_insertColumn_iff
    (ascending : ordered.Pairwise fun x y => x.outputColumn < y.outputColumn) :
    x ∈ mappings.foldl insertColumn ordered ↔
      x ∈ ordered ∨ (∀ y ∈ ordered, y.outputColumn ≠ x.outputColumn) ∧
        mappings.find? (fun m => m.outputColumn == x.outputColumn) = some x := by
  induction mappings generalizing ordered with
  | nil => simp
  | cons m rest ih =>
    rw [List.foldl_cons, ih (pairwise_insertColumn ascending m), List.find?_cons]
    by_cases same : m.outputColumn = x.outputColumn
    · have taken : ¬ ∀ y ∈ insertColumn ordered m, y.outputColumn ≠ x.outputColumn := by
        obtain ⟨y, inside, column⟩ := exists_mem_insertColumn ordered m
        exact fun free => free y inside (column.trans same)
      rw [mem_insertColumn_iff ascending, beq_iff_eq.2 same]
      constructor
      · rintro ((before | ⟨rfl, free⟩) | ⟨free, -⟩)
        · exact .inl before
        · exact .inr ⟨free, rfl⟩
        · exact absurd free taken
      · rintro (before | ⟨free, first⟩)
        · exact .inl (.inl before)
        · obtain rfl := Option.some.inj first
          exact .inl (.inr ⟨rfl, free⟩)
    · have columns : (∀ y ∈ insertColumn ordered m, y.outputColumn ≠ x.outputColumn) ↔
          ∀ y ∈ ordered, y.outputColumn ≠ x.outputColumn := by
        refine ⟨fun free y inside => free y (mem_insertColumn_of_mem m inside), ?_⟩
        intro free y inside
        rcases mem_of_mem_insertColumn inside with rfl | older
        · exact same
        · exact free y older
      have other : x ∈ insertColumn ordered m ↔ x ∈ ordered := by
        rw [mem_insertColumn_iff ascending, or_iff_left]
        rintro ⟨rfl, -⟩
        exact same rfl
      rw [other, columns, beq_eq_false_iff_ne.2 same]

/-- The entries of a generated line are the first mappings of its places. -/
theorem mem_columnsOf_iff {line : Int} :
    x ∈ columnsOf line mappings ↔
      x.outputLine = line ∧ mappings.find? x.sharesPlace = some x := by
  have places : x.outputLine = line → (mappings.filter fun m => m.outputLine == line).find?
      (fun m => m.outputColumn == x.outputColumn) = mappings.find? x.sharesPlace := by
    rintro rfl
    rw [List.find?_filter]
    congr 1
    funext m
    rw [Bool.decide_and, Bool.decide_eq_true, Bool.decide_eq_true, Mapping.sharesPlace]
  unfold columnsOf
  rw [mem_foldl_insertColumn_iff List.Pairwise.nil]
  simp only [List.not_mem_nil, false_or, IsEmpty.forall_iff, implies_true, true_and]
  constructor
  · intro first
    have own : x.outputLine = line :=
      beq_iff_eq.1 (List.mem_filter.1 (List.mem_of_find?_eq_some first)).2
    exact ⟨own, (places own).symm.trans first⟩
  · rintro ⟨own, first⟩
    exact (places own).trans first

end Line

section Map

variable {mappings mappings' : List Mapping} {x y : Mapping}

/-- **A grouped map has the first mapping of every place** on a line that exists. -/
theorem mem_mappings_ofMappings_iff :
    x ∈ (ofMappings mappings).mappings ↔
      0 ≤ x.outputLine ∧ mappings.find? x.sharesPlace = some x := by
  rw [mem_mappings_ofMappings]
  constructor
  · rintro ⟨k, -, inside⟩
    obtain ⟨own, first⟩ := mem_columnsOf_iff.1 inside
    exact ⟨by omega, first⟩
  · rintro ⟨counted, first⟩
    have own : x.outputLine = (x.outputLine.toNat : Nat) := by omega
    exact ⟨x.outputLine.toNat, lt_height (List.mem_of_find?_eq_some first) own,
      mem_columnsOf_iff.2 ⟨own, first⟩⟩

/-- An entry of a grouped map is the first of its place. -/
theorem find?_sharesPlace (known : x ∈ (ofMappings mappings).mappings) :
    (ofMappings mappings).mappings.find? x.sharesPlace = some x := by
  cases found : (ofMappings mappings).mappings.find? x.sharesPlace with
  | none => exact absurd (Mapping.sharesPlace_iff.2 ⟨rfl, rfl⟩) (List.find?_eq_none.1 found x known)
  | some first =>
    obtain ⟨line, column⟩ := Mapping.sharesPlace_iff.1 (List.find?_some found)
    rw [eq_of_mem_mappings (List.mem_of_find?_eq_some found) known line column]

/-- The entries of a generated line stand in the order of their columns. -/
theorem pairwise_columnsOf (line : Int) (mappings : List Mapping) :
    (columnsOf line mappings).Pairwise Mapping.Before := by
  have ascending : (columnsOf line mappings).Pairwise fun x y => x.outputColumn < y.outputColumn :=
    pairwise_foldl List.Pairwise.nil
  refine ascending.imp_of_mem fun hx hy less => .inr ⟨?_, less⟩
  exact (mem_of_mem_columnsOf hx).2.trans (mem_of_mem_columnsOf hy).2.symm

/-- **The entries of a grouped map stand in reading order.** -/
theorem pairwise_mappings_ofMappings (mappings : List Mapping) :
    (ofMappings mappings).mappings.Pairwise Mapping.Before := by
  unfold ColumnMap.mappings ofMappings
  rw [List.flatMap_map, List.pairwise_flatMap]
  refine ⟨fun k _ => pairwise_columnsOf k mappings,
    List.pairwise_lt_range.imp fun less x hx y hy => ?_⟩
  left
  rw [(mem_of_mem_columnsOf hx).2, (mem_of_mem_columnsOf hy).2]
  omega

theorem mem_forSourceLine {map : ColumnMap} {line : Int} :
    x ∈ map.forSourceLine line ↔ x ∈ map.mappings ∧ x.sourceLine = line := by
  rw [forSourceLine, List.mem_filter, beq_iff_eq]

/-- In a map in reading order the entries of a source line are known by what they are. -/
theorem forSourceLine_eq_of_mem_iff {map : ColumnMap} {line : Int} {entries : List Mapping}
    (order : map.mappings.Pairwise Mapping.Before) (ascending : entries.Pairwise Mapping.Before)
    (same : ∀ x, x ∈ map.mappings ∧ x.sourceLine = line ↔ x ∈ entries) :
    map.forSourceLine line = entries :=
  (order.filter _).eq_of_mem_iff ascending fun x => mem_forSourceLine.trans (same x)

/-! ## Collapsing a source line -/

/-- The beginning of a generated line is claimed by another source line. -/
def BeginsElsewhere (map : ColumnMap) (source output : Int) : Prop :=
  ∃ m ∈ map.mappings, m.sourceLine ≠ source ∧ m.outputLine = output ∧ m.outputColumn = 0

instance (map : ColumnMap) (source output : Int) : Decidable (map.BeginsElsewhere source output) :=
  inferInstanceAs (Decidable (∃ m ∈ map.mappings,
    m.sourceLine ≠ source ∧ m.outputLine = output ∧ m.outputColumn = 0))

/-- The entries of a map in which a source line was collapsed. -/
theorem mem_mappings_collapse_iff {source : Int} {output : Nat} :
    x ∈ ((ofMappings mappings).collapse source output).mappings ↔
      x ∈ (ofMappings mappings).mappings ∧ x.sourceLine ≠ source ∨
        x = ⟨source, 0, output, 0⟩ ∧ ¬ (ofMappings mappings).BeginsElsewhere source output := by
  let others := (ofMappings mappings).mappings.filter fun m => m.sourceLine != source
  have mem_others : ∀ m, m ∈ others ↔
      m ∈ (ofMappings mappings).mappings ∧ m.sourceLine ≠ source := by
    intro m
    rw [List.mem_filter, bne_iff_ne]
  -- The other source lines have one mapping at a place, so each of them is the first there.
  have own : others.find? x.sharesPlace = some x ↔ x ∈ others := by
    refine ⟨List.mem_of_find?_eq_some, fun member => ?_⟩
    obtain ⟨first, found⟩ := Option.isSome_iff_exists.1
      (List.find?_isSome.2 ⟨x, member, Mapping.sharesPlace_iff.2 ⟨rfl, rfl⟩⟩)
    obtain ⟨line, column⟩ := Mapping.sharesPlace_iff.1 (List.find?_some found)
    rw [found, eq_of_mem_mappings ((mem_others _).1 (List.mem_of_find?_eq_some found)).1
      ((mem_others _).1 member).1 line column]
  have free : others.find? (Mapping.sharesPlace ⟨source, 0, output, 0⟩) = none ↔
      ¬ (ofMappings mappings).BeginsElsewhere source output := by
    rw [List.find?_eq_none, BeginsElsewhere, not_exists]
    refine forall_congr' fun m => ?_
    rw [mem_others, Mapping.sharesPlace_iff]
    exact ⟨fun apart ⟨known, other, place⟩ => apart ⟨known, other⟩ place,
      fun apart ⟨known, other⟩ place => apart ⟨known, other, place⟩⟩
  unfold collapse
  rw [mem_mappings_ofMappings_iff, List.find?_append, Option.or_eq_some_iff, own, mem_others]
  constructor
  · rintro ⟨-, old | ⟨none_, new⟩⟩
    · exact .inl old
    · obtain rfl := List.mem_singleton.1 (List.mem_of_find?_eq_some new)
      exact .inr ⟨rfl, free.1 none_⟩
  · rintro (old | ⟨rfl, untaken⟩)
    · exact ⟨(mem_mappings_ofMappings_iff.1 old.1).1, .inl old⟩
    · refine ⟨Int.natCast_nonneg output, .inr ⟨free.2 untaken, ?_⟩⟩
      simp [Mapping.sharesPlace]

end Map

/-- **A source line that is collapsed has one mapping, between the beginnings of both lines**, if no
other source line claims the beginning of the generated line, and otherwise none at all. The other
source lines keep their mappings. -/
theorem forSourceLine_collapse (mappings : List Mapping) (source : Int) (output : Nat) :
    ((ofMappings mappings).collapse source output).forSourceLine source =
        (if (ofMappings mappings).BeginsElsewhere source output then []
          else [⟨source, 0, output, 0⟩]) ∧
      ∀ other, other ≠ source →
        ((ofMappings mappings).collapse source output).forSourceLine other =
          (ofMappings mappings).forSourceLine other := by
  have order : ((ofMappings mappings).collapse source output).mappings.Pairwise Mapping.Before :=
    pairwise_mappings_ofMappings _
  constructor
  · by_cases taken : (ofMappings mappings).BeginsElsewhere source output
    · rw [if_pos taken]
      refine forSourceLine_eq_of_mem_iff order .nil fun x => ?_
      rw [mem_mappings_collapse_iff]
      refine iff_of_false ?_ List.not_mem_nil
      rintro ⟨⟨-, other⟩ | ⟨-, untaken⟩, own⟩
      · exact other own
      · exact untaken taken
    · rw [if_neg taken]
      refine forSourceLine_eq_of_mem_iff order (List.pairwise_singleton _ _) fun x => ?_
      rw [mem_mappings_collapse_iff, List.mem_singleton]
      constructor
      · rintro ⟨⟨-, other⟩ | ⟨new, -⟩, own⟩
        · exact absurd own other
        · exact new
      · rintro rfl
        exact ⟨.inr ⟨rfl, taken⟩, rfl⟩
  · intro other distinct
    have sorted := (pairwise_mappings_ofMappings mappings).filter (·.sourceLine == other)
    refine forSourceLine_eq_of_mem_iff order sorted fun x => ?_
    rw [mem_mappings_collapse_iff, mem_forSourceLine]
    constructor
    · rintro ⟨⟨known, -⟩ | ⟨rfl, -⟩, own⟩
      · exact ⟨known, own⟩
      · exact absurd own.symm distinct
    · rintro ⟨known, rfl⟩
      exact ⟨.inl ⟨known, distinct⟩, rfl⟩

/-- Three source lines of which two were merged: the third one is collapsed onto the generated line
below them. -/
theorem forSourceLine_collapse_below_merged :
    let map := ofMappings [⟨0, 0, 0, 0⟩, ⟨1, 2, 0, 4⟩, ⟨2, 0, 1, 0⟩, ⟨2, 4, 1, 4⟩]
    ¬ map.BeginsElsewhere 2 1 ∧ (map.collapse 2 1).forSourceLine 2 = [⟨2, 0, 1, 0⟩] ∧
      (map.collapse 2 1).forSourceLine 1 = map.forSourceLine 1 := by
  intro map
  have free : ¬ map.BeginsElsewhere 2 1 := by decide
  have collapsed := forSourceLine_collapse
    [⟨0, 0, 0, 0⟩, ⟨1, 2, 0, 4⟩, ⟨2, 0, 1, 0⟩, ⟨2, 4, 1, 4⟩] 2 1
  exact ⟨free, collapsed.1.trans (if_neg free), collapsed.2 1 (by decide)⟩

/-- **A collapsed source line loses all its mappings** where it was merged into the generated line
of the source line above it. -/
theorem forSourceLine_collapse_merged :
    let map := ofMappings [⟨0, 0, 0, 0⟩, ⟨1, 0, 0, 2⟩]
    map.forSourceLine 1 ≠ [] ∧ (map.collapse 1 0).forSourceLine 1 = [] ∧
      (map.collapse 1 0).forSourceLine 1 ≠ [⟨1, 0, 0, 0⟩] := by
  decide

end ColumnMap

end DialectBridge
