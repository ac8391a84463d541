import DialectBridge.Mapping.ToSource
import DialectBridge.Proofs.Targets

/-!
# The entries of a column map

A column map made from a list of mappings has entries of the list only, and one for every place the
list speaks of. Its lines hold the entries of their own numbers. From this follows what a generated
position becomes on a line all of whose entries come from one source line: it comes back to that
line, unless the generated line begins a block comment. In that case entries are not consulted, and
neither is any entry of that source line.
-/

set_option autoImplicit false

namespace DialectBridge

namespace ColumnMap

/-! ## One line -/

theorem mem_of_mem_insertColumn {ordered : List Mapping} {m x : Mapping}
    (h : x ∈ insertColumn ordered m) : x = m ∨ x ∈ ordered := by
  induction ordered with
  | nil => exact .inl (List.mem_singleton.1 h)
  | cons y rest ih =>
    unfold insertColumn at h
    split at h
    · exact List.mem_cons.1 h
    · split at h
      · exact .inr h
      · rcases List.mem_cons.1 h with rfl | inside
        · exact .inr List.mem_cons_self
        · exact (ih inside).imp_right (List.mem_cons_of_mem _)

/-- What stands in a line stays in it. -/
theorem mem_insertColumn_of_mem {ordered : List Mapping} (m : Mapping) {x : Mapping}
    (h : x ∈ ordered) : x ∈ insertColumn ordered m := by
  induction ordered with
  | nil => exact absurd h List.not_mem_nil
  | cons y rest ih =>
    unfold insertColumn
    split
    · exact List.mem_cons_of_mem _ h
    · split
      · exact h
      · rcases List.mem_cons.1 h with rfl | inside
        · exact List.mem_cons_self
        · exact List.mem_cons_of_mem _ (ih inside)

/-- The column of an inserted mapping is taken afterwards. -/
theorem exists_mem_insertColumn (ordered : List Mapping) (m : Mapping) :
    ∃ x ∈ insertColumn ordered m, x.outputColumn = m.outputColumn := by
  induction ordered with
  | nil => exact ⟨m, List.mem_singleton_self m, rfl⟩
  | cons y rest ih =>
    unfold insertColumn
    split
    · exact ⟨m, List.mem_cons_self, rfl⟩
    · split
      · next same => exact ⟨y, List.mem_cons_self, same.symm⟩
      · obtain ⟨x, inside, same⟩ := ih
        exact ⟨x, List.mem_cons_of_mem _ inside, same⟩

theorem mem_of_mem_foldl {mappings ordered : List Mapping} {x : Mapping}
    (h : x ∈ mappings.foldl insertColumn ordered) : x ∈ mappings ∨ x ∈ ordered := by
  induction mappings generalizing ordered with
  | nil => exact .inr h
  | cons m rest ih =>
    rcases ih h with inside | before
    · exact .inl (List.mem_cons_of_mem _ inside)
    · rcases mem_of_mem_insertColumn before with rfl | older
      · exact .inl List.mem_cons_self
      · exact .inr older

theorem mem_foldl_of_mem {mappings ordered : List Mapping} {x : Mapping} (h : x ∈ ordered) :
    x ∈ mappings.foldl insertColumn ordered := by
  induction mappings generalizing ordered with
  | nil => exact h
  | cons m rest ih => exact ih (mem_insertColumn_of_mem m h)

theorem exists_mem_foldl {mappings ordered : List Mapping} {m : Mapping} (h : m ∈ mappings) :
    ∃ x ∈ mappings.foldl insertColumn ordered, x.outputColumn = m.outputColumn := by
  induction mappings generalizing ordered with
  | nil => exact absurd h List.not_mem_nil
  | cons first rest ih =>
    rcases List.mem_cons.1 h with rfl | inside
    · obtain ⟨x, present, same⟩ := exists_mem_insertColumn ordered m
      refine ⟨x, ?_, same⟩
      rw [List.foldl_cons]
      exact mem_foldl_of_mem present
    · exact ih inside

/-- Insertion keeps the columns of a line apart and in order. -/
theorem pairwise_insertColumn {ordered : List Mapping}
    (h : ordered.Pairwise fun x y => x.outputColumn < y.outputColumn) (m : Mapping) :
    (insertColumn ordered m).Pairwise fun x y => x.outputColumn < y.outputColumn := by
  induction ordered with
  | nil => exact List.pairwise_singleton _ m
  | cons y rest ih =>
    obtain ⟨first, others⟩ := List.pairwise_cons.1 h
    unfold insertColumn
    split
    · next less =>
      refine List.pairwise_cons.2 ⟨fun x member => ?_, h⟩
      rcases List.mem_cons.1 member with rfl | inside
      · exact less
      · exact Int.lt_trans less (first x inside)
    · split
      · exact h
      · next unequal =>
        refine List.pairwise_cons.2 ⟨fun x member => ?_, ih others⟩
        rcases mem_of_mem_insertColumn member with rfl | inside
        · omega
        · exact first x inside

theorem pairwise_foldl {mappings ordered : List Mapping}
    (h : ordered.Pairwise fun x y => x.outputColumn < y.outputColumn) :
    (mappings.foldl insertColumn ordered).Pairwise
      fun x y => x.outputColumn < y.outputColumn := by
  induction mappings generalizing ordered with
  | nil => exact h
  | cons m rest ih => exact ih (pairwise_insertColumn h m)

/-- The entries of a line are mappings of that line. -/
theorem mem_of_mem_columnsOf {line : Int} {mappings : List Mapping} {x : Mapping}
    (h : x ∈ columnsOf line mappings) : x ∈ mappings ∧ x.outputLine = line := by
  rcases mem_of_mem_foldl h with inside | none_
  · obtain ⟨member, same⟩ := List.mem_filter.1 inside
    exact ⟨member, beq_iff_eq.1 same⟩
  · exact absurd none_ List.not_mem_nil

/-- Every mapping of a line has an entry in its column. -/
theorem exists_mem_columnsOf {mappings : List Mapping} {m : Mapping} (h : m ∈ mappings) :
    ∃ x ∈ columnsOf m.outputLine mappings, x.outputColumn = m.outputColumn :=
  exists_mem_foldl (List.mem_filter.2 ⟨h, beq_self_eq_true _⟩)

/-! ## All lines -/

theorem le_foldl_height (mappings : List Mapping) (h : Nat) :
    h ≤ mappings.foldl (fun h m => max h (m.outputLine + 1).toNat) h := by
  induction mappings generalizing h with
  | nil => exact Nat.le_refl _
  | cons m rest ih => exact Nat.le_trans (Nat.le_max_left _ _) (ih _)

/-- The height covers every line. -/
theorem lt_height {mappings : List Mapping} {m : Mapping} (h : m ∈ mappings) {k : Nat}
    (line : m.outputLine = k) : k < height mappings := by
  unfold height
  generalize 0 = start
  induction mappings generalizing start with
  | nil => exact absurd h List.not_mem_nil
  | cons first rest ih =>
    rcases List.mem_cons.1 h with rfl | inside
    · rw [List.foldl_cons, line]
      have reached := le_foldl_height rest (max start ((k : Int) + 1).toNat)
      omega
    · exact ih inside _

theorem mem_mappings_ofMappings {mappings : List Mapping} {x : Mapping} :
    x ∈ (ofMappings mappings).mappings ↔
      ∃ k < height mappings, x ∈ columnsOf (k : Nat) mappings := by
  unfold ColumnMap.mappings ofMappings
  simp only [List.mem_flatMap, List.mem_map, List.mem_range]
  constructor
  · rintro ⟨_, ⟨k, bound, rfl⟩, inside⟩
    exact ⟨k, bound, inside⟩
  · rintro ⟨k, bound, inside⟩
    exact ⟨_, ⟨k, bound, rfl⟩, inside⟩

/-- A map has no other entries than the mappings it was made from. -/
theorem mem_of_mem_mappings {mappings : List Mapping} {x : Mapping}
    (h : x ∈ (ofMappings mappings).mappings) : x ∈ mappings := by
  obtain ⟨k, -, inside⟩ := mem_mappings_ofMappings.1 h
  exact (mem_of_mem_columnsOf inside).1

/-- A map has an entry at every place of the mappings it was made from. -/
theorem exists_mem_mappings {mappings : List Mapping} {m : Mapping} (h : m ∈ mappings) {k : Nat}
    (line : m.outputLine = k) :
    ∃ x ∈ (ofMappings mappings).mappings, x.outputLine = k ∧ x.outputColumn = m.outputColumn := by
  obtain ⟨x, inside, same⟩ := exists_mem_columnsOf h
  rw [line] at inside
  exact ⟨x, mem_mappings_ofMappings.2 ⟨k, lt_height h line, inside⟩,
    (mem_of_mem_columnsOf inside).2, same⟩

/-- Two entries of a map stand at two places. -/
theorem eq_of_mem_mappings {mappings : List Mapping} {x y : Mapping}
    (hx : x ∈ (ofMappings mappings).mappings) (hy : y ∈ (ofMappings mappings).mappings)
    (line : x.outputLine = y.outputLine) (column : x.outputColumn = y.outputColumn) : x = y := by
  obtain ⟨k, -, here⟩ := mem_mappings_ofMappings.1 hx
  obtain ⟨k', -, there⟩ := mem_mappings_ofMappings.1 hy
  have own := (mem_of_mem_columnsOf here).2
  have other := (mem_of_mem_columnsOf there).2
  obtain rfl : k = k' := by omega
  have ascending : (columnsOf k mappings).Pairwise fun x y => x.outputColumn < y.outputColumn :=
    pairwise_foldl List.Pairwise.nil
  obtain ⟨i, hi, rfl⟩ := List.mem_iff_getElem.1 here
  obtain ⟨j, hj, rfl⟩ := List.mem_iff_getElem.1 there
  rcases Nat.lt_trichotomy i j with before | rfl | behind
  · have less := List.pairwise_iff_getElem.1 ascending i j hi hj before
    omega
  · rfl
  · have less := List.pairwise_iff_getElem.1 ascending j i hj hi behind
    omega

theorem getElem?_lines_ofMappings {mappings : List Mapping} {k : Nat} {line : LineMap}
    (h : (ofMappings mappings).lines[k]? = some line) :
    k < height mappings ∧ line = ⟨k, columnsOf k mappings⟩ := by
  unfold ofMappings at h
  rw [List.getElem?_map, Option.map_eq_some_iff] at h
  obtain ⟨index, found, rfl⟩ := h
  obtain ⟨bound, same⟩ := List.getElem?_eq_some_iff.1 found
  rw [List.getElem_range] at same
  rw [List.length_range] at bound
  subst same
  exact ⟨bound, rfl⟩

end ColumnMap

namespace LineMap

/-! ## The closest entry before a column -/

theorem rightmost?_eq_none_iff {mappings : List Mapping} :
    rightmost? mappings = none ↔ mappings = [] := by
  cases mappings with
  | nil => simp [rightmost?]
  | cons m rest =>
    simp only [rightmost?, reduceCtorEq, iff_false]
    split
    · split <;> exact Option.some_ne_none _
    · exact Option.some_ne_none _

/-- What is chosen is the first of the greatest: all before it are less, and none behind it is
greater. -/
theorem exists_of_rightmost? {mappings : List Mapping} {m : Mapping}
    (h : rightmost? mappings = some m) :
    ∃ before after, mappings = before ++ m :: after ∧
      (∀ x ∈ before, x.outputColumn < m.outputColumn) ∧
      ∀ x ∈ after, x.outputColumn ≤ m.outputColumn := by
  induction mappings generalizing m with
  | nil => cases h
  | cons y rest ih =>
    unfold rightmost? at h
    split at h
    · next later found =>
      obtain ⟨before, after, whole, less, le⟩ := ih found
      split at h
      · next greater =>
        cases h
        exact ⟨y :: before, after, by rw [whole, List.cons_append],
          List.forall_mem_cons.2 ⟨greater, less⟩, le⟩
      · next greatest =>
        cases h
        refine ⟨[], rest, rfl, by simp, fun x inside => ?_⟩
        rw [whole, List.mem_append, List.mem_cons] at inside
        rcases inside with front | rfl | back
        · exact Int.le_trans (Int.le_of_lt (less x front)) (Int.not_lt.1 greatest)
        · exact Int.not_lt.1 greatest
        · exact Int.le_trans (le x back) (Int.not_lt.1 greatest)
    · next nothing =>
      cases h
      rw [rightmost?_eq_none_iff] at nothing
      exact ⟨[], [], by rw [nothing, List.nil_append], by simp, by simp⟩

/-- In the order of their columns the last one has the greatest. -/
theorem rightmost?_eq_getLast? {mappings : List Mapping}
    (ascending : mappings.Pairwise fun x y => x.outputColumn < y.outputColumn) :
    rightmost? mappings = mappings.getLast? := by
  cases found : rightmost? mappings with
  | none => rw [rightmost?_eq_none_iff.1 found, List.getLast?_nil]
  | some m =>
    obtain ⟨before, after, rfl, -, le⟩ := exists_of_rightmost? found
    have greater := (List.pairwise_cons.1 (List.pairwise_append.1 ascending).2.1).1
    have last : after = [] := List.eq_nil_iff_forall_not_mem.2 fun x inside =>
      Int.not_lt.2 (le x inside) (greater x inside)
    rw [last, List.getLast?_concat]

/-- What is closest before a column is in the line, not behind the column, and nothing else that is
not behind the column is behind it. -/
theorem mem_of_closestBefore? {line : LineMap} {column : Int} {m : Mapping}
    (h : line.closestBefore? column = some m) :
    m ∈ line.columns ∧ m.outputColumn ≤ column ∧
      ∀ x ∈ line.columns, x.outputColumn ≤ column → x.outputColumn ≤ m.outputColumn := by
  obtain ⟨before, after, whole, less, le⟩ := exists_of_rightmost? h
  have mem_iff : ∀ x, x ∈ line.columns ∧ x.outputColumn ≤ column ↔
      x ∈ before ∨ x = m ∨ x ∈ after := by
    intro x
    rw [← List.mem_cons, ← List.mem_append, ← whole, List.mem_filter, decide_eq_true_eq]
  obtain ⟨inside, reached⟩ := (mem_iff m).2 (.inr (.inl rfl))
  refine ⟨inside, reached, fun x own up => ?_⟩
  rcases (mem_iff x).1 ⟨own, up⟩ with front | rfl | back
  · exact Int.le_of_lt (less x front)
  · exact Int.le_refl _
  · exact le x back

/-- On a line of a grouped map the closest entry before a column is the last one up to it. -/
theorem closestBefore?_columnsOf (k : Nat) (mappings : List Mapping) (column : Int) :
    closestBefore? ⟨k, ColumnMap.columnsOf k mappings⟩ column =
      ((ColumnMap.columnsOf k mappings).filter fun m => m.outputColumn ≤ column).getLast? :=
  rightmost?_eq_getLast? ((ColumnMap.pairwise_foldl List.Pairwise.nil).filter _)

end LineMap

namespace ToSource

open ToOutput

theorem entry?_mem {line : LineMap} {column : Int} {m : Mapping}
    (h : entry? line column = some m) : m ∈ line.columns := by
  unfold entry? at h
  rw [Option.or_eq_some_iff] at h
  rcases h with here | ⟨-, other⟩
  · exact List.mem_of_find?_eq_some here
  · rw [Option.or_eq_some_iff] at other
    rcases other with before | ⟨-, first⟩
    · exact (LineMap.mem_of_closestBefore? before).1
    · exact List.mem_of_head? first

/-- A line with entries has one for every column. -/
theorem exists_entry? {line : LineMap} (h : line.columns ≠ []) (column : Int) :
    ∃ m, entry? line column = some m := by
  obtain ⟨first, more, same⟩ := List.exists_cons_of_ne_nil h
  have some_ : line.first?.isSome = true := by
    rw [LineMap.first?, same]
    rfl
  rw [← Option.isSome_iff_exists, entry?, Option.isSome_or, Option.isSome_or, some_]
  simp

section Position

variable {js source : Text} {mappings : List Mapping} {l k bound : Nat} {q : Position}

/-- A generated position comes back to the source line of its entries, unless its line begins a
block comment. -/
theorem position?_of_not_comment
    (entries : LineEntries (.ofMappings mappings) ⟨js, ""⟩ l k bound) (line : q.line = k)
    (hl : l ≤ 2147483647)
    (plain : beginsBlockComment (Document.lineText ⟨js, ""⟩ k) = false) :
    ∃ r, position? js (.ofMappings mappings) q source = .ok (some r) ∧ r.line = l := by
  subst line
  obtain ⟨some_, known, place⟩ := entries.some_entry
  obtain ⟨index, bound', inside⟩ := ColumnMap.mem_mappings_ofMappings.1 known
  have same : index = q.line := by
    have := (ColumnMap.mem_of_mem_columnsOf inside).2
    omega
  subst same
  have here : (ColumnMap.ofMappings mappings).line? q.line =
      some ⟨q.line, ColumnMap.columnsOf q.line mappings⟩ := by
    unfold ColumnMap.line?
    rw [if_neg (by omega)]
    simp [ColumnMap.ofMappings, bound']
  obtain ⟨m, found⟩ : ∃ m, entry? ⟨q.line, ColumnMap.columnsOf q.line mappings⟩ q.character =
      some m := exists_entry? (List.ne_nil_of_mem inside) q.character
  have member : m ∈ (ColumnMap.ofMappings mappings).mappings :=
    ColumnMap.mem_mappings_ofMappings.2 ⟨q.line, bound', entry?_mem found⟩
  have output : m.outputLine = q.line := (ColumnMap.mem_of_mem_columnsOf (entry?_mem found)).2
  have origin : m.sourceLine = l := (entries.same_line m member).2 output
  obtain ⟨column, sourceColumn, small⟩ := entries.source_column m member output
  have chosen : entryOnLine? (.ofMappings mappings) js q = some m := by
    rw [entryOnLine?, plain, if_neg (by simp), here, Option.bind_some, found]
  refine ⟨⟨l, column, hl, small⟩, ?_, rfl⟩
  rw [position?, chosen]
  dsimp only
  rw [entryPosition, origin, sourceColumn, Position.make_natCast hl small]
  rfl

/-- A line found by its content is a line with that content. -/
theorem line_of_contentPosition? {character : Nat} {line inText : Text} {r : Position}
    (h : LineContent.position? character line inText = .ok (some r)) :
    ∃ found, (Text.lines inText)[r.line]? = some found ∧
      LineContent.content found = LineContent.content line := by
  unfold LineContent.position? at h
  dsimp only at h
  split at h
  · cases h
  · split at h
    · cases h
    · next found number same =>
      unfold LineContent.findLine? at same
      have content := List.find?_some same
      have inside := List.mem_of_find?_eq_some same
      rw [List.mem_zipIdx_iff_getElem?] at inside
      cases made : Position.make number (max (character -
          ((Text.find? (LineContent.content line) line).getD 0 : Nat) +
          ((Text.find? (LineContent.content line) found).getD 0 : Nat)) 0) with
      | error fault =>
        rw [made] at h
        cases h
      | ok position =>
        rw [made] at h
        obtain rfl : position = r := Option.some.inj (Except.ok.inj h)
        have number_ : position.line = number :=
          Int.ofNat.inj (Position.coordinates_of_make made).1
        rw [number_]
        exact ⟨found, inside, beq_iff_eq.1 content⟩

/-- The entries below a line are those of later lines. -/
theorem lt_outputLine_of_entryBelow? {m : Mapping}
    (h : entryBelow? (.ofMappings mappings) q = some m) :
    m ∈ (ColumnMap.ofMappings mappings).mappings ∧ (q.line : Int) < m.outputLine := by
  unfold entryBelow? at h
  obtain ⟨line, inside, first⟩ := List.exists_of_findSome?_eq_some h
  obtain ⟨index, found⟩ := List.mem_iff_getElem?.1 inside
  rw [List.getElem?_drop] at found
  obtain ⟨bound', rfl⟩ := ColumnMap.getElem?_lines_ofMappings found
  have member : m ∈ ColumnMap.columnsOf (q.line + 1 + index : Nat) mappings :=
    List.mem_of_head? first
  have output := (ColumnMap.mem_of_mem_columnsOf member).2
  exact ⟨ColumnMap.mem_mappings_ofMappings.2 ⟨_, bound', member⟩, by omega⟩

/-- Where a generated line begins a block comment and has another content than the source line of
its entries, no position comes back to that line. -/
theorem position?_of_comment
    (entries : LineEntries (.ofMappings mappings) ⟨js, ""⟩ l k bound) (line : q.line = k)
    (comment : beginsBlockComment (Document.lineText ⟨js, ""⟩ k) = true)
    (other : ∀ found, (Text.lines source)[l]? = some found →
      LineContent.content found ≠ LineContent.content (Document.lineText ⟨js, ""⟩ k))
    {r : Position} (h : position? js (.ofMappings mappings) q source = .ok (some r)) :
    r.line ≠ l := by
  subst line
  have skipped : entryOnLine? (.ofMappings mappings) js q = none := by
    rw [entryOnLine?, if_pos comment]
  rw [position?, skipped] at h
  dsimp only at h
  cases content : LineContent.position? q.character (Document.lineText ⟨js, ""⟩ q.line) source with
  | error fault =>
    rw [content] at h
    cases h
  | ok result =>
    rw [content] at h
    simp only [bind, Except.bind] at h
    cases result with
    | some position =>
      obtain rfl : position = r := Option.some.inj (Except.ok.inj h)
      rintro rfl
      obtain ⟨found, inside, same⟩ := line_of_contentPosition? content
      exact other found inside same
    | none =>
      dsimp only at h
      cases below : entryBelow? (.ofMappings mappings) q with
      | none =>
        rw [below] at h
        cases h
      | some m =>
        rw [below] at h
        dsimp only at h
        obtain ⟨member, later⟩ := lt_outputLine_of_entryBelow? below
        rintro rfl
        cases made : entryPosition m with
        | error fault =>
          rw [made] at h
          cases h
        | ok position =>
          rw [made] at h
          obtain rfl : position = r := Option.some.inj (Except.ok.inj h)
          have origin := (Position.coordinates_of_make made).1
          have output := (entries.same_line m member).1 origin.symm
          omega

end Position

end ToSource

end DialectBridge
