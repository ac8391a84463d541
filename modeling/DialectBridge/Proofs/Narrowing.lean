import DialectBridge.Cleanup.Declarations
import DialectBridge.Proofs.Entries

/-!
# What narrowing does to a line

A declaration line has no assignment sign in it, so it is never itself the place of a narrowing, and
a variable is narrowed on a later line than the one that declares it. Carrying narrowings out
inserts the keyword behind the indentation of some lines, once for every narrowing found there, and
rewrites declaration lines. Mappings move along: each new mapping has the source place and the line
of an old one, and it stays before the end of its line.

The lines and the mappings change in the same steps, so one relation between a line and the mappings
of the map is kept through all of them.
-/

set_option autoImplicit false

namespace DialectBridge

namespace Declarations

/-! ## Names -/

/-- Joining takes splitting back. -/
theorem joinNames_splitNames (t : Text) :
    splitNames t ≠ [] ∧ joinNames (splitNames t) = t := by
  fun_induction splitNames t with
  | case1 => exact ⟨List.cons_ne_nil _ _, rfl⟩
  | case2 rest ih =>
    refine ⟨List.cons_ne_nil _ _, ?_⟩
    obtain ⟨name, more, same⟩ := List.exists_cons_of_ne_nil ih.1
    rw [same] at ih ⊢
    rw [joinNames, ih.2]
    · rfl
    · exact List.cons_ne_nil _ _
  | case3 c rest other empty ih => exact absurd empty ih.1
  | case4 c rest other name more same ih =>
    refine ⟨List.cons_ne_nil _ _, ?_⟩
    rw [same] at ih
    cases more with
    | nil => simpa [joinNames] using ih.2
    | cons next others => simpa [joinNames] using ih.2

theorem length_splitNames_le (t : Text) : (splitNames t).length ≤ t.length + 1 := by
  fun_induction splitNames t with
  | case1 => exact Nat.le_refl _
  | case2 rest ih =>
    simp only [List.length_cons]
    omega
  | case3 c rest other empty ih => simp
  | case4 c rest other name more same ih =>
    rw [same] at ih
    simp only [List.length_cons] at ih ⊢
    omega

/-- A name is part of the text it was split from. -/
theorem mem_of_mem_splitNames {t name : Text} {c : Char} (h : name ∈ splitNames t)
    (inside : c ∈ name) : c ∈ t := by
  fun_induction splitNames t generalizing name with
  | case1 =>
    obtain rfl := List.mem_singleton.1 h
    exact absurd inside List.not_mem_nil
  | case2 rest ih =>
    rcases List.mem_cons.1 h with rfl | later
    · exact absurd inside List.not_mem_nil
    · exact List.mem_cons_of_mem _ (List.mem_cons_of_mem _ (ih later inside))
  | case3 c rest other empty ih => exact absurd empty (joinNames_splitNames rest).1
  | case4 c rest other first more same ih =>
    rcases List.mem_cons.1 h with rfl | later
    · rcases List.mem_cons.1 inside with rfl | behind
      · exact List.mem_cons_self
      · exact List.mem_cons_of_mem _ (ih (same ▸ List.mem_cons_self) behind)
    · exact List.mem_cons_of_mem _ (ih (same ▸ List.mem_cons_of_mem _ later) inside)

/-- Joining adds commas and spaces only. -/
theorem mem_joinNames {names : List Text} {c : Char} (h : c ∈ joinNames names) :
    c = ',' ∨ c = ' ' ∨ ∃ name ∈ names, c ∈ name := by
  fun_induction joinNames names with
  | case1 => exact absurd h List.not_mem_nil
  | case2 name => exact .inr (.inr ⟨name, List.mem_singleton_self _, h⟩)
  | case3 name more some_ ih =>
    rcases List.mem_append.1 h with here | rest
    · exact .inr (.inr ⟨name, List.mem_cons_self, here⟩)
    · rcases List.mem_cons.1 rest with rfl | rest
      · exact .inl rfl
      · rcases List.mem_cons.1 rest with rfl | later
        · exact .inr (.inl rfl)
        · rcases ih later with comma | space | ⟨other, inside, member⟩
          · exact .inl comma
          · exact .inr (.inl space)
          · exact .inr (.inr ⟨other, List.mem_cons_of_mem _ inside, member⟩)

/-! ## Declaration lines -/

/-- The shape of a declaration line. -/
structure Declaring (line indentation : Text) (names : List Text) : Prop where
  shape : line = indentation ++ ("var ".toList ++ (joinNames names ++ [';']))
  blank : indentation = Text.leadingBlank line
  plain : '=' ∉ line
  some_name : names ≠ []
  few : names.length ≤ line.length
  letters : ∀ name ∈ names, ∀ c ∈ name, c ∈ line

theorem declaring_of_parse? {line indentation : Text} {names : List Text}
    (h : parse? line = some (indentation, names)) : Declaring line indentation names := by
  unfold parse? at h
  dsimp only at h
  split at h
  · next rest keyword_ =>
    split at h
    · next list ending =>
      split at h
      · cases h
      · next proper =>
        cases h
        have whole : line = Text.leadingBlank line ++ ("var ".toList ++ (list ++ [';'])) := by
          have cut := List.takeWhile_append_dropWhile (l := line) (p := isBlank)
          have dropped := Text.dropFront?_eq_some keyword_
          rw [Text.leadingBlank, Text.drop_length_takeWhile] at dropped
          rw [dropped, Text.splitLast?_eq_some ending] at cut
          exact cut.symm
        simp only [Bool.or_eq_true, not_or] at proper
        refine ⟨?_, rfl, ?_, (joinNames_splitNames list).1, ?_, ?_⟩
        · rw [(joinNames_splitNames list).2]
          exact whole
        · rw [whole]
          intro member
          rcases List.mem_append.1 member with inside | later
          · exact absurd (List.mem_takeWhile_imp inside) (by decide)
          · rcases List.mem_append.1 later with inside | rest
            · exact absurd inside (by decide)
            · rcases List.mem_append.1 rest with inside | last
              · exact proper.2 (by simpa using inside)
              · exact absurd last (by decide)
        · have size := congrArg List.length whole
          have names := length_splitNames_le list
          have keyword_ : ("var ".toList : Text).length = 4 := rfl
          simp only [List.length_append, List.length_cons, List.length_nil, keyword_] at size
          omega
        · intro name member c inside
          rw [whole]
          exact List.mem_append_right _ (List.mem_append_right _ (List.mem_append_left _
            (mem_of_mem_splitNames member inside)))
    · cases h
  · cases h

/-- The declaration lines that are found are declaration lines. -/
theorem parse?_of_mem_findFrom {number : Nat} {lines : List Text} {d : DeclarationLine}
    (h : d ∈ findFrom number lines) :
    ∃ k line, d.line = number + k ∧ lines[k]? = some line ∧
      parse? line = some (d.indentation, d.names) := by
  induction lines generalizing number with
  | nil => exact absurd h List.not_mem_nil
  | cons line rest ih =>
    unfold findFrom at h
    split at h
    · next indentation names parsed =>
      rcases List.mem_cons.1 h with rfl | later
      · exact ⟨0, line, rfl, rfl, parsed⟩
      · obtain ⟨k, other, place, found, shape⟩ := ih later
        exact ⟨k + 1, other, by omega, found, shape⟩
    · obtain ⟨k, other, place, found, shape⟩ := ih h
      exact ⟨k + 1, other, by omega, found, shape⟩

theorem parse?_of_mem_find {lines : List Text} {d : DeclarationLine} (h : d ∈ find lines) :
    ∃ line, lines[d.line]? = some line ∧ parse? line = some (d.indentation, d.names) := by
  obtain ⟨k, line, place, found, shape⟩ := parse?_of_mem_findFrom h
  obtain rfl : d.line = k := by omega
  exact ⟨line, found, shape⟩

/-- All declaration lines together have no more names than there are characters. -/
theorem length_declarations_le (number : Nat) (lines : List Text) :
    ((findFrom number lines).flatMap (·.declarations)).length ≤ Text.extent lines := by
  induction lines generalizing number with
  | nil => exact Nat.le_refl _
  | cons line rest ih =>
    have later := ih (number + 1)
    unfold findFrom
    split
    · next indentation names parsed =>
      have few := (declaring_of_parse? parsed).few
      rw [List.flatMap_cons, List.length_append, DeclarationLine.declarations, List.length_map,
        Text.extent]
      dsimp only
      omega
    · rw [Text.extent]
      omega

/-! ## Narrowings -/

theorem length_narrowings_le (lines : List Text) :
    (narrowings lines).length ≤ Text.extent lines :=
  Nat.le_trans (List.length_filterMap_le _ _) (length_declarations_le 0 lines)

/-- A narrowing is found on a line that begins with an assignment. -/
theorem searchFrom_eq_some {d : Declaration} {number : Nat} {lines : List Text} {n : Narrowing}
    (h : searchFrom d number lines = some n) :
    n.declaration = d ∧ ∃ k line, n.line = number + k ∧ lines[k]? = some line ∧
      n.column = (Text.leadingBlank line).length ∧ '=' ∈ line := by
  induction lines generalizing number with
  | nil => cases h
  | cons line rest ih =>
    have further : searchFrom d (number + 1) rest = some n → n.declaration = d ∧
        ∃ k other, n.line = number + k ∧ (line :: rest)[k]? = some other ∧
          n.column = (Text.leadingBlank other).length ∧ '=' ∈ other := by
      intro later
      obtain ⟨same, k, other, place, found, column, sign⟩ := ih later
      exact ⟨same, k + 1, other, by omega, found, column, sign⟩
    unfold searchFrom at h
    split at h
    · exact further h
    · dsimp only at h
      split at h
      · cases h
      · split at h
        · next assigned =>
          split at h
          · cases h
          · cases h
            refine ⟨rfl, 0, line, rfl, rfl, rfl, ?_⟩
            rw [Text.startsWith, List.isPrefixOf_iff_prefix] at assigned
            have sign : '=' ∈ assignmentTo d.name := by
              unfold assignmentTo
              simp
            exact (List.dropWhile_sublist _).subset (assigned.subset sign)
        · exact further h

/-- A variable is narrowed below its declaration, behind the indentation of a line. -/
theorem exists_of_mem_narrowings {lines : List Text} {n : Narrowing} (h : n ∈ narrowings lines) :
    n.declaration.line < n.line ∧ ∃ line, lines[n.line]? = some line ∧
      n.column = (Text.leadingBlank line).length ∧ '=' ∈ line := by
  unfold narrowings at h
  obtain ⟨declaration, declared, found⟩ := List.mem_filterMap.1 h
  obtain ⟨d, member, named⟩ := List.mem_flatMap.1 declared
  obtain ⟨name, -, rfl⟩ := List.mem_map.1 named
  obtain ⟨same, k, line, place, inside, column, sign⟩ := searchFrom_eq_some found
  obtain ⟨own, at_, parsed⟩ := parse?_of_mem_find member
  dsimp only at place inside
  rw [List.getElem?_drop, ← place] at inside
  refine ⟨?_, line, inside, column, sign⟩
  rw [same]
  rcases Nat.eq_zero_or_pos k with rfl | positive
  · -- The line that declares has no assignment sign, so it is not the one that was found.
    rw [place, Nat.add_zero, at_] at inside
    obtain rfl := Option.some.inj inside
    exact absurd sign (declaring_of_parse? parsed).plain
  · dsimp only
    omega

/-- The keyword goes behind the indentation of its line. -/
theorem column_of_mem_narrowings {lines : List Text} {n : Narrowing} (h : n ∈ narrowings lines)
    {line : Text} (found : lines[n.line]? = some line) :
    n.column = (Text.leadingBlank line).length := by
  obtain ⟨-, own, inside, column, -⟩ := exists_of_mem_narrowings h
  rw [found] at inside
  obtain rfl := Option.some.inj inside
  exact column

/-- Nothing is narrowed on a declaration line. -/
theorem line_ne_of_mem_find {lines : List Text} {n : Narrowing} (h : n ∈ narrowings lines)
    {d : DeclarationLine} (declares : d ∈ find lines) : n.line ≠ d.line := by
  intro same
  obtain ⟨-, own, inside, -, sign⟩ := exists_of_mem_narrowings h
  obtain ⟨line, found, parsed⟩ := parse?_of_mem_find declares
  rw [same, found] at inside
  obtain rfl := Option.some.inj inside
  exact (declaring_of_parse? parsed).plain sign

/-! ## One keyword -/

theorem length_keyword : keyword.length = 4 := rfl

theorem length_insertKeyword (lines : List Text) (n : Narrowing) :
    (insertKeyword lines n).length = lines.length := by
  unfold insertKeyword
  exact List.length_set

theorem getElem?_insertKeyword_of_ne {lines : List Text} {n : Narrowing} {k : Nat}
    (other : n.line ≠ k) : (insertKeyword lines n)[k]? = lines[k]? := by
  unfold insertKeyword
  exact List.getElem?_set_ne other

theorem getElem?_insertKeyword {lines : List Text} {n : Narrowing} {line : Text}
    (h : lines[n.line]? = some line) : (insertKeyword lines n)[n.line]? =
      some (line.take n.column ++ keyword ++ line.drop n.column) := by
  obtain ⟨bound, same⟩ := List.getElem?_eq_some_iff.1 h
  have entry : lines.getD n.line [] = line := by
    rw [List.getD_eq_getElem?_getD, h, Option.getD_some]
  unfold insertKeyword
  dsimp only
  rw [List.getElem?_set_self bound, entry]

/-- How a mapping comes from another one when a keyword is inserted. -/
inductive Shifted (n : Narrowing) (m : Mapping) : Mapping → Prop
  /-- It stands on another line or before the keyword. -/
  | kept (apart : m.outputLine ≠ n.line ∨ m.outputColumn < n.column) : Shifted n m m
  /-- It stands behind the keyword. -/
  | moved (here : m.outputLine = n.line) (behind : n.column ≤ m.outputColumn) :
      Shifted n m { m with outputColumn := m.outputColumn + keyword.length }
  /-- It stands on the keyword and leads to what follows. -/
  | copied (here : m.outputLine = n.line) (at_ : m.outputColumn = n.column) (i : Nat)
      (inside : i < keyword.length) : Shifted n m { m with outputColumn := n.column + i }

/-- Every mapping after the insertion comes from one before it. -/
theorem exists_shifted {mappings : List Mapping} {n : Narrowing} {x : Mapping}
    (h : x ∈ insertKeywordMappings mappings n) : ∃ m ∈ mappings, Shifted n m x := by
  unfold insertKeywordMappings at h
  rw [List.partition_eq_filter_filter] at h
  rcases List.mem_append.1 h with elsewhere | inserted
  · obtain ⟨member, apart⟩ := List.mem_filter.1 elsewhere
    exact ⟨x, member, .kept (.inl (by simpa using apart))⟩
  · have onLine : ∀ m ∈ mappings.filter (fun m => m.outputLine == (n.line : Int)),
        m ∈ mappings ∧ m.outputLine = n.line := fun m inside =>
      ⟨List.mem_of_mem_filter inside, by simpa using (List.mem_filter.1 inside).2⟩
    have moving : ∀ y ∈ (mappings.filter fun m => m.outputLine == (n.line : Int)).map
        (fun m => if (n.column : Int) ≤ m.outputColumn then
          { m with outputColumn := m.outputColumn + (keyword.length : Int) } else m),
        ∃ m ∈ mappings, Shifted n m y := by
      intro y member
      obtain ⟨m, inside, rfl⟩ := List.mem_map.1 member
      obtain ⟨known, here⟩ := onLine m inside
      split
      · next behind => exact ⟨m, known, .moved here behind⟩
      · next before => exact ⟨m, known, .kept (.inr (Int.not_le.1 before))⟩
    unfold ColumnMap.insertColumns at inserted
    dsimp only at inserted
    split at inserted
    · exact moving x inserted
    · next first found =>
      rcases List.mem_append.1 inserted with moved | new
      · exact moving x moved
      · obtain ⟨i, range, rfl⟩ := List.mem_map.1 new
        obtain ⟨known, here⟩ := onLine first (List.mem_of_find?_eq_some found)
        refine ⟨first, known, .copied here ?_ i ?_⟩
        · simpa using List.find?_some found
        · simpa using range

/-- No mapping is lost by the insertion. -/
theorem exists_mem_insertKeywordMappings {mappings : List Mapping} (n : Narrowing) {m : Mapping}
    (h : m ∈ mappings) :
    (if m.outputLine = n.line ∧ (n.column : Int) ≤ m.outputColumn then
      { m with outputColumn := m.outputColumn + keyword.length } else m) ∈
      insertKeywordMappings mappings n := by
  unfold insertKeywordMappings
  rw [List.partition_eq_filter_filter]
  by_cases here : m.outputLine = n.line
  · refine List.mem_append_right _ ?_
    have inside : m ∈ mappings.filter (fun m => m.outputLine == (n.line : Int)) :=
      List.mem_filter.2 ⟨h, by simpa using here⟩
    have moved := List.mem_map_of_mem (f := fun m : Mapping =>
      if (n.column : Int) ≤ m.outputColumn then
        { m with outputColumn := m.outputColumn + (keyword.length : Int) } else m) inside
    rw [if_congr (and_iff_right here) rfl rfl]
    unfold ColumnMap.insertColumns
    dsimp only
    split
    · exact moved
    · exact List.mem_append_left _ moved
  · refine List.mem_append_left _ ?_
    rw [if_neg (fun both => here both.1)]
    exact List.mem_filter.2 ⟨h, by simpa using here⟩

/-! ## All keywords -/

/-- A line with the keyword some times behind its indentation. -/
def keyworded (times : Nat) (line : Text) : Text :=
  Text.leadingBlank line ++ ((List.replicate times keyword).flatten ++ Text.trimLeft line)

@[simp]
theorem keyworded_zero (line : Text) : keyworded 0 line = line := by
  simp [keyworded, Text.leadingBlank, Text.trimLeft]

theorem length_keyworded (times : Nat) (line : Text) :
    (keyworded times line).length = line.length + 4 * times := by
  have whole := congrArg List.length
    (List.takeWhile_append_dropWhile (l := line) (p := isBlank))
  rw [List.length_append] at whole
  simp only [keyworded, Text.leadingBlank, Text.trimLeft, List.length_append, List.length_flatten,
    List.map_replicate, length_keyword, List.sum_replicate_nat]
  omega

/-- Only the keyword is new. -/
theorem mem_keyworded {times : Nat} {line : Text} {c : Char} (h : c ∈ keyworded times line) :
    c ∈ line ∨ c ∈ keyword := by
  rcases List.mem_append.1 h with blank | rest
  · exact .inl ((List.takeWhile_sublist _).subset blank)
  · rcases List.mem_append.1 rest with written | code
    · obtain ⟨word, repeated, inside⟩ := List.mem_flatten.1 written
      rw [List.eq_of_mem_replicate repeated] at inside
      exact .inr inside
    · exact .inl ((List.dropWhile_sublist _).subset code)

/-- A declaration line and what is left of it. -/
def Reduced (line line' : Text) : Prop :=
  (∃ names, line = Text.leadingBlank line ++ ("var ".toList ++ names)) ∧
    (line' = [] ∨ ∃ names, line' = Text.leadingBlank line ++ ("var ".toList ++ names))

/-- A line after narrowing: with some keywords, or a declaration line that lost names. -/
def Narrowed (times : Nat) (line line' : Text) : Prop :=
  line' = keyworded times line ∨ Reduced line line'

/-- One more keyword behind the indentation. -/
theorem take_keyworded_append (times : Nat) (line : Text) :
    (keyworded times line).take (Text.leadingBlank line).length ++ keyword ++
      (keyworded times line).drop (Text.leadingBlank line).length = keyworded (times + 1) line := by
  rw [keyworded, List.take_left, List.drop_left, keyworded, List.replicate_succ,
    List.flatten_cons, List.append_assoc, List.append_assoc]

/-- Where a column of a line stands after keywords were inserted behind its indentation. -/
def keywordedColumn (times indent : Nat) (column : Int) : Int :=
  if (indent : Int) ≤ column then column + (4 * times : Nat) else column

@[simp]
theorem keywordedColumn_zero (indent : Nat) (column : Int) :
    keywordedColumn 0 indent column = column := by
  simp [keywordedColumn]

/-- One keyword after the other moves a column as far as all of them. -/
theorem keywordedColumn_keywordedColumn (times more indent : Nat) (column : Int) :
    keywordedColumn times indent (keywordedColumn more indent column) =
      keywordedColumn (times + more) indent column := by
  unfold keywordedColumn
  split_ifs <;> omega

/-- How the mappings of a map stand to one source line and one generated line: those of the one are
those of the other, there are some, and all of them stay within a width. -/
structure LineMappings (l k width : Nat) (mappings : List Mapping) : Prop where
  same_line : ∀ m ∈ mappings, m.sourceLine = l ↔ m.outputLine = k
  some_mapping : ∃ m ∈ mappings, m.outputLine = k
  inside : ∀ m ∈ mappings, m.outputLine = k →
    0 ≤ m.outputColumn ∧ m.outputColumn < width
  source_column : ∀ m ∈ mappings, m.outputLine = k →
    0 ≤ m.sourceColumn ∧ m.sourceColumn ≤ 2147483647

namespace LineMappings

variable {l k width : Nat} {mappings : List Mapping}

/-- Inserting a keyword on the line takes as much more room as the keyword is long. -/
theorem insertKeyword (h : LineMappings l k width mappings) (n : Narrowing) {width' : Nat}
    (wider : n.line = k → width' = width + keyword.length) (same : n.line ≠ k → width' = width) :
    LineMappings l k width' (insertKeywordMappings mappings n) where
  same_line x member := by
    obtain ⟨m, known, shift⟩ := exists_shifted member
    cases shift with
    | kept => exact h.same_line x known
    | moved => exact h.same_line m known
    | copied => exact h.same_line m known
  some_mapping := by
    obtain ⟨m, known, here⟩ := h.some_mapping
    refine ⟨_, exists_mem_insertKeywordMappings n known, ?_⟩
    split <;> exact here
  inside x member here := by
    obtain ⟨m, known, shift⟩ := exists_shifted member
    by_cases target : n.line = k
    · have size := wider target
      cases shift with
      | kept apart =>
        have old := h.inside x known here
        omega
      | moved own behind =>
        have old := h.inside m known here
        dsimp only
        omega
      | copied own at_ i small =>
        have old := h.inside m known here
        dsimp only
        omega
    · have unchanged := same target
      subst unchanged
      cases shift with
      | kept apart => exact h.inside x known here
      | moved own behind =>
        dsimp only at here
        omega
      | copied own at_ i small =>
        dsimp only at here
        omega
  source_column x member here := by
    obtain ⟨m, known, shift⟩ := exists_shifted member
    cases shift with
    | kept => exact h.source_column x known here
    | moved => exact h.source_column m known here
    | copied => exact h.source_column m known here

end LineMappings

/-- A mapping that is the only one at its place. -/
def Sole (mappings : List Mapping) (m : Mapping) : Prop :=
  m ∈ mappings ∧ ∀ x ∈ mappings, x.outputLine = m.outputLine → x.outputColumn = m.outputColumn →
    x = m

namespace Sole

variable {mappings : List Mapping} {m : Mapping}

/-- The only mapping at its place moves with the keyword, if it stands behind it, and stays the only
one. -/
theorem insertKeyword (h : Sole mappings m) {n : Narrowing} (here : m.outputLine = n.line) :
    Sole (insertKeywordMappings mappings n)
      { m with outputColumn := keywordedColumn 1 n.column m.outputColumn } := by
  have moved := exists_mem_insertKeywordMappings n h.1
  have place : { m with outputColumn := keywordedColumn 1 n.column m.outputColumn } =
      if m.outputLine = n.line ∧ (n.column : Int) ≤ m.outputColumn then
        { m with outputColumn := m.outputColumn + keyword.length } else m := by
    rw [if_congr (and_iff_right here) rfl rfl, keywordedColumn]
    split_ifs <;> rfl
  rw [← place] at moved
  refine ⟨moved, fun x member line column => ?_⟩
  dsimp only at line column
  obtain ⟨y, known, shift⟩ := exists_shifted member
  have length_ := length_keyword
  have same : y.outputLine = m.outputLine → y.outputColumn = m.outputColumn → y = m := h.2 y known
  unfold keywordedColumn at column ⊢
  cases shift with
  | kept apart =>
    have before : ¬ (n.column : Int) ≤ m.outputColumn := by
      intro behind
      rw [if_pos behind] at column
      omega
    rw [if_neg before] at column ⊢
    exact same line column
  | moved own beyond =>
    dsimp only at line column
    have behind : (n.column : Int) ≤ m.outputColumn := by
      by_contra before
      rw [if_neg before] at column
      omega
    rw [if_pos behind] at column ⊢
    rw [same line (by omega)]
    rfl
  | copied own at_ i small =>
    dsimp only at column
    split_ifs at column with behind <;> omega

/-- A keyword on another line changes nothing. -/
theorem insertKeyword_of_ne (h : Sole mappings m) {n : Narrowing} (apart : m.outputLine ≠ n.line) :
    Sole (insertKeywordMappings mappings n) m := by
  have kept := exists_mem_insertKeywordMappings n h.1
  rw [if_neg fun both => apart both.1] at kept
  refine ⟨kept, fun x member line column => ?_⟩
  obtain ⟨y, known, shift⟩ := exists_shifted member
  cases shift with
  | kept => exact h.2 x known line column
  | moved own beyond => exact absurd (line.symm.trans own) apart
  | copied own at_ i small => exact absurd (line.symm.trans own) apart

theorem ofMappings (h : Sole mappings m) {k : Nat} (line : m.outputLine = k) :
    Sole (ColumnMap.ofMappings mappings).mappings m := by
  obtain ⟨x, member, line', column⟩ := ColumnMap.exists_mem_mappings h.1 line
  have same := h.2 x (ColumnMap.mem_of_mem_mappings member) (line'.trans line.symm) column
  exact ⟨same ▸ member, fun y known => h.2 y (ColumnMap.mem_of_mem_mappings known)⟩

end Sole

/-- How many keywords are inserted on a line. -/
def keywordsOn (k : Nat) (narrowed : List Narrowing) : Nat := narrowed.countP (·.line == k)

theorem keywordsOn_le (k : Nat) (narrowed : List Narrowing) :
    keywordsOn k narrowed ≤ narrowed.length := List.countP_le_length

theorem keywordsOn_cons_self (n : Narrowing) (rest : List Narrowing) :
    keywordsOn n.line (n :: rest) = keywordsOn n.line rest + 1 :=
  List.countP_cons_of_pos (beq_self_eq_true n.line)

theorem keywordsOn_cons_of_ne {k : Nat} {n : Narrowing} (other : n.line ≠ k)
    (rest : List Narrowing) : keywordsOn k (n :: rest) = keywordsOn k rest :=
  List.countP_cons_of_neg (by simpa using other)

/-- Inserting all keywords leaves a line with those that are inserted on it. -/
theorem getElem?_foldl_insertKeyword {k : Nat} {line : Text} {narrowed : List Narrowing}
    (columns : ∀ n ∈ narrowed, n.line = k → n.column = (Text.leadingBlank line).length)
    {times : Nat} {lines : List Text} (found : lines[k]? = some (keyworded times line)) :
    (narrowed.foldl insertKeyword lines)[k]? =
      some (keyworded (times + keywordsOn k narrowed) line) := by
  induction narrowed generalizing times lines with
  | nil => exact found
  | cons n rest ih =>
    have later : ∀ n ∈ rest, n.line = k → n.column = (Text.leadingBlank line).length :=
      fun n inside => columns n (List.mem_cons_of_mem _ inside)
    rw [List.foldl_cons]
    by_cases target : n.line = k
    · subst target
      have step := getElem?_insertKeyword found
      rw [columns n List.mem_cons_self rfl, take_keyworded_append] at step
      rw [ih later step, keywordsOn_cons_self, Nat.add_right_comm, Nat.add_assoc]
    · have step : (insertKeyword lines n)[k]? = some (keyworded times line) := by
        rw [getElem?_insertKeyword_of_ne target, found]
      rw [ih later step, keywordsOn_cons_of_ne target]

/-- Inserting all keywords keeps the relation of a line to its mappings. -/
theorem LineMappings.foldl_insertKeyword {l k width : Nat} {mappings : List Mapping}
    (h : LineMappings l k width mappings) (narrowed : List Narrowing) :
    LineMappings l k (width + 4 * keywordsOn k narrowed)
      (narrowed.foldl insertKeywordMappings mappings) := by
  induction narrowed generalizing width mappings with
  | nil => exact h
  | cons n rest ih =>
    rw [List.foldl_cons]
    by_cases target : n.line = k
    · subst target
      have step := h.insertKeyword n (fun _ => rfl) (fun other => absurd rfl other)
      have same : width + keyword.length + 4 * keywordsOn n.line rest =
          width + 4 * keywordsOn n.line (n :: rest) := by
        rw [length_keyword, keywordsOn_cons_self]
        omega
      rw [← same]
      exact ih step
    · rw [keywordsOn_cons_of_ne target]
      exact ih (h.insertKeyword n (fun same => absurd same target) (fun _ => rfl))

/-- A mapping that is alone at its place moves with the keywords of its line and stays alone. -/
theorem Sole.foldl_insertKeyword {k indent : Nat} {narrowed : List Narrowing}
    (columns : ∀ n ∈ narrowed, n.line = k → n.column = indent) {mappings : List Mapping}
    {m : Mapping} (here : m.outputLine = k) (h : Sole mappings m) :
    Sole (narrowed.foldl insertKeywordMappings mappings)
      { m with outputColumn := keywordedColumn (keywordsOn k narrowed) indent m.outputColumn } := by
  induction narrowed generalizing m mappings with
  | nil =>
    rw [keywordsOn, List.countP_nil, keywordedColumn_zero]
    exact h
  | cons n rest ih =>
    rw [List.foldl_cons]
    have later : ∀ n ∈ rest, n.line = k → n.column = indent :=
      fun n inside => columns n (List.mem_cons_of_mem _ inside)
    by_cases target : n.line = k
    · subst target
      obtain rfl := columns n List.mem_cons_self rfl
      rw [keywordsOn_cons_self, ← keywordedColumn_keywordedColumn]
      have moved := h.insertKeyword here
      generalize keywordedColumn 1 n.column m.outputColumn = column at moved ⊢
      exact ih later (m := { m with outputColumn := column }) here moved
    · rw [keywordsOn_cons_of_ne target]
      exact ih later here (h.insertKeyword_of_ne fun same => target (by omega))

/-! ## Declaration lines afterwards -/

/-- Of lines that are set one after the other, each is the old one or one of the new ones. -/
theorem getElem?_foldl_set (new : DeclarationLine → Text) {all : List DeclarationLine}
    {lines : List Text} {k : Nat} {line : Text} (h : lines[k]? = some line) :
    (all.foldl (fun lines d => lines.set d.line (new d)) lines)[k]? = some line ∨
      ∃ d ∈ all, d.line = k ∧
        (all.foldl (fun lines d => lines.set d.line (new d)) lines)[k]? = some (new d) := by
  induction all generalizing lines line with
  | nil => exact .inl h
  | cons d rest ih =>
    rw [List.foldl_cons]
    by_cases target : d.line = k
    · have bound := (List.getElem?_eq_some_iff.1 h).1
      have step : (lines.set d.line (new d))[k]? = some (new d) := by
        rw [target]
        exact List.getElem?_set_self bound
      rcases ih step with last | ⟨other, inside, line_, found⟩
      · exact .inr ⟨d, List.mem_cons_self, target, last⟩
      · exact .inr ⟨other, List.mem_cons_of_mem _ inside, line_, found⟩
    · have step : (lines.set d.line (new d))[k]? = some line := by
        rw [List.getElem?_set_ne target, h]
      rcases ih step with last | ⟨other, inside, line_, found⟩
      · exact .inl last
      · exact .inr ⟨other, List.mem_cons_of_mem _ inside, line_, found⟩

theorem length_foldl_set (new : DeclarationLine → Text) (all : List DeclarationLine)
    (lines : List Text) :
    (all.foldl (fun lines d => lines.set d.line (new d)) lines).length = lines.length := by
  induction all generalizing lines with
  | nil => rfl
  | cons d rest ih => rw [List.foldl_cons, ih, List.length_set]

theorem length_foldl_insertKeyword (narrowed : List Narrowing) (lines : List Text) :
    (narrowed.foldl insertKeyword lines).length = lines.length := by
  induction narrowed generalizing lines with
  | nil => rfl
  | cons n rest ih => rw [List.foldl_cons, ih, length_insertKeyword]

/-- Narrowing keeps the number of lines. -/
theorem length_narrowLines (lines : List Text) : (narrowLines lines).length = lines.length := by
  unfold narrowLines
  dsimp only
  split
  · rfl
  · rw [length_foldl_set, length_foldl_insertKeyword]

/-- Rewriting a declaration line adds commas and spaces only. -/
theorem mem_remainingLine {lines : List Text} {d : DeclarationLine} (h : d ∈ find lines)
    {line : Text} (found : lines[d.line]? = some line) {narrowed : List Narrowing} {c : Char}
    (member : c ∈ remainingLine narrowed d) : c ∈ line ∨ c = ',' ∨ c = ' ' := by
  obtain ⟨own, at_, parsed⟩ := parse?_of_mem_find h
  rw [found] at at_
  obtain rfl := Option.some.inj at_
  have declaring := declaring_of_parse? parsed
  unfold remainingLine at member
  split at member
  · exact absurd member List.not_mem_nil
  · rcases List.mem_append.1 member with front | last
    · rcases List.mem_append.1 front with front | names
      · left
        rw [declaring.shape]
        rcases List.mem_append.1 front with blank | keyword_
        · exact List.mem_append_left _ blank
        · exact List.mem_append_right _ (List.mem_append_left _ keyword_)
      · rcases mem_joinNames names with comma | space | ⟨name, inside, letter⟩
        · exact .inr (.inl comma)
        · exact .inr (.inr space)
        · exact .inl (declaring.letters name (List.mem_of_mem_filter inside) _ letter)
    · left
      rw [declaring.shape]
      exact List.mem_append_right _ (List.mem_append_right _ (List.mem_append_right _ last))

/-- A declaration line with all of its names is what it was. -/
theorem remainingLine_eq_self {line : Text} {d : DeclarationLine}
    (declaring : Declaring line d.indentation d.names) {narrowed : List Narrowing}
    (all : remaining narrowed d = d.names) : remainingLine narrowed d = line := by
  unfold remainingLine
  rw [all]
  obtain ⟨name, more, same⟩ := List.exists_cons_of_ne_nil declaring.some_name
  rw [same]
  dsimp only
  rw [← same]
  refine Eq.trans ?_ declaring.shape.symm
  simp only [List.append_assoc]

/-- A declaration line with some of its names gone stands above the line that declares them now;
with all of its names it is what it was. -/
theorem remainingLine_eq {lines : List Text} {d : DeclarationLine} (h : d ∈ find lines)
    {line : Text} (found : lines[d.line]? = some line) :
    remainingLine (narrowings lines) d = line ∨
      d.line + 1 < lines.length ∧ (remainingLine (narrowings lines) d = [] ∨
        ∃ rest, remainingLine (narrowings lines) d =
          Text.leadingBlank line ++ ("var ".toList ++ rest)) := by
  obtain ⟨own, at_, parsed⟩ := parse?_of_mem_find h
  rw [found] at at_
  obtain rfl := Option.some.inj at_
  have declaring := declaring_of_parse? parsed
  by_cases all : remaining (narrowings lines) d = d.names
  · exact .inl (remainingLine_eq_self declaring all)
  · right
    constructor
    · have gone : ∃ name ∈ d.names, ∃ n ∈ narrowings lines, n.declaration.line = d.line := by
        by_contra none_
        refine all (List.filter_eq_self.2 fun name member => ?_)
        rw [Bool.not_eq_true', List.any_eq_false]
        intro n inside both
        rw [Bool.and_eq_true, beq_iff_eq] at both
        exact none_ ⟨name, member, n, inside, both.1⟩
      obtain ⟨-, -, n, member, same⟩ := gone
      obtain ⟨below, target, inside, -⟩ := exists_of_mem_narrowings member
      have bound := (List.getElem?_eq_some_iff.1 inside).1
      omega
    · unfold remainingLine
      split
      · exact .inl rfl
      · next names =>
        refine .inr ⟨joinNames (remaining (narrowings lines) d) ++ [';'], ?_⟩
        rw [declaring.blank]
        simp only [List.append_assoc]

/-- **What narrowing makes of a line**: it gets keywords behind its indentation, or it is a
declaration line and has the names that remain. -/
theorem getElem?_narrowLines {k : Nat} {lines : List Text} {line : Text}
    (found : lines[k]? = some line) :
    (narrowLines lines)[k]? = some (keyworded (keywordsOn k (narrowings lines)) line) ∨
      keywordsOn k (narrowings lines) = 0 ∧ ∃ d ∈ find lines, d.line = k ∧
        (narrowLines lines)[k]? = some (remainingLine (narrowings lines) d) := by
  unfold narrowLines
  dsimp only
  split
  · next none_ =>
    rw [List.isEmpty_iff.1 none_, keywordsOn, List.countP_nil, keyworded_zero]
    exact .inl found
  · have columns : ∀ n ∈ narrowings lines, n.line = k →
        n.column = (Text.leadingBlank line).length := by
      rintro n member rfl
      exact column_of_mem_narrowings member found
    have at_ := getElem?_foldl_insertKeyword columns (by rw [keyworded_zero]; exact found)
    rw [Nat.zero_add] at at_
    rcases getElem?_foldl_set (remainingLine (narrowings lines)) at_ with
      last | ⟨d, member, target, last⟩
    · exact .inl last
    · refine .inr ⟨?_, d, member, target, last⟩
      refine List.countP_eq_zero.2 fun n narrowed => ?_
      rw [← target, beq_iff_eq]
      exact line_ne_of_mem_find narrowed member

/-- A condition that keywords and lost names lead to holds of narrowed lines. -/
theorem forall_narrowLines {before after : Text → Prop} {lines : List Text}
    (each : ∀ line ∈ lines, before line)
    (keyworded_ : ∀ line times, before line → after (keyworded times line))
    (remaining_ : ∀ line d, d ∈ find lines → lines[d.line]? = some line → before line →
      after (remainingLine (narrowings lines) d)) :
    ∀ line ∈ narrowLines lines, after line := by
  intro line' member
  obtain ⟨k, inside⟩ := List.mem_iff_getElem?.1 member
  have bound := (List.getElem?_eq_some_iff.1 inside).1
  rw [length_narrowLines] at bound
  have found := List.getElem?_eq_getElem bound
  have holds := each _ (List.getElem_mem bound)
  rcases getElem?_narrowLines found with same | ⟨-, d, declares, rfl, same⟩
  · rw [Option.some.inj (inside.symm.trans same)]
    exact keyworded_ _ _ holds
  · rw [Option.some.inj (inside.symm.trans same)]
    exact remaining_ _ d declares found holds

/-- Narrowed lines are lines. -/
theorem not_mem_narrowLines {lines : List Text} (clean : ∀ line ∈ lines, '\n' ∉ line) :
    ∀ line ∈ narrowLines lines, '\n' ∉ line := by
  refine forall_narrowLines clean (fun line times unbroken member => ?_)
    fun line d declares found unbroken member => ?_
  · rcases mem_keyworded member with old | new
    · exact unbroken old
    · exact absurd new (by decide)
  · rcases mem_remainingLine declares found member with old | new | new
    · exact unbroken old
    · exact absurd new (by decide)
    · exact absurd new (by decide)

theorem LineMappings.ofMappings {l k width : Nat} {mappings : List Mapping}
    (h : LineMappings l k width mappings) :
    LineMappings l k width (ColumnMap.ofMappings mappings).mappings where
  same_line m member := h.same_line m (ColumnMap.mem_of_mem_mappings member)
  some_mapping := by
    obtain ⟨m, known, here⟩ := h.some_mapping
    obtain ⟨x, member, line_, -⟩ := ColumnMap.exists_mem_mappings known here
    exact ⟨x, member, line_⟩
  inside m member := h.inside m (ColumnMap.mem_of_mem_mappings member)
  source_column m member := h.source_column m (ColumnMap.mem_of_mem_mappings member)

/-- **What narrowing makes of a line and its mappings.** The line has some keywords behind its
indentation, and its mappings stay inside; or it is a declaration line that lost names, and then
another line follows. -/
theorem narrow_line {l k width : Nat} {lines : List Text} {line : Text} {mappings : List Mapping}
    (found : lines[k]? = some line) (relation : LineMappings l k width mappings) :
    ∃ times ≤ (narrowings lines).length, ∃ mappings' line',
      narrowMap lines (.ofMappings mappings) = .ofMappings mappings' ∧
      LineMappings l k (width + 4 * times) mappings' ∧
      (∀ source column : Nat, (Text.leadingBlank line).length ≤ column →
        Sole mappings ⟨l, source, k, column⟩ →
        Sole mappings' ⟨l, source, k, (column + 4 * times : Nat)⟩) ∧
      (narrowLines lines)[k]? = some line' ∧
      (∀ c ∈ line', c ∈ line ∨ c = ',' ∨ c ∈ keyword) ∧
      (line' = keyworded times line ∨ times = 0 ∧ k + 1 < lines.length ∧ Reduced line line') := by
  have columns : ∀ n ∈ narrowings lines, n.line = k →
      n.column = (Text.leadingBlank line).length := by
    rintro n member rfl
    exact column_of_mem_narrowings member found
  have maps : ∃ mappings', narrowMap lines (.ofMappings mappings) = .ofMappings mappings' ∧
      LineMappings l k (width + 4 * keywordsOn k (narrowings lines)) mappings' ∧
      ∀ source column : Nat, (Text.leadingBlank line).length ≤ column →
        Sole mappings ⟨l, source, k, column⟩ →
        Sole mappings' ⟨l, source, k, (column + 4 * keywordsOn k (narrowings lines) : Nat)⟩ := by
    unfold narrowMap
    dsimp only
    split
    · next none_ =>
      rw [List.isEmpty_iff.1 none_, keywordsOn, List.countP_nil]
      exact ⟨mappings, rfl, relation, fun _ _ _ sole => sole⟩
    · refine ⟨_, rfl, relation.ofMappings.foldl_insertKeyword _, ?_⟩
      intro source column behind sole
      have moved := Sole.foldl_insertKeyword columns rfl (sole.ofMappings rfl)
      rw [keywordedColumn, if_pos (Int.ofNat_le.2 behind)] at moved
      exact moved
  obtain ⟨mappings', map, kept, alone⟩ := maps
  refine ⟨_, keywordsOn_le k _, mappings', ?_⟩
  rcases getElem?_narrowLines found with last | ⟨zero, d, member, rfl, last⟩
  · exact ⟨_, map, kept, alone, last, fun c member => (mem_keyworded member).imp_right .inr,
      .inl rfl⟩
  · obtain ⟨own, inside, parsed⟩ := parse?_of_mem_find member
    rw [found] at inside
    obtain rfl := Option.some.inj inside
    refine ⟨_, map, kept, alone, last, fun c inside => ?_, ?_⟩
    · rcases mem_remainingLine member found inside with old | comma | rfl
      · exact .inl old
      · exact .inr (.inl comma)
      · exact .inr (.inr (by decide))
    · rw [zero, keyworded_zero]
      refine (remainingLine_eq member found).imp_right fun rest => ⟨rfl, rest.1, ?_, rest.2⟩
      have declaring := declaring_of_parse? parsed
      rw [← declaring.blank]
      exact ⟨_, declaring.shape⟩

end Declarations

end DialectBridge
