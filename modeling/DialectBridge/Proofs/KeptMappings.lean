import DialectBridge.Proofs.GroupedMappings
import DialectBridge.Proofs.LineOrder

/-!
# Mappings that cleaning keeps

Cleaning regroups the mappings of a map twice, and of two mappings at one place only the first one
is kept; a map that was grouped has one mapping at a place. Apart from that, what cleaning does to
the mappings of a line brings no two of them together: source lines change without a change of the
place, and a keyword moves everything behind it by its own length and fills the room with copies.
The one step that moves mappings to a common place is for marked empty lines, and it is taken only
on generated lines that still show the mark.

So on every other line the first mapping of each place survives, and since the keywords go into the
text at the places where they go into the map, the character it leads to is the one it led to
before. Declaration lines are the exception: the names in them move, and their mappings do not.
-/

set_option autoImplicit false

namespace DialectBridge

/-- A text without residues of a marker stays as it is. -/
theorem Marker.scan_cleaning_of_not_foundIn {m : Marker} {t : Text} (h : m.foundIn t = false) :
    Text.scan m.cleaning t = t := by
  refine Text.scan_eq_self (cleaning_forward m) fun k bound => ?_
  unfold cleaning
  rw [Option.map_eq_none_iff, ← Option.not_isSome_iff_eq_none]
  intro residue
  have inRest : m.foundIn (t.drop k) = true := by
    rw [List.drop_eq_getElem_cons bound, foundIn, ← List.drop_eq_getElem_cons bound, residue,
      Bool.true_or]
  have inText := foundIn_append (t.take k) inRest
  rw [List.take_append_drop, h] at inText
  cases inText

namespace Declarations

/-! ## Characters behind keywords -/

/-- The character at a column is found where the keywords moved the column. -/
theorem getElem?_keyworded (times : Nat) (text : Text) {column : Int} (counted : 0 ≤ column) :
    (keyworded times text)[(keywordedColumn times (Text.leadingBlank text).length column).toNat]? =
      text[column.toNat]? := by
  have whole := Text.leadingBlank_append_trimLeft text
  unfold keywordedColumn keyworded
  split
  · next behind =>
    have size : (List.replicate times keyword).flatten.length = 4 * times := by
      rw [List.length_flatten, List.map_replicate, length_keyword, List.sum_replicate_nat,
        Nat.mul_comm]
    rw [List.getElem?_append_right (by omega), List.getElem?_append_right (by omega), size]
    conv_rhs => rw [← whole, List.getElem?_append_right (by omega)]
    congr 1
    omega
  · next before =>
    rw [List.getElem?_append_left (by omega)]
    conv_rhs => rw [← whole, List.getElem?_append_left (by omega)]

/-- Keywords bring no mark of an empty line into a line. -/
theorem scan_emptyLine_keyworded (times : Nat) {line : Text}
    (unmarked : Marker.emptyLine.foundIn line = false) :
    Text.scan Marker.emptyLine.cleaning (keyworded times line) = keyworded times line := by
  have front : 'ᛟ' ∉ Text.leadingBlank line ++ (List.replicate times keyword).flatten := by
    intro member
    rcases List.mem_append.1 member with blank | written
    · exact absurd (List.mem_takeWhile_imp blank) (by decide)
    · obtain ⟨word, repeated, inside⟩ := List.mem_flatten.1 written
      rw [List.eq_of_mem_replicate repeated] at inside
      exact absurd inside (by decide)
  have rest : Marker.emptyLine.foundIn (Text.trimLeft line) = false := by
    rw [Bool.eq_false_iff]
    intro found
    have inLine := Marker.foundIn_append (Text.leadingBlank line) found
    rw [Text.leadingBlank_append_trimLeft, unmarked] at inLine
    cases inLine
  unfold keyworded
  rw [← List.append_assoc, Marker.scan_emptyLine_append front,
    Marker.scan_cleaning_of_not_foundIn rest]

/-! ## Lines that declare nothing -/

/-- A line that is no declaration line gets its keywords and nothing else. -/
theorem getD_narrowLines {lines : List Text} {k : Nat} (plain : parse? (lines.getD k []) = none) :
    (narrowLines lines).getD k [] =
      keyworded (keywordsOn k (narrowings lines)) (lines.getD k []) := by
  cases found : lines[k]? with
  | none =>
    have beyond : (narrowLines lines)[k]? = none := by
      rw [List.getElem?_eq_none_iff, length_narrowLines]
      exact List.getElem?_eq_none_iff.1 found
    have untouched : keywordsOn k (narrowings lines) = 0 := by
      refine List.countP_eq_zero.2 fun n member same => ?_
      obtain ⟨-, line, inside, -⟩ := exists_of_mem_narrowings member
      rw [beq_iff_eq.1 same, found] at inside
      cases inside
    rw [List.getD_eq_getElem?_getD, List.getD_eq_getElem?_getD, beyond, found, untouched,
      keyworded_zero]
  | some line =>
    have entry : lines.getD k [] = line := by
      rw [List.getD_eq_getElem?_getD, found, Option.getD_some]
    rcases getElem?_narrowLines found with last | ⟨-, d, member, rfl, -⟩
    · rw [List.getD_eq_getElem?_getD, last, Option.getD_some, entry]
    · obtain ⟨own, inside, parsed⟩ := parse?_of_mem_find member
      obtain rfl := Option.some.inj (found.symm.trans inside)
      rw [entry, parsed] at plain
      cases plain

/-- **Narrowing keeps a mapping that is alone at its place.** It moves with the keywords of its
line. -/
theorem Sole.narrowMap {map : ColumnMap} {m : Mapping} (h : Sole map.mappings m) (lines : List Text)
    {k : Nat} (here : m.outputLine = k) :
    Sole (narrowMap lines map).mappings
      { m with
        outputColumn := keywordedColumn (keywordsOn k (narrowings lines))
          (Text.leadingBlank (lines.getD k [])).length m.outputColumn } := by
  unfold Declarations.narrowMap
  dsimp only
  split
  · next none_ =>
    rw [List.isEmpty_iff.1 none_, keywordsOn, List.countP_nil, keywordedColumn_zero]
    exact h
  · refine Sole.ofMappings ?_ here
    refine Sole.foldl_insertKeyword (fun n member same => ?_) here h
    obtain ⟨-, line, inside, column, -⟩ := exists_of_mem_narrowings member
    rw [column, List.getD_eq_getElem?_getD, ← same, inside, Option.getD_some]

end Declarations

namespace Cleanup

open Declarations

/-! ## Mappings of the source -/

variable {inserted tweaked : List Int} {m : Mapping}

/-- A mapping of a line without marks becomes one of the source, and stays the first of its place if
it was the first one there. -/
theorem find?_filterMap_keptMapping? {lines : List Text} {mappings : List Mapping}
    (inserted : List Int)
    (first : mappings.find? m.sharesPlace = some m) (counted : 0 ≤ m.outputLine)
    (own : m.sourceLine ∉ tweaked)
    (unmarked : Marker.emptyLine.foundIn (lines.getD m.outputLine.toNat []) = false) :
    (mappings.filterMap (keptMapping? lines inserted tweaked)).find? m.sharesPlace =
      some { m with sourceLine := sourceLine inserted m.sourceLine } := by
  obtain ⟨-, front, behind, rfl, others⟩ := List.find?_eq_some_iff_append.1 first
  have kept : keptMapping? lines inserted tweaked m =
      some { m with sourceLine := sourceLine inserted m.sourceLine } := by
    rw [keptMapping?_of_nonneg counted, if_neg fun marked => own (List.contains_iff_mem.1 marked)]
  have apart : ∀ x ∈ front.filterMap (keptMapping? lines inserted tweaked),
      m.sharesPlace x = false := by
    intro x member
    obtain ⟨y, known, same⟩ := List.mem_filterMap.1 member
    by_contra shares
    obtain ⟨line, column⟩ := Mapping.sharesPlace_iff.1 (Bool.eq_true_of_not_eq_false shares)
    have output := (keptMapping?_eq_some same).2
    have here : y.outputLine = m.outputLine := output.symm.trans line
    rw [keptMapping?_of_nonneg (here ▸ counted)] at same
    split at same
    · -- The mapping of a marked line would have been dropped, since the mark is not to be seen.
      rw [here, unmarked] at same
      cases same
    · obtain rfl := Option.some.inj same
      have before := others y known
      rw [Mapping.sharesPlace_iff.2 ⟨here, column⟩] at before
      cases before
  rw [List.filterMap_append, List.filterMap_cons_some kept]
  refine List.find?_eq_some_iff_append.2 ⟨Mapping.sharesPlace_iff.2 ⟨rfl, rfl⟩, _, _, rfl, ?_⟩
  intro x member
  rw [apart x member]
  rfl

/-- **A mapping after cleaning.** On a line without marks the first mapping of every place is kept:
it has its source line, and it stands where the keywords of its line moved it. -/
theorem mem_cleanedMap {js : Text} {map : ColumnMap} {k : Nat}
    (first : map.mappings.find? m.sharesPlace = some m) (here : m.outputLine = k)
    (own : m.sourceLine ∉ tweaked)
    (unmarked : Marker.emptyLine.foundIn ((Text.lines (replaceResidues js)).getD k []) = false) :
    ⟨sourceLine inserted m.sourceLine, m.sourceColumn, k,
      keywordedColumn (keywordsOn k (narrowings (Text.lines (replaceResidues js))))
        (Text.leadingBlank ((Text.lines (replaceResidues js)).getD k [])).length m.outputColumn⟩ ∈
      (cleanedMap js map inserted tweaked).mappings := by
  have counted : 0 ≤ m.outputLine := here ▸ Int.natCast_nonneg k
  have hidden : Marker.emptyLine.foundIn
      ((Text.lines (replaceResidues js)).getD m.outputLine.toNat []) = false := by
    rw [here, Int.toNat_natCast]
    exact unmarked
  have kept := find?_filterMap_keptMapping? inserted first counted own hidden
  have grouped : { m with sourceLine := sourceLine inserted m.sourceLine } ∈
      (ColumnMap.ofMappings (map.mappings.filterMap
        (keptMapping? (Text.lines (replaceResidues js)) inserted tweaked))).mappings :=
    ColumnMap.mem_mappings_ofMappings_iff.2 ⟨counted, kept⟩
  have alone : Sole _ _ := ⟨grouped, fun x other => ColumnMap.eq_of_mem_mappings other grouped⟩
  have narrowed := (alone.narrowMap (Text.lines (replaceResidues js)) here).1
  rw [here] at narrowed
  exact narrowed

/-- The line of the cleaned text in the place of a line that neither declares nor holds a mark. -/
theorem getD_lines_cleanText {js : Text} {k : Nat}
    (plain : parse? ((Text.lines (replaceResidues js)).getD k []) = none)
    (unmarked : Marker.emptyLine.foundIn ((Text.lines (replaceResidues js)).getD k []) = false) :
    (Text.lines (cleanText js)).getD k [] =
      keyworded (keywordsOn k (narrowings (Text.lines (replaceResidues js))))
        ((Text.lines (replaceResidues js)).getD k []) := by
  have each : (Text.lines (cleanText js)).getD k [] = Text.scan Marker.emptyLine.cleaning
      ((narrowLines (Text.lines (replaceResidues js))).getD k []) := by
    rw [lines_cleanText, ← lines_replaceResidues, List.getD_eq_getElem?_getD, List.getElem?_map,
      List.getD_eq_getElem?_getD]
    cases (narrowLines (Text.lines (replaceResidues js)))[k]? <;> rfl
  rw [each, getD_narrowLines plain, scan_emptyLine_keyworded _ unmarked]

/-- **Cleaning keeps the first mapping of every place, and on its character.** A mapping whose source
line was not marked as empty, on a generated line that neither declares variables nor shows the mark
of an empty line, has a successor on that line: it leads to the same column of the line that was
typed, and the character it stands on is the one the mapping stood on, or both stand behind the end.
Where no two mappings share a place, as in every grouped map, this is true of all of them. -/
theorem clean_keeps_mappings {g : Generated} {js : Text} {map : ColumnMap} (text : g.js = some js)
    (mapped : g.map = some map)
    (natural : ∀ m ∈ map.mappings, 0 ≤ m.outputLine ∧ 0 ≤ m.outputColumn)
    (inserted tweaked : List Int) :
    ∃ cleaned final map', clean g inserted tweaked = .ok cleaned ∧ cleaned.js = some final ∧
      cleaned.map = some map' ∧
      ∀ m, map.mappings.find? m.sharesPlace = some m → m.sourceLine ∉ tweaked →
        ∀ written, (Text.lines (replaceResidues js)).getD m.outputLine.toNat [] = written →
          parse? written = none → Marker.emptyLine.foundIn written = false →
          ∃ m' ∈ map'.mappings, m'.outputLine = m.outputLine ∧
            m'.sourceLine = sourceLine inserted m.sourceLine ∧
            m'.sourceColumn = m.sourceColumn ∧ 0 ≤ m'.outputColumn ∧
            ((Text.lines final).getD m.outputLine.toNat [])[m'.outputColumn.toNat]? =
              written[m.outputColumn.toNat]? := by
  obtain ⟨cleaned, made, parts⟩ := clean_returns text mapped
    (cleanMap_of_readable fun m known => readable_of_nonneg (natural m known).1)
  refine ⟨cleaned, _, _, made, by rw [parts], by rw [parts], ?_⟩
  rintro m first own written rfl plain unmarked
  obtain ⟨counted, column⟩ := natural m (List.mem_of_find?_eq_some first)
  obtain ⟨k, here⟩ := Int.eq_ofNat_of_zero_le counted
  rw [here, Int.toNat_natCast] at plain unmarked ⊢
  refine ⟨_, mem_cleanedMap first here own unmarked, rfl, rfl, rfl, ?_, ?_⟩
  · dsimp only
    unfold keywordedColumn
    split <;> omega
  · rw [getD_lines_cleanText plain unmarked]
    exact getElem?_keyworded _ _ column

/-- Below an inserted line, and beside a line with a mark, the mapping of the value in `b = a` leads
to that value behind the keyword too. The lines of the map are not in order, and the second of its
mappings has the place of the first. -/
theorem clean_keeps_mappings_narrowed :
    let js := "var a, b;\na = 1;\n  ᛟ: ᛟ,\nb = a;".toList
    let map : ColumnMap := ⟨[⟨3, [⟨3, 4, 3, 4⟩, ⟨1, 0, 3, 4⟩, ⟨3, 0, 3, 0⟩]⟩,
      ⟨1, [⟨1, 0, 1, 0⟩, ⟨1, 4, 1, 4⟩]⟩, ⟨2, [⟨2, 2, 2, 2⟩, ⟨2, 3, 2, 3⟩]⟩]⟩
    let g : Generated := ⟨{ js := some js, map := some map }, rfl⟩
    (∀ m ∈ map.mappings, 0 ≤ m.outputLine ∧ 0 ≤ m.outputColumn) ∧
      (Text.lines js)[3]? = some "b = a;".toList ∧
      ∃ cleaned final map', clean g [0] [2] = .ok cleaned ∧ cleaned.js = some final ∧
        cleaned.map = some map' ∧ ∃ m ∈ map'.mappings, m.outputLine = 3 ∧ m.sourceLine = 2 ∧
          m.sourceColumn = 4 ∧ 0 ≤ m.outputColumn ∧
          ((Text.lines final).getD 3 [])[m.outputColumn.toNat]? = some 'a' := by
  intro js map g
  have natural : ∀ m ∈ map.mappings, 0 ≤ m.outputLine ∧ 0 ≤ m.outputColumn := by decide
  obtain ⟨cleaned, final, map', made, text, mapped, kept⟩ :=
    clean_keeps_mappings (show g.js = some js from rfl) (show g.map = some map from rfl) natural
      [0] [2]
  obtain ⟨m, member, output, source, column, counted, same⟩ :=
    kept ⟨3, 4, 3, 4⟩ (by decide) (by decide) _ rfl (by decide) (by decide)
  have moved : sourceLine [0] 3 = 2 := by decide +kernel
  exact ⟨natural, by decide, cleaned, final, map', made, text, mapped, m, member, output,
    source.trans moved, column, counted, same⟩

/-- Of two mappings at one place cleaning keeps the first, so the second source line has no mapping
any more. -/
theorem clean_drops_later_mapping :
    let js := "a;".toList
    let map : ColumnMap := ⟨[⟨0, [⟨0, 0, 0, 0⟩, ⟨1, 0, 0, 0⟩]⟩]⟩
    let g : Generated := ⟨{ js := some js, map := some map }, rfl⟩
    (∀ m ∈ map.mappings, 0 ≤ m.outputLine ∧ 0 ≤ m.outputColumn) ∧
      ⟨1, 0, 0, 0⟩ ∈ map.mappings ∧
      (let written := (Text.lines (replaceResidues js)).getD 0 []
      parse? written = none ∧ Marker.emptyLine.foundIn written = false) ∧
      ∃ cleaned map', clean g [] [] = .ok cleaned ∧ cleaned.map = some map' ∧
        ∀ m ∈ map'.mappings, m.sourceLine ≠ sourceLine [] 1 := by
  intro js map g
  have natural : ∀ m ∈ map.mappings, 0 ≤ m.outputLine ∧ 0 ≤ m.outputColumn := by decide
  obtain ⟨cleaned, made, parts⟩ := clean_returns (show g.js = some js from rfl)
    (show g.map = some map from rfl)
    (cleanMap_of_readable fun m known => readable_of_nonneg (natural m known).1)
  exact ⟨natural, by decide, by decide, cleaned, _, made, by rw [parts], by decide +kernel⟩

end Cleanup

end DialectBridge
