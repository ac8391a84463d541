import DialectBridge.Proofs.LineOrder
import DialectBridge.Proofs.Overruns

/-!
# Positions on a sketched line

When an erroneous line is replaced by its sketch, its mappings collapse to one between the
beginnings of the two lines. No other mapping leads to the generated line, so the one that is left
survives every regrouping. Preparation neither inserted nor marked the line, since it could be
replaced; so the mapping gets the line number of the source, and narrowing moves it by keywords
only.

Thus every position on the line is mapped to the generated line, and its column is computed from the
source: it moves behind the receivers that the sketch wrote out, and behind the keyword.
-/

set_option autoImplicit false

namespace DialectBridge

open LineByLine

namespace Preparation

variable {t base t' text ending : Text} {l n k : Nat}

/-- A line that could be replaced was not marked. -/
theorem not_mem_tweaked_of_exchanged (submitted : Submitted (prepare t).text base)
    (exchanged : Exchanged base t' n k text ending) : n ∉ (prepare t).tweaked := by
  refine not_mem_tweaked_of_telling submitted exchanged.faulty.found
    (exchanged.telling.imp_right ?_)
  rintro ⟨c, inside, bracket⟩
  exact ⟨c, List.mem_append_left _ inside, bracket⟩

/-- **Collapsing leaves one mapping on the line** that was replaced. -/
theorem mem_collapse_iff (exchanged : Exchanged base t' n k text ending) {m : Mapping}
    (here : m.outputLine = k) :
    m ∈ ((ColumnMap.ofMappings (mappings t')).collapse n k).mappings ↔ m = ⟨n, 0, k, 0⟩ := by
  have only : ∀ m : Mapping, m ∈ ((ColumnMap.ofMappings (mappings t')).mappings.filter fun m =>
      m.sourceLine != (n : Int)) ++ [⟨n, 0, k, 0⟩] → m.outputLine = k → m = ⟨n, 0, k, 0⟩ := by
    intro m member here
    rcases List.mem_append.1 member with others | own
    · obtain ⟨known, other⟩ := List.mem_filter.1 others
      obtain ⟨i, j, line, found, source, output, -⟩ := exchanged.exists_of_relates
        ⟨m, ColumnMap.mem_of_mem_mappings known, rfl, here⟩
      obtain rfl : k = i := Int.ofNat.inj output
      obtain ⟨-, rfl⟩ := Prod.mk.inj (Option.some.inj (exchanged.number.symm.trans found))
      rw [source, bne_self_eq_false] at other
      cases other
    · exact List.mem_singleton.1 own
  constructor
  · exact fun member => only m (ColumnMap.mem_of_mem_mappings member) here
  · rintro rfl
    obtain ⟨first, kept, output, -⟩ := ColumnMap.exists_mem_mappings
      (List.mem_append_right _ (List.mem_singleton_self _)) here
    rw [← only first (ColumnMap.mem_of_mem_mappings kept) output]
    exact kept

/-- The sketched line keeps its mapping when lines become lines of the source. -/
theorem lineMappings_collapse (submitted : Submitted (prepare t).text base)
    (exchanged : Exchanged base t' n k text ending)
    (place : (placesFrom 0 (editedLines t))[l]? = some n) (lines : List Text) :
    Declarations.LineMappings l k 1
      (((ColumnMap.ofMappings (mappings t')).collapse n k).mappings.filterMap
        (Cleanup.keptMapping? lines (Pipeline.numbers (prepare t).inserted)
          (Pipeline.numbers (prepare t).tweaked))) := by
  have moved : Cleanup.keptMapping? lines (Pipeline.numbers (prepare t).inserted)
      (Pipeline.numbers (prepare t).tweaked) ⟨n, 0, k, 0⟩ = some ⟨l, 0, k, 0⟩ := by
    have unmarked := not_mem_tweaked_of_exchanged submitted exchanged
    rw [Cleanup.keptMapping?_of_nonneg (Int.natCast_nonneg k)]
    dsimp only
    rw [if_neg fun marked => unmarked ((contains_numbers _ n).1 marked), sourceLine_place place]
  have single : ∀ x ∈ ((ColumnMap.ofMappings (mappings t')).collapse n k).mappings.filterMap
      (Cleanup.keptMapping? lines (Pipeline.numbers (prepare t).inserted)
        (Pipeline.numbers (prepare t).tweaked)), x.outputLine = k → x = ⟨l, 0, k, 0⟩ := by
    intro x member here
    obtain ⟨m, known, same⟩ := List.mem_filterMap.1 member
    have output := (Cleanup.keptMapping?_eq_some same).2
    obtain rfl := (mem_collapse_iff exchanged (output.symm.trans here)).1 known
    exact Option.some.inj (same.symm.trans moved)
  refine ⟨fun x member => ⟨fun sameLine => ?_, fun here => ?_⟩, ?_, fun x member here => ?_,
    fun x member here => ?_⟩
  · obtain ⟨m, known, same⟩ := List.mem_filterMap.1 member
    obtain ⟨source, output⟩ := Cleanup.keptMapping?_eq_some same
    obtain ⟨l', p, i, line, -, place', found, fromLine, number⟩ :=
      exists_of_relates submitted (.sketched exchanged) ⟨m, known, rfl, rfl⟩
    obtain rfl : l' = l := Int.ofNat.inj (fromLine.symm.trans (source.symm.trans sameLine))
    obtain rfl := Option.some.inj (place.symm.trans place')
    rw [output, number, filledLines_injective found exchanged.number]
  · rw [single x member here]
  · exact ⟨_, List.mem_filterMap.2 ⟨_, (mem_collapse_iff exchanged rfl).2 rfl, moved⟩, rfl⟩
  · rw [single x member here]
    exact ⟨Int.le_refl 0, Int.zero_lt_one⟩
  · rw [single x member here]
    dsimp only
    omega

/-- The generated line of a sketched line, and the entries that lead there. -/
theorem exists_sketchedEntries (clean : 'ᛟ' ∉ t) (submitted : Submitted (prepare t).text base)
    (exchanged : Exchanged base t' n k text ending) {js : Text}
    (rendered : js = Text.joinLines (putBack base k (sketch text))) :
    ∃ l, (placesFrom 0 (editedLines t))[l]? = some n ∧
      k < (Text.lines (Cleanup.cleanText js)).length ∧
      ToOutput.LineEntries (Cleanup.cleanedMap js ((ColumnMap.ofMappings (mappings t')).collapse n k)
        (Pipeline.numbers (prepare t).inserted) (Pipeline.numbers (prepare t).tweaked))
        ⟨Cleanup.cleanText js, ""⟩ l k (Cleanup.cleanText js).length := by
  have inBase := exchanged.faulty.found
  obtain ⟨l, -, place⟩ := exists_place submitted inBase
    (not_mem_inserted_of_faulty submitted exchanged.faulty)
  have raw := exchanged.getElem?_lines (.inl rfl)
  rw [← rendered] at raw
  have found : (Text.lines (Cleanup.replaceResidues js))[k]? =
      some (Cleanup.replaceLine (sketch text)) := by
    rw [Cleanup.lines_replaceResidues, List.getElem?_map, raw, Option.map_some]
  obtain ⟨times, -, mappings', line', map, kept, -, narrowed, letters, shape⟩ :=
    Declarations.narrow_line found (lineMappings_collapse submitted exchanged place _)
  have unmarked : 'ᛟ' ∉ line' := by
    intro member
    rcases letters _ member with old | new | new
    · have inText := Sketch.mem_of_mem_sketch (by decide)
        (Cleanup.mem_of_mem_replaceLine old (by decide))
      rcases mem_of_mem_base submitted inBase (by decide) (List.mem_append_left _ inText) with
        inSource | ⟨-, tweaked⟩
      · exact clean inSource
      · exact not_mem_tweaked_of_exchanged submitted exchanged tweaked
    · exact absurd new (by decide)
    · exact absurd new (by decide)
  have inDocument : (Text.lines (Cleanup.cleanText js))[k]? = some line' := by
    rw [Cleanup.lines_cleanText, ← Cleanup.lines_replaceResidues, List.getElem?_map, narrowed,
      Option.map_some, Marker.scan_emptyLine_of_not_mem unmarked]
  have same : Cleanup.cleanedMap js ((ColumnMap.ofMappings (mappings t')).collapse n k)
      (Pipeline.numbers (prepare t).inserted) (Pipeline.numbers (prepare t).tweaked) =
      .ofMappings mappings' := map
  -- A faulty line has text and so has its sketch: there is room for a mapping at its beginning.
  have some_ : text ≠ [] := by
    rintro rfl
    have filled := exchanged.faulty.filled
    rcases exchanged.ending_eq with rfl | rfl <;> exact absurd filled (by decide)
  have long := List.length_pos_of_ne_nil (Sketch.sketch_ne_nil some_)
  have short := Text.length_le_of_mem_lines (List.mem_of_getElem? inDocument)
  refine ⟨l, place, (List.getElem?_eq_some_iff.1 inDocument).1, ?_⟩
  rw [same]
  refine kept.ofMappings.lineEntries inDocument ?_ ?_
  · rcases shape with keyworded | ⟨-, more, -⟩
    · rw [keyworded, Declarations.length_keyworded, Cleanup.length_replaceLine]
      exact .inr (by omega)
    · left
      rw [Document.lines, Cleanup.length_lines_cleanText]
      rwa [Cleanup.lines_replaceResidues, List.length_map] at more
  · rcases shape with keyworded | ⟨zero, -, -⟩
    · rw [keyworded, Declarations.length_keyworded, Cleanup.length_replaceLine] at short
      omega
    · omega

end Preparation

namespace ToOutput

/-- A position on a sketched line with entries is mapped to the line of the entries, and its column
is computed from the source. -/
theorem toOutput_ends_of_sketched {g : Generated} {js : Text} {map : ColumnMap} {source : Document}
    {p : Position} {k bound column : Nat} (text : g.js = some js) (mapped : g.map = some map)
    (fake : g.fakeLine = some (p.line : Int)) (sketched : g.mechanism = some .sourceInOutput)
    (entries : LineEntries map ⟨js, ""⟩ p.line k bound) (hk : k ≤ 2147483647)
    (unfenced : ¬ ['#', '#', '#'] <:+: source.lineText p.line)
    (same : column = p.character + 4 * ((source.lineText p.line).take p.character).count '@' +
      if Text.startsWith Sketch.declarationKeyword (Document.lineText ⟨js, ""⟩ k) then 4 else 0)
    (near : column ≤ 2147483647) :
    Ends (g.toOutput p source)
      (fun q => ∃ position, q = some position ∧ position.line = k ∧ position.character = column)
      (Unaddressable (bound + 1 + source.text.length)) := by
  unfold Generated.toOutput Generated.route
  rw [text, mapped]
  dsimp only
  cases cursor_ends source p with
  | @error f fault far =>
    have failed : routeOn g js map p source = .error f := by
      unfold routeOn
      rw [fault]
      rfl
    rw [failed]
    exact .failed (far.mono (by omega))
  | @ok c cursor facts =>
    obtain ⟨position, line, word, -⟩ := facts
    have short := length_word_le word
    have generatedLine : Document.lineAt ⟨js, ""⟩ (k : Int) = Document.lineText ⟨js, ""⟩ k := by
      unfold Document.lineAt
      rw [if_neg (by omega), Int.toNat_natCast]
    rw [routeOn_eq cursor position (commentPosition?_of_unfenced (line ▸ unfenced))]
    have routed : Ends (target map c ⟨js, ""⟩ >>= arrival g js c)
        (fun route => ∃ q : Position, route = .mapped q ∧ q.line = k ∧ q.character = column)
        (Unaddressable (bound + 1 + source.text.length)) := by
      have ending := target_ends_onLine entries (congrArg Position.line position) hk
      refine (ending.mono (fun _ => id) fun f far => far.unaddressable.mono (by omega)).bind ?_
      rintro _ ⟨t, rfl, onLine⟩
      have own : columnOn g ⟨js, ""⟩ c t = column := by
        rw [columnOn_eq, if_pos ⟨position ▸ fake, sketched⟩, sketchedColumn, onLine.line_eq,
          generatedLine, position, line, same]
        omega
      unfold arrival
      dsimp only
      rw [own, onLine.line_eq, Position.make_natCast hk near]
      exact .done ⟨_, rfl, rfl, rfl⟩
    refine routed.bind ?_
    rintro _ ⟨q, rfl, here, there⟩
    exact .done ⟨q, rfl, here, there⟩

end ToOutput

namespace Generated

open Preparation Pipeline

/-- **Positions on a sketched line go to one generated line**, and their columns are computed from
the source: four columns more for every receiver sign before, and four more behind the keyword of a
declaration. The map tells the line only. Nothing can fail but the address of a place, and only if
the two texts together have more characters than a position can count. -/
theorem toOutput_sketchedLine {source : Document} {g : Generated} {l : Nat}
    (clean : 'ᛝ' ∉ source.text ∧ 'ᛟ' ∉ source.text)
    (made : (generate LineByLine.compile source).outcome = .ok g)
    (fake : g.fakeLine = some (l : Int)) (sketched : g.mechanism = some .sourceInOutput)
    (unfenced : Text.occursIn ['#', '#', '#'] (source.lineText l) = false) :
    ∃ js k, g.js = some js ∧ k < (Text.lines js).length ∧
      ∀ (p : Position) (column : Nat), p.line = l →
        column = p.character + 4 * ((source.lineText l).take p.character).count '@' +
          (if Text.startsWith "let ".toList (Document.lineText ⟨js, ""⟩ k) then 4 else 0) →
        column ≤ Position.limit →
        Ends (g.toOutput p source)
          (fun q => ∃ position, q = some position ∧ position.line = k ∧
            position.character = column)
          (Unaddressable (js.length + 1 + source.text.length)) := by
  cases (generate_ends clean.1).of_ok made with
  | sketched text mapless genuine =>
    rw [genuine] at fake
    cases fake
  | @cleaned base js map faked submitted rendered text mapped fakeLine mechanism =>
    rw [mechanism] at sketched
    obtain ⟨⟨n, _⟩, rfl, rfl⟩ := Option.map_eq_some_iff.1 sketched
    cases rendered with
    | sketched exchanged =>
      obtain ⟨l', place, inside, entries⟩ := exists_sketchedEntries clean.2 submitted exchanged rfl
      have number : (l : Int) = l' :=
        (Option.some.inj (fake.symm.trans fakeLine)).trans (sourceLine_place place)
      obtain rfl : l = l' := Int.ofNat.inj number
      have near := le_of_ascending (filledLines_ascending base) exchanged.number
      have addressable := exchanged.addressable
      refine ⟨_, _, text, inside, ?_⟩
      rintro p column rfl same small
      exact ToOutput.toOutput_ends_of_sketched text mapped fake mechanism entries
        (Nat.le_trans near addressable) (Text.not_infix_of_occursIn unfenced) same small

/-- Below a block comment, a position behind two receiver signs of a sketched line moves eight
columns for them. -/
theorem toOutput_sketchedLine_receivers :
    let source : Document := ⟨"a = 1\n###\nx\n###\nb = @c ( @d".toList, ""⟩
    let p : Position := ⟨4, 10, by decide, by decide⟩
    ∃ g, (generate LineByLine.compile source).outcome = .ok g ∧ g.fakeLine = some 4 ∧
      g.mechanism = some .sourceInOutput ∧ ∃ js k, g.js = some js ∧
        Returns (g.toOutput p source) fun q => ∃ position, q = some position ∧ position.line = k ∧
          position.character = 10 + 4 * 2 +
            if Text.startsWith "let ".toList (Document.lineText ⟨js, ""⟩ k) then 4 else 0 := by
  intro source p
  let g := (generate LineByLine.compile source).outcome.toOption.get (by decide +kernel)
  have made : (generate LineByLine.compile source).outcome = .ok g := by decide +kernel
  have fake : g.fakeLine = some ((4 : Nat) : Int) := by decide +kernel
  have sketched : g.mechanism = some .sourceInOutput := by decide +kernel
  have size : g.js.map List.length = some 53 := by decide +kernel
  obtain ⟨js, k, text, -, maps⟩ :=
    toOutput_sketchedLine (by decide) made fake sketched (by decide)
  rw [text] at size
  have short : js.length = 53 := Option.some.inj size
  have ends := maps p _ rfl rfl (by split <;> decide)
  refine ⟨g, made, fake, sketched, js, k, text, ends.returns (not_unaddressable ?_)⟩
  rw [short]
  decide

end Generated

end DialectBridge
