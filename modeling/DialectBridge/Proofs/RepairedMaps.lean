import DialectBridge.Cleanup
import DialectBridge.Proofs.Entries

/-!
# Repaired maps

Cleaning looks for the mark of an empty line on the generated line of every mapping of a marked
line. The number of a generated line may be negative; it then counts from the end of the text, and
there is nothing to look at when it counts further back than the text has lines. So a map can be
repaired exactly if all its mappings are `Readable`, and what it becomes then is known without
regard to faults (`cleanedMap`). A grouped map has no mappings to negative lines, and can always be
repaired.
-/

set_option autoImplicit false

namespace DialectBridge

/-- The entries of a grouped map have generated lines that are counted from zero. -/
theorem ColumnMap.outputLine_nonneg {mappings : List Mapping} {m : Mapping}
    (h : m ∈ (ofMappings mappings).mappings) : 0 ≤ m.outputLine := by
  obtain ⟨k, -, inside⟩ := mem_mappings_ofMappings.1 h
  rw [(mem_of_mem_columnsOf inside).2]
  exact Int.natCast_nonneg k

namespace Cleanup

/-- The generated line of a mapping can be looked at if it has to be. -/
def Readable (lines : List Text) (tweaked : List Int) (m : Mapping) : Prop :=
  m.sourceLine ∈ tweaked → 0 ≤ lines.length + m.outputLine

instance (lines : List Text) (tweaked : List Int) (m : Mapping) :
    Decidable (Readable lines tweaked m) :=
  inferInstanceAs (Decidable (m.sourceLine ∈ tweaked → 0 ≤ lines.length + m.outputLine))

/-- What becomes of a mapping, if anything. -/
def keptMapping? (lines : List Text) (inserted tweaked : List Int) (m : Mapping) :
    Option Mapping :=
  (sourceMapping? lines inserted tweaked m).toOption.join

/-- The map after cleaning, if it can be cleaned. -/
def cleanedMap (js : Text) (map : ColumnMap) (inserted tweaked : List Int) : ColumnMap :=
  let lines := Text.lines (replaceResidues js)
  Declarations.narrowMap lines
    (.ofMappings (map.mappings.filterMap (keptMapping? lines inserted tweaked)))

section Mappings

variable {lines : List Text} {inserted tweaked : List Int} {m m' : Mapping}

theorem readable_of_nonneg (counted : 0 ≤ m.outputLine) : Readable lines tweaked m :=
  fun _ => Int.add_nonneg (Int.natCast_nonneg _) counted

/-- A mapping that can be read becomes what it becomes. -/
theorem sourceMapping?_of_readable (readable : Readable lines tweaked m) :
    sourceMapping? lines inserted tweaked m = .ok (keptMapping? lines inserted tweaked m) := by
  have made : ∃ r, sourceMapping? lines inserted tweaked m = .ok r := by
    unfold sourceMapping? lineAt
    dsimp only
    split
    · next marked =>
      split
      · exact ⟨_, rfl⟩
      · rw [if_pos (readable (List.contains_iff_mem.1 marked))]
        exact ⟨_, rfl⟩
    · exact ⟨_, rfl⟩
  obtain ⟨r, same⟩ := made
  rw [keptMapping?, same]
  rfl

/-- A mapping that cannot be read ends the repair. -/
theorem sourceMapping?_of_not_readable (unreadable : ¬ Readable lines tweaked m) :
    sourceMapping? lines inserted tweaked m = .error .linePastEnd := by
  obtain ⟨marked, before⟩ := Classical.not_imp.1 unreadable
  have beyond : ¬ 0 ≤ m.outputLine := by omega
  unfold sourceMapping? lineAt
  rw [if_pos (List.contains_iff_mem.2 marked), if_neg beyond, if_neg before]
  rfl

/-- A mapping to a line that is counted from zero. -/
theorem keptMapping?_of_nonneg (counted : 0 ≤ m.outputLine) :
    keptMapping? lines inserted tweaked m =
      if tweaked.contains m.sourceLine then
        if Marker.emptyLine.foundIn (lines.getD m.outputLine.toNat []) then
          some ⟨sourceLine inserted m.sourceLine, 0, m.outputLine, 0⟩
        else none
      else some { m with sourceLine := sourceLine inserted m.sourceLine } := by
  unfold keptMapping? sourceMapping? lineAt
  rw [if_pos counted]
  split <;> rfl

/-- A mapping that is not dropped keeps its output line and gets the source line. -/
theorem keptMapping?_eq_some (h : keptMapping? lines inserted tweaked m = some m') :
    m'.sourceLine = sourceLine inserted m.sourceLine ∧ m'.outputLine = m.outputLine := by
  unfold keptMapping? sourceMapping? at h
  dsimp only at h
  split at h
  · cases found : lineAt lines m.outputLine with
    | error fault => simp [found, Except.toOption, bind, Except.bind] at h
    | ok line =>
      simp only [found, bind, Except.bind, pure, Except.pure] at h
      split at h
      · cases h
        exact ⟨rfl, rfl⟩
      · cases h
  · cases h
    exact ⟨rfl, rfl⟩

end Mappings

section Maps

variable {lines : List Text} {js : Text} {map : ColumnMap} {inserted tweaked : List Int}

theorem mapM_sourceMapping?_of_readable {mappings : List Mapping}
    (readable : ∀ m ∈ mappings, Readable lines tweaked m) :
    mappings.mapM (sourceMapping? lines inserted tweaked) =
      .ok (mappings.map (keptMapping? lines inserted tweaked)) := by
  induction mappings with
  | nil => rfl
  | cons m rest ih =>
    rw [List.mapM_cons, sourceMapping?_of_readable (readable m List.mem_cons_self),
      ih fun other member => readable other (List.mem_cons_of_mem _ member)]
    rfl

theorem mapM_sourceMapping?_of_not_readable {mappings : List Mapping} {m : Mapping}
    (member : m ∈ mappings) (unreadable : ¬ Readable lines tweaked m) :
    mappings.mapM (sourceMapping? lines inserted tweaked) = .error .linePastEnd := by
  induction mappings with
  | nil => cases member
  | cons x rest ih =>
    rw [List.mapM_cons]
    by_cases readable : Readable lines tweaked x
    · have later : m ∈ rest := by
        rcases List.mem_cons.1 member with rfl | later
        · exact absurd readable unreadable
        · exact later
      rw [sourceMapping?_of_readable readable, ih later]
      rfl
    · rw [sourceMapping?_of_not_readable readable]
      rfl

/-- **A map whose mappings can be read is cleaned.** -/
theorem cleanMap_of_readable
    (readable : ∀ m ∈ map.mappings, Readable (Text.lines (replaceResidues js)) tweaked m) :
    cleanMap js map inserted tweaked = .ok (cleanedMap js map inserted tweaked) := by
  unfold cleanMap sourceMap cleanedMap
  dsimp only
  rw [mapM_sourceMapping?_of_readable readable]
  dsimp only [bind, Except.bind, pure, Except.pure]
  rw [List.filterMap_map]
  rfl

/-- **A mapping that cannot be read is the fault of cleaning.** -/
theorem cleanMap_of_not_readable {m : Mapping} (member : m ∈ map.mappings)
    (unreadable : ¬ Readable (Text.lines (replaceResidues js)) tweaked m) :
    cleanMap js map inserted tweaked = .error .linePastEnd := by
  unfold cleanMap sourceMap
  dsimp only
  rw [mapM_sourceMapping?_of_not_readable member unreadable]
  rfl

/-- A map that is cleaned has mappings that can be read, and it is known what it becomes. -/
theorem readable_of_cleanMap {cleaned : ColumnMap}
    (h : cleanMap js map inserted tweaked = .ok cleaned) :
    (∀ m ∈ map.mappings, Readable (Text.lines (replaceResidues js)) tweaked m) ∧
      cleaned = cleanedMap js map inserted tweaked := by
  have readable : ∀ m ∈ map.mappings, Readable (Text.lines (replaceResidues js)) tweaked m := by
    intro m member
    by_contra unreadable
    rw [cleanMap_of_not_readable member unreadable] at h
    cases h
  rw [cleanMap_of_readable readable] at h
  exact ⟨readable, (Except.ok.inj h).symm⟩

/-- A grouped map can always be cleaned. -/
theorem cleanMap_ofMappings (js : Text) (rows : List Mapping) (inserted tweaked : List Int) :
    cleanMap js (.ofMappings rows) inserted tweaked =
      .ok (cleanedMap js (.ofMappings rows) inserted tweaked) :=
  cleanMap_of_readable fun _ member => readable_of_nonneg (ColumnMap.outputLine_nonneg member)

end Maps

end Cleanup

end DialectBridge
