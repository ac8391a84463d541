import DialectBridge.Proofs.GroupedMappings

/-!
# Column maps are canonical

A column map that was made from mappings is known by its lookups: for every place of the generated
text, the first mapping of the list that claims the place. It has one line for every generated line
up to the last one that is spoken of, also where nothing is mapped. So the order of the mappings
matters only among those that share a place, and to make a map from the entries of a map changes
nothing.
-/

set_option autoImplicit false

namespace DialectBridge

namespace ColumnMap

variable {mappings others : List Mapping} {x : Mapping}

/-! ## The number of lines -/

/-- A fold that takes a greater number where it finds one ends with the first number, or with one
that it found. -/
theorem foldl_height_cases (mappings : List Mapping) (start : Nat) :
    mappings.foldl (fun h m => max h (m.outputLine + 1).toNat) start = start ∨
      ∃ m ∈ mappings, (m.outputLine + 1).toNat =
        mappings.foldl (fun h m => max h (m.outputLine + 1).toNat) start := by
  induction mappings generalizing start with
  | nil => exact .inl rfl
  | cons first rest ih =>
    rw [List.foldl_cons]
    rcases ih (max start (first.outputLine + 1).toNat) with same | ⟨m, member, last⟩
    · rw [same]
      rcases Nat.le_total (first.outputLine + 1).toNat start with small | great
      · exact .inl (Nat.max_eq_left small)
      · exact .inr ⟨first, List.mem_cons_self, (Nat.max_eq_right great).symm⟩
    · exact .inr ⟨m, List.mem_cons_of_mem _ member, last⟩

/-- A map has no lines, or the last one is spoken of. -/
theorem height_cases (mappings : List Mapping) :
    height mappings = 0 ∨ ∃ m ∈ mappings, m.outputLine + 1 = height mappings := by
  rcases foldl_height_cases mappings 0 with none_ | ⟨m, member, last⟩
  · exact .inl none_
  · by_cases some_ : height mappings = 0
    · exact .inl some_
    · refine .inr ⟨m, member, ?_⟩
      change _ = height mappings at last
      omega

theorem outputLine_lt_height (h : x ∈ mappings) : x.outputLine < height mappings := by
  by_cases counted : 0 ≤ x.outputLine
  · have inside := lt_height h (Int.toNat_of_nonneg counted).symm
    omega
  · omega

theorem length_lines_ofMappings (mappings : List Mapping) :
    (ofMappings mappings).lines.length = height mappings := by
  rw [ofMappings, List.length_map, List.length_range]

/-! ## Lookups -/

/-- What is found at a place is a mapping that claims it. -/
theorem claims_of_find? {l c : Int}
    (h : mappings.find? (fun m => m.outputLine == l && m.outputColumn == c) = some x) :
    x ∈ mappings ∧ x.outputLine = l ∧ x.outputColumn = c := by
  refine ⟨List.mem_of_find?_eq_some h, ?_⟩
  simpa using List.find?_some h

/-- Where a mapping claims a place, something is found there. -/
theorem exists_find? (h : x ∈ mappings) :
    ∃ first, mappings.find? (fun m => m.outputLine == x.outputLine &&
      m.outputColumn == x.outputColumn) = some first := by
  rw [← Option.isSome_iff_exists, List.find?_isSome]
  exact ⟨x, h, by simp⟩

/-- The lines of a map that reaches so far. -/
theorem line?_ofMappings {k : Nat} (inside : k < height mappings) :
    (ofMappings mappings).line? k = some ⟨k, columnsOf k mappings⟩ := by
  have found : (ofMappings mappings).lines[k]? = some ⟨k, columnsOf k mappings⟩ := by
    simp [ofMappings, inside]
  rw [line?, if_neg (Int.not_lt.2 (Int.natCast_nonneg k)), Int.toNat_natCast, found]

/-- **A map looks up the first mapping of a place**, and finds nothing where no mapping claims the
place. -/
theorem lookup_ofMappings (mappings : List Mapping) {l : Int} (counted : 0 ≤ l) (c : Int) :
    ((ofMappings mappings).line? l).bind (·.at? c) =
      mappings.find? fun m => m.outputLine == l && m.outputColumn == c := by
  obtain ⟨k, rfl⟩ := Int.eq_ofNat_of_zero_le counted
  have sound : ∀ y ∈ columnsOf k mappings, y.outputColumn = c →
      mappings.find? (fun m => m.outputLine == (k : Int) && m.outputColumn == c) = some y := by
    rintro y inside rfl
    obtain ⟨own, first⟩ := mem_columnsOf_iff.1 inside
    rw [← own]
    exact first
  by_cases inside : k < height mappings
  · rw [line?_ofMappings inside, Option.bind_some, LineMap.at?]
    cases found : (columnsOf k mappings).find? fun m => m.outputColumn == c with
    | some y =>
      have column : y.outputColumn = c := by simpa using List.find?_some found
      exact (sound y (List.mem_of_find?_eq_some found) column).symm
    | none =>
      symm
      rw [List.find?_eq_none]
      intro m member place
      rw [Bool.and_eq_true, beq_iff_eq, beq_iff_eq] at place
      obtain ⟨y, present, same⟩ := exists_mem_columnsOf member
      rw [place.1] at present
      exact List.find?_eq_none.1 found y present (beq_iff_eq.2 (same.trans place.2))
  · have beyond : (ofMappings mappings).line? k = none := by
      rw [line?, if_neg (Int.not_lt.2 counted), Int.toNat_natCast, List.getElem?_eq_none_iff,
        length_lines_ofMappings]
      omega
    rw [beyond, Option.bind_none]
    symm
    rw [List.find?_eq_none]
    intro m member place
    rw [Bool.and_eq_true, beq_iff_eq] at place
    have := outputLine_lt_height member
    omega

/-! ## Maps by their lookups -/

/-- The places of one list are places of the other. -/
theorem height_le_of_lookup
    (same : ∀ l c : Int, 0 ≤ l →
      mappings.find? (fun m => m.outputLine == l && m.outputColumn == c) =
        others.find? fun m => m.outputLine == l && m.outputColumn == c) :
    height mappings ≤ height others := by
  rcases height_cases mappings with none_ | ⟨m, member, last⟩
  · omega
  · by_cases counted : 0 ≤ m.outputLine
    · obtain ⟨first, found⟩ := exists_find? member
      rw [same _ _ counted] at found
      obtain ⟨other, line, -⟩ := claims_of_find? found
      have := outputLine_lt_height other
      omega
    · omega

/-- **A map is known by its lookups.** -/
theorem ofMappings_eq_of_lookup
    (same : ∀ l c : Int, 0 ≤ l →
      mappings.find? (fun m => m.outputLine == l && m.outputColumn == c) =
        others.find? fun m => m.outputLine == l && m.outputColumn == c) :
    ofMappings mappings = ofMappings others := by
  have size : height mappings = height others :=
    Nat.le_antisymm (height_le_of_lookup same)
      (height_le_of_lookup fun l c counted => (same l c counted).symm)
  have columns : ∀ k : Nat, columnsOf k mappings = columnsOf k others := by
    intro k
    refine (pairwise_columnsOf k mappings).eq_of_mem_iff (pairwise_columnsOf k others) fun x => ?_
    rw [mem_columnsOf_iff, mem_columnsOf_iff]
    refine and_congr_right fun own => ?_
    have lookup := same x.outputLine x.outputColumn (by omega)
    exact Eq.congr_left lookup
  unfold ofMappings
  rw [size]
  exact congrArg _ (List.map_congr_left fun k _ => by rw [columns])

/-- The entries of a map look up what the mappings do. -/
theorem find?_mappings_ofMappings (mappings : List Mapping) {l : Int} (counted : 0 ≤ l) (c : Int) :
    (ofMappings mappings).mappings.find? (fun m => m.outputLine == l && m.outputColumn == c) =
      mappings.find? fun m => m.outputLine == l && m.outputColumn == c := by
  cases found : mappings.find? fun m => m.outputLine == l && m.outputColumn == c with
  | none =>
    rw [List.find?_eq_none] at found ⊢
    exact fun m member => found m (mem_of_mem_mappings member)
  | some x =>
    obtain ⟨-, rfl, rfl⟩ := claims_of_find? found
    have entry : x ∈ (ofMappings mappings).mappings :=
      mem_mappings_ofMappings_iff.2 ⟨counted, found⟩
    obtain ⟨y, first⟩ := exists_find? entry
    obtain ⟨known, line, column⟩ := claims_of_find? first
    rw [first, eq_of_mem_mappings known entry line column]

/-- Where no two mappings share a place, a lookup does not depend on their order. -/
theorem find?_perm (order : mappings.Perm others)
    (apart : (mappings.map fun m => (m.outputLine, m.outputColumn)).Nodup) (l c : Int) :
    mappings.find? (fun m => m.outputLine == l && m.outputColumn == c) =
      others.find? fun m => m.outputLine == l && m.outputColumn == c := by
  cases found : others.find? fun m => m.outputLine == l && m.outputColumn == c with
  | none =>
    rw [List.find?_eq_none] at found ⊢
    exact fun m member => found m (order.subset member)
  | some x =>
    obtain ⟨inOthers, rfl, rfl⟩ := claims_of_find? found
    have member := order.symm.subset inOthers
    obtain ⟨y, first⟩ := exists_find? member
    obtain ⟨known, line, column⟩ := claims_of_find? first
    rw [first, List.inj_on_of_nodup_map apart known member (Prod.ext line column)]

/-- **A column map is canonical.** It reaches to the largest generated line of the mappings; its
lines are numbered and in the order of their columns; it looks up the first mapping of every place;
and neither regrouping its entries nor the order of mappings at different places changes it. -/
theorem ofMappings_canonical (mappings : List Mapping) :
    ((∀ m ∈ mappings, m.outputLine < (ofMappings mappings).lines.length) ∧
      ((ofMappings mappings).lines.length = 0 ∨
        ∃ m ∈ mappings, 1 + m.outputLine = (ofMappings mappings).lines.length)) ∧
    (∀ (i : Nat) (line : LineMap), (ofMappings mappings).lines[i]? = some line →
      line.line = i ∧ (∀ m ∈ line.columns, m.outputLine = i) ∧
        line.columns.Pairwise fun x y => x.outputColumn < y.outputColumn) ∧
    (∀ l c : Int, 0 ≤ l → ((ofMappings mappings).line? l).bind (·.at? c) =
      mappings.find? fun m => m.outputLine == l && m.outputColumn == c) ∧
    ofMappings (ofMappings mappings).mappings = ofMappings mappings ∧
    ∀ others, mappings.Perm others →
      (mappings.map fun m => (m.outputLine, m.outputColumn)).Nodup →
        ofMappings others = ofMappings mappings := by
  rw [length_lines_ofMappings]
  refine ⟨⟨fun m => outputLine_lt_height, ?_⟩, fun i line found => ?_,
    fun l c counted => lookup_ofMappings mappings counted c,
    ofMappings_eq_of_lookup fun l c counted => find?_mappings_ofMappings mappings counted c,
    fun others order apart =>
      (ofMappings_eq_of_lookup fun l c _ => find?_perm order apart l c).symm⟩
  · exact (height_cases mappings).imp_right fun ⟨m, member, last⟩ =>
      ⟨m, member, (Int.add_comm _ _).trans last⟩
  · obtain ⟨-, rfl⟩ := getElem?_lines_ofMappings found
    exact ⟨rfl, fun m member => (mem_of_mem_columnsOf member).2, pairwise_foldl List.Pairwise.nil⟩

/-- Three mappings with a free line between them and one below zero, in two orders. -/
theorem ofMappings_canonical_reversed :
    let mappings : List Mapping := [⟨2, 0, 2, 5⟩, ⟨0, 3, 0, 4⟩, ⟨1, 0, -1, 0⟩, ⟨2, 1, 2, 0⟩]
    (mappings.map fun m => (m.outputLine, m.outputColumn)).Nodup ∧
      (ofMappings mappings).lines[2]? = some ⟨2, [⟨2, 1, 2, 0⟩, ⟨2, 0, 2, 5⟩]⟩ ∧
      ([⟨2, 1, 2, 0⟩, ⟨2, 0, 2, 5⟩] : List Mapping).Pairwise
        (fun x y => x.outputColumn < y.outputColumn) ∧
      ((ofMappings mappings).line? 2).bind (·.at? 5) = some ⟨2, 0, 2, 5⟩ ∧
      ofMappings mappings.reverse = ofMappings mappings := by
  intro mappings
  have apart : (mappings.map fun m => (m.outputLine, m.outputColumn)).Nodup := by decide
  have last : (ofMappings mappings).lines[2]? = some ⟨2, [⟨2, 1, 2, 0⟩, ⟨2, 0, 2, 5⟩]⟩ := by decide
  obtain ⟨-, numbered, lookup, -, reordered⟩ := ofMappings_canonical mappings
  exact ⟨apart, last, (numbered 2 _ last).2.2, (lookup 2 5 (by decide)).trans (by decide),
    reordered _ (List.reverse_perm mappings).symm apart⟩

end ColumnMap

end DialectBridge
