import DialectBridge.Proofs.KeptMappings
import DialectBridge.Proofs.Overruns

/-!
# The entries of a line are its tokens

The compiler writes one mapping for every token of a line of code, from the column of the token to
the same column. Cleaning keeps those mappings and adds one kind only: a keyword that is inserted
where a token begins gets copies of the mapping of that token. So all entries of a source line are
known: they lead to one generated line, and each leads to the column to which the keywords moved its
token, or onto a keyword.

The choice among the entries that fit a cursor is then determined in two cases. When all of them
lead to one place, that place is chosen, unless the word of the cursor is found one column further;
and when the cursor has neither a word nor a character, the last place is chosen.
-/

set_option autoImplicit false

namespace DialectBridge

open LineByLine

namespace Declarations

/-! ## Columns behind keywords -/

/-- Where a mapping stands once keywords were inserted at a column: where the keywords moved it, or
on one of them, if it stood at that column. -/
def Placed (times indent : Nat) (old new : Int) : Prop :=
  new = keywordedColumn times indent old ∨
    old = indent ∧ (indent : Int) ≤ new ∧ new < (indent + 4 * times : Nat)

theorem keywordedColumn_of_le {times indent column : Nat} (h : indent ≤ column) :
    keywordedColumn times indent column = (column + 4 * times : Nat) := by
  rw [keywordedColumn, if_pos (Int.ofNat_le.2 h), Int.natCast_add]

theorem Placed.refl (indent : Nat) (column : Int) : Placed 0 indent column column :=
  .inl (keywordedColumn_zero indent column).symm

/-- Keywords at the same column add up. -/
theorem Placed.trans {times more indent : Nat} {old between new : Int}
    (first : Placed times indent old between) (second : Placed more indent between new) :
    Placed (times + more) indent old new := by
  unfold Placed keywordedColumn at *
  split at first <;> split at second <;> split <;> omega

theorem Shifted.placed {n : Narrowing} {m x : Mapping} (h : Shifted n m x) :
    x.sourceLine = m.sourceLine ∧ x.sourceColumn = m.sourceColumn ∧ x.outputLine = m.outputLine ∧
      (m.outputLine = n.line → Placed 1 n.column m.outputColumn x.outputColumn) ∧
      (m.outputLine ≠ n.line → x = m) := by
  unfold Placed keywordedColumn
  cases h with
  | kept apart =>
    refine ⟨rfl, rfl, rfl, fun here => .inl ?_, fun _ => rfl⟩
    rw [if_neg (by omega)]
  | moved here behind =>
    refine ⟨rfl, rfl, rfl, fun _ => .inl ?_, fun apart => absurd here apart⟩
    rw [if_pos behind, length_keyword]
  | copied here at_ i inside =>
    rw [length_keyword] at inside
    exact ⟨rfl, rfl, rfl, fun _ => .inr ⟨at_, by dsimp only; omega, by dsimp only; omega⟩,
      fun apart => absurd here apart⟩

/-- A mapping after all keywords were inserted comes from one before, and stands where they placed
it. -/
theorem exists_placed_of_mem_foldl {k indent : Nat} {narrowed : List Narrowing}
    (columns : ∀ n ∈ narrowed, n.line = k → n.column = indent) {mappings : List Mapping}
    {x : Mapping} (here : x.outputLine = k)
    (h : x ∈ narrowed.foldl insertKeywordMappings mappings) :
    ∃ m ∈ mappings, m.sourceColumn = x.sourceColumn ∧ m.outputLine = k ∧
      Placed (keywordsOn k narrowed) indent m.outputColumn x.outputColumn := by
  induction narrowed generalizing mappings with
  | nil => exact ⟨x, h, rfl, here, .refl indent _⟩
  | cons n rest ih =>
    obtain ⟨y, member, source, line, placed⟩ :=
      ih (fun n inside => columns n (List.mem_cons_of_mem _ inside)) h
    obtain ⟨m, known, shifted⟩ := exists_shifted member
    obtain ⟨-, sameSource, sameLine, moved, kept⟩ := shifted.placed
    refine ⟨m, known, sameSource.symm.trans source, sameLine.symm.trans line, ?_⟩
    by_cases own : n.line = k
    · subst own
      have first := moved (sameLine.symm.trans line)
      rw [columns n List.mem_cons_self rfl] at first
      rw [keywordsOn_cons_self, Nat.add_comm]
      exact first.trans placed
    · have apart : m.outputLine ≠ n.line := fun same =>
        own (Int.ofNat.inj (same.symm.trans (sameLine.symm.trans line)))
      rw [keywordsOn_cons_of_ne own, ← kept apart]
      exact placed

/-- **Narrowing makes no mappings**, apart from those of the keywords. -/
theorem exists_placed_of_mem_narrowMap {lines : List Text} {map : ColumnMap} {k : Nat} {x : Mapping}
    (here : x.outputLine = k) (h : x ∈ (narrowMap lines map).mappings) :
    ∃ m ∈ map.mappings, m.sourceColumn = x.sourceColumn ∧ m.outputLine = k ∧
      Placed (keywordsOn k (narrowings lines)) (Text.leadingBlank (lines.getD k [])).length
        m.outputColumn x.outputColumn := by
  unfold narrowMap at h
  dsimp only at h
  split at h
  · next none_ =>
    rw [List.isEmpty_iff.1 none_, keywordsOn, List.countP_nil]
    exact ⟨x, h, rfl, here, .refl _ _⟩
  · refine exists_placed_of_mem_foldl (fun n member same => ?_) here
      (ColumnMap.mem_of_mem_mappings h)
    obtain ⟨-, line, inside, column, -⟩ := exists_of_mem_narrowings member
    rw [column, List.getD_eq_getElem?_getD, ← same, inside, Option.getD_some]

/-- Keywords are inserted on lines with an assignment only. -/
theorem keywordsOn_eq_zero {lines : List Text} {k : Nat} (plain : '=' ∉ lines.getD k []) :
    keywordsOn k (narrowings lines) = 0 := by
  refine List.countP_eq_zero.2 fun n member same => plain ?_
  obtain ⟨-, line, inside, -, sign⟩ := exists_of_mem_narrowings member
  rw [beq_iff_eq.1 same] at inside
  rwa [List.getD_eq_getElem?_getD, inside, Option.getD_some]

end Declarations

open Declarations

namespace ToOutput

/-- All entries of a source line, which has tokens at the given columns: they lead to one generated
line, to the places that `times` keywords behind the indentation leave to the tokens. -/
structure TokenEntries (map : ColumnMap) (l k indent times : Nat) (columns : List Nat) : Prop where
  same_line : ∀ m ∈ map.mappings, m.sourceLine = l ↔ m.outputLine = k
  token : ∀ m ∈ map.mappings, m.outputLine = k →
    ∃ column ∈ columns, m.sourceColumn = column ∧ Placed times indent column m.outputColumn
  entry : ∀ column ∈ columns, ∃ m ∈ map.mappings, m.outputLine = k ∧ m.sourceColumn = column ∧
    m.outputColumn = keywordedColumn times indent column

end ToOutput

namespace LineByLine

/-- Tokens of a text in two parts; the second part may go on in the last word of the first. -/
theorem tokenColumns_append (inWord : Bool) (start : Nat) (front rest : Text) :
    tokenColumns inWord start (front ++ rest) = tokenColumns inWord start front ++
      tokenColumns ((front.getLast?.map isIdentifier).getD inWord) (start + front.length) rest := by
  induction front generalizing inWord start with
  | nil => rfl
  | cons c more ih =>
    have last : (((c :: more).getLast?.map isIdentifier).getD inWord) =
        ((more.getLast?.map isIdentifier).getD (isIdentifier c)) := by
      rw [List.getLast?_cons]
      cases more.getLast? <;> rfl
    have size : start + (c :: more).length = start + 1 + more.length := by
      rw [List.length_cons]
      omega
    rw [List.cons_append, last, size]
    cases letter : isIdentifier c with
    | true => cases inWord <;> simp [tokenColumns, letter, ih]
    | false => cases blank : isBlank c <;> simp [tokenColumns, letter, blank, ih]

/-- Every token of a line of code keeps its mapping when the mappings are grouped. -/
theorem mem_mappings_of_token {t line : Text} {j i column : Nat}
    (found : (filledLines t)[i]? = some (line, j)) (code : isComment line = false)
    (token : column ∈ tokenColumns false 0 line) :
    ⟨j, column, i, column⟩ ∈ (ColumnMap.ofMappings (mappings t)).mappings := by
  have first : (⟨j, column, i, column⟩ : Mapping) ∈ mappings t := by
    refine mem_mappings_iff.2 ⟨i, line, j, found, ?_⟩
    unfold lineMappings
    rw [code]
    exact List.mem_map_of_mem token
  obtain ⟨x, member, outputLine, outputColumn⟩ := ColumnMap.exists_mem_mappings first rfl
  obtain ⟨i', other, j', found', inside⟩ :=
    mem_mappings_iff.1 (ColumnMap.mem_of_mem_mappings member)
  obtain ⟨-, column', -, rfl⟩ := Preparation.exists_of_mem_lineMappings inside
  obtain rfl : i' = i := Int.ofNat.inj outputLine
  obtain rfl : column' = column := Int.ofNat.inj outputColumn
  obtain ⟨-, rfl⟩ := Prod.mk.inj (Option.some.inj (found.symm.trans found'))
  exact member

end LineByLine

theorem Marker.foundIn_emptyLine_of_not_mem {t : Text} (clean : 'ᛟ' ∉ t) :
    Marker.emptyLine.foundIn t = false := by
  induction t with
  | nil => rfl
  | cons c rest ih =>
    have other : c ≠ 'ᛟ' := fun same => clean (same ▸ List.mem_cons_self)
    rw [foundIn, emptyLine_residue?_of_ne other,
      ih fun inside => clean (List.mem_cons_of_mem _ inside)]
    rfl

/-- A line of the cleaned text that neither declares nor holds a mark has keywords and nothing else
put in. -/
theorem Cleanup.getElem?_lines_cleanText {js out : Text} {k : Nat}
    (output : (Text.lines (replaceResidues js))[k]? = some out) (plain : parse? out = none)
    (free : 'ᛟ' ∉ out) : (Text.lines (cleanText js))[k]? =
      some (keyworded (keywordsOn k (narrowings (Text.lines (replaceResidues js)))) out) := by
  have entry : (Text.lines (replaceResidues js)).getD k [] = out := by
    rw [List.getD_eq_getElem?_getD, output, Option.getD_some]
  have bound : k < (Text.lines (cleanText js)).length := by
    have inside := (List.getElem?_eq_some_iff.1 output).1
    rwa [lines_replaceResidues, List.length_map, ← length_lines_cleanText] at inside
  have whole := getD_lines_cleanText (entry.symm ▸ plain)
    (entry.symm ▸ Marker.foundIn_emptyLine_of_not_mem free)
  rw [entry, List.getD_eq_getElem?_getD, List.getElem?_eq_getElem bound, Option.getD_some] at whole
  rw [List.getElem?_eq_getElem bound, whole]

namespace Preparation

variable {t base t' js line code out : Text} {fake : Option (Nat × Mechanism)} {l n k : Nat}

/-- **The entries of a line are its tokens.** The line may be compiled as it is or with another line
in its place: the tokens are those of the line that was compiled. -/
theorem tokenEntries_cleanedMap (submitted : Submitted (prepare t).text base)
    (rendered : Rendered base js (.ofMappings (mappings t')) fake)
    (place : (placesFrom 0 (editedLines t))[l]? = some n) (unmarked : n ∉ (prepare t).tweaked)
    (number : (filledLines base)[k]? = some (line, n))
    (compiled : (filledLines t')[k]? = some (code, n)) (plain : isComment code = false)
    (output : (Text.lines (Cleanup.replaceResidues js))[k]? = some out) (free : 'ᛟ' ∉ out) :
    ToOutput.TokenEntries (Cleanup.cleanedMap js (.ofMappings (mappings t'))
        (Pipeline.numbers (prepare t).inserted) (Pipeline.numbers (prepare t).tweaked)) l k
      (Text.leadingBlank out).length
      (keywordsOn k (narrowings (Text.lines (Cleanup.replaceResidues js))))
      (tokenColumns false 0 code) where
  same_line x member := by
    obtain ⟨l', p, i, other, -, place', found, source, output⟩ :=
      exists_of_relates_cleanedMap submitted rendered ⟨x, member, rfl, rfl⟩
    rw [source, output]
    constructor
    · intro same
      obtain rfl : l' = l := Int.ofNat.inj same
      obtain rfl := Option.some.inj (place.symm.trans place')
      rw [filledLines_injective found number]
    · intro same
      obtain rfl : i = k := Int.ofNat.inj same
      obtain ⟨-, rfl⟩ := Prod.mk.inj (Option.some.inj (found.symm.trans number))
      rw [← sourceLine_place place', sourceLine_place place]
  token x member here := by
    obtain ⟨m, known, source, line, placed⟩ := exists_placed_of_mem_narrowMap here member
    rw [List.getD_eq_getElem?_getD, output, Option.getD_some] at placed
    obtain ⟨first, grouped, same⟩ := List.mem_filterMap.1 (ColumnMap.mem_of_mem_mappings known)
    obtain ⟨i, other, j, found, inside⟩ :=
      mem_mappings_iff.1 (ColumnMap.mem_of_mem_mappings grouped)
    obtain ⟨-, column, token, rfl⟩ := exists_of_mem_lineMappings inside
    obtain rfl : i = k :=
      Int.ofNat.inj ((Cleanup.keptMapping?_eq_some same).2.symm.trans line)
    obtain ⟨rfl, rfl⟩ := Prod.mk.inj (Option.some.inj (found.symm.trans compiled))
    rw [Cleanup.keptMapping?_of_nonneg (ColumnMap.outputLine_nonneg grouped)] at same
    dsimp only at same
    rw [if_neg fun marked => unmarked ((contains_numbers _ j).1 marked)] at same
    obtain rfl := Option.some.inj same
    exact ⟨column, token, source.symm, placed⟩
  entry column token := by
    have own : (⟨n, column, k, column⟩ : Mapping).sourceLine ∉
        Pipeline.numbers (prepare t).tweaked := fun member =>
      unmarked ((contains_numbers _ n).1 (List.contains_iff_mem.2 member))
    have entry : (Text.lines (Cleanup.replaceResidues js)).getD k [] = out := by
      rw [List.getD_eq_getElem?_getD, output, Option.getD_some]
    refine ⟨_, Cleanup.mem_cleanedMap (ColumnMap.find?_sharesPlace
      (mem_mappings_of_token compiled plain token)) rfl own ?_, rfl, rfl, ?_⟩
    · rw [entry]
      exact Marker.foundIn_emptyLine_of_not_mem free
    · dsimp only
      rw [entry]

section Coded

variable {edited : Text} {p : Nat}

/-- The entries of a line of code, in a text that compiles as it is prepared. -/
theorem Coded.tokenEntries (h : Coded t l line edited p k) (clean : 'ᛟ' ∉ t)
    (compiles : Compiler.Compiles LineByLine.compile (prepare t).text) :
    ToOutput.TokenEntries (generatedMap t) l k
      (Text.leadingBlank (Cleanup.replaceLine (Text.trimRight edited ++ [';']))).length
      (keywordsOn k (narrowings (generatedLines t))) (tokenColumns false 0 edited) := by
  have lines_ := lines_replaceResidues_output h.filledLines_ne_nil
  have found : (Text.lines (Cleanup.replaceResidues (LineByLine.output (prepare t).text)))[k]? =
      some (Cleanup.replaceLine (Text.trimRight edited ++ [';'])) := by
    rw [lines_, h.getElem?_generatedLines]
  have entries := tokenEntries_cleanedMap .gentle (.direct compiles) h.place h.unmarked h.filled
    h.filled h.code found (h.not_mem_replaceLine clean)
  rw [← lines_]
  exact entries

/-- The generated line of a line of code that is no declaration. -/
theorem Coded.getElem?_generatedText (h : Coded t l line edited p k) (clean : 'ᛟ' ∉ t)
    (plain : parse? (Cleanup.replaceLine (Text.trimRight edited ++ [';'])) = none) :
    (Text.lines (generatedText t))[k]? =
      some (keyworded (keywordsOn k (narrowings (generatedLines t)))
        (Cleanup.replaceLine (Text.trimRight edited ++ [';']))) := by
  have lines_ := lines_replaceResidues_output h.filledLines_ne_nil
  have found : (Text.lines (Cleanup.replaceResidues (LineByLine.output (prepare t).text)))[k]? =
      some (Cleanup.replaceLine (Text.trimRight edited ++ [';'])) := by
    rw [lines_, h.getElem?_generatedLines]
  rw [generatedText,
    Cleanup.getElem?_lines_cleanText found plain (h.not_mem_replaceLine clean), lines_]

end Coded

end Preparation

namespace ToOutput

/-! ## The choice among targets -/

section Choice

variable {c : Cursor} {generated : Document} {targets : List Target} {t : Target} {bound : Nat}

/-- Where all targets are one, it is chosen, unless the word of the cursor moves it. -/
theorem choose?_of_forall_eq (some_ : targets ≠ []) (same : ∀ x ∈ targets, x = t)
    (reach : InReach bound t) (small : bound ≤ 2147483647)
    (stays : c.word.text ≠ [] → Returns (onWord? c generated t) fun moved => ∀ x ∈ moved, x = t) :
    choose? c generated targets = .ok (some t) := by
  have words : Returns (byWord targets c generated) fun left => ∀ x ∈ left, x = t := by
    unfold byWord
    split
    · exact .ok fun x inside => absurd inside List.not_mem_nil
    · next named =>
      have each := mapM_returns fun x (inside : x ∈ targets) =>
        show Returns (onWord? c generated x) fun moved => ∀ y ∈ moved, y = t from
          same x inside ▸ stays (by simpa using named)
      refine each.bind fun moved results => .ok fun x inside => ?_
      obtain ⟨option, member, rfl⟩ := List.mem_filterMap.1 inside
      obtain ⟨i, at_⟩ := List.mem_iff_getElem?.1 member
      obtain ⟨y, -, stay⟩ := exists_getElem?_left results at_
      exact stay x rfl
  obtain ⟨left, words_, stay⟩ := words
  have both : (if left.isEmpty then targets else left) ≠ [] ∧
      ∀ x ∈ (if left.isEmpty then targets else left), x = t := by
    split
    · exact ⟨some_, same⟩
    · next filled => exact ⟨by simpa using filled, stay⟩
  have later : Returns (narrow c generated [byLineWithWord, byChar, byIdentifier]
      (if left.isEmpty then targets else left)) fun final =>
        final ⊆ (if left.isEmpty then targets else left) ∧ final ≠ [] :=
    (narrow_ends (fun _ => id) both.1 fun x inside => both.2 x inside ▸ reach).returns
      (not_tooFar small)
  obtain ⟨final, narrowed, part, filled⟩ := later
  obtain ⟨last, inside, chosen⟩ := bottomRight?_mem filled
  unfold choose?
  rw [if_neg (by simpa using some_), narrowers, narrow, words_]
  change (narrow c generated _ _ >>= fun left => .ok (bottomRight? left)) = _
  rw [narrowed]
  change Except.ok (bottomRight? final) = _
  rw [chosen, both.2 last (part inside)]

/-- Behind the end of its line and away from words, a cursor leaves nothing to narrow. -/
theorem choose?_of_end (some_ : targets ≠ []) (word : c.word.text = []) (char : c.char = none) :
    choose? c generated targets = .ok (bottomRight? targets) := by
  have steps : narrow c generated narrowers targets = .ok targets := by
    simp only [narrowers, narrow, byWord, byLineWithWord, byChar, byIdentifier, word, char,
      List.isEmpty_nil, Option.isNone_none, Text.isIdentifierAt, Option.any_none, Bool.not_false,
      if_true, bind, Except.bind]
  unfold choose?
  rw [if_neg (by simpa using some_), steps]
  rfl

end Choice

/-! ## The target of a cursor -/

section Fitting

variable {map : ColumnMap} {generated : Document} {c : Cursor} {l k indent times reached : Nat}
  {columns : List Nat}

/-- Entries of the column of the cursor are taken, and no others. -/
theorem fitting_eq_precise {m : Mapping} (member : m ∈ map.forSourceLine c.position.line)
    (column : m.sourceColumn = c.position.character) :
    fitting map c generated = .ok ((map.forSourceLine c.position.line).filter fun m =>
      m.sourceColumn == (c.position.character : Int)) := by
  have precise : m ∈ (map.forSourceLine c.position.line).filter fun m =>
      m.sourceColumn == (c.position.character : Int) :=
    List.mem_filter.2 ⟨member, beq_iff_eq.2 column⟩
  unfold fitting
  dsimp only
  rw [if_neg (by simpa using List.ne_nil_of_mem member),
    if_pos (by simpa using List.ne_nil_of_mem precise)]
  rfl

/-- Without entries of its own, and not behind a word, a cursor takes the first substitutes. -/
theorem fitting_eq_substitutes (some_ : map.forSourceLine c.position.line ≠ [])
    (apart : ∀ m ∈ map.forSourceLine c.position.line, m.sourceColumn ≠ c.position.character)
    (free : c.atEndOfWord = false) :
    fitting map c generated =
      .ok (firstNonempty (substitutes c (map.forSourceLine c.position.line))) := by
  have none_ : ((map.forSourceLine c.position.line).filter fun m =>
      m.sourceColumn == (c.position.character : Int)) = [] := by
    rw [List.filter_eq_nil_iff]
    intro m member
    simpa using apart m member
  unfold fitting
  dsimp only
  rw [if_neg (by simpa using some_), none_, free]
  simp only [List.isEmpty_nil, Bool.not_true, Bool.false_eq_true, if_false, pure_bind]
  rfl

namespace TokenEntries

variable (h : TokenEntries map l k indent times columns)

include h

theorem mem_forSourceLine_iff {m : Mapping} :
    m ∈ map.forSourceLine l ↔ m ∈ map.mappings ∧ m.outputLine = k := by
  unfold ColumnMap.forSourceLine
  rw [List.mem_filter, beq_iff_eq]
  exact and_congr_right fun member => h.same_line m member

/-- The entries of a token that no keyword stands at lead to one place. -/
theorem ofMapping_eq {m : Mapping} (member : m ∈ map.forSourceLine l) {column : Nat}
    (same : m.sourceColumn = column) (apart : column ≠ indent ∨ times = 0) :
    Target.ofMapping m = ⟨k, keywordedColumn times indent column⟩ := by
  obtain ⟨known, here⟩ := h.mem_forSourceLine_iff.1 member
  obtain ⟨column', -, source, placed⟩ := h.token m known here
  obtain rfl : column' = column := Int.ofNat.inj (source.symm.trans same)
  have output : m.outputColumn = keywordedColumn times indent column' := by
    rcases placed with moved | ⟨at_, low, high⟩
    · exact moved
    · omega
  rw [Target.ofMapping, here, output]

theorem exists_mem_forSourceLine {column : Nat} (token : column ∈ columns) :
    ∃ m ∈ map.forSourceLine l, m.sourceColumn = column := by
  obtain ⟨m, known, here, source, -⟩ := h.entry column token
  exact ⟨m, h.mem_forSourceLine_iff.2 ⟨known, here⟩, source⟩

/-- **A cursor at a token is mapped to the token.** -/
theorem target_of_token (line : c.position.line = l) (token : c.position.character ∈ columns)
    (apart : c.position.character ≠ indent ∨ times = 0)
    (reach : InReach reached ⟨k, keywordedColumn times indent c.position.character⟩)
    (small : reached ≤ 2147483647)
    (stays : c.word.text ≠ [] →
      Returns (onWord? c generated ⟨k, keywordedColumn times indent c.position.character⟩)
        fun moved => ∀ x ∈ moved, x = ⟨k, keywordedColumn times indent c.position.character⟩) :
    target map c generated =
      .ok (some ⟨k, keywordedColumn times indent c.position.character⟩) := by
  subst line
  obtain ⟨m, member, source⟩ := h.exists_mem_forSourceLine token
  unfold target
  rw [fitting_eq_precise member source]
  refine choose?_of_forall_eq ?_ (fun x inside => ?_) reach small stays
  · exact List.ne_nil_of_mem (List.mem_map_of_mem (List.mem_filter.2 ⟨member, beq_iff_eq.2 source⟩))
  · obtain ⟨m', found, rfl⟩ := List.mem_map.1 inside
    obtain ⟨here, column⟩ := List.mem_filter.1 found
    exact h.ofMapping_eq here (beq_iff_eq.1 column) apart

/-- **Behind the end of its line a cursor is mapped to the last token.** -/
theorem target_of_end (line : c.position.line = l) (char : c.char = none) (word : c.word.text = [])
    (free : c.atEndOfWord = false) {last : Nat} (token : last ∈ columns)
    (behind : c.position.character < last) (indented : indent < last)
    (apart : ∀ column ∈ columns, column ≠ c.position.character)
    (bound : ∀ column ∈ columns, column ≤ last) :
    target map c generated = .ok (some ⟨k, keywordedColumn times indent last⟩) := by
  subst line
  obtain ⟨m, member, source⟩ := h.exists_mem_forSourceLine token
  have own : m ∈ (map.forSourceLine c.position.line).filter fun m =>
      (c.position.character : Int) < m.sourceColumn :=
    List.mem_filter.2 ⟨member, by simpa [source] using behind⟩
  have fits : fitting map c generated = .ok ((map.forSourceLine c.position.line).filter fun m =>
      (c.position.character : Int) < m.sourceColumn) := by
    rw [fitting_eq_substitutes (List.ne_nil_of_mem member) (fun x inside => ?_) free]
    · unfold substitutes
      simp only [char, Option.isNone_none, if_true, firstNonempty,
        show (none == some '.') = false from rfl, Bool.false_eq_true, if_false, List.isEmpty_nil]
      rw [if_neg (by simpa using List.ne_nil_of_mem own)]
    · obtain ⟨known, here⟩ := h.mem_forSourceLine_iff.1 inside
      obtain ⟨column, found, same, -⟩ := h.token x known here
      rw [same]
      exact fun other => apart column found (Int.ofNat.inj other)
  unfold target
  rw [fits]
  change choose? c generated _ = _
  rw [choose?_of_end (List.ne_nil_of_mem (List.mem_map_of_mem own)) word char]
  have place := h.ofMapping_eq member source (.inl (by omega))
  -- Every other token stands before the last one, and so does its place.
  have before : ∀ x ∈ ((map.forSourceLine c.position.line).filter fun m =>
      (c.position.character : Int) < m.sourceColumn).map Target.ofMapping,
      x = ⟨k, keywordedColumn times indent last⟩ ∨
        x.line = k ∧ x.column < keywordedColumn times indent last := by
    intro x inside
    obtain ⟨m', found, rfl⟩ := List.mem_map.1 inside
    have here := (List.mem_filter.1 found).1
    obtain ⟨known, output⟩ := h.mem_forSourceLine_iff.1 here
    obtain ⟨column, among, same, placed⟩ := h.token m' known output
    by_cases own : column = last
    · exact .inl (h.ofMapping_eq here (own ▸ same) (.inl (by omega)))
    · refine .inr ⟨output, ?_⟩
      have less := bound column among
      change m'.outputColumn < keywordedColumn times indent last
      unfold Placed keywordedColumn at placed
      unfold keywordedColumn
      split at placed <;> split <;> omega
  refine congrArg Except.ok (bottomRight?_eq_some_iff.2 ⟨place ▸ List.mem_map_of_mem own, ?_⟩)
  intro x inside
  rcases before x inside with rfl | ⟨line, column⟩
  · simp [Target.before]
  · simp only [Target.before, line, Int.lt_irrefl, decide_false, Bool.false_or, beq_self_eq_true,
      Bool.true_and, decide_eq_false_iff_not]
    omega

/-- **Between tokens a cursor is mapped to the closest token before it**, unless it stands behind a
word, on a dot or behind a brace. -/
theorem target_of_closest (line : c.position.line = l) (char : c.char.isSome = true)
    (noDot : c.char ≠ some '.')
    (noBrace : ∀ previous, c.previousFilled? = some previous → c.line[previous]? ≠ some '\x7b')
    (word : c.word.text = []) (free : c.atEndOfWord = false) {closest : Nat}
    (token : closest ∈ columns) (before : closest ≤ c.position.character)
    (apart : ∀ column ∈ columns, column ≠ c.position.character)
    (bound : ∀ column ∈ columns, column ≤ c.position.character → column ≤ closest)
    (untouched : closest ≠ indent ∨ times = 0)
    (reach : InReach reached ⟨k, keywordedColumn times indent closest⟩)
    (small : reached ≤ 2147483647) :
    target map c generated = .ok (some ⟨k, keywordedColumn times indent closest⟩) := by
  subst line
  obtain ⟨m, member, source⟩ := h.exists_mem_forSourceLine token
  have columnOf : ∀ x ∈ map.forSourceLine c.position.line,
      ∃ column ∈ columns, x.sourceColumn = column := by
    intro x inside
    obtain ⟨known, here⟩ := h.mem_forSourceLine_iff.1 inside
    obtain ⟨column, found, same, -⟩ := h.token x known here
    exact ⟨column, found, same⟩
  have greatest : closestColumn? (map.forSourceLine c.position.line) c.position.character =
      some (closest : Int) := by
    refine List.max?_eq_some_iff.2 ⟨?_, fun column inside => ?_⟩
    · refine List.mem_filter.2 ⟨List.mem_map.2 ⟨m, member, source⟩, ?_⟩
      simpa using before
    · obtain ⟨found, below⟩ := List.mem_filter.1 inside
      obtain ⟨x, here, rfl⟩ := List.mem_map.1 found
      obtain ⟨column, among, same⟩ := columnOf x here
      have le := bound column among (by have := of_decide_eq_true below; omega)
      omega
  have own : m ∈ (map.forSourceLine c.position.line).filter fun m =>
      m.sourceColumn == (closest : Int) := List.mem_filter.2 ⟨member, beq_iff_eq.2 source⟩
  have fits : fitting map c generated = .ok ((map.forSourceLine c.position.line).filter fun m =>
      m.sourceColumn == (closest : Int)) := by
    rw [fitting_eq_substitutes (List.ne_nil_of_mem member) (fun x inside => ?_) free]
    · have chosen : ((map.forSourceLine c.position.line).filter fun m =>
          m.sourceColumn == (closest : Int)).isEmpty = false := by
        simpa using List.ne_nil_of_mem own
      have noEnd : c.char.isNone = false := by rw [← Option.not_isSome, char, Bool.not_true]
      unfold substitutes
      dsimp only
      rw [greatest, noEnd, if_neg (by simpa using noDot)]
      cases filled : c.previousFilled? with
      | none => simp [firstNonempty, chosen]
      | some previous => simp [firstNonempty, chosen, noBrace previous filled]
    · obtain ⟨column, among, same⟩ := columnOf x inside
      rw [same]
      exact fun other => apart column among (Int.ofNat.inj other)
  unfold target
  rw [fits]
  refine choose?_of_forall_eq (List.ne_nil_of_mem (List.mem_map_of_mem own)) (fun x inside => ?_)
    reach small fun named => absurd word named
  obtain ⟨m', found, rfl⟩ := List.mem_map.1 inside
  obtain ⟨here, column⟩ := List.mem_filter.1 found
  exact h.ofMapping_eq here (beq_iff_eq.1 column) untouched

end TokenEntries

end Fitting

end ToOutput

end DialectBridge
