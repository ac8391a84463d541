import DialectBridge.Proofs.Words

/-!
# Identifiers keep their places

The position at the beginning of an identifier is mapped onto the same identifier of the generated
text. A receiver that preparation has marked is the exception: its marker is longer than the
receiver, the entries of the map keep the columns of the marked line, and nothing moves them back,
so what stands behind a marked receiver is looked for in the wrong column.
-/

set_option autoImplicit false

namespace DialectBridge

namespace MaximalRun

variable {before word behind : Text}

/-- The indentation of a line ends before its first word. -/
theorem leadingBlank_append (h : MaximalRun before word behind) :
    Text.leadingBlank (before ++ (word ++ behind)) = Text.leadingBlank before := by
  obtain ⟨letter, letters, rfl⟩ := List.exists_cons_of_ne_nil h.some_letter
  exact (Text.leadingBlank_append (LineByLine.isBlank_eq_false_of_isIdentifier
    (h.letters _ List.mem_cons_self)) before (letters ++ behind)).1

/-- A line with a word on it is not empty. -/
theorem isEmptyLine_eq_false (h : MaximalRun before word behind) :
    Text.isEmptyLine (before ++ (word ++ behind)) = false := by
  obtain ⟨letter, letters, rfl⟩ := List.exists_cons_of_ne_nil h.some_letter
  refine List.all_eq_false.2 ⟨letter, by simp, ?_⟩
  rw [LineByLine.isBlank_eq_false_of_isIdentifier (h.letters _ List.mem_cons_self)]
  exact Bool.false_ne_true

/-- A cursor at the beginning of a word has that word, and does not stand at its end. -/
theorem cursor_at_start (h : MaximalRun before word behind) {source : Document} {p : Position}
    (found : source.lines[p.line]? = some (before ++ (word ++ behind)))
    (start : p.character = before.length) (small : source.text.length ≤ 2147483647) :
    Returns (Cursor.ofPosition source p) fun c => c.position = p ∧
      c.line = source.lineText p.line ∧ c.word.text = word ∧ c.atEndOfWord = false := by
  refine (ToOutput.cursor_returns source p small).mono ?_
  rintro c ⟨position, line, atCursor, ends⟩
  obtain ⟨-, atWord⟩ := Document.wordAround_of_maximalRun found h
  have own : c.word = ⟨word, source.offsetAt p⟩ := by
    rw [Document.offsetAt, start] at atCursor ⊢
    exact Except.ok.inj (atCursor.symm.trans atWord)
  refine ⟨position, line, by rw [own], ?_⟩
  have some_ := List.length_pos_iff.2 h.some_letter
  rw [ends, own]
  simp only [Bool.and_eq_false_iff, beq_eq_false_iff_ne]
  right
  omega

/-- Keywords behind the indentation move a word to the right and touch it nowhere. -/
theorem keyworded_append (h : MaximalRun before word behind) (times : Nat) :
    ∃ before', Declarations.keyworded times (before ++ (word ++ behind)) =
        before' ++ (word ++ behind) ∧ before'.length = before.length + 4 * times ∧
      MaximalRun before' word behind := by
  have shape : Declarations.keyworded times (before ++ (word ++ behind)) =
      Declarations.keyworded times before ++ (word ++ behind) := by
    obtain ⟨letter, letters, rfl⟩ := List.exists_cons_of_ne_nil h.some_letter
    exact Declarations.keyworded_append (LineByLine.isBlank_eq_false_of_isIdentifier
      (h.letters _ List.mem_cons_self)) times before (letters ++ behind)
  refine ⟨_, shape, Declarations.length_keyworded times before, h.letters, h.some_letter, ?_,
    h.free_behind⟩
  intro c last
  cases times with
  | zero =>
    rw [Declarations.keyworded_zero] at last
    exact h.free_before c last
  | succ n =>
    cases rest : Text.trimLeft before with
    | nil =>
      rw [Declarations.keyworded, rest, List.append_nil, List.replicate_succ', List.flatten_append,
        ← List.append_assoc, List.getLast?_append] at last
      obtain rfl : ' ' = c := Option.some.inj last
      decide
    | cons d more =>
      refine h.free_before c ?_
      rw [← Text.leadingBlank_append_trimLeft before, rest, List.getLast?_append,
        List.getLast?_cons]
      rw [Declarations.keyworded, rest, ← List.append_assoc, List.getLast?_append,
        List.getLast?_cons] at last
      exact last

/-- A line on which a word stands behind something else than a keyword is no declaration line. -/
theorem occursIn_of_reduced {base line' : Text} (h : MaximalRun before word behind)
    (whole : base = before ++ (word ++ behind)) (reduced : Declarations.Reduced base line')
    (rest : Text) : Text.occursIn "var".toList (before ++ (word ++ rest)) = true := by
  obtain ⟨⟨names, shape⟩, -⟩ := reduced
  rw [whole, h.leadingBlank_append] at shape
  have parts := Text.leadingBlank_append_trimLeft before
  have text : Text.trimLeft before ++ (word ++ behind) = "var ".toList ++ names := by
    rw [← List.append_cancel_left_eq (Text.leadingBlank before), ← List.append_assoc, parts]
    exact shape
  have front : [] ++ "var".toList <+: (Text.trimLeft before ++ word) ++ behind := by
    rw [List.append_assoc, text]
    exact ⟨' ' :: names, rfl⟩
  obtain ⟨more, inside⟩ := Text.prefix_of_prefix_append_of_head front (Nat.zero_le _)
    fun c first member => by
      have letters : "var".toList.all isIdentifier = true := by decide
      have letter := List.all_eq_true.1 letters c member
      exact Bool.noConfusion ((h.free_behind c first).symm.trans letter)
  have line : before ++ (word ++ rest) =
      Text.leadingBlank before ++ ("var".toList ++ (more ++ rest)) := by
    rw [← List.append_assoc "var".toList, ← List.append_assoc before]
    conv_lhs => rw [← parts]
    rw [List.append_assoc (Text.leadingBlank before), ← inside]
    simp only [List.append_assoc, List.nil_append]
  rw [line]
  exact Text.occursIn_append _ _ _

end MaximalRun

namespace Preparation

variable {t before word behind edited line' : Text} {l place k times : Nat}
  {mappings : List Mapping}

/-- A word has a token of its own on the edited line. -/
theorem Edited.mem_tokenColumns (h : Edited (before ++ (word ++ behind)) edited)
    (run : MaximalRun before word behind)
    (free : ¬ ReceiverBefore (before ++ (word ++ behind)) (before.length + word.length)) :
    before.length ∈ LineByLine.tokenColumns false 0 edited := by
  obtain ⟨-, before', rest, rfl, blotted, -⟩ := h.exists_append run free
  obtain ⟨letter, letters, rfl⟩ := List.exists_cons_of_ne_nil run.some_letter
  have token : 0 + before'.length ∈
      LineByLine.tokenColumns false 0 (before' ++ letter :: (letters ++ rest)) :=
    LineByLine.mem_tokenColumns (run.letters letter List.mem_cons_self)
      (blotted.getLast_free run.free_before) (fun _ => rfl) 0
  rw [Nat.zero_add, blotted.length_eq] at token
  exact token

/-- **The entry of a word leads onto the word**, and no entry of its line leads further than the
terminator. -/
theorem Traced.exists_onWord (traced : Traced t l (before ++ (word ++ behind)) edited place k)
    (result : LineResult t (Cleanup.replaceLine (Text.trimRight edited ++ [';'])) l k times mappings
      line') (run : MaximalRun before word behind)
    (free : ¬ ReceiverBefore (before ++ (word ++ behind)) (before.length + word.length))
    (noFunction : Text.occursIn "function".toList (before ++ (word ++ behind)) = false)
    (noVar : Text.occursIn "var".toList (before ++ (word ++ behind)) = false)
    (clean : '↯' ∉ before) :
    (∃ m ∈ (ColumnMap.ofMappings mappings).mappings, m.sourceLine = l ∧
      m.sourceColumn = before.length ∧ ToOutput.OnWord ⟨generatedText t, ""⟩ k
        (246 * (t.length + 1) + 49) word (.ofMapping m)) ∧
      ∀ x ∈ (ColumnMap.ofMappings mappings).mappings, x.outputLine = k →
        x.outputColumn + 1 ≤ (Document.lineText ⟨generatedText t, ""⟩ k).length := by
  obtain ⟨behind', base, generated⟩ := traced.edits.exists_replaceLine run free noFunction clean
  have found := result.found
  rcases result.narrowed with rfl | reduced
  · have alone := result.alone before.length before.length
    have inside := result.inside.inside
    rw [base] at found alone inside
    obtain ⟨before', shape, size, moved⟩ := generated.keyworded_append times
    rw [shape] at found
    obtain ⟨short, atWord⟩ := Document.wordAround_of_maximalRun found moved
    constructor
    · have indented : (Text.leadingBlank (before ++ (word ++ behind'))).length ≤ before.length := by
        rw [generated.leadingBlank_append]
        exact (List.takeWhile_sublist _).length_le
      have sole := (alone indented (traced.sole _
        (traced.edits.mem_tokenColumns run free))).ofMappings rfl
      obtain ⟨column, same, bound, -⟩ := result.entries.room _ sole.1 rfl
      have number : before'.length = column := by
        have output : ((before.length + 4 * times : Nat) : Int) = column := (Target.mk.inj same).2
        omega
      rw [number] at atWord short
      exact ⟨_, sole.1, rfl, rfl, column, same, bound, by omega, _, atWord, rfl⟩
    · intro x member here
      obtain ⟨ending, whole, ends⟩ := Document.exists_eq_lineText_append found
      have bound := (inside x member here).2
      have size' : ending.length ≤ 1 := by
        rcases ends with rfl | rfl
        · exact Nat.zero_le 1
        · exact Nat.le_refl 1
      have same := congrArg List.length whole
      have letters := List.length_pos_of_ne_nil run.some_letter
      simp only [List.length_append] at bound same
      omega
  · exact Bool.noConfusion (noVar.symm.trans (generated.occursIn_of_reduced base reduced behind))

end Preparation

namespace Generated

open Preparation

/-- **Identifiers are mapped to themselves.** The position at the beginning of a word is mapped to
the generated text. On a line without functions and declarations it is mapped onto the same word,
unless a receiver is marked before the end of the word. -/
theorem toOutput_identifier {source : Document} {g : Generated} {p : Position}
    {before word behind : Text} (unmarked : '↯' ∉ source.text ∧ 'ᛟ' ∉ source.text)
    (small : source.text.length < 2 ^ 23)
    (made : (generate LineByLine.compile source).outcome = .ok g) (clear : g.diagnostics = none)
    (found : source.lines[p.line]? = some (before ++ (word ++ behind)))
    (run : MaximalRun before word behind) (start : p.character = before.length)
    (plain : '#' ∉ before ++ (word ++ behind))
    (noFunction : Text.occursIn "function".toList (before ++ (word ++ behind)) = false)
    (noVar : Text.occursIn "var".toList (before ++ (word ++ behind)) = false) :
    ∃ js q, g.js = some js ∧ g.toOutput p source = .ok (some q) ∧
      (¬ ReceiverBefore (before ++ (word ++ behind)) (before.length + word.length) →
        q.line < Document.lineCount ⟨js, ""⟩ ∧
        q.character ≤ (Document.lineText ⟨js, ""⟩ q.line).length ∧
        ∃ offset, Text.wordAround js (Document.offsetAt ⟨js, ""⟩ q) = .ok ⟨word, offset⟩) := by
  obtain ⟨text, mapped, genuine⟩ := Pipeline.parts_of_generate made clear
  have noMark : '↯' ∉ before := fun inside =>
    unmarked.1 (Text.mem_of_mem_lines (List.mem_of_getElem? found) (List.mem_append_left _ inside))
  have noSign : '#' ∉ source.lineText p.line := fun inside =>
    plain ((Document.lineText_front found).subset inside)
  obtain ⟨edited, place, k, traced⟩ := exists_traced found run.isEmptyLine_eq_false plain
  obtain ⟨times, mappings, line', result⟩ := traced.exists_lineResult unmarked.2 small
  rw [result.map] at mapped
  by_cases receiver : ReceiverBefore (before ++ (word ++ behind)) (before.length + word.length)
  · obtain ⟨q, way, -⟩ := ToOutput.toOutput_returns text mapped genuine result.entries noSign
      (traced.number_le small) (by omega)
    exact ⟨_, q, text, way, fun free => absurd receiver free⟩
  · obtain ⟨⟨m, member, origin, column, onWord⟩, short⟩ :=
      traced.exists_onWord result run receiver noFunction noVar noMark
    obtain ⟨c, cursor, position, line, named, atStart⟩ := run.cursor_at_start found start (by omega)
    rw [← named] at onWord
    obtain ⟨_, found', t, rfl, place', rfl, bound, inside, word', atTarget, same⟩ :=
      ToOutput.target_returns_onWord result.entries (congrArg Position.line position)
        (by rw [result.found]; rfl) short atStart (by rw [named]; exact run.some_letter)
        (traced.number_le small) (by omega) member origin
        (by rw [column, position, start]) onWord
    have way := ToOutput.toOutput_of_target text mapped genuine cursor (line ▸ noSign) found'
    rw [Position.make_natCast (traced.number_le small) (by omega)] at way
    refine ⟨_, _, text, way, fun _ => ⟨?_, inside, word'.offset, ?_⟩⟩
    · exact Nat.lt_of_not_le (Document.not_lineCount_le result.found)
    · rw [Document.offsetAt, atTarget, ← named, ← same]

/-- A word in front of a marked receiver and of a marked comma is mapped to itself, behind the
keyword that declares it. -/
theorem toOutput_identifier_before_receiver :
    let source : Document := ⟨"var a\na = \x7bc, \x7d @".toList, ""⟩
    let p : Position := ⟨1, 5, by decide, by decide⟩
    ¬ ReceiverBefore "a = \x7bc, \x7d @".toList 6 ∧
      ∃ g, (generate LineByLine.compile source).outcome = .ok g ∧ g.diagnostics = none ∧
        ∃ js q, g.js = some js ∧ g.toOutput p source = .ok (some q) ∧
          q.line < Document.lineCount ⟨js, ""⟩ ∧
          q.character ≤ (Document.lineText ⟨js, ""⟩ q.line).length ∧
          ∃ offset, Text.wordAround js (Document.offsetAt ⟨js, ""⟩ q) = .ok ⟨['c'], offset⟩ := by
  intro source p
  let g := (generate LineByLine.compile source).outcome.toOption.get (by decide +kernel)
  have made : (generate LineByLine.compile source).outcome = .ok g := by decide +kernel
  have clear : g.diagnostics = none := by decide +kernel
  have run : MaximalRun "a = \x7b".toList ['c'] ", \x7d @".toList :=
    .of_all (by decide) (by decide) (by decide) (by decide)
  have free : ¬ ReceiverBefore "a = \x7bc, \x7d @".toList 6 := by decide
  obtain ⟨js, q, text, way, word⟩ := toOutput_identifier (by decide) (by decide) made clear
    (show source.lines[p.line]? = _ by decide) run (by decide) (by decide) (by decide) (by decide)
  exact ⟨free, g, made, clear, js, q, text, way, word free⟩

/-- A word behind a marked receiver is not found: the position at its beginning is mapped to where
the receiver is, and there is no word. -/
theorem toOutput_identifier_behind_receiver :
    let source : Document := ⟨"@ a".toList, ""⟩
    let p : Position := ⟨0, 2, by decide, by decide⟩
    'ᛝ' ∉ source.text ∧ '↯' ∉ source.text ∧ 'ᛟ' ∉ source.text ∧ '#' ∉ source.text ∧
      source.lines = ["@ ".toList ++ (['a'] ++ [])] ∧ MaximalRun "@ ".toList ['a'] [] ∧
      Text.occursIn "function".toList source.text = false ∧
      Text.occursIn "var".toList source.text = false ∧
      Text.startsWith ['/', '*'] (Text.trim source.text) = false ∧
      ∃ g js q offset, (generate LineByLine.compile source).outcome = .ok g ∧
        g.diagnostics = none ∧ g.js = some js ∧ g.toOutput p source = .ok (some q) ∧
        Text.wordAround js (Document.offsetAt ⟨js, ""⟩ q) = .ok ⟨[], offset⟩ := by
  intro source p
  let g := (generate LineByLine.compile source).outcome.toOption.get (by decide +kernel)
  have made : (generate LineByLine.compile source).outcome = .ok g := by decide +kernel
  have run : MaximalRun "@ ".toList ['a'] [] :=
    .of_all (by decide) (by decide) (by decide) (by decide)
  exact ⟨by decide, by decide, by decide, by decide, by decide, run, by decide, by decide,
    by decide, g, "(this.valueOf(),this)  a;".toList, ⟨0, 0, by decide, by decide⟩, 0, made,
    by decide +kernel, by decide +kernel, by decide +kernel, by decide +kernel⟩

end Generated

end DialectBridge
