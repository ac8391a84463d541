import DialectBridge.Proofs.BlockComments

/-!
# Round trips of positions

A position of a source that compiles is mapped to the generated line of its own line, and from there
back to the line it came from. The one exception are generated lines that begin a block comment:
these are looked up by content, and the line they came from has another one. Only a generator that
stands directly behind a slash becomes such a line.
-/

set_option autoImplicit false

namespace DialectBridge

namespace Generated

open Preparation

/-- **Round trips stay on the line.** A position of a line with code on it is mapped to the
generated text. From there it comes back to its line exactly when the generated line does not begin
a block comment, which it does only for a generator directly behind a slash. -/
theorem toSource_toOutput_line {source : Document} {g : Generated} {p : Position} {line : Text}
    (unmarked : '↯' ∉ source.text ∧ 'ᛟ' ∉ source.text) (small : source.text.length < 2 ^ 23)
    (made : (generate LineByLine.compile source).outcome = .ok g) (clear : g.diagnostics = none)
    (found : source.lines[p.line]? = some line) (filled : Text.isEmptyLine line = false)
    (plain : '#' ∉ line) (code : Text.startsWith ['/', '*'] (Text.trim line) = false) :
    ∃ js q, g.js = some js ∧ g.toOutput p source = .ok (some q) ∧
      ((∃ r, g.toSource q source.text = .ok (some r) ∧ r.line = p.line) ↔
        ToSource.beginsBlockComment (Document.lineText ⟨js, ""⟩ q.line) = false) ∧
      (ToSource.beginsBlockComment (Document.lineText ⟨js, ""⟩ q.line) = true →
        SlashedGenerator line) := by
  obtain ⟨text, mapped, genuine⟩ := Pipeline.parts_of_generate made clear
  have noMark : '↯' ∉ line := fun inside =>
    unmarked.1 (Text.mem_of_mem_lines (List.mem_of_getElem? found) inside)
  have noSign : '#' ∉ source.lineText p.line := fun inside =>
    plain ((Document.lineText_front found).subset inside)
  obtain ⟨edited, place, k, traced⟩ := exists_traced found filled plain
  obtain ⟨times, mappings, line', result⟩ := traced.exists_lineResult unmarked.2 small
  have entries := result.entries
  rw [result.map] at mapped
  obtain ⟨q, way, onLine⟩ :=
    ToOutput.toOutput_returns text mapped genuine entries noSign (traced.number_le small) (by omega)
  refine ⟨_, q, text, way, ?_⟩
  have back : g.toSource q source.text =
      ToSource.position? (generatedText source.text) (.ofMappings mappings) q source.text := by
    rw [Generated.toSource, text, mapped]
  rw [back, onLine]
  cases comment : ToSource.beginsBlockComment
      (Document.lineText ⟨generatedText source.text, ""⟩ k) with
  | false =>
    obtain ⟨r, same, line_⟩ := ToSource.position?_of_not_comment entries onLine p.line_le comment
    exact ⟨⟨fun _ => rfl, fun _ => ⟨r, same, line_⟩⟩, fun absurd_ => Bool.noConfusion absurd_⟩
  | true =>
    obtain ⟨ending, whole, ends⟩ := Document.exists_eq_lineText_append result.found
    obtain ⟨generator, differ⟩ :=
      traced.edits.of_beginsBlockComment noMark filled code result.narrowed whole ends comment
    refine ⟨⟨?_, fun absurd_ => Bool.noConfusion absurd_⟩, fun _ => generator⟩
    rintro ⟨r, same, line_⟩
    refine absurd line_ (ToSource.position?_of_comment entries onLine comment ?_ same)
    intro other here
    obtain rfl := Option.some.inj (found.symm.trans here)
    exact differ

/-- The first assignment of a variable comes back to its line, although a keyword was put in front
of it and the receiver on it became an expression. -/
theorem toSource_toOutput_narrowed :
    let source : Document := ⟨"var a\na = @ b".toList, ""⟩
    let p : Position := ⟨1, 4, by decide, by decide⟩
    ∃ g, (generate LineByLine.compile source).outcome = .ok g ∧ g.diagnostics = none ∧
      ∃ js q, g.js = some js ∧ g.toOutput p source = .ok (some q) ∧
        ((∃ r, g.toSource q source.text = .ok (some r) ∧ r.line = p.line) ↔
          ToSource.beginsBlockComment (Document.lineText ⟨js, ""⟩ q.line) = false) ∧
        (ToSource.beginsBlockComment (Document.lineText ⟨js, ""⟩ q.line) = true →
          SlashedGenerator "a = @ b".toList) := by
  intro source p
  let g := (generate LineByLine.compile source).outcome.toOption.get (by decide +kernel)
  have made : (generate LineByLine.compile source).outcome = .ok g := by decide +kernel
  have clear : g.diagnostics = none := by decide +kernel
  exact ⟨g, made, clear, toSource_toOutput_line (by decide) (by decide) made clear
    (show source.lines[p.line]? = some "a = @ b".toList by decide) (by decide) (by decide)
    (by decide)⟩

/-- A generator behind a slash becomes a line that begins a block comment, and no position of it
comes back. -/
theorem toSource_toOutput_slashedGenerator :
    let source : Document := ⟨"/a: function*()".toList, ""⟩
    let p : Position := ⟨0, 0, by decide, by decide⟩
    'ᛝ' ∉ source.text ∧ '↯' ∉ source.text ∧ 'ᛟ' ∉ source.text ∧ '#' ∉ source.text ∧
      source.lines = [source.text] ∧ Text.isEmptyLine source.text = false ∧
      Text.startsWith ['/', '*'] (Text.trim source.text) = false ∧
      ∃ g q, (generate LineByLine.compile source).outcome = .ok g ∧ g.diagnostics = none ∧
        g.toOutput p source = .ok (some q) ∧ g.toSource q source.text = .ok none := by
  intro source p
  let g := (generate LineByLine.compile source).outcome.toOption.get (by decide +kernel)
  have made : (generate LineByLine.compile source).outcome = .ok g := by decide +kernel
  refine ⟨by decide, by decide, by decide, by decide, by decide, by decide, by decide, g, p, made,
    by decide +kernel, by decide +kernel, by decide +kernel⟩

end Generated

end DialectBridge
