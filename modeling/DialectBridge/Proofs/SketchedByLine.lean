import DialectBridge.Proofs.EditedLines
import DialectBridge.Proofs.UntouchedLines
import Mathlib.Data.List.Infix

/-!
# Sketching line by line

Some passes of a sketch work on lines, others run over the whole text. No pass sees across a line
feed, though, or takes or writes one (`Sketch.Linewise`), so it makes no difference whether a text
is sketched as a whole or one line after the other: the lines of a sketch are the sketches of the
lines, with the same numbers.

So a single line that is put back into generated text as a sketch reads as it would in the sketch of
a whole text with this line. The line that is put back is without the carriage return that a line of
the source may end in; in the sketch of the source, this is a character of the line.

The main result is `sketch_line_by_line`.
-/

set_option autoImplicit false

namespace DialectBridge

theorem Text.mapLines_of_not_mem (f : Text → Text) {t : Text} (single : '\n' ∉ t) :
    Text.mapLines f t = f t := by
  rw [Text.mapLines, Text.lines_of_not_mem single]
  rfl

namespace Sketch

/-! ## Passes that work line by line -/

/-- A pass of which the lines of the result are the results of the lines. -/
def Linewise (pass : Text → Text) : Prop := ∀ t, Text.lines (pass t) = (Text.lines t).map pass

/-- A text without line feeds becomes one without line feeds. -/
theorem Linewise.not_mem {pass : Text → Text} (h : Linewise pass) {line : Text}
    (clean : '\n' ∉ line) : '\n' ∉ pass line := by
  have only := h line
  rw [Text.lines_of_not_mem clean, List.map_singleton] at only
  exact Text.not_mem_of_mem_lines (only ▸ List.mem_singleton_self _)

theorem linewise_mapLines {f : Text → Text} (unbroken : ∀ line, '\n' ∉ line → '\n' ∉ f line) :
    Linewise (Text.mapLines f) := by
  refine Text.lines_of_append (fun line rest clean => ?_) fun line clean => ?_
  · rw [Text.mapLines_of_not_mem f clean, Text.mapLines, Text.lines_append_lineFeed clean,
      List.map_cons, Text.joinLines_cons (by simpa using Text.lines_ne_nil rest)]
    rfl
  · rw [Text.mapLines_of_not_mem f clean]
    exact unbroken line clean

/-- A line feed is not new where nothing new can be a separator. -/
theorem unbroken_of_congruence {f : Text → Text}
    (each : ∀ related, Congruence related → ∀ line, related line (f line)) (line : Text)
    (clean : '\n' ∉ line) : '\n' ∉ f line := by
  have kept := each _ (congruence_noNew (List.cons_ne_nil '\n' []) (by decide)) line [] []
  simp only [List.nil_append, List.append_nil, List.singleton_infix_iff] at kept
  exact fun inside => clean (kept inside)

theorem linewise_expandReceivers : Linewise expandReceivers := by
  refine Text.lines_of_append (fun line rest _ => ?_)
    (unbroken_of_congruence fun _ h => h.expandReceivers)
  unfold expandReceivers
  rw [List.flatMap_append, List.flatMap_cons]
  rfl

/-- A key is found on its line. -/
theorem key?_append_lineFeed {line : Text} (clean : '\n' ∉ line) (rest : Text) :
    key? (line ++ '\n' :: rest) = key? line := by
  cases line with
  | nil => rfl
  | cons c more =>
    have stops : isIdentifier '\n' = false := by decide
    have name := Text.takeWhile_append_cons stops (c :: more) rest
    have behind := Text.dropWhile_append_cons stops (c :: more) rest
    have apart : '\n' ∉ (c :: more).dropWhile isIdentifier := fun inside =>
      clean ((List.dropWhile_sublist _).subset inside)
    rw [List.cons_append] at name behind ⊢
    unfold key?
    simp only [Text.drop_length_takeWhile]
    rw [name, behind]
    generalize (c :: more).dropWhile isIdentifier = others at apart
    split
    · -- The signs behind the name are all on the line, or one of them is a line feed.
      rcases others with _ | ⟨a, _ | ⟨b, _ | ⟨d, tail⟩⟩⟩
      · rfl
      · grind
      · grind
      · grind
    · rfl

theorem linewise_openObject : openObject.Linewise where
  forward _ _ := rfl
  fitting t r h := by
    obtain ⟨c, gap, name, rest, rfl, rfl⟩ := openObject_eq_some h
    simp
  within line rest clean := by
    rcases line with _ | ⟨c, _ | ⟨gap, more⟩⟩
    · cases rest <;> rfl
    · simp [openObject]
    · have later : '\n' ∉ more := fun inside =>
        clean (List.mem_cons_of_mem _ (List.mem_cons_of_mem _ inside))
      unfold openObject
      simp only [List.cons_append, key?_append_lineFeed later]
  unbroken t r clean h := by
    obtain ⟨c, gap, name, rest, rfl, rfl⟩ := openObject_eq_some h
    simp only [List.mem_cons, List.mem_append, not_or] at clean ⊢
    exact ⟨clean.1, clean.2.1, by decide, clean.2.2.1.1, by decide, List.not_mem_nil⟩

theorem withinLines_replaceForeignWord : ReplacementRule.WithinLines replaceForeignWord where
  fitting before t r h := by
    obtain ⟨member, -, rfl⟩ := replaceForeignWord_eq_some h
    have sizes : ∀ word ∈ foreignWords, 1 ≤ word.length := by decide
    exact ⟨sizes _ member, (List.takeWhile_sublist _).length_le⟩
  within before line rest clean := by
    unfold replaceForeignWord
    rw [Text.takeWhile_append_cons (by decide +kernel)]
  beginning t := by
    have free : (some '\n').any isWordChar = (none : Option Char).any isWordChar := by
      decide +kernel
    unfold replaceForeignWord
    rw [free]
  unbroken before t r clean h := by
    obtain ⟨member, -, rfl⟩ := replaceForeignWord_eq_some h
    have single : ∀ word ∈ foreignWords, '\n' ∉ Text.padRight word.length ['&', '&'] := by decide
    exact single _ member

theorem linewise_literally {old new : Text} (some_ : old ≠ []) (clean : '\n' ∉ old)
    (unbroken : '\n' ∉ new) : (Text.literally old new).Linewise := by
  refine .of_window (fun _ _ => rfl) fun t r h => ?_
  obtain ⟨rest, rfl, rfl⟩ := Text.literally_eq_some h
  refine ⟨old, rest, rfl, rfl, List.length_pos_iff.2 some_, clean, unbroken, fun others => ?_⟩
  rw [Text.literally, if_pos]
  rw [Text.startsWith, List.isPrefixOf_iff_prefix]
  exact List.prefix_append old others

/-- **A sketch is made line by line.** -/
theorem linewise_sketch : Linewise DialectBridge.sketch := by
  have each : ∀ pass ∈ passes, Linewise pass := by
    simp only [passes, List.forall_mem_cons]
    refine ⟨linewise_expandReceivers, linewise_mapLines ?_, linewise_mapLines ?_,
      Text.lines_scan linewise_openObject,
      Text.lines_scan_of_withinLines withinLines_replaceForeignWord,
      linewise_mapLines ?_, linewise_mapLines ?_, linewise_mapLines ?_,
      Text.lines_scan (linewise_literally (by decide) (by decide) (by decide)),
      fun _ none_ => absurd none_ List.not_mem_nil⟩
    · exact unbroken_of_congruence fun _ h => h.enclosesCallback
    · exact unbroken_of_congruence fun _ h => h.enclosesArgument
    · exact unbroken_of_congruence fun _ h => h.declare
    · exact unbroken_of_congruence fun _ h => h.openBlockComment
    · exact unbroken_of_congruence fun _ h => h.templates
  intro t
  unfold DialectBridge.sketch
  generalize passes = all at each
  induction all generalizing t with
  | nil => exact (List.map_id _).symm
  | cons pass rest ih =>
    obtain ⟨first, later⟩ := List.forall_mem_cons.1 each
    rw [List.foldl_cons, ih (pass t) later, first t, List.map_map]
    rfl

end Sketch

/-! ## A line that is put back -/

namespace Recovery

/-- A line that is put back as a sketch stands in the place of the placeholder. -/
theorem exists_reconstruct_sketch {js : Text} (marked : 'ᛝ' ∈ js) {candidate : Candidate}
    (mechanism : candidate.mechanism = .sourceInOutput) (e : ErrorLine) (clean : '\n' ∉ e.text)
    (map : ColumnMap) (d : Diagnostic) (uri : String) :
    ∃ g js' k line, reconstruct js map candidate e d uri = .ok g ∧ g.js = some js' ∧
      FirstMarked (Text.lines js) k line ∧ (Text.lines js').length = (Text.lines js).length ∧
      (Text.lines js')[k]? = some (sketch e.text) := by
  obtain ⟨k, line, place, first⟩ := exists_firstMarked marked
  obtain ⟨g, made, shown, -⟩ := exists_shows
    (Text.joinLines (joinPrevious ((Text.lines js).set k (sketch e.text)) k))
    (map.collapse e.line k) e.line .sourceInOutput d
  refine ⟨g, _, k, line, ?_, shown.js, first, ?_, ?_⟩
  · unfold reconstruct
    dsimp only
    rw [place]
    dsimp only
    rw [mechanism]
    simp only [pure_bind]
    exact made
  · rw [lines_joinPrevious k (not_mem_sketch clean), length_joinPrevious, List.length_set]
  · rw [lines_joinPrevious k (not_mem_sketch clean), getElem?_joinPrevious _ (Nat.le_refl k),
      List.getElem?_set_self (List.getElem?_eq_some_iff.1 first.found).1]

end Recovery

/-- **A sketch is made line by line**: a text is sketched by sketching its lines, and a line becomes
a line. So a line that is put back as a sketch reads as it does in the sketch of a text in which it
has the same number: in the source itself, if the line does not end in a carriage return. -/
theorem sketch_line_by_line (t : Text) :
    sketch t = Text.joinLines ((Text.lines t).map sketch) ∧
      ('\n' ∉ t → '\n' ∉ sketch t) ∧ Text.lines (sketch t) = (Text.lines t).map sketch ∧
      ∀ (uri : String) (n : Int) (candidate : Candidate) (js : Text) (map : ColumnMap)
        (d : Diagnostic), candidate.mechanism = .sourceInOutput → 'ᛝ' ∈ js →
        let e := ErrorLine.locate ⟨t, uri⟩ n
        ∃ g js' k line, Recovery.reconstruct js map candidate e d uri = .ok g ∧ g.js = some js' ∧
          Recovery.FirstMarked (Text.lines js) k line ∧
          (Text.lines js').length = (Text.lines js).length ∧
          (∀ t', (Text.lines t')[e.line]? = some e.text →
            (Text.lines js')[k]? = (Text.lines (sketch t'))[e.line]?) ∧
          ((Text.lines t)[e.line]? = some e.text ∨
            (Text.lines t)[e.line]? = some (e.text ++ ['\r'])) := by
  have apart := Sketch.linewise_sketch
  refine ⟨?_, Recovery.not_mem_sketch, apart t, ?_⟩
  · rw [← apart t, Text.joinLines_lines]
  · intro uri n candidate js map d mechanism marked e
    obtain ⟨ending, of⟩ := ErrorLine.exists_of ⟨t, uri⟩ n
    obtain ⟨g, js', k, line, made, text, first, size, put⟩ :=
      Recovery.exists_reconstruct_sketch marked mechanism e of.not_mem_text map d uri
    refine ⟨g, js', k, line, made, text, first, size, fun t' found => ?_, ?_⟩
    · rw [put, apart t', List.getElem?_map, found, Option.map_some]
    · rcases of.ending_eq with none_ | return_
      · have found := of.found
        rw [none_, List.append_nil] at found
        exact .inl found
      · exact .inr (return_ ▸ of.found)

/-- An assignment that the first line leaves open does not take anything of the second one, and the
second one is put back as it is in the sketch of the source. -/
theorem sketch_line_by_line_of_open_assignment :
    let t : Text := "a =\nb = @c d\nx is y".toList
    let js : Text := "a = 1;\n\nᛝ;\n".toList
    let e := ErrorLine.locate ⟨t, ""⟩ 1
    let d : Diagnostic := { range := .caret .origin, message := "unexpected end of input" }
    Text.lines (sketch t) = (Text.lines t).map sketch ∧
      sketch t = "let a =\nlet b = this.c(d   )\nx &&(y   )".toList ∧
      '\n' ∉ sketch e.text ∧ (Text.lines t)[e.line]? = some e.text ∧
      ∃ (g : Generated) (js' : Text) (k : Nat),
        Recovery.reconstruct js ⟨[]⟩ ⟨['ᛝ'], .sourceInOutput, []⟩ e d "" = .ok g ∧ g.js = some js' ∧
        (Text.lines js')[k]? = (Text.lines (sketch t))[e.line]? := by
  intro t js e d
  obtain ⟨-, single, apart, back⟩ := sketch_line_by_line t
  have own : (Text.lines t)[e.line]? = some e.text := by decide +kernel
  obtain ⟨g, js', k, line, made, text, -, -, same, -⟩ :=
    back "" 1 ⟨['ᛝ'], .sourceInOutput, []⟩ js ⟨[]⟩ d rfl (by decide)
  have clean := (sketch_line_by_line e.text).2.1 (by decide +kernel)
  exact ⟨apart, by decide +kernel, clean, own, g, js', k, made, text, same t own⟩

end DialectBridge
