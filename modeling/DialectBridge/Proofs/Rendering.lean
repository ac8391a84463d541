import DialectBridge.Proofs.Outcomes
import DialectBridge.Proofs.Sketching

/-!
# The lines of rendered text

Rendered text has a line for every line with text of the text that was compiled: the output of that
line, its terminator perhaps released, or for the one line that was put back what stands in its
place. Cleaning keeps the number of lines and works on each of them.
-/

set_option autoImplicit false

namespace DialectBridge

/-! ## Cleaned lines -/

/-- **Cleaning goes line by line**, except for narrowing. -/
theorem Cleanup.lines_cleanText (js : Text) :
    Text.lines (cleanText js) =
      (Declarations.narrowLines ((Text.lines js).map replaceLine)).map
        (Text.scan Marker.emptyLine.cleaning) := by
  have narrowed : Text.lines (Text.joinLines
      (Declarations.narrowLines (Text.lines (replaceResidues js)))) =
      Declarations.narrowLines (Text.lines (replaceResidues js)) := by
    refine Text.lines_joinLines ?_
      (Declarations.not_mem_narrowLines fun line => Text.not_mem_of_mem_lines)
    rw [← List.length_pos_iff, Declarations.length_narrowLines]
    exact List.length_pos_iff.2 (Text.lines_ne_nil _)
  unfold cleanText Marker.clean
  rw [Text.lines_scan Marker.emptyLine_linewise, narrowed, lines_replaceResidues]

theorem Cleanup.length_lines_cleanText (js : Text) :
    (Text.lines (cleanText js)).length = (Text.lines js).length := by
  rw [lines_cleanText, List.length_map, Declarations.length_narrowLines, List.length_map]

namespace LineByLine

variable {t js : Text} {map : ColumnMap} {fake : Option (Nat × Mechanism)}

/-! ## Rendered lines -/

/-- What stands in rendered text for a line with text. -/
inductive RenderedLine (t : Text) (i : Nat) (raw : Text) : Prop
  /-- The output of the line, with or without its terminator. -/
  | output {line : Text} {j : Nat} (found : (filledLines t)[i]? = some (line, j))
      (released : Recovery.Released (lineOutput line) raw)
  /-- What was put in the place of the line. -/
  | back {text ending : Text} {j : Nat} (found : (filledLines t)[i]? = some (text ++ ending, j))
      (shape : raw = sketch text ∨ ∀ c ∈ raw, c ∈ text)
      (telling : Incomplete (text ++ ending) ∨ ∃ c ∈ text, c ∈ brackets)

theorem length_putBack (t : Text) (k : Nat) (new : Text) :
    (putBack t k new).length = (filledLines t).length := by
  rw [putBack, Recovery.length_joinPrevious, List.length_set, outputLines, List.length_map]

theorem getElem?_putBack {line new : Text} {n k : Nat}
    (number : (filledLines t)[k]? = some (line, n)) : (putBack t k new)[k]? = some new := by
  have bound : k < (outputLines t).length := by
    rw [outputLines, List.length_map]
    exact (List.getElem?_eq_some_iff.1 number).1
  rw [putBack, Recovery.getElem?_joinPrevious _ (Nat.le_refl k), List.getElem?_set_self bound]

/-- A line of a text in which a line was put back. -/
theorem renderedLine_of_putBack {text ending new raw : Text} {n k i : Nat}
    (number : (filledLines t)[k]? = some (text ++ ending, n))
    (telling : Incomplete (text ++ ending) ∨ ∃ c ∈ text, c ∈ brackets)
    (shape : new = sketch text ∨ ∀ c ∈ new, c ∈ text)
    (found : (putBack t k new)[i]? = some raw) : RenderedLine t i raw := by
  by_cases here : i = k
  · subst here
    obtain rfl := Option.some.inj ((getElem?_putBack number).symm.trans found)
    exact .back number shape telling
  · obtain ⟨old, there, released⟩ :=
      exists_getElem?_left (Recovery.forall₂_joinPrevious _ k) found
    rw [List.getElem?_set_ne (Ne.symm here), outputLines, List.getElem?_map] at there
    obtain ⟨⟨line, j⟩, entry, rfl⟩ := Option.map_eq_some_iff.1 there
    exact .output entry released

/-- **Rendered text has a line for every line with text.** -/
theorem Rendered.exists_lines (h : Rendered t js map fake) :
    ∃ raws, js = Text.joinLines raws ∧ raws.length = (filledLines t).length ∧
      ∀ i raw, raws[i]? = some raw → RenderedLine t i raw := by
  cases h with
  | direct =>
    refine ⟨outputLines t, rfl, by rw [outputLines, List.length_map], fun i raw found => ?_⟩
    rw [outputLines, List.getElem?_map] at found
    obtain ⟨⟨line, j⟩, entry, rfl⟩ := Option.map_eq_some_iff.1 found
    exact .output entry (.inl rfl)
  | sketched exchanged =>
    exact ⟨_, rfl, length_putBack _ _ _, fun i raw =>
      renderedLine_of_putBack exchanged.number exchanged.telling (.inl rfl)⟩
  | restored line =>
    exact ⟨_, rfl, length_putBack _ _ _, fun i raw =>
      renderedLine_of_putBack line.number line.telling (.inr line.letters)⟩

/-- A character of a rendered line comes from the line it stands for, unless the compiler or the
sketch writes it. -/
theorem RenderedLine.exists_mem {raw : Text} {i : Nat} {c : Char} (h : RenderedLine t i raw)
    (member : c ∈ raw) (unwritten : c ∉ ['/', ';', ' '])
    (apart : ∀ separator ∈ Sketch.separators, Text.separates [c] separator = true) :
    ∃ line j, (filledLines t)[i]? = some (line, j) ∧ c ∈ line := by
  simp only [List.mem_cons, List.not_mem_nil, or_false, not_or] at unwritten
  cases h with
  | @output line j found released =>
    refine ⟨line, j, found, ?_⟩
    have inOutput : c ∈ lineOutput line := by
      rcases released with rfl | ⟨front, whole, rfl⟩
      · exact member
      · rw [whole]
        refine List.mem_append_left _ ((List.mem_append.1 member).resolve_right fun space => ?_)
        exact unwritten.2.2 (List.mem_singleton.1 space)
    rcases mem_of_mem_lineOutput inOutput with old | sign | sign
    · exact old
    · exact absurd sign unwritten.1
    · exact absurd sign unwritten.2.1
  | @back text ending j found shape =>
    refine ⟨_, j, found, List.mem_append_left _ ?_⟩
    rcases shape with sketched | letters
    · rw [sketched] at member
      exact Sketch.mem_of_mem_sketch apart member
    · exact letters c member

/-- Rendered lines are lines. -/
theorem RenderedLine.not_mem_lineFeed {raw : Text} {i : Nat} (h : RenderedLine t i raw) :
    '\n' ∉ raw := by
  intro member
  obtain ⟨line, j, found, inside⟩ := h.exists_mem member (by decide) (by decide)
  have source := List.mem_of_getElem? (getElem?_of_filledLines found).1
  exact Text.not_mem_of_mem_lines source inside

/-- The lines of rendered text: nothing, or a line for every line with text. -/
theorem Rendered.lines_eq (h : Rendered t js map fake) :
    (filledLines t = [] ∧ Text.lines js = [[]]) ∨
      (Text.lines js).length = (filledLines t).length ∧
        ∀ i raw, (Text.lines js)[i]? = some raw → RenderedLine t i raw := by
  obtain ⟨raws, rfl, size, each⟩ := h.exists_lines
  by_cases none_ : raws = []
  · left
    rw [none_] at size ⊢
    exact ⟨List.length_eq_zero_iff.1 size.symm, rfl⟩
  · right
    have lines_ : Text.lines (Text.joinLines raws) = raws := by
      refine Text.lines_joinLines none_ fun line member => ?_
      obtain ⟨i, found⟩ := List.mem_iff_getElem?.1 member
      exact (each i line found).not_mem_lineFeed
    rw [lines_]
    exact ⟨size, each⟩

/-- What is put in the place of a replaced line is a line of the rendered text. -/
theorem Exchanged.getElem?_lines {t' text ending new : Text} {n k : Nat}
    (h : Exchanged t t' n k text ending) (shape : new = sketch text ∨ ∀ c ∈ new, c ∈ text) :
    (Text.lines (Text.joinLines (putBack t k new)))[k]? = some new := by
  have found : (putBack t k new)[k]? = some new := getElem?_putBack h.number
  rw [Text.lines_joinLines (List.ne_nil_of_mem (List.mem_of_getElem? found)), found]
  intro line member
  obtain ⟨i, at_⟩ := List.mem_iff_getElem?.1 member
  exact (renderedLine_of_putBack h.number h.telling shape at_).not_mem_lineFeed

end LineByLine

end DialectBridge
