import DialectBridge.Proofs.Reconstruction
import DialectBridge.Proofs.Sketching

/-!
# Lines around a line that is replaced

Twice on the way of a text that does not compile one of its lines is replaced: in the source by a
substitute, and in the generated text by what is put back. All that is known about the other lines,
in particular the line numbers in the map, depends on nothing else being moved.

A substitute (`ErrorLine.Substituted`) exchanges the text of one line and nothing else. The line
keeps its indentation and its line break, and if the substitute fits into it also its length.
Putting the line back (`Recovery.LinesKept`) exchanges the line with the placeholder, and at most
turns the terminator of the closest line with text above it into a space.
-/

set_option autoImplicit false

namespace DialectBridge

/-! ## Substitutes -/

namespace ErrorLine

/-- A document and the same document with the text of one line exchanged for a content. -/
structure Substituted (source result : Document) (k : Nat) (content : Text) : Prop where
  lineCount : result.lineCount = source.lineCount
  others : ∀ i, i ≠ k → result.lines[i]? = source.lines[i]?
  /-- What is behind the text of the line, which is its carriage return or nothing, stays. -/
  ending : ∃ ending, source.lines[k]? = some (source.lineText k ++ ending) ∧
    result.lines[k]? = some (result.lineText k ++ ending)
  indentation : Text.leadingBlank (result.lineText k) = Text.leadingBlank (source.lineText k)
  padded : ∃ width, result.lineText k =
    Text.leadingBlank (source.lineText k) ++ content ++ List.replicate width ' '
  not_shorter : (source.lineText k).length ≤ (result.lineText k).length
  same_length : (Text.leadingBlank (source.lineText k)).length + content.length ≤
      (source.lineText k).length →
    (result.lineText k).length = (source.lineText k).length

variable {t ending : Text} {e : ErrorLine}

/-- Every line number locates a line of the text. -/
theorem exists_of (source : Document) (n : Int) :
    ∃ ending, Of source.text (locate source n) ending := by
  have some_ : 0 < source.lineCount := Nat.succ_pos _
  obtain ⟨k, number⟩ : ∃ k, k = min n.toNat (source.lineCount - 1) := ⟨_, rfl⟩
  have bound : k < source.lines.length := by
    rw [← Document.lineCount_eq]
    omega
  have same : locate source n = locate source k := by
    have again : min (k : Int).toNat (source.lineCount - 1) =
        min n.toNat (source.lineCount - 1) := by omega
    unfold locate
    rw [again]
  obtain ⟨ending, -, -, of⟩ := exists_of_locate (t := source.text)
    (List.getElem?_eq_getElem bound) source.uri
  exact ⟨ending, same ▸ of⟩

/-- A candidate begins and ends with something visible. -/
theorem visible_of_mem_candidates {candidate : Candidate} (h : candidate ∈ e.candidates) :
    (∃ c ∈ candidate.content.head?, isBlank c = false) ∧
      candidate.content.getLast? = some 'ᛝ' := by
  rcases cases_of_mem_candidates h with fixed | ⟨front, cut, whole, -, rfl⟩
  · simp only [fixedCandidates, List.mem_cons, List.not_mem_nil, or_false] at fixed
    rcases fixed with rfl | rfl | rfl
    · exact ⟨⟨'ᛝ', rfl, by decide⟩, rfl⟩
    · exact ⟨⟨'ᛝ', rfl, by decide⟩, rfl⟩
    · exact ⟨⟨'i', rfl, by decide⟩, rfl⟩
  · rw [whole, content_memberCandidate]
    refine ⟨?_, by rw [List.getLast?_append]; rfl⟩
    cases code : Text.trimLeft front with
    | nil => exact ⟨'.', rfl, by decide⟩
    | cons c rest =>
      have visible := List.head?_dropWhile_not isBlank front
      rw [show front.dropWhile isBlank = c :: rest from code] at visible
      exact ⟨c, rfl, by simpa using visible⟩

/-- A padded candidate does not end in a carriage return. -/
theorem getLast?_padRight_ne {content : Text} (last : content.getLast? = some 'ᛝ')
    (front : Text) (width : Nat) : (front ++ Text.padRight width content).getLast? ≠ some '\r' := by
  unfold Text.padRight
  rw [List.getLast?_append, List.getLast?_append, last]
  cases width - content.length with
  | zero => simp
  | succ more => simp [List.getLast?_replicate]

/-- **A substitute moves nothing** but the text of its line. -/
theorem substituted (source : Document) (n : Int) {candidate : Candidate}
    (member : candidate ∈ (locate source n).candidates) :
    Substituted source ⟨(locate source n).substitute source.text candidate.content, source.uri⟩
      (locate source n).line candidate.content := by
  obtain ⟨ending, of⟩ := exists_of source n
  have text : (locate source n).text = source.lineText (locate source n).line := rfl
  have blanks : (locate source n).indentation =
      Text.leadingBlank (source.lineText (locate source n).line) := rfl
  obtain ⟨⟨c, first, visible⟩, last⟩ := visible_of_mem_candidates member
  have lines_ := of.lines_substitute (of.placeholder_mem_content member).2
  generalize locate source n = e at *
  have found := of.found
  have bound : e.line < source.lines.length := (List.getElem?_eq_some_iff.1 found).1
  generalize written : (⟨e.substitute source.text candidate.content, source.uri⟩ : Document) =
    result
  have exchanged : result.lines =
      source.lines.set e.line (e.substituteLine candidate.content ending) := by
    rw [← written]
    exact lines_
  have found' : result.lines[e.line]? = some (e.substituteLine candidate.content ending) := by
    rw [exchanged, List.getElem?_set_self bound]
  have ends : ending = [] ∨ ending = ['\r'] ∧ e.line + 1 < result.lines.length := by
    refine of.ending_eq.imp_right fun return_ => ⟨return_, ?_⟩
    rw [exchanged, List.length_set]
    refine Document.lt_of_lineText_ne found ?_
    rw [← text, return_]
    simp
  have own := Document.lineText_eq found' (getLast?_padRight_ne last _ _) ends
  have size : e.indentation.length ≤ e.text.length := by
    rw [blanks, ← text]
    exact (List.takeWhile_sublist _).length_le
  rw [← text] at blanks
  constructor
  case lineCount =>
    rw [Document.lineCount_eq, Document.lineCount_eq, exchanged, List.length_set]
  case others =>
    intro i other
    rw [exchanged, List.getElem?_set_ne (Ne.symm other)]
  case ending =>
    rw [own, ← text]
    exact ⟨ending, found, found'⟩
  case indentation =>
    rw [own, ← text, ← blanks]
    refine Text.takeWhile_append_of_head (fun d inside => ?_) fun d here => ?_
    · rw [blanks] at inside
      exact List.mem_takeWhile_imp inside
    · rw [Text.padRight, List.head?_append, first] at here
      obtain rfl := Option.some.inj here
      exact visible
  case padded =>
    refine ⟨e.text.length - e.indentation.length - candidate.content.length, ?_⟩
    rw [own, ← text, ← blanks, Text.padRight, List.append_assoc]
  case not_shorter =>
    rw [own, ← text]
    simp only [Text.padRight, List.length_append, List.length_replicate]
    omega
  case same_length =>
    rw [own, ← text, ← blanks]
    intro fits
    simp only [Text.padRight, List.length_append, List.length_replicate]
    omega

end ErrorLine

/-! ## Putting back -/

namespace Recovery

/-- The closest line above a line that has text. -/
structure NearestAbove (lines : List Text) (k i : Nat) : Prop where
  above : i < k
  filled : ∃ line, lines[i]? = some line ∧ Text.isEmptyLine line = false
  between : ∀ j line, i < j → j < k → lines[j]? = some line → Text.isEmptyLine line = true

/-- Lines and the same lines with one of them exchanged and the terminator above it maybe turned
into a space. -/
structure LinesKept (lines lines' : List Text) (k : Nat) : Prop where
  length : lines'.length = lines.length
  others : ∀ i, i ≠ k → ¬ NearestAbove lines k i → lines'[i]? = lines[i]?
  above : ∀ i, NearestAbove lines k i → ∃ line line', lines[i]? = some line ∧
    lines'[i]? = some line' ∧ line'.length = line.length ∧ Released line line'

/-- Only lines above a line matter for the closest one. -/
theorem NearestAbove.of_set {lines : List Text} {k i : Nat} {new : Text}
    (h : NearestAbove (lines.set k new) k i) : NearestAbove lines k i := by
  obtain ⟨above, ⟨line, found, filled⟩, between⟩ := h
  rw [List.getElem?_set_ne (by omega)] at found
  refine ⟨above, ⟨line, found, filled⟩, fun j other early late there => ?_⟩
  refine between j other early late ?_
  rw [List.getElem?_set_ne (by omega)]
  exact there

/-- A released line is as long as the line. -/
theorem Released.length_eq {line line' : Text} (h : Released line line') :
    line'.length = line.length := by
  rcases h with rfl | ⟨front, rfl, rfl⟩
  · rfl
  · simp

/-- Releasing changes at most the terminator of the nearest line that has text. -/
theorem releaseTerminator_cases (above : List Text) :
    releaseTerminator above = above ∨ ∃ blanks front rest,
      above = blanks ++ (front ++ [';']) :: rest ∧ (∀ line ∈ blanks, Text.isEmptyLine line = true) ∧
        releaseTerminator above = blanks ++ (front ++ [' ']) :: rest := by
  induction above with
  | nil => exact .inl rfl
  | cons line above ih =>
    unfold releaseTerminator
    split
    · next blank =>
      rcases ih with same | ⟨blanks, front, rest, whole, empty, released⟩
      · exact .inl (by rw [same])
      · refine .inr ⟨line :: blanks, front, rest, by rw [whole]; rfl, fun other member => ?_,
          by rw [released]; rfl⟩
        rcases List.mem_cons.1 member with rfl | inside
        · exact blank
        · exact empty other inside
    · split
      · next ending =>
        rw [Text.endsWith, List.isSuffixOf_iff_suffix] at ending
        obtain ⟨front, rfl⟩ := ending
        refine .inr ⟨[], front, above, rfl, fun other member => absurd member List.not_mem_nil, ?_⟩
        rw [List.dropLast_concat]
        rfl
      · exact .inl rfl

/-- The terminator that is turned into a space is that of the closest line with text. -/
theorem joinPrevious_cases (lines : List Text) (k : Nat) :
    joinPrevious lines k = lines ∨
      ∃ i front, NearestAbove lines k i ∧ joinPrevious lines k = lines.set i (front ++ [' ']) := by
  unfold joinPrevious
  rw [Int.toNat_natCast]
  rcases releaseTerminator_cases (lines.take k).reverse with
    same | ⟨blanks, front, rest, whole, empty, released⟩
  · left
    rw [same, List.reverse_reverse, List.take_append_drop]
  · right
    have upper : lines.take k = rest.reverse ++ (front ++ [';']) :: blanks.reverse := by
      rw [← List.reverse_reverse (lines.take k), whole]
      simp
    have shape : lines = rest.reverse ++ (front ++ [';']) :: (blanks.reverse ++ lines.drop k) := by
      conv_lhs => rw [← List.take_append_drop k lines, upper]
      simp
    have size := congrArg List.length upper
    simp only [List.length_take, List.length_append, List.length_cons, List.length_reverse] at size
    refine ⟨rest.length, front, ⟨by omega, ⟨front ++ [';'], ?_, ?_⟩, ?_⟩, ?_⟩
    · rw [shape, List.getElem?_append_right (by simp)]
      simp
    · refine List.all_eq_false.2 ⟨';', ?_, by decide⟩
      exact List.mem_append_right _ (List.mem_singleton_self _)
    · intro j line below above found
      have bound := (List.getElem?_eq_some_iff.1 found).1
      refine empty line (List.mem_reverse.1 ?_)
      rw [← List.getElem?_take_of_lt above, upper,
        List.getElem?_append_right (by rw [List.length_reverse]; omega),
        show j - rest.reverse.length = (j - rest.length - 1) + 1 by rw [List.length_reverse]; omega,
        List.getElem?_cons_succ] at found
      exact List.mem_of_getElem? found
    · rw [released]
      conv_rhs => rw [shape]
      rw [List.set_append_right _ _ (by simp)]
      simp

/-- **Putting a line back leaves the other lines alone**, except for a terminator above it. -/
theorem linesKept_joinPrevious (lines : List Text) (k : Nat) (new : Text) :
    LinesKept lines (joinPrevious (lines.set k new) k) k where
  length := by rw [length_joinPrevious, List.length_set]
  others i other apart := by
    have kept : (lines.set k new)[i]? = lines[i]? := List.getElem?_set_ne (Ne.symm other)
    rcases joinPrevious_cases (lines.set k new) k with same | ⟨j, front, nearest, same⟩
    · rw [same, kept]
    · have elsewhere : j ≠ i := by
        rintro rfl
        exact apart nearest.of_set
      rw [same, List.getElem?_set_ne elsewhere, kept]
  above i nearest := by
    obtain ⟨line, found, -⟩ := nearest.filled
    have kept : (lines.set k new)[i]? = some line :=
      (List.getElem?_set_ne (Nat.ne_of_gt nearest.above)).trans found
    obtain ⟨line', found', released⟩ :=
      exists_getElem?_right (forall₂_joinPrevious (lines.set k new) k) kept
    exact ⟨line, line', found, found', released.length_eq, released⟩

/-- The first line with the placeholder. -/
structure FirstMarked (lines : List Text) (k : Nat) (line : Text) : Prop where
  found : lines[k]? = some line
  marked : 'ᛝ' ∈ line
  first : ∀ i < k, ∀ other, lines[i]? = some other → 'ᛝ' ∉ other

/-- In a text with the placeholder its line is found. -/
theorem exists_firstMarked {js : Text} (marked : 'ᛝ' ∈ js) :
    ∃ k line, placeholderLine? (Text.lines js) = some k ∧ FirstMarked (Text.lines js) k line := by
  have occurs : ∀ line, Text.occursIn Marker.placeholder.text line = true ↔ 'ᛝ' ∈ line :=
    fun line => Text.occursIn_singleton
  rw [← Text.joinLines_lines js] at marked
  obtain ⟨some_, member, inside⟩ := (Text.mem_joinLines marked).resolve_left (by decide)
  cases place : placeholderLine? (Text.lines js) with
  | none =>
    have clean := List.findIdx?_eq_none_iff.1 place some_ member
    rw [(occurs some_).2 inside] at clean
    cases clean
  | some k =>
    obtain ⟨bound, here, before⟩ := List.findIdx?_eq_some_iff_getElem.1 place
    refine ⟨k, (Text.lines js)[k], rfl, List.getElem?_eq_getElem bound, (occurs _).1 here, ?_⟩
    rintro i early other found bad
    obtain ⟨_, rfl⟩ := List.getElem?_eq_some_iff.1 found
    exact before i early ((occurs _).2 bad)

section Reconstruct

variable {js : Text} {candidate : Candidate} {e : ErrorLine} {k : Nat}

/-- A line is put back as a sketch or with the end that was cut off it, unless that end has lost its
place. -/
theorem reconstruct_cases (place : placeholderLine? (Text.lines js) = some k) {line : Text}
    (found : (Text.lines js)[k]? = some line) (map : ColumnMap) (d : Diagnostic) (uri : String) :
    (∃ g new, reconstruct js map candidate e d uri = .ok g ∧
        g.js = some (Text.joinLines (joinPrevious ((Text.lines js).set k new) k)) ∧
        (new = sketch e.text ∨ restoreEnd? line candidate.removed = some new)) ∨
      reconstruct js map candidate e d uri = .error (.placeholderDetached uri) ∧
        candidate.mechanism = .modifiedSource ∧ restoreEnd? line candidate.removed = none := by
  have same : (Text.lines js).getD k [] = line := by
    rw [List.getD_eq_getElem?_getD, found, Option.getD_some]
  unfold reconstruct
  dsimp only
  rw [place]
  dsimp only
  rw [same]
  cases candidate.mechanism with
  | sourceInOutput =>
    simp only [pure_bind]
    obtain ⟨g, made, shown, -⟩ := exists_shows
      (Text.joinLines (joinPrevious ((Text.lines js).set k (sketch e.text)) k))
      (map.collapse e.line k) e.line .sourceInOutput d
    exact .inl ⟨g, sketch e.text, made, shown.js, .inl rfl⟩
  | modifiedSource =>
    cases restored : restoreEnd? line candidate.removed with
    | none => exact .inr ⟨rfl, rfl, rfl⟩
    | some new =>
      simp only [pure_bind]
      obtain ⟨g, made, shown, -⟩ := exists_shows
        (Text.joinLines (joinPrevious ((Text.lines js).set k new) k)) map e.line .modifiedSource d
      exact .inl ⟨g, new, made, shown.js, .inr rfl⟩

/-- A released line is a line. -/
theorem Released.not_mem {line line' : Text} (h : Released line line') (clean : '\n' ∉ line) :
    '\n' ∉ line' := by
  rcases h with rfl | ⟨front, rfl, rfl⟩
  · exact clean
  · intro inside
    refine clean (List.mem_append_left _ ?_)
    simpa using inside

/-- With a line put in the place of another one, the lines of the text are those that are joined. -/
theorem lines_joinPrevious {new : Text} (k : Nat) (unbroken : '\n' ∉ new) :
    Text.lines (Text.joinLines (joinPrevious ((Text.lines js).set k new) k)) =
      joinPrevious ((Text.lines js).set k new) k := by
  refine Text.lines_joinLines ?_ fun line' member => ?_
  · rw [← List.length_pos_iff, length_joinPrevious, List.length_set, List.length_pos_iff]
    exact Text.lines_ne_nil js
  · obtain ⟨i, found⟩ := List.mem_iff_getElem?.1 member
    obtain ⟨line, there, released⟩ := exists_getElem?_left (forall₂_joinPrevious _ k) found
    exact released.not_mem (Text.not_mem_set (fun _ => Text.not_mem_of_mem_lines) unbroken line
      (List.mem_of_getElem? there))

/-- The end of a line comes back without a line break. -/
theorem not_mem_of_restoreEnd? {line removed new : Text} (h : restoreEnd? line removed = some new)
    (clean : '\n' ∉ line) (plain : '\n' ∉ removed) : '\n' ∉ new := by
  unfold restoreEnd? at h
  obtain ⟨index, -, rfl⟩ := Option.map_eq_some_iff.1 h
  intro inside
  rcases List.mem_append.1 inside with front | after
  · rcases List.mem_append.1 front with before | cut
    · exact clean (List.mem_of_mem_take before)
    · exact plain (List.mem_of_mem_filter cut)
  · split at after
    · exact absurd after List.not_mem_nil
    · exact clean (List.mem_of_mem_drop after)

/-- The sketch of a line is a line. -/
theorem not_mem_sketch {t : Text} (clean : '\n' ∉ t) : '\n' ∉ sketch t := by
  have apart : ∀ separator ∈ Sketch.separators, Text.separates ['\n'] separator = true := by decide
  exact fun inside => clean (Sketch.mem_of_mem_sketch apart inside)

/-- The ends that are cut off a line are no line breaks. -/
theorem not_mem_removed (member : candidate ∈ e.candidates) : '\n' ∉ candidate.removed := by
  rcases ErrorLine.cases_of_mem_candidates member with fixed | ⟨front, cut, -, known, rfl⟩
  · have none_ : ∀ candidate ∈ ErrorLine.fixedCandidates, candidate.removed = [] := by decide
    rw [none_ candidate fixed]
    exact List.not_mem_nil
  · have plain : ∀ cut ∈ ErrorLine.memberCuts, '\n' ∉ cut := by decide
    exact plain cut known

/-- An end that cannot be put back has lost the dot before the placeholder. -/
theorem not_infix_of_restoreEnd? {line removed : Text} (h : restoreEnd? line removed = none) :
    ¬ ['.', 'ᛝ'] <:+: line := by
  unfold restoreEnd? at h
  refine Text.not_infix_of_occursIn ?_
  rw [Text.occursIn, show ['.', 'ᛝ'] = '.' :: Marker.placeholder.text from rfl,
    Option.map_eq_none_iff.1 h]
  rfl

/-- **What replaces a line moves nothing else**, neither in the source nor in the generated text. -/
theorem replacement_keeps_others (source : Document) (n : Int)
    (member : candidate ∈ (ErrorLine.locate source n).candidates) :
    ErrorLine.Substituted source
        ⟨(ErrorLine.locate source n).substitute source.text candidate.content, source.uri⟩
        (ErrorLine.locate source n).line candidate.content ∧
      ∀ js map d uri, 'ᛝ' ∈ js → ∃ k line, FirstMarked (Text.lines js) k line ∧
        ((∃ g js', reconstruct js map candidate (ErrorLine.locate source n) d uri = .ok g ∧
            g.js = some js' ∧ LinesKept (Text.lines js) (Text.lines js') k) ∨
          reconstruct js map candidate (ErrorLine.locate source n) d uri =
              .error (.placeholderDetached uri) ∧
            candidate.mechanism = .modifiedSource ∧ ¬ ['.', 'ᛝ'] <:+: line) := by
  refine ⟨ErrorLine.substituted source n member, fun js map d uri marked => ?_⟩
  obtain ⟨k, line, place, first⟩ := exists_firstMarked marked
  refine ⟨k, line, first, ?_⟩
  rcases reconstruct_cases place first.found map d uri with
    ⟨g, new, made, text, shape⟩ | ⟨failed, mechanism, detached⟩
  · left
    have unbroken : '\n' ∉ new := by
      rcases shape with sketched | restored
      · obtain ⟨ending, of⟩ := ErrorLine.exists_of source n
        rw [sketched]
        exact not_mem_sketch of.not_mem_text
      · exact not_mem_of_restoreEnd? restored
          (Text.not_mem_of_mem_lines (List.mem_of_getElem? first.found)) (not_mem_removed member)
    refine ⟨g, _, made, text, ?_⟩
    rw [lines_joinPrevious k unbroken]
    exact linesKept_joinPrevious _ k new
  · exact .inr ⟨failed, mechanism, not_infix_of_restoreEnd? detached⟩

/-- An indented line in the middle of a text with carriage returns, of which the end is cut off, and
what a compiler may make of it. -/
theorem replacement_keeps_others_optional :
    let source : Document := ⟨"a\r\n  x?.;\r\nb".toList, ""⟩
    let e := ErrorLine.locate source 1
    let candidate := ErrorLine.memberCandidate e.text "?.;".toList
    let result : Document := ⟨"a\r\n  x.ᛝ \r\nb".toList, ""⟩
    let js := "a;\n\n  x.ᛝ;\nb;".toList
    let d : Diagnostic := { range := .caret .origin, message := "unexpected end of input" }
    candidate ∈ e.candidates ∧ e.substitute source.text candidate.content = result.text ∧
      ErrorLine.Substituted source result 1 candidate.content ∧
      ∃ k g js', reconstruct js ⟨[]⟩ candidate e d "" = .ok g ∧ g.js = some js' ∧
        js' = "a \n\n  x?.\nb;".toList ∧ LinesKept (Text.lines js) (Text.lines js') k := by
  intro source e candidate result js d
  have member : candidate ∈ e.candidates := by decide +kernel
  have written : e.substitute source.text candidate.content = result.text := by decide +kernel
  obtain ⟨substituted, back⟩ := replacement_keeps_others source 1 member
  obtain ⟨k, line, -, put⟩ := back js ⟨[]⟩ d "" (by decide)
  have text : (reconstruct js ⟨[]⟩ candidate e d "").toOption.bind (·.js) =
      some "a \n\n  x?.\nb;".toList := by decide +kernel
  have place : e.line = 1 := by decide +kernel
  have exchanged : ErrorLine.Substituted source
      ⟨e.substitute source.text candidate.content, ""⟩ e.line candidate.content := substituted
  rw [written, place] at exchanged
  refine ⟨member, written, exchanged, ?_⟩
  rcases put with ⟨g, js', made, same, kept⟩ | ⟨failed, -⟩
  · rw [show reconstruct js ⟨[]⟩ candidate e d "" = .ok g from made] at text
    exact ⟨k, g, js', made, same, Option.some.inj (same.symm.trans text), kept⟩
  · rw [show reconstruct js ⟨[]⟩ candidate e d "" = .error _ from failed] at text
    cases text

end Reconstruct

end Recovery

end DialectBridge
