import DialectBridge.Proofs.Rejections

/-!
# Texts with a substitute for one line

A substitute takes the place of the erroneous line and of nothing else: all other lines of the text
stay what they are. The erroneous line has text, and so has every substitute; therefore both texts
have the same lines with text, except for that one line, and their generated texts have the same
lines, except for one. It is found again by the placeholder, which stands nowhere else.
-/

set_option autoImplicit false

namespace DialectBridge

namespace Text

/-- A single character occurs in a text exactly when it is one of its characters. -/
theorem occursIn_singleton {c : Char} {t : Text} : occursIn [c] t = true ↔ c ∈ t := by
  unfold occursIn
  induction t with
  | nil => simp [find?]
  | cons d rest ih =>
    unfold find?
    by_cases same : c = d
    · simp [startsWith, same]
    · have other : startsWith [c] (d :: rest) = false := by
        simp [startsWith, List.isPrefixOf, same]
      rw [other, if_neg (by decide), Option.isSome_map, ih, List.mem_cons]
      exact (or_iff_right same).symm

/-- A text whose last character is new is found behind everything that stands before it. -/
theorem find?_append {front needle rest : Text} {c : Char} (new : c ∉ front) (fresh : c ∉ needle) :
    find? (needle ++ [c]) (front ++ (needle ++ [c]) ++ rest) = some front.length := by
  induction front with
  | nil =>
    have here : startsWith (needle ++ [c]) (needle ++ [c] ++ rest) = true := by
      rw [startsWith, List.isPrefixOf_iff_prefix]
      exact List.prefix_append _ _
    rw [List.nil_append]
    cases whole : needle ++ [c] ++ rest with
    | nil => simp at whole
    | cons d more =>
      rw [whole] at here
      rw [find?, if_pos here]
      rfl
  | cons d more ih =>
    rw [List.mem_cons, not_or] at new
    rw [List.cons_append, List.cons_append, find?, if_neg, ih new.2]
    · rfl
    · -- At an earlier place the new character would stand in the front or in the needle.
      intro early
      rw [startsWith, List.isPrefixOf_iff_prefix] at early
      have place : (d :: (more ++ (needle ++ [c]) ++ rest))[needle.length]? = some c := by
        obtain ⟨behind, same⟩ := early
        rw [← same, List.append_assoc, List.getElem?_append_right (Nat.le_refl _), Nat.sub_self]
        rfl
      have inside : c ∈ d :: (more ++ needle) := by
        have shape : d :: (more ++ (needle ++ [c]) ++ rest) =
            (d :: (more ++ needle)) ++ ([c] ++ rest) := by simp
        have early : needle.length < (d :: (more ++ needle)).length := by
          rw [List.length_cons, List.length_append]
          omega
        rw [shape, List.getElem?_append_left early] at place
        exact List.mem_of_getElem? place
      rcases List.mem_cons.1 inside with same | later
      · exact new.1 same
      · exact (List.mem_append.1 later).elim new.2 fresh

/-- A list of lines stays one when a line is put in the place of another. -/
theorem not_mem_set {lines : List Text} (clean : ∀ line ∈ lines, '\n' ∉ line) {k : Nat}
    {new : Text} (unbroken : '\n' ∉ new) : ∀ line ∈ lines.set k new, '\n' ∉ line := by
  intro line member
  rcases List.mem_or_eq_of_mem_set member with old | rfl
  · exact clean line old
  · exact unbroken

end Text

/-! ## The erroneous line -/

namespace ErrorLine

/-- An erroneous line of a text: the line without its ending, and where it lies. -/
structure Of (t : Text) (e : ErrorLine) (ending : Text) : Prop where
  found : (Text.lines t)[e.line]? = some (e.text ++ ending)
  ending_eq : ending = [] ∨ ending = ['\r']
  offset : e.offset = Text.extent ((Text.lines t).take e.line)
  indentation : e.indentation = Text.leadingBlank e.text

/-- A line number inside the text locates its line. -/
theorem exists_of_locate {t line : Text} {n : Nat} (found : (Text.lines t)[n]? = some line)
    (uri : String) : ∃ ending, line = (locate ⟨t, uri⟩ n).text ++ ending ∧
      (locate ⟨t, uri⟩ n).line = n ∧ Of t (locate ⟨t, uri⟩ n) ending := by
  have bound := (List.getElem?_eq_some_iff.1 found).1
  have number : min (n : Int).toNat (Document.lineCount ⟨t, uri⟩ - 1) = n := by
    rw [Document.lineCount_eq, Document.lines]
    dsimp only
    omega
  obtain ⟨ending, whole, shape⟩ :=
    Document.exists_eq_lineText_append (d := ⟨t, uri⟩) (k := n) found
  unfold locate
  dsimp only
  rw [number]
  refine ⟨ending, whole, rfl, ?_, shape, ?_, rfl⟩
  · exact found.trans (congrArg some whole)
  · dsimp only
    rw [Document.offsetOf_of_getElem? (d := ⟨t, uri⟩) found, Nat.zero_min, Nat.add_zero]
    rfl

/-- The line that a substitute makes of an erroneous line. -/
def substituteLine (e : ErrorLine) (content ending : Text) : Text :=
  e.indentation ++ Text.padRight (e.text.length - e.indentation.length) content ++ ending

variable {t content ending : Text} {e : ErrorLine}

theorem Of.not_mem_text (h : Of t e ending) : '\n' ∉ e.text := fun inside =>
  Text.not_mem_of_mem_lines (List.mem_of_getElem? h.found) (List.mem_append_left _ inside)

theorem Of.mem_indentation (h : Of t e ending) {c : Char} (inside : c ∈ e.indentation) :
    c ∈ e.text := by
  rw [h.indentation] at inside
  exact (List.takeWhile_sublist _).subset inside

/-- The characters of a substituted line. -/
theorem Of.mem_substituteLine (h : Of t e ending) {c : Char}
    (member : c ∈ e.substituteLine content ending) :
    c ∈ e.text ∨ c ∈ content ∨ c = ' ' ∨ c ∈ ending := by
  rcases List.mem_append.1 member with front | last
  · rcases List.mem_append.1 front with indent | padded
    · exact .inl (h.mem_indentation indent)
    · rcases List.mem_append.1 padded with inside | space
      · exact .inr (.inl inside)
      · exact .inr (.inr (.inl (List.eq_of_mem_replicate space)))
  · exact .inr (.inr (.inr last))

theorem mem_substituteLine_of_mem {c : Char} (inside : c ∈ content) :
    c ∈ e.substituteLine content ending :=
  List.mem_append_left _ (List.mem_append_right _ (List.mem_append_left _ inside))

/-- **A substitute changes one line.** -/
theorem Of.lines_substitute (h : Of t e ending) (unbroken : '\n' ∉ content) :
    Text.lines (e.substitute t content) =
      (Text.lines t).set e.line (e.substituteLine content ending) := by
  obtain ⟨front, rest, cut⟩ := Text.exists_lineCut h.found
  have whole := cut.whole
  rw [Text.joinLines_lines] at whole
  have size : front.length = e.offset := cut.size.trans h.offset.symm
  have joined : e.substitute t content =
      Text.joinLines ((Text.lines t).set e.line (e.substituteLine content ending)) := by
    have shape : t = front ++ e.text ++ (ending ++ rest) := by
      rw [whole]
      simp only [List.append_assoc]
    have before : t.take e.offset = front := by
      rw [shape, List.append_assoc, List.take_append_of_le_length (by omega), ← size,
        List.take_length]
    have behind : t.drop e.stop = ending ++ rest := by
      have stop : e.stop = (front ++ e.text).length := by
        rw [stop, ← size, List.length_append]
      rw [stop, shape, List.drop_left]
    rw [cut.replaced, substitute, before, behind, substituteLine]
    simp only [List.append_assoc]
  rw [joined, Text.lines_joinLines]
  · simpa using Text.lines_ne_nil t
  · refine Text.not_mem_set (fun line => Text.not_mem_of_mem_lines) fun member => ?_
    rcases h.mem_substituteLine member with text | inside | space | last
    · exact h.not_mem_text text
    · exact unbroken inside
    · exact absurd space (by decide)
    · rcases h.ending_eq with rfl | rfl
      · exact absurd last List.not_mem_nil
      · exact absurd last (by decide)

/-! ## Candidates -/

/-- The ends that are cut off a line with a missing member. -/
def memberCuts : List Text := [['.', ';'], ['['], ['?', '.', ';'], ['?', '[']]

/-- The candidates that do not depend on the line. -/
def fixedCandidates : List Candidate := [plainCandidate, keyCandidate, conditionCandidate]

theorem exists_of_memberEnd? {line ending : Text} (h : memberEnd? line = some ending) :
    (∃ front, line = front ++ ending) ∧ ending ∈ memberCuts := by
  unfold memberEnd? at h
  obtain ⟨found, known, same⟩ := Option.map_eq_some_iff.1 h
  have member := List.mem_of_find?_eq_some known
  have suffix_ : Text.endsWith found line = true := by simpa using List.find?_some known
  have choices : found = ['.', ';'] ∨ found = ['['] := by simpa [memberEnds] using member
  split at same
  · next asked =>
    subst same
    rw [Text.endsWith, List.isSuffixOf_iff_suffix] at asked
    obtain ⟨front, whole⟩ := asked
    refine ⟨⟨front, whole.symm⟩, ?_⟩
    rcases choices with rfl | rfl <;> decide
  · subst same
    rw [Text.endsWith, List.isSuffixOf_iff_suffix] at suffix_
    obtain ⟨front, whole⟩ := suffix_
    refine ⟨⟨front, whole.symm⟩, ?_⟩
    rcases choices with rfl | rfl <;> decide

/-- The line with the placeholder as its last member, without its indentation. -/
theorem content_memberCandidate (front ending : Text) :
    (memberCandidate (front ++ ending) ending).content =
      Text.trimLeft front ++ ['.', 'ᛝ'] := by
  have mark : Marker.placeholder.text = ['ᛝ'] := rfl
  have cut : (front ++ ending).take ((front ++ ending).length - ending.length) = front := by
    rw [List.length_append, Nat.add_sub_cancel, List.take_left]
  have left : Text.trimLeft (front ++ ['.', 'ᛝ']) = Text.trimLeft front ++ ['.', 'ᛝ'] := by
    unfold Text.trimLeft
    rw [List.dropWhile_append]
    split
    · next empty =>
      rw [List.isEmpty_iff.1 empty]
      decide
    · rfl
  unfold memberCandidate
  dsimp only
  rw [cut, mark, Text.trim, left,
    show Text.trimLeft front ++ ['.', 'ᛝ'] = (Text.trimLeft front ++ ['.']) ++ ['ᛝ'] ++ [] by simp,
    Text.trimRight_append (by decide)]
  rfl

/-- A candidate is one of the fixed ones, or the line with its end replaced. -/
theorem cases_of_mem_candidates {candidate : Candidate} (h : candidate ∈ e.candidates) :
    candidate ∈ fixedCandidates ∨
      ∃ front ending, e.text = front ++ ending ∧ ending ∈ memberCuts ∧
        candidate = memberCandidate e.text ending := by
  unfold candidates at h
  rcases List.mem_append.1 h with member | fixed
  · obtain ⟨ending, inside, rfl⟩ := List.mem_map.1 member
    obtain ⟨⟨front, whole⟩, known⟩ := exists_of_memberEnd? (Option.mem_toList.1 inside)
    exact .inr ⟨front, ending, whole, known, rfl⟩
  · left
    split at fixed
    · simp only [fixedCandidates, List.mem_cons, List.not_mem_nil, or_false] at fixed ⊢
      rcases fixed with rfl | rfl | rfl <;> simp
    · simp only [fixedCandidates, List.mem_cons, List.not_mem_nil, or_false] at fixed ⊢
      rcases fixed with rfl | rfl | rfl <;> simp

end ErrorLine

/-! ## Lines with text -/

namespace LineByLine

/-- A filter treats a list with one element exchanged like the list, if it keeps both elements. -/
theorem filter_set {α : Type} (keep : α → Bool) {all : List α} {n : Nat} {old : α} (new : α)
    (found : all[n]? = some old) (kept : keep old = true) (keeps : keep new = true) :
    ∃ k : Nat, (all.filter keep)[k]? = some old ∧
      (all.set n new).filter keep = (all.filter keep).set k new := by
  induction all generalizing n with
  | nil => cases found
  | cons a rest ih =>
    cases n with
    | zero =>
      obtain rfl := Option.some.inj found
      refine ⟨0, ?_, ?_⟩
      · rw [List.filter_cons_of_pos kept]
        rfl
      · rw [List.set_cons_zero, List.filter_cons_of_pos keeps, List.filter_cons_of_pos kept]
        rfl
    | succ n =>
      obtain ⟨k, at_, same⟩ := ih found
      rw [List.set_cons_succ]
      by_cases here : keep a = true
      · exact ⟨k + 1, by rw [List.filter_cons_of_pos here]; exact at_, by
          rw [List.filter_cons_of_pos here, List.filter_cons_of_pos here, same]
          rfl⟩
      · exact ⟨k, by rw [List.filter_cons_of_neg here]; exact at_, by
          rw [List.filter_cons_of_neg here, List.filter_cons_of_neg here, same]⟩

/-- Numbering goes on when a line is exchanged. -/
theorem zipIdx_set {all : List Text} {n : Nat} (new : Text) :
    (all.set n new).zipIdx = all.zipIdx.set n (new, n) := by
  refine List.ext_getElem? fun i => ?_
  rw [List.getElem?_zipIdx, List.getElem?_set, List.getElem?_set, List.getElem?_zipIdx,
    List.length_zipIdx]
  split
  · next same =>
    subst same
    split <;> simp
  · rfl

/-- **The lines with text of a text with one line exchanged**, if both lines have text. -/
theorem filledLines_of_lines_eq_set {t t' old new : Text} {n k : Nat}
    (lines_ : Text.lines t' = (Text.lines t).set n new)
    (number : (filledLines t)[k]? = some (old, n)) (filled : Text.isEmptyLine new = false) :
    filledLines t' = (filledLines t).set k (new, n) := by
  obtain ⟨found, text⟩ := getElem?_of_filledLines number
  have entry : (Text.lines t).zipIdx[n]? = some (old, n) := by
    rw [List.getElem?_zipIdx, found]
    simp
  obtain ⟨k', at_, same⟩ := filter_set (fun entry => !Text.isEmptyLine entry.1)
    (new, n) entry (by simp [text]) (by simp [filled])
  have again : (filledLines t)[k']? = some (old, n) := at_
  obtain rfl := filledLines_injective number again
  unfold filledLines
  rw [lines_, zipIdx_set, same]

/-- Every character that is not white space stays, except for the sign of a comment. -/
theorem mem_lineOutput {line : Text} {c : Char} (inside : c ∈ line) (filled : isBlank c = false)
    (other : c ≠ '#') : c ∈ lineOutput line := by
  unfold lineOutput
  split
  · unfold commentOutput
    have whole := List.takeWhile_append_dropWhile (p := (· != '#')) (l := line)
    rw [← whole] at inside
    rcases List.mem_append.1 inside with before | behind
    · exact List.mem_append_left _ (List.mem_append_left _ before)
    · refine List.mem_append_right _ ?_
      cases rest : line.dropWhile (· != '#') with
      | nil =>
        rw [rest] at behind
        exact absurd behind List.not_mem_nil
      | cons d more =>
        have sign : d = '#' := by
          have first := List.head?_dropWhile_not (· != '#') line
          rw [rest] at first
          simpa using first
        rw [rest, sign] at behind
        exact (List.mem_cons.1 behind).resolve_left other
  · refine List.mem_append_left _ ?_
    obtain ⟨i, at_⟩ := List.mem_iff_getElem?.1 inside
    obtain ⟨rest, whole⟩ := Text.trimRight_front line
    have bound := Text.lt_length_trimRight at_ filled
    rw [← whole, List.getElem?_append_left bound] at at_
    exact List.mem_of_getElem? at_

/-- The characters of an output line come from its line, from the sign of a comment or from the
terminator. -/
theorem mem_of_mem_lineOutput {line : Text} {c : Char} (member : c ∈ lineOutput line) :
    c ∈ line ∨ c = '/' ∨ c = ';' := by
  unfold lineOutput at member
  split at member
  · unfold commentOutput at member
    rcases List.mem_append.1 member with front | behind
    · rcases List.mem_append.1 front with before | sign
      · exact .inl ((List.takeWhile_sublist _).subset before)
      · exact .inr (.inl (by simpa using sign))
    · exact .inl ((List.dropWhile_sublist _).subset (List.mem_of_mem_drop behind))
  · rcases List.mem_append.1 member with front | last
    · exact .inl ((Text.trimRight_front line).subset front)
    · exact .inr (.inr (List.mem_singleton.1 last))

/-- The lines of the compiled text. -/
def outputLines (t : Text) : List Text := (filledLines t).map fun entry => lineOutput entry.1

theorem outputLines_eq_set {t t' old new : Text} {n k : Nat}
    (lines_ : Text.lines t' = (Text.lines t).set n new)
    (number : (filledLines t)[k]? = some (old, n)) (filled : Text.isEmptyLine new = false) :
    outputLines t' = (outputLines t).set k (lineOutput new) := by
  unfold outputLines
  rw [filledLines_of_lines_eq_set lines_ number filled, List.map_set]

/-- **The placeholder is found again** on the generated line of the line it was put on. -/
theorem placeholderLine?_eq {t t' old new : Text} {n k : Nat} (clean : 'ᛝ' ∉ t)
    (lines_ : Text.lines t' = (Text.lines t).set n new)
    (number : (filledLines t)[k]? = some (old, n)) (marked : 'ᛝ' ∈ new) :
    Recovery.placeholderLine? (outputLines t') = some k := by
  have filled : Text.isEmptyLine new = false :=
    List.all_eq_false.2 ⟨'ᛝ', marked, by decide⟩
  have bound : k < (outputLines t).length := by
    unfold outputLines
    rw [List.length_map]
    exact (List.getElem?_eq_some_iff.1 number).1
  have mark : Marker.placeholder.text = ['ᛝ'] := rfl
  unfold Recovery.placeholderLine?
  rw [outputLines_eq_set lines_ number filled, List.findIdx?_eq_some_iff_getElem]
  refine ⟨by simpa using bound, ?_, fun i before => ?_⟩
  · rw [List.getElem_set_self, mark, Text.occursIn_singleton]
    exact mem_lineOutput marked (by decide) (by decide)
  · rw [List.getElem_set_ne (by omega), mark, Text.occursIn_singleton]
    intro member
    have inside : (outputLines t)[i] ∈ outputLines t := List.getElem_mem _
    obtain ⟨⟨line, j⟩, known, same⟩ := List.mem_map.1 inside
    rw [← same] at member
    obtain ⟨index, found⟩ := List.mem_iff_getElem?.1 known
    have source := List.mem_of_getElem? (getElem?_of_filledLines found).1
    rcases mem_of_mem_lineOutput member with old_ | bad | bad
    · exact clean (Text.mem_of_mem_lines source old_)
    · exact absurd bad (by decide)
    · exact absurd bad (by decide)

end LineByLine

end DialectBridge
