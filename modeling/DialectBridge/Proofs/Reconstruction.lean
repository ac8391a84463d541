import DialectBridge.Proofs.Course
import DialectBridge.Proofs.Substitution

/-!
# Putting a line back

When a text compiles with a substitute for its erroneous line, the line can always be put back: the
placeholder is found, and where the end of the line was cut off it is found behind the dot that was
left. `Rendered` describes what comes out, line by line. The lines of the compiled text are the
outputs of the lines with text, except for the one line that was put back and the terminator above
it.

An erroneous line that could be replaced is incomplete or has a bracket: a substitute without
brackets does not balance anything otherwise.
-/

set_option autoImplicit false

namespace DialectBridge

open LineByLine

/-! ## Brackets -/

/-- The brackets the compiler counts. -/
def brackets : List Char := ['\x7b', '\x7d', '(', ')']

/-- A line exchanged for one with the same brackets leaves the text as balanced as it was. -/
theorem LineByLine.balanced_iff {t t' old new : Text} {n : Nat}
    (found : (Text.lines t)[n]? = some old) (lines_ : Text.lines t' = (Text.lines t).set n new)
    (same : ∀ c ∈ brackets, new.count c = old.count c) : Balanced t' ↔ Balanced t := by
  obtain ⟨front, rest, cut⟩ := Text.exists_lineCut found
  have before := cut.whole
  have after := cut.replaced new
  rw [← lines_] at after
  rw [Text.joinLines_lines] at before after
  have counts : ∀ c ∈ brackets, t'.count c = t.count c := by
    intro c bracket
    rw [before, after]
    simp only [List.count_append, same c bracket]
  unfold Balanced
  rw [counts _ (by decide), counts _ (by decide), counts _ (by decide), counts _ (by decide)]

namespace ErrorLine

variable {t ending : Text} {e : ErrorLine}

/-- The end that is cut off has no part in the indentation. -/
theorem Of.indentation_of_memberCut (h : Of t e ending) {front cut : Text}
    (whole : e.text = front ++ cut) (known : cut ∈ memberCuts) :
    e.indentation = Text.leadingBlank front := by
  rw [h.indentation, whole, Text.leadingBlank, Text.leadingBlank, List.takeWhile_append]
  have stops : cut.takeWhile isBlank = [] := by
    simp only [memberCuts, List.mem_cons, List.not_mem_nil, or_false] at known
    rcases known with rfl | rfl | rfl | rfl <;> decide
  split
  · next all =>
    rw [stops, List.append_nil]
    exact ((List.takeWhile_prefix _).eq_of_length all).symm
  · rfl

/-- The line with the placeholder as its last member is the line up to its end, the placeholder and
spaces. -/
theorem Of.substituteLine_memberCandidate (h : Of t e ending) {front cut : Text}
    (whole : e.text = front ++ cut) (known : cut ∈ memberCuts) :
    ∃ width, e.substituteLine (memberCandidate e.text cut).content ending =
      front ++ ['.', 'ᛝ'] ++ List.replicate width ' ' ++ ending := by
  have blank := h.indentation_of_memberCut whole known
  refine ⟨e.text.length - e.indentation.length - (Text.trimLeft front ++ ['.', 'ᛝ']).length, ?_⟩
  have content := content_memberCandidate front cut
  rw [← whole] at content
  rw [substituteLine, content, Text.padRight, blank, ← List.append_assoc, ← List.append_assoc,
    Text.leadingBlank_append_trimLeft]

/-- Every candidate has the placeholder in it, and is one line. -/
theorem Of.placeholder_mem_content (h : Of t e ending) {candidate : Candidate}
    (member : candidate ∈ e.candidates) :
    'ᛝ' ∈ candidate.content ∧ '\n' ∉ candidate.content := by
  rcases cases_of_mem_candidates member with fixed | ⟨front, cut, whole, -, rfl⟩
  · simp only [fixedCandidates, List.mem_cons, List.not_mem_nil, or_false] at fixed
    rcases fixed with rfl | rfl | rfl <;> decide
  · have content := content_memberCandidate front cut
    rw [← whole] at content
    rw [content]
    refine ⟨List.mem_append_right _ (by decide), fun inside => ?_⟩
    rcases List.mem_append.1 inside with code | last
    · refine h.not_mem_text ?_
      rw [whole]
      exact List.mem_append_left _ ((List.dropWhile_sublist _).subset code)
    · exact absurd last (by decide)

/-- In the place of a fixed candidate the line is put back as a sketch. -/
theorem mechanism_of_fixed {candidate : Candidate}
    (fixed : candidate ∈ fixedCandidates) :
    candidate.mechanism = .sourceInOutput := by
  simp only [fixedCandidates, List.mem_cons, List.not_mem_nil, or_false] at fixed
  rcases fixed with rfl | rfl | rfl <;> rfl

/-- A candidate that compiles stands for a line that is incomplete, or is one of the fixed ones and
stands for a line with a bracket. -/
theorem Of.telling (h : Of t e ending) (faulty : Faulty t e.line (e.text ++ ending))
    {candidate : Candidate} (member : candidate ∈ e.candidates)
    (lines_ : Text.lines (e.substitute t candidate.content) =
      (Text.lines t).set e.line (e.substituteLine candidate.content ending))
    (balanced : Balanced (e.substitute t candidate.content)) :
    Incomplete (e.text ++ ending) ∨
      candidate ∈ fixedCandidates ∧ ∃ c ∈ e.text, c ∈ brackets := by
  rcases faulty.cause with incomplete | ⟨unbalanced, -⟩
  · exact .inl incomplete
  · have free : ∀ c ∈ brackets, c ∉ ending := by
      intro c bracket inside
      rcases h.ending_eq with rfl | rfl
      · exact absurd inside List.not_mem_nil
      · rw [List.mem_singleton.1 inside] at bracket
        exact absurd bracket (by decide)
    have fixedFree : ∀ candidate ∈ fixedCandidates,
        brackets.all (fun c => !candidate.content.contains c) = true := by decide
    rcases cases_of_mem_candidates member with fixed | ⟨front, cut, whole, known, rfl⟩
    · right
      refine ⟨fixed, ?_⟩
      by_contra plain
      refine unbalanced ((balanced_iff faulty.found lines_ fun c bracket => ?_).1 balanced)
      have absent : c ∉ e.text := fun inside => plain ⟨c, inside, bracket⟩
      have old : c ∉ e.text ++ ending := by
        rw [List.mem_append, not_or]
        exact ⟨absent, free c bracket⟩
      rw [List.count_eq_zero.2 old, List.count_eq_zero]
      intro inside
      rcases h.mem_substituteLine inside with text | content | rfl | last
      · exact absent text
      · have without := List.all_eq_true.1 (fixedFree candidate fixed) c bracket
        simp [content] at without
      · exact absurd bracket (by decide)
      · exact free c bracket last
    · -- Neither the end that was cut off nor the placeholder is a bracket.
      obtain ⟨width, line⟩ := h.substituteLine_memberCandidate whole known
      refine absurd ((balanced_iff faulty.found lines_ fun c bracket => ?_).1 balanced) unbalanced
      have cutFree : ∀ cut ∈ memberCuts,
          brackets.all (fun c => cut.count c == 0) = true := by decide
      have dots : brackets.all (fun c => ['.', 'ᛝ'].count c == 0) = true := by decide
      have noneCut := beq_iff_eq.1 (List.all_eq_true.1 (cutFree cut known) c bracket)
      have noneWritten := beq_iff_eq.1 (List.all_eq_true.1 dots c bracket)
      have space : c ≠ ' ' := by
        rintro rfl
        exact absurd bracket (by decide)
      rw [line, whole]
      simp only [List.count_append, noneCut, noneWritten, List.count_replicate]
      simp [space.symm]

end ErrorLine

/-! ## The lines that come out -/

namespace Recovery

/-- A line, and the same line with its terminator turned into a space. -/
def Released (line line' : Text) : Prop :=
  line' = line ∨ ∃ front, line = front ++ [';'] ∧ line' = front ++ [' ']

theorem forall₂_releaseTerminator (above : List Text) :
    List.Forall₂ Released above (releaseTerminator above) := by
  induction above with
  | nil => exact .nil
  | cons line rest ih =>
    unfold releaseTerminator
    split
    · exact .cons (.inl rfl) ih
    · split
      · next ending =>
        rw [Text.endsWith, List.isSuffixOf_iff_suffix] at ending
        obtain ⟨front, rfl⟩ := ending
        refine .cons (.inr ⟨front, rfl, ?_⟩) (List.forall₂_same.2 fun _ _ => .inl rfl)
        rw [List.dropLast_concat]
      · exact .cons (.inl rfl) (List.forall₂_same.2 fun _ _ => .inl rfl)

/-- Lines with the terminator above one of them released. -/
theorem forall₂_joinPrevious (lines : List Text) (k : Nat) :
    List.Forall₂ Released lines (joinPrevious lines k) := by
  unfold joinPrevious
  rw [Int.toNat_natCast]
  conv => arg 2; rw [← List.take_append_drop k lines]
  refine List.rel_append ?_ (List.forall₂_same.2 fun _ _ => .inl rfl)
  have turned := List.rel_reverse (forall₂_releaseTerminator (lines.take k).reverse)
  rwa [List.reverse_reverse] at turned

theorem length_joinPrevious (lines : List Text) (k : Nat) :
    (joinPrevious lines k).length = lines.length :=
  (forall₂_joinPrevious lines k).length_eq.symm

/-- The line itself stays. -/
theorem getElem?_joinPrevious (lines : List Text) {k i : Nat} (behind : k ≤ i) :
    (joinPrevious lines k)[i]? = lines[i]? := by
  have front : (releaseTerminator (lines.take k).reverse).reverse.length =
      (lines.take k).length := by
    rw [List.length_reverse, ← (forall₂_releaseTerminator _).length_eq, List.length_reverse]
  unfold joinPrevious
  rw [Int.toNat_natCast]
  conv_rhs => rw [← List.take_append_drop k lines]
  rw [List.getElem?_append_right (by rw [front, List.length_take]; omega),
    List.getElem?_append_right (by rw [List.length_take]; omega), front]

end Recovery

namespace LineByLine

/-- A text and the same text with another line in the place of a faulty one. -/
structure Exchanged (t t' : Text) (n k : Nat) (text ending : Text) : Prop where
  faulty : Faulty t n (text ++ ending)
  addressable : n ≤ 2147483647
  ending_eq : ending = [] ∨ ending = ['\r']
  number : (filledLines t)[k]? = some (text ++ ending, n)
  telling : Incomplete (text ++ ending) ∨ ∃ c ∈ text, c ∈ brackets
  others : ∃ new, filledLines t' = (filledLines t).set k (new, n)

/-- A text and the same text with the placeholder for the end of a faulty line, after which a member
is missing; `new` is the line with that end, except for a terminator. -/
structure Restored (t t' : Text) (n k : Nat) (text ending new : Text) : Prop
    extends Exchanged t t' n k text ending where
  incomplete : Incomplete (text ++ ending)
  cut : ∃ front cut width, text = front ++ cut ∧ cut ∈ ErrorLine.memberCuts ∧
    new = front ++ cut.filter (· != ';') ∧ filledLines t' = (filledLines t).set k
      (front ++ ['.', 'ᛝ'] ++ List.replicate width ' ' ++ ending, n)

theorem Restored.letters {t t' text ending new : Text} {n k : Nat}
    (h : Restored t t' n k text ending new) : ∀ c ∈ new, c ∈ text := by
  obtain ⟨front, cut, -, rfl, -, rfl, -⟩ := h.cut
  intro c inside
  rcases List.mem_append.1 inside with first | last
  · exact List.mem_append_left _ first
  · exact List.mem_append_right _ (List.mem_of_mem_filter last)

/-- The lines of the compiled text with a line put in the place of one of them. -/
def putBack (t : Text) (k : Nat) (new : Text) : List Text :=
  Recovery.joinPrevious ((outputLines t).set k new) k

/-- What comes of a text that compiles, maybe with a substitute for one line: compiled text, its
map, and the line that was faked. -/
inductive Rendered (t : Text) : Text → ColumnMap → Option (Nat × Mechanism) → Prop
  /-- The text compiles as it is. -/
  | direct (compiles : Compiler.Compiles LineByLine.compile t) :
      Rendered t (Text.joinLines (outputLines t)) (.ofMappings (mappings t)) none
  /-- A faulty line is put back as a sketch. -/
  | sketched {t' text ending : Text} {n k : Nat} (exchanged : Exchanged t t' n k text ending) :
      Rendered t (Text.joinLines (putBack t k (sketch text)))
        ((ColumnMap.ofMappings (mappings t')).collapse n k) (some (n, .sourceInOutput))
  /-- A faulty line is put back without its terminator. -/
  | restored {t' text ending new : Text} {n k : Nat} (line : Restored t t' n k text ending new) :
      Rendered t (Text.joinLines (putBack t k new)) (.ofMappings (mappings t'))
        (some (n, .modifiedSource))

end LineByLine

namespace Recovery

/-- A draft with the given text and map, and the line that was faked. -/
structure Shows (g : Draft) (js : Text) (map : ColumnMap) (fake : Option (Nat × Mechanism)) :
    Prop where
  js : g.js = some js
  map : g.map = some map
  fakeLine : g.fakeLine = fake.map fun f => (f.1 : Int)
  mechanism : g.mechanism = fake.map Prod.snd

/-- The parts of a recovered text make sense together. -/
theorem exists_shows (js : Text) (map : ColumnMap) (n : Nat) (mechanism : Mechanism)
    (d : Diagnostic) :
    ∃ g, Draft.check ⟨some js, some map, some [d], some (n : Int), some mechanism⟩ = .ok g ∧
      Shows g.toDraft js map (some (n, mechanism)) ∧ g.diagnostics = some [d] :=
  ⟨⟨⟨some js, some map, some [d], some n, some mechanism⟩, rfl⟩, Draft.check_eq_ok_iff.2 rfl,
    ⟨rfl, rfl, rfl, rfl⟩, rfl⟩

section Success

variable {t ending : Text} {e : ErrorLine} {candidate : Candidate}

/-- The end that was cut off takes the place of the placeholder. -/
theorem restoreEnd?_eq {front removed : Text} (clean : 'ᛝ' ∉ front) :
    restoreEnd? (front ++ ['.', 'ᛝ'] ++ [';']) removed =
      some (front ++ removed.filter (· != ';')) := by
  have mark : '.' :: Marker.placeholder.text = ['.'] ++ ['ᛝ'] := rfl
  have found : Text.find? (['.'] ++ ['ᛝ']) (front ++ (['.'] ++ ['ᛝ']) ++ [';']) =
      some front.length := Text.find?_append clean (by decide)
  have behind : (front ++ (['.'] ++ ['ᛝ']) ++ [';']).drop
      (front.length + (['.'] ++ ['ᛝ']).length) = [';'] := by
    rw [← List.length_append, List.drop_left]
  unfold restoreEnd?
  dsimp only
  rw [mark, show ['.', 'ᛝ'] = ['.'] ++ ['ᛝ'] from rfl, found, Option.map_some, behind,
    List.append_assoc front, List.take_left]
  simp

/-- A line that has a dot in the place of its end is no comment if the line is none. -/
theorem isComment_append_dot {front cut : Text} (rest : Text)
    (plain : isComment (front ++ cut) = false) : isComment (front ++ '.' :: rest) = false := by
  unfold isComment at plain ⊢
  cases first : Text.trimLeft front with
  | nil =>
    have white : ∀ c ∈ front, isBlank c = true := List.dropWhile_eq_nil_iff.1 first
    rw [Text.trimLeft_append white (by decide)]
    rfl
  | cons c behind =>
    rw [Text.trimLeft_append_right first] at plain ⊢
    exact plain

/-- The output of a line with the placeholder as its last member ends in the placeholder and the
terminator. -/
theorem lineOutput_placeholder {front blanks : Text} (white : ∀ c ∈ blanks, isBlank c = true)
    (code : isComment (front ++ '.' :: ('ᛝ' :: blanks)) = false) :
    lineOutput (front ++ '.' :: ('ᛝ' :: blanks)) = front ++ ['.', 'ᛝ'] ++ [';'] := by
  have blank : Text.trimRight blanks = [] := by
    unfold Text.trimRight
    rw [List.reverse_eq_nil_iff, List.dropWhile_eq_nil_iff]
    exact fun c inside => white c (List.mem_reverse.1 inside)
  have shape : front ++ '.' :: ('ᛝ' :: blanks) = (front ++ ['.']) ++ ['ᛝ'] ++ blanks := by simp
  rw [lineOutput, code, shape, Text.trimRight_append (by decide), blank]
  simp

/-- The line that a member candidate compiles to gets the end back that was cut off, except for a
terminator. -/
theorem restoreEnd?_lineOutput (clean : 'ᛝ' ∉ e.text) (of : ErrorLine.Of t e ending)
    (incomplete : Incomplete (e.text ++ ending)) {front cut : Text} (whole : e.text = front ++ cut)
    (known : cut ∈ ErrorLine.memberCuts) :
    restoreEnd? (lineOutput (e.substituteLine (ErrorLine.memberCandidate e.text cut).content
      ending)) cut = some (front ++ cut.filter (· != ';')) := by
  obtain ⟨width, line⟩ := of.substituteLine_memberCandidate whole known
  have shape : front ++ ['.', 'ᛝ'] ++ List.replicate width ' ' ++ ending =
      front ++ '.' :: ('ᛝ' :: (List.replicate width ' ' ++ ending)) := by simp
  have plain := incomplete.1
  rw [whole, List.append_assoc] at plain
  have white : ∀ c ∈ List.replicate width ' ' ++ ending, isBlank c = true := by
    intro c inside
    rcases List.mem_append.1 inside with space | last
    · rw [List.eq_of_mem_replicate space]
      decide
    · rcases of.ending_eq with rfl | rfl
      · exact absurd last List.not_mem_nil
      · rw [List.mem_singleton.1 last]
        decide
  have cleanFront : 'ᛝ' ∉ front := by
    rw [whole] at clean
    exact fun inside => clean (List.mem_append_left _ inside)
  rw [line, shape, lineOutput_placeholder white (isComment_append_dot _ plain),
    restoreEnd?_eq cleanFront]

/-- **A line can be put back wherever a candidate for it compiles.** -/
theorem rendered_of_reconstruct (clean : 'ᛝ' ∉ t) (of : ErrorLine.Of t e ending)
    (faulty : Faulty t e.line (e.text ++ ending)) (near : e.line ≤ 2147483647)
    (member : candidate ∈ e.candidates)
    (compiles : Compiler.Compiles LineByLine.compile (e.substitute t candidate.content))
    (d : Diagnostic) (uri : String) :
    ∃ g js map, reconstruct (output (e.substitute t candidate.content))
        (.ofMappings (mappings (e.substitute t candidate.content))) candidate e d uri = .ok g ∧
      Rendered t js map (some (e.line, candidate.mechanism)) ∧
      Shows g.toDraft js map (some (e.line, candidate.mechanism)) ∧
      g.diagnostics = some [d] := by
  obtain ⟨marked, unbroken⟩ := of.placeholder_mem_content member
  have lines_ := of.lines_substitute unbroken
  have telling := of.telling faulty member lines_ (balanced_of_compiles compiles).1
  obtain ⟨k, number⟩ := exists_filledLines faulty.found faulty.filled
  have inLine : 'ᛝ' ∈ e.substituteLine candidate.content ending :=
    ErrorLine.mem_substituteLine_of_mem marked
  have filled : Text.isEmptyLine (e.substituteLine candidate.content ending) = false :=
    List.all_eq_false.2 ⟨'ᛝ', inLine, by decide⟩
  have entries := filledLines_of_lines_eq_set lines_ number filled
  have exchanged : Exchanged t (e.substitute t candidate.content) e.line k e.text ending :=
    ⟨faulty, near, of.ending_eq, number, telling.imp_right And.right, _, entries⟩
  have place := placeholderLine?_eq clean lines_ number inLine
  have outputs : Text.lines (output (e.substitute t candidate.content)) =
      (outputLines t).set k (lineOutput (e.substituteLine candidate.content ending)) := by
    have some_ : filledLines (e.substitute t candidate.content) ≠ [] := by
      rw [entries]
      simpa using List.ne_nil_of_mem (List.mem_of_getElem? number)
    exact (lines_output some_).trans (outputLines_eq_set lines_ number filled)
  rw [outputLines_eq_set lines_ number filled] at place
  unfold reconstruct
  dsimp only
  rw [outputs, place]
  dsimp only
  cases used : candidate.mechanism with
  | sourceInOutput =>
    simp only [pure_bind, List.set_set]
    obtain ⟨g, made, shown, reported⟩ := exists_shows (Text.joinLines (putBack t k (sketch e.text)))
      ((ColumnMap.ofMappings (mappings (e.substitute t candidate.content))).collapse e.line k)
      e.line .sourceInOutput d
    exact ⟨g, _, _, made, .sketched exchanged, shown, reported⟩
  | modifiedSource =>
    have changed : candidate ∉ ErrorLine.fixedCandidates :=
      fun fixed => Mechanism.noConfusion (used.symm.trans (ErrorLine.mechanism_of_fixed fixed))
    obtain ⟨front, cut, whole, known, rfl⟩ :=
      (ErrorLine.cases_of_mem_candidates member).resolve_left changed
    have incomplete := telling.resolve_right fun fixed => changed fixed.1
    have cleanLine : 'ᛝ' ∉ e.text := fun inside =>
      clean (Text.mem_of_mem_lines (List.mem_of_getElem? of.found) (List.mem_append_left _ inside))
    have bound : k < (outputLines t).length := by
      rw [outputLines, List.length_map]
      exact (List.getElem?_eq_some_iff.1 number).1
    have restored := restoreEnd?_lineOutput cleanLine of incomplete whole known
    obtain ⟨width, substituted⟩ := of.substituteLine_memberCandidate whole known
    rw [substituted] at entries
    have own : (ErrorLine.memberCandidate e.text cut).removed = cut := rfl
    rw [List.getD_eq_getElem?_getD, List.getElem?_set_self bound, Option.getD_some, own, restored]
    simp only [pure_bind, List.set_set]
    obtain ⟨g, made, shown, reported⟩ := exists_shows
      (Text.joinLines (putBack t k (front ++ cut.filter (· != ';'))))
      (.ofMappings (mappings (e.substitute t (ErrorLine.memberCandidate e.text cut).content)))
      e.line .modifiedSource d
    exact ⟨g, _, _, made, .restored ⟨exchanged, incomplete, front, cut, width, whole, known,
      rfl, entries⟩, shown, reported⟩

end Success

end Recovery

end DialectBridge
