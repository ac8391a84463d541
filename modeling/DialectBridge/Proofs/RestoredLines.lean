import DialectBridge.Proofs.LineOrder
import DialectBridge.Proofs.UntouchedLines

/-!
# The end of a line that is put back

A line after which a member is missing is compiled without its end: the placeholder stands for the
member, and what was cut off is put back in the generated text. With the line-by-line compiler the
line comes out as it was in the source, except that the terminator that preparation added behind a
dot is gone (`Recovery.unterminated`), and it is the line to which all entries of the source line
lead.

That only such lines are treated in this way is known from the course of the run: the substitute
that compiled was one of the candidates of the line, and it was not one of the fixed ones.
-/

set_option autoImplicit false

namespace DialectBridge

open LineByLine

/-! ## The substitute that compiled -/

/-- Only trials of a round are made. -/
theorem Trial.mem_of_mem_untilSettled {compiler : Compiler} {trials : List Trial} {trial : Trial}
    (h : trial ∈ untilSettled compiler trials) : trial ∈ trials := by
  induction trials with
  | nil => exact h
  | cons first rest ih =>
    unfold untilSettled at h
    split at h
    · exact (List.mem_cons.1 h).elim (fun here => here ▸ List.mem_cons_self) fun later =>
        List.mem_cons_of_mem _ (ih later)
    · rw [List.mem_singleton.1 h]
      exact List.mem_cons_self

namespace Recovery

/-- A substitute that was tried in a round on a rejected text is a candidate. -/
theorem mem_candidates_of_getLast? {compiler : Compiler} {t : Text} {d : Diagnostic}
    {candidate : Candidate} (rejected : compiler.rejection? t = some d)
    (last : (Trial.untilSettled compiler (Trial.round compiler t)).getLast? =
      some (Trial.substituting t (Trial.errorLine t d) candidate)) :
    candidate ∈ (Trial.errorLine t d).candidates := by
  have tried := Trial.mem_of_mem_untilSettled (List.mem_of_getLast? last)
  unfold Trial.round at tried
  rw [rejected, Option.map_some, Option.getD_some] at tried
  rcases List.mem_cons.1 tried with same | substituted
  · cases congrArg Trial.substitute? same
  · obtain ⟨other, member, same⟩ := List.mem_map.1 substituted
    have own := congrArg Trial.substitute? same
    obtain ⟨-, rfl⟩ := Prod.mk.inj (Option.some.inj own)
    exact member

/-- A line without the terminator behind its dot. -/
def unterminated (line : Text) : Text :=
  if Text.endsWith ['.', ';'] line then line.dropLast else line

/-- A line ends where a member has to follow. -/
def LacksMember (line : Text) : Prop :=
  Text.endsWith ['.', ';'] line = true ∨ Text.endsWith ['['] line = true

/-- Whether a line ends in something is seen from its end. -/
theorem endsWith_append (back front cut : Text) :
    Text.endsWith back (front ++ cut) = back.reverse.isPrefixOf (cut.reverse ++ front.reverse) := by
  rw [Text.endsWith, List.isSuffixOf, List.reverse_append]

/-- A line with one of the ends that are cut off lacks a member, and what is put back in the place
of the end leaves its terminator out. -/
theorem unterminated_append_cut (front : Text) {cut : Text} (known : cut ∈ ErrorLine.memberCuts) :
    unterminated (front ++ cut) = front ++ cut.filter (· != ';') ∧ LacksMember (front ++ cut) ∧
      (front ++ cut).getLast? ≠ some '\r' := by
  unfold unterminated LacksMember
  simp only [endsWith_append]
  simp only [ErrorLine.memberCuts, List.mem_cons, List.not_mem_nil, or_false] at known
  rcases known with rfl | rfl | rfl | rfl
  · simp
  · simp
  · simp
  · simp

/-- A run that modified the source cut an end off the line it names. -/
theorem exists_cut_of_compile {compiler : Compiler} {t : Text} {uri : String} {g : Generated}
    (made : (compile compiler t uri).outcome = .ok g)
    (mechanism : g.mechanism = some .modifiedSource) :
    ∃ (n : Nat) (front cut : Text), g.fakeLine = some (n : Int) ∧ cut ∈ ErrorLine.memberCuts ∧
      Document.lineText ⟨t, uri⟩ n = front ++ cut := by
  have course := recovered_of_compile made
  obtain ⟨draft, same⟩ : ∃ draft, draft = g.toDraft := ⟨_, rfl⟩
  rw [← same] at course mechanism ⊢
  cases course with
  | direct => cases mechanism
  | exhausted => cases mechanism
  | @substituted d candidate _ _ _ _ rejected last =>
    have member := mem_candidates_of_getLast? rejected last
    have changed : candidate ∉ ErrorLine.fixedCandidates := by
      intro fixed
      have other := ErrorLine.mechanism_of_fixed fixed
      rw [other] at mechanism
      cases mechanism
    obtain ⟨front, cut, whole, known, -⟩ :=
      (ErrorLine.cases_of_mem_candidates member).resolve_left changed
    exact ⟨_, front, cut, rfl, known, whole⟩

/-- **What comes of a text with a line whose end was cut off.** The line that is put back is the
text that the line has in the document. -/
theorem exists_restored {t : Text} {uri : String} {g : Generated} (clean : 'ᛝ' ∉ t)
    (made : (compile LineByLine.compile t uri).outcome = .ok g)
    (mechanism : g.mechanism = some .modifiedSource) :
    ∃ t' n k ending new, Restored t t' n k (Document.lineText ⟨t, uri⟩ n) ending new ∧
      g.js = some (Text.joinLines (putBack t k new)) ∧
      g.map = some (.ofMappings (mappings t')) ∧ g.fakeLine = some (n : Int) := by
  obtain ⟨n, front, cut, fakeLine, known, text⟩ := exists_cut_of_compile made mechanism
  have handled := (compile_ends clean uri).of_ok made
  cases handled with
  | compiled _ shown => cases shown.mechanism.symm.trans mechanism
  | reported _ told =>
    have absent := congrArg Draft.mechanism told
    cases absent.symm.trans mechanism
  | replaced reports rendered shown told =>
    have named := shown.fakeLine.symm.trans fakeLine
    have faked := shown.mechanism.symm.trans mechanism
    cases rendered with
    | sketched => cases faked
    | @restored t' text' ending new n' k line =>
      obtain rfl : n' = n := Int.ofNat.inj (Option.some.inj named)
      have found : (⟨t, uri⟩ : Document).lines[n']? = some (text' ++ ending) := line.faulty.found
      have last : (Document.lineText ⟨t, uri⟩ n').getLast? ≠ some '\r' :=
        text ▸ (unterminated_append_cut front known).2.2
      have last' : text'.getLast? ≠ some '\r' := by
        obtain ⟨front', cut', -, rfl, known', -⟩ := line.cut
        exact (unterminated_append_cut front' known').2.2
      -- The last line of a text keeps its carriage return, and then no end is cut off it.
      have ends : ending = [] ∨
          ending = ['\r'] ∧ n' + 1 < (⟨t, uri⟩ : Document).lines.length := by
        refine line.ending_eq.imp_right fun return_ => ⟨return_, ?_⟩
        refine Document.lt_of_lineText_ne found fun same => last ?_
        rw [same, return_]
        exact List.getLast?_concat ..
      obtain rfl : Document.lineText ⟨t, uri⟩ n' = text' := Document.lineText_eq found last' ends
      exact ⟨t', n', k, ending, new, line, shown.js, shown.map, shown.fakeLine⟩

/-- **The entries of a line that was put back lead to its output**, and there are some. -/
theorem forSourceLine_of_restored {t t' text ending new : Text} {n k : Nat}
    (h : Restored t t' n k text ending new) :
    (ColumnMap.ofMappings (mappings t')).forSourceLine n ≠ [] ∧
      ∀ m ∈ (ColumnMap.ofMappings (mappings t')).forSourceLine n, m.outputLine = k := by
  obtain ⟨front, cut, width, rfl, -, -, entries⟩ := h.cut
  have number : (filledLines t')[k]? =
      some (front ++ ['.', 'ᛝ'] ++ List.replicate width ' ' ++ ending, n) := by
    rw [entries, List.getElem?_set_self (List.getElem?_eq_some_iff.1 h.number).1]
  have code : isComment (front ++ ['.', 'ᛝ'] ++ List.replicate width ' ' ++ ending) = false := by
    have plain := h.incomplete.1
    rw [List.append_assoc] at plain
    have := isComment_append_dot ('ᛝ' :: (List.replicate width ' ' ++ ending)) plain
    simpa using this
  have only : ∀ {x y : Int}, Relates (mappings t') x y → (x = n ↔ y = k) := by
    intro x y relates
    obtain ⟨i, j, line, found, -, rfl, rfl⟩ := exists_of_relates_mappings relates
    constructor
    · intro same
      obtain rfl := Int.ofNat.inj same
      rw [filledLines_injective found number]
    · intro same
      obtain rfl := Int.ofNat.inj same
      obtain ⟨-, rfl⟩ := Prod.mk.inj (Option.some.inj (found.symm.trans number))
      rfl
  constructor
  · obtain ⟨m, member, source, -⟩ := (relates_mappings number code).ofMappings
      fun x' other => (only other).2 rfl
    exact List.ne_nil_of_mem (List.mem_filter.2 ⟨member, beq_iff_eq.2 source⟩)
  · intro m member
    obtain ⟨inside, source⟩ := List.mem_filter.1 member
    exact (only ⟨m, ColumnMap.mem_of_mem_mappings inside, rfl, rfl⟩).1 (beq_iff_eq.1 source)

/-- **The end that was cut off a line is put back exactly.** The entries of the line lead to one
generated line, and that is the line of the source without the terminator behind its dot. -/
theorem restored_line {t : Text} {uri : String} {g : Generated} (clean : 'ᛝ' ∉ t)
    (made : (compile LineByLine.compile t uri).outcome = .ok g)
    (mechanism : g.mechanism = some .modifiedSource) :
    ∃ (n k : Nat) (js : Text) (map : ColumnMap), g.fakeLine = some (n : Int) ∧ g.js = some js ∧
      g.map = some map ∧ map.forSourceLine n ≠ [] ∧
      (∀ m ∈ map.forSourceLine n, m.outputLine = k) ∧
      LacksMember (Document.lineText ⟨t, uri⟩ n) ∧
      (Text.lines js)[k]? = some (unterminated (Document.lineText ⟨t, uri⟩ n)) := by
  obtain ⟨t', n, k, ending, new, line, text, mapped, fakeLine⟩ :=
    exists_restored clean made mechanism
  obtain ⟨some_, place⟩ := forSourceLine_of_restored line
  refine ⟨n, k, _, _, fakeLine, text, mapped, some_, place, ?_⟩
  obtain ⟨front, cut, -, whole, known, put, -⟩ := line.cut
  obtain ⟨same, lacks, -⟩ := unterminated_append_cut front known
  rw [line.getElem?_lines (.inr line.letters), whole, same, put]
  exact ⟨lacks, rfl⟩

/-- An indented optional access in the middle of a text with carriage returns. -/
theorem restored_line_optional :
    let t := "a.bbb\r\n  x?.;\r\n\r\nc".toList
    'ᛝ' ∉ t ∧ ∃ g, (compile LineByLine.compile t "").outcome = .ok g ∧
      g.mechanism = some .modifiedSource ∧ ∃ (n k : Nat) (js : Text) (map : ColumnMap),
        g.fakeLine = some (n : Int) ∧ n = 1 ∧ g.js = some js ∧ g.map = some map ∧
          map.forSourceLine n ≠ [] ∧ (∀ m ∈ map.forSourceLine n, m.outputLine = k) ∧
          (Text.lines js)[k]? = some "  x?.".toList := by
  intro t
  have clean : 'ᛝ' ∉ t := by decide
  let g := (compile LineByLine.compile t "").outcome.toOption.get (by decide +kernel)
  have made : (compile LineByLine.compile t "").outcome = .ok g := by decide +kernel
  have mechanism : g.mechanism = some .modifiedSource := by decide +kernel
  obtain ⟨n, k, js, map, fakeLine, text, mapped, some_, place, -, line⟩ :=
    restored_line clean made mechanism
  have own : g.fakeLine = some 1 := by decide +kernel
  obtain rfl : n = 1 := Int.ofNat.inj (Option.some.inj (fakeLine.symm.trans own))
  have result : unterminated (Document.lineText ⟨t, ""⟩ 1) = "  x?.".toList := by decide +kernel
  exact ⟨clean, g, made, mechanism, 1, k, js, map, fakeLine, rfl, text, mapped, some_, place,
    line.trans (congrArg some result)⟩

end Recovery

end DialectBridge
