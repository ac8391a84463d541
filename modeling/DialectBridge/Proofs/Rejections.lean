import DialectBridge.Proofs.Fronts
import DialectBridge.Proofs.GeneratedLines

/-!
# Rejected texts

The line-by-line compiler rejects a text for a line that is incomplete, or for brackets that are not
balanced, and then it names the last line that has text. In either case the line it names has text
(`Faulty`). The rejection becomes a diagnostic on that line unless its place cannot be addressed,
and no place of a text is further than its longest line or the number of its lines.
-/

set_option autoImplicit false

namespace DialectBridge

namespace LineByLine

/-! ## Lines with text -/

/-- A line that begins with something other than white space has text. -/
theorem isEmptyLine_eq_false_of_trimLeft {line rest : Text} {c : Char}
    (h : Text.trimLeft line = c :: rest) : Text.isEmptyLine line = false := by
  refine List.all_eq_false.2 ⟨c, ?_, by simpa using Text.isBlank_of_trimLeft h⟩
  exact (List.dropWhile_sublist _).subset (h ▸ List.mem_cons_self)

/-- A line that ends in something other than white space has text. -/
theorem isEmptyLine_eq_false_of_trimRight {line : Text} (h : Text.trimRight line ≠ []) :
    Text.isEmptyLine line = false := by
  by_contra empty
  rw [Bool.not_eq_false, Text.isEmptyLine, List.all_eq_true] at empty
  refine h ?_
  rw [Text.trimRight, List.reverse_eq_nil_iff, List.dropWhile_eq_nil_iff]
  exact fun c member => empty c (List.mem_reverse.1 member)

/-- Filled lines are in the order of their numbers. -/
theorem filledLines_ascending (t : Text) :
    (filledLines t).Pairwise fun entry later => entry.2 < later.2 := by
  refine List.Pairwise.sublist List.filter_sublist ?_
  rw [← List.pairwise_map (f := Prod.snd) (R := (· < ·)), List.zipIdx_map_snd]
  exact List.pairwise_lt_range'

/-- In a list with ascending keys the keys compare like their indices. -/
theorem lt_iff_of_ascending {α : Type} {key : α → Nat} {all : List α} {a b : α} {i i' : Nat}
    (ascending : all.Pairwise fun entry later => key entry < key later)
    (h : all[i]? = some a) (h' : all[i']? = some b) : key a < key b ↔ i < i' := by
  have grows : ∀ {i i' : Nat} {a b : α}, all[i]? = some a → all[i']? = some b → i < i' →
      key a < key b := by
    intro i i' a b h h' less
    obtain ⟨bound, rfl⟩ := List.getElem?_eq_some_iff.1 h
    obtain ⟨bound', rfl⟩ := List.getElem?_eq_some_iff.1 h'
    exact List.pairwise_iff_getElem.1 ascending i i' bound bound' less
  constructor
  · intro less
    rcases Nat.lt_trichotomy i i' with before | rfl | behind
    · exact before
    · obtain rfl := Option.some.inj (h.symm.trans h')
      exact absurd less (Nat.lt_irrefl _)
    · exact absurd (grows h' h behind) (Nat.lt_asymm less)
  · exact grows h h'

/-- Ascending keys are at least as great as their indices. -/
theorem le_of_ascending {α : Type} {key : α → Nat} {all : List α} {a : α} {i : Nat}
    (ascending : all.Pairwise fun entry later => key entry < key later) (h : all[i]? = some a) :
    i ≤ key a := by
  induction i generalizing a with
  | zero => exact Nat.zero_le _
  | succ i ih =>
    have bound := (List.getElem?_eq_some_iff.1 h).1
    have before := List.getElem?_eq_getElem (Nat.lt_of_succ_lt bound)
    have less := (lt_iff_of_ascending ascending before h).2 (Nat.lt_succ_self i)
    have reached := ih before
    omega

/-- The numbers of filled lines grow with their indices. -/
theorem number_lt_iff {t line line' : Text} {i i' j j' : Nat}
    (h : (filledLines t)[i]? = some (line, j)) (h' : (filledLines t)[i']? = some (line', j')) :
    j < j' ↔ i < i' :=
  lt_iff_of_ascending (filledLines_ascending t) h h'

/-! ## Faulty lines -/

/-- Every kind of bracket is opened as often as it is closed. -/
def Balanced (t : Text) : Prop := t.count '\x7b' = t.count '\x7d' ∧ t.count '(' = t.count ')'

/-- A line of code that lacks a member, or is only a name. -/
def Incomplete (line : Text) : Prop :=
  isComment line = false ∧ (isDangling (Text.trimRight line) = true ∨ isBareName line = true)

/-- A line for which a text is rejected: it has text, and it is incomplete or the last line with
text in a text that is not balanced. -/
structure Faulty (t : Text) (n : Nat) (line : Text) : Prop where
  found : (Text.lines t)[n]? = some line
  filled : Text.isEmptyLine line = false
  cause : Incomplete line ∨ ¬ Balanced t ∧ ∀ k other, n < k →
    (Text.lines t)[k]? = some other → Text.isEmptyLine other = true

theorem trimRight_ne_nil_of_isDangling {code : Text} (h : isDangling code = true) : code ≠ [] := by
  rintro rfl
  exact absurd h (by decide)

theorem Incomplete.isEmptyLine_eq_false {line : Text} (h : Incomplete line) :
    Text.isEmptyLine line = false := by
  rcases h.2 with dangling | bare
  · exact isEmptyLine_eq_false_of_trimRight (trimRight_ne_nil_of_isDangling dangling)
  · unfold isBareName at bare
    split at bare
    · next c rest same => exact isEmptyLine_eq_false_of_trimLeft same
    · cases bare

theorem lineError?_eq_some {above : Option Text} {number : Nat} {line : Text} {r : Rejection}
    (h : lineError? above number line = some r) :
    Incomplete line ∧
      ∃ message, r = .atPlace message number ((Text.trimRight line).length - 1) := by
  unfold lineError? at h
  split at h
  · cases h
  · next code =>
    simp only [Bool.or_eq_true, not_or, Bool.not_eq_true] at code
    dsimp only at h
    split at h
    · next dangling =>
      obtain rfl := Option.some.inj h
      exact ⟨⟨code.2, .inl dangling⟩, _, rfl⟩
    · split at h
      · next bare =>
        rw [Bool.and_eq_true] at bare
        obtain rfl := Option.some.inj h
        exact ⟨⟨code.2, .inr bare.1⟩, _, rfl⟩
      · cases h

theorem firstError?_eq_some {above : Option Text} {number : Nat} {lines : List Text} {r : Rejection}
    (h : firstError? above number lines = some r) :
    ∃ k line, lines[k]? = some line ∧ Incomplete line ∧
      ∃ message, r = .atPlace message (number + k : Nat) ((Text.trimRight line).length - 1) := by
  induction lines generalizing above number with
  | nil => cases h
  | cons line rest ih =>
    unfold firstError? at h
    split at h
    · next reason here =>
      obtain rfl := Option.some.inj h
      obtain ⟨incomplete, message, same⟩ := lineError?_eq_some here
      exact ⟨0, line, rfl, incomplete, message, same⟩
    · obtain ⟨k, other, found, incomplete, message, same⟩ := ih h
      refine ⟨k + 1, other, found, incomplete, message, ?_⟩
      rw [same, Nat.add_right_comm]
      rfl

/-- A text that is not balanced has a last line with text. -/
theorem exists_lastFilled {t : Text} (unbalanced : ¬ Balanced t) :
    ∃ n line, lastFilled (Text.lines t) = (n, line) ∧ Faulty t n line := by
  -- Brackets are text, so a text that is blank throughout is balanced.
  have some_ : ∃ c ∈ t, isBlank c = false := by
    by_contra white
    have absent : ∀ c, isBlank c = false → t.count c = 0 := fun c filled =>
      List.count_eq_zero.2 fun member => white ⟨c, member, filled⟩
    refine unbalanced ⟨?_, ?_⟩
    · rw [absent _ (by decide), absent _ (by decide)]
    · rw [absent _ (by decide), absent _ (by decide)]
  obtain ⟨c, member, text⟩ := some_
  have line_ : ∃ line ∈ Text.lines t, c ∈ line := by
    by_contra nowhere
    rw [← Text.joinLines_lines t] at member
    rcases Text.mem_joinLines member with feed | ⟨line, inside, here⟩
    · exact absurd text (by rw [feed]; decide)
    · exact nowhere ⟨line, inside, here⟩
  obtain ⟨line, inside, here⟩ := line_
  obtain ⟨j, at_⟩ := List.mem_iff_getElem?.1 inside
  have filled : Text.isEmptyLine line = false :=
    List.all_eq_false.2 ⟨c, here, by simpa using text⟩
  obtain ⟨i, number⟩ := exists_filledLines at_ filled
  obtain ⟨⟨last, n⟩, ending⟩ : ∃ entry, (filledLines t).getLast? = some entry :=
    ⟨_, List.getLast?_eq_some_getLast (List.ne_nil_of_mem (List.mem_of_getElem? number))⟩
  have place : (filledLines t)[(filledLines t).length - 1]? = some (last, n) := by
    rw [← List.getLast?_eq_getElem?]
    exact ending
  obtain ⟨found, text'⟩ := getElem?_of_filledLines place
  refine ⟨n, last, ?_, found, text', .inr ⟨unbalanced, fun k other behind known => ?_⟩⟩
  · unfold lastFilled
    unfold filledLines at ending
    rw [ending]
  · by_contra filled'
    obtain ⟨i', number'⟩ := exists_filledLines known (Bool.not_eq_true _ ▸ filled')
    have late := (number_lt_iff place number').1 behind
    have bound := (List.getElem?_eq_some_iff.1 number').1
    omega

/-- **A rejection names a faulty line** and a column inside it. -/
theorem exists_faulty {t : Text} {r : Rejection} (h : LineByLine.compile t = .rejected r) :
    ∃ n line column message, Faulty t n line ∧ column < line.length ∧
      r = .atPlace message (n : Nat) (column : Nat) := by
  unfold compile at h
  split at h
  · next reason first =>
    cases h
    obtain ⟨k, line, found, incomplete, message, same⟩ := firstError?_eq_some first
    have filled := incomplete.isEmptyLine_eq_false
    have short := (Text.trimRight_front line).length_le
    have some_ : 0 < (Text.trimRight line).length := by
      obtain ⟨c, member, text⟩ := List.all_eq_false.1 filled
      obtain ⟨i, at_⟩ := List.mem_iff_getElem?.1 member
      exact Nat.lt_of_le_of_lt (Nat.zero_le i)
        (Text.lt_length_trimRight at_ (by simpa using text))
    refine ⟨k, line, (Text.trimRight line).length - 1, message,
      ⟨found, filled, .inl incomplete⟩, by omega, ?_⟩
    rw [same]
    congr 1
    · rw [Nat.zero_add]
    · omega
  · next complete =>
    split at h
    · next reason brackets =>
      cases h
      unfold bracketError? at brackets
      split at brackets
      · cases brackets
      · next unbalanced =>
        obtain ⟨n, line, last, faulty⟩ := exists_lastFilled
          (t := t) (by simpa [Balanced] using unbalanced)
        dsimp only at brackets
        rw [last] at brackets
        obtain rfl := Option.some.inj brackets
        have some_ : line ≠ [] := by
          rintro rfl
          exact absurd faulty.filled (by decide)
        have positive := List.length_pos_iff.2 some_
        exact ⟨n, line, line.length - 1, _, faulty, by omega, rfl⟩
    · cases h

/-- A text that compiles is balanced and has no incomplete lines. -/
theorem balanced_of_compiles {t : Text} (h : Compiler.Compiles LineByLine.compile t) :
    Balanced t ∧ firstError? none 0 (Text.lines t) = none := by
  obtain ⟨js, map, answer⟩ := h
  unfold compile at answer
  split at answer
  · cases answer
  · next complete =>
    split at answer
    · cases answer
    · next brackets =>
      refine ⟨?_, complete⟩
      unfold bracketError? at brackets
      split at brackets
      · next balanced => simpa [Balanced] using balanced
      · cases brackets

end LineByLine

/-! ## Diagnostics -/

namespace LineByLine

/-- A diagnostic on a faulty line. -/
structure Reports (t : Text) (n : Nat) (line : Text) (d : Diagnostic) : Prop where
  faulty : Faulty t n line
  start : d.range.start.line = n
  stop : d.range.stop.line = n

/-- **A text compiles, or a faulty line of it is reported**, unless the line or the column cannot be
addressed. -/
theorem attempt_ends (t : Text) :
    Ends (Compiler.attempt (LineByLine.compile t))
      (fun answer =>
        Compiler.Compiles LineByLine.compile t ∧
            answer = .compiled (output t) (.ofMappings (mappings t)) ∨
          ∃ n line d, Reports t n line d ∧ answer = .failed d)
      (Unaddressable (Text.span (Text.lines t))) := by
  cases verdict : LineByLine.compile t with
  | compiled js map =>
    have compiles : Compiler.Compiles LineByLine.compile t := ⟨js, map, verdict⟩
    have same := verdict.symm.trans (Pipeline.compile_of_compiles compiles)
    cases same
    exact .done (.inl ⟨compiles, rfl⟩)
  | textless map =>
    unfold LineByLine.compile at verdict
    split at verdict
    · cases verdict
    · split at verdict <;> cases verdict
  | broken fault =>
    unfold LineByLine.compile at verdict
    split at verdict
    · cases verdict
    · split at verdict <;> cases verdict
  | rejected r =>
    obtain ⟨n, line, column, message, faulty, inside, rfl⟩ := exists_faulty verdict
    have member := List.mem_of_getElem? faulty.found
    have short := Text.length_le_span_of_mem member
    have few := (List.getElem?_eq_some_iff.1 faulty.found).1
    have lines_ := Text.length_le_span (Text.lines t)
    have place : ∀ c : Nat, c ≤ line.length → Ends (Position.make n c)
        (fun p => p.line = n ∧ p.character = c) (Unaddressable (Text.span (Text.lines t))) :=
      fun c small => Position.make_ends (by omega) (by omega)
    have made : Ends (Rejection.toDiagnostic (.atPlace message (n : Nat) (column : Nat)))
        (fun d => Reports t n line d) (Unaddressable (Text.span (Text.lines t))) := by
      have span : Ends (Range.make n column n (column + 1 : Nat))
          (fun range => range.start.line = n ∧ range.stop.line = n)
          (Unaddressable (Text.span (Text.lines t))) := by
        unfold Range.make
        refine (place column (by omega)).bind fun start first => ?_
        refine (place (column + 1) (by omega)).bind fun stop last => ?_
        exact .done ⟨first.1, last.1⟩
      exact span.bind fun range lines => .done ⟨faulty, lines.1, lines.2⟩
    exact made.bind fun d reports => .done (.inr ⟨n, line, d, reports, rfl⟩)

end LineByLine

end DialectBridge
