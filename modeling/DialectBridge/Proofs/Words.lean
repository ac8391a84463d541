import DialectBridge.Proofs.Fronts

/-!
# Words on their way into the generated text

A word of a source line, together with everything left of it, stands in the generated line as it
stood in the source, as long as no receiver was marked before its end and the line is no function.
Marks that preparation puts behind commas become spaces again, and what follows the word never makes
it longer.
-/

set_option autoImplicit false

namespace DialectBridge

/-! ## Maximal runs -/

/-- A word between other characters: a run of identifier characters that cannot be made longer on
either side. -/
structure MaximalRun (before word behind : Text) : Prop where
  letters : ∀ c ∈ word, isIdentifier c = true
  some_letter : word ≠ []
  free_before : ∀ c ∈ before.getLast?, isIdentifier c = false
  free_behind : ∀ c ∈ behind.head?, isIdentifier c = false

namespace MaximalRun

variable {before word behind : Text}

/-- The conditions of a maximal run can be checked. -/
theorem of_all (letters : word.all isIdentifier = true) (some_letter : word ≠ [])
    (free_before : before.getLast?.all (fun c => !isIdentifier c) = true)
    (free_behind : behind.head?.all (fun c => !isIdentifier c) = true) :
    MaximalRun before word behind where
  letters := List.all_eq_true.1 letters
  some_letter := some_letter
  free_before c last := by
    rw [show before.getLast? = some c from last] at free_before
    simpa using free_before
  free_behind c first := by
    rw [show behind.head? = some c from first] at free_behind
    simpa using free_behind

/-- Every place that touches a maximal run has the run as its word. -/
theorem wordAround_of_touches (h : MaximalRun before word behind) {offset : Nat}
    (low : before.length ≤ offset) (high : offset ≤ before.length + word.length) :
    Text.wordAround (before ++ (word ++ behind)) offset = .ok ⟨word, before.length⟩ := by
  obtain ⟨k, rfl⟩ := Nat.exists_eq_add_of_le low
  have front : (before ++ (word ++ behind)).take (before.length + k) = before ++ word.take k := by
    rw [List.take_length_add_append, List.take_append_of_le_length (by omega)]
  have letters : Text.identifierBefore (before ++ (word ++ behind)) (before.length + k) = k := by
    unfold Text.identifierBefore
    rw [front, List.reverse_append, Text.takeWhile_append_of_head, List.length_reverse,
      List.length_take]
    · omega
    · exact fun c inside => h.letters c (List.mem_of_mem_take (List.mem_reverse.1 inside))
    · intro c first
      rw [List.head?_reverse] at first
      exact h.free_before c first
  rw [Text.wordAround_of_le (by simp only [List.length_append]; omega), letters,
    Nat.add_sub_cancel, List.drop_left, Text.takeWhile_append_of_head h.letters h.free_behind]

/-- A maximal run of a line is one of the text. -/
theorem of_lineCut (h : MaximalRun before word behind) {all : List Text} {k : Nat}
    {line front rest : Text} (cut : Text.LineCut all k line front rest) :
    MaximalRun (front ++ before) word (behind ++ rest) where
  letters := h.letters
  some_letter := h.some_letter
  free_before c last := by
    rw [List.getLast?_append] at last
    cases own : before.getLast? with
    | some d =>
      rw [own] at last
      exact h.free_before c (own.trans last)
    | none =>
      rw [own, Option.none_or] at last
      rcases cut.before with rfl | feed
      · cases last
      · obtain rfl := Option.some.inj (feed.symm.trans last)
        decide
  free_behind c first := by
    rw [List.head?_append] at first
    cases own : behind.head? with
    | some d =>
      rw [own] at first
      exact h.free_behind c (own.trans first)
    | none =>
      rw [own, Option.none_or] at first
      rcases cut.behind with ⟨rfl, -⟩ | ⟨feed, -⟩
      · cases first
      · obtain rfl := Option.some.inj (feed.symm.trans first)
        decide

/-- The last letter of a maximal run. -/
theorem exists_last (h : MaximalRun before word behind) :
    ∃ front c, word = front ++ [c] ∧ isIdentifier c = true := by
  refine ⟨word.dropLast, word.getLast h.some_letter, ?_, h.letters _ (List.getLast_mem _)⟩
  exact (List.dropLast_append_getLast h.some_letter).symm

end MaximalRun

/-- **The word at the beginning of a maximal run** on a line of a document is that run. -/
theorem Document.wordAround_of_maximalRun {d : Document} {k : Nat} {before word behind : Text}
    (h : d.lines[k]? = some (before ++ (word ++ behind))) (run : MaximalRun before word behind) :
    before.length + word.length ≤ (d.lineText k).length ∧
      Text.wordAround d.text (d.offsetOf k before.length) =
        .ok ⟨word, d.offsetOf k before.length⟩ := by
  have bound : before.length + word.length ≤ (d.lineText k).length := by
    obtain ⟨ending, whole, ends⟩ := exists_eq_lineText_append h
    obtain ⟨front, c, rfl, letter⟩ := run.exists_last
    have last : before ++ front ++ [c] <+: d.lineText k := by
      have all : before ++ front ++ [c] <+: d.lineText k ++ ending := by
        rw [← whole]
        exact ⟨behind, by simp only [List.append_assoc]⟩
      refine Text.prefix_of_prefix_append all fun inside => ?_
      rcases ends with rfl | rfl
      · exact absurd inside List.not_mem_nil
      · obtain rfl := List.mem_singleton.1 inside
        exact absurd letter (by decide)
    have size := last.length_le
    simp only [List.length_append] at size ⊢
    omega
  refine ⟨bound, ?_⟩
  obtain ⟨front, rest, cut, whole⟩ := exists_cut h
  have offset : d.offsetOf k before.length = (front ++ before).length := by
    rw [offsetOf_of_getElem? h, List.length_append, cut.size, Nat.min_eq_left (by omega)]
  have text : d.text = (front ++ before) ++ (word ++ (behind ++ rest)) := by
    rw [whole]
    simp only [List.append_assoc]
  rw [offset, text]
  exact (run.of_lineCut cut).wordAround_of_touches (Nat.le_refl _) (Nat.le_add_right _ _)

namespace Preparation

/-! ## What follows a word -/

/-- What follows a word on its way: something that does not make it longer, or the marker of a
receiver. -/
def Detached (rest : Text) : Prop :=
  (∀ c ∈ rest.head?, isIdentifier c = false) ∨ Marker.receiver.text <+: rest

/-- A receiver's marker begins before a column of a line, once the receiver on it is marked. -/
def ReceiverBefore (line : Text) (column : Nat) : Prop :=
  ∃ k < column, Marker.receiver.text <+: (receiverLine line).drop k

instance (line : Text) (column : Nat) : Decidable (ReceiverBefore line column) :=
  inferInstanceAs (Decidable (∃ k < column, Marker.receiver.text <+: (receiverLine line).drop k))

/-- The marker of a receiver, with its last letter apart. -/
theorem receiver_text_eq : Marker.receiver.text = "this.__coffeemapAtSig".toList ++ ['n'] := by
  decide

section Steps

variable {front rest : Text} {c : Char}

/-- Marking a receiver behind a front keeps the front. -/
theorem exists_receiverLine {behind : Text} (free : ∀ d ∈ behind.head?, isIdentifier d = false)
    (unmarked : ¬ ReceiverBefore (front ++ behind) front.length) :
    ∃ rest, receiverLine (front ++ behind) = front ++ rest ∧ Detached rest := by
  unfold ReceiverBefore at unmarked
  unfold receiverLine at unmarked ⊢
  cases marked : markReceiver? (front ++ behind) with
  | none => exact ⟨behind, rfl, .inl free⟩
  | some new =>
    rw [marked, Option.getD_some] at unmarked
    obtain ⟨before, after, whole, rfl, -, -⟩ := markReceiver?_eq_some marked
    have early : front.length ≤ before.length := by
      by_contra short
      refine unmarked ⟨before.length, by omega, ?_⟩
      rw [List.append_assoc, List.drop_left]
      exact List.prefix_append _ _
    have part : front <+: before :=
      List.prefix_of_prefix_length_le ⟨behind, whole⟩ (List.prefix_append _ _) early
    obtain ⟨middle, rfl⟩ := part
    refine ⟨middle ++ Marker.receiver.text ++ after, ?_, ?_⟩
    · rw [Option.getD_some]
      simp only [List.append_assoc]
    · rw [List.append_assoc, List.append_cancel_left_eq] at whole
      cases middle with
      | nil =>
        right
        exact ⟨after, rfl⟩
      | cons d more =>
        left
        rw [whole] at free
        exact free

/-- An addition does not make the last word of a line longer. -/
theorem Extension.exists_append {growth : Nat → Nat} {extended : Text}
    (h : Extension growth (front ++ [c] ++ rest) extended) (letter : isIdentifier c = true)
    (detached : Detached rest) : ∃ rest', extended = front ++ [c] ++ rest' ∧ Detached rest' := by
  obtain ⟨added, addition, rfl, -⟩ := h
  have other : c ≠ '\r' := by
    rintro rfl
    exact absurd letter (by decide)
  obtain ⟨body, tail⟩ : Text.body (front ++ [c] ++ rest) = front ++ [c] ++ Text.body rest ∧
      Text.tail (front ++ [c] ++ rest) = Text.tail rest := Text.body_append other rest
  refine ⟨Text.body rest ++ (added ++ Text.tail rest), ?_, ?_⟩
  · rw [body, tail]
    simp only [List.append_assoc]
  · have ends : ∀ d ∈ Text.tail rest, isIdentifier d = false := by
      intro d member
      rcases Text.tail_eq rest with none_ | return_
      · rw [none_] at member
        exact absurd member List.not_mem_nil
      · rw [return_, List.mem_singleton] at member
        subst member
        decide
    rcases detached with free | ⟨after, rfl⟩
    · left
      intro d first
      rw [List.head?_append] at first
      cases own : (Text.body rest).head? with
      | some e =>
        rw [own] at first
        refine free d ?_
        rw [← Text.body_append_tail rest, List.head?_append, own]
        exact first
      | none =>
        rw [own, Option.none_or, List.head?_append] at first
        cases new : added.head? with
        | some e =>
          rw [new] at first
          exact addition.head d (new.trans first)
        | none =>
          rw [new, Option.none_or] at first
          exact ends d (List.mem_of_head? first)
    · right
      have whole : "this.__coffeemapAtSig".toList ++ ['n'] <+:
          Text.body (Marker.receiver.text ++ after) ++
            Text.tail (Marker.receiver.text ++ after) := by
        rw [Text.body_append_tail, ← receiver_text_eq]
        exact List.prefix_append _ _
      rw [receiver_text_eq] at whole ends ⊢
      refine (Text.prefix_of_prefix_append whole fun inside => ?_).trans (List.prefix_append _ _)
      exact absurd (ends 'n' inside) (by decide)

/-- Marks behind commas do not make a word longer. -/
theorem Blotted.detached {flag : Bool} {rest' : Text} (h : Blotted flag rest rest')
    (detached : Detached rest) : Detached rest' := by
  rcases detached with free | marker
  · left
    intro d first
    cases h with
    | nil => cases first
    | keep => exact free d first
    | mark =>
      obtain rfl := Option.some.inj first
      decide
  · right
    exact h.front_of_front_left (by decide) marker

/-- Trimming and terminating a line does not make its last word longer. -/
theorem Detached.terminated (h : Detached rest) : Detached (Text.trimRight rest ++ [';']) := by
  rcases h with free | marker
  · left
    intro d first
    rw [List.head?_append] at first
    obtain ⟨blanks, whole⟩ := Text.trimRight_front rest
    cases own : (Text.trimRight rest).head? with
    | some e =>
      rw [own] at first
      refine free d ?_
      rw [← whole, List.head?_append, own]
      exact first
    | none =>
      rw [own, Option.none_or] at first
      obtain rfl := Option.some.inj first
      decide
  · right
    rw [receiver_text_eq] at marker ⊢
    exact (Text.prefix_trimRight (by decide) marker).trans (List.prefix_append _ _)

end Steps

/-! ## Windows -/

/-- What is found in the output of a line, and has neither the terminator at its end nor a mark in
it, was there before marks were put behind commas, in the same column. -/
theorem Blotted.exists_window {extended edited front window : Text} {last : Char}
    (h : Blotted false extended edited) (noMark : '↯' ∉ window ++ [last]) (other : last ≠ ';')
    (found : front ++ (window ++ [last]) <+: Text.trimRight edited ++ [';']) :
    ∃ front', front'.length = front.length ∧ front' ++ (window ++ [last]) <+: extended := by
  rw [← List.append_assoc] at found
  have inEdited := (Text.prefix_of_prefix_append found
    (by rwa [List.mem_singleton])).trans (Text.trimRight_front edited)
  obtain ⟨rest, rfl⟩ := inEdited
  rw [List.append_assoc front, List.append_assoc front] at h
  obtain ⟨front', second, flag, rfl, early, late⟩ := h.exists_of_append_right
  refine ⟨front', early.length_eq.symm, ?_⟩
  rw [List.prefix_append_right_inj]
  exact late.front_of_front noMark (List.prefix_append _ rest)

/-! ## Lines without functions -/

/-- A window of a method that stands in a text has its function there. -/
theorem occursIn_of_window {name async star front line : Text}
    (h : front ++ Cleanup.methodWindow name async star <+: line) :
    Text.occursIn "function".toList line = true := by
  obtain ⟨rest, rfl⟩ := h
  have shape : front ++ Cleanup.methodWindow name async star ++ rest =
      (front ++ (name ++ ([':', ' '] ++ async))) ++
        ("function".toList ++ (star ++ ['('] ++ rest)) := by
    simp [Cleanup.methodWindow]
  rw [shape]
  exact Text.occursIn_append _ _ _

/-- A window of a method does not begin in identifier characters without a colon behind them. -/
theorem not_window_front {name async star letters after : Text}
    (method : Cleanup.Method name async star) (known : ∀ c ∈ letters, isIdentifier c = true)
    (free : ∀ c ∈ after.head?, isIdentifier c = false ∧ c ≠ ':') :
    ¬ Cleanup.methodWindow name async star <+: letters ++ after := by
  rintro ⟨rest, whole⟩
  have behind : (letters ++ after).dropWhile isIdentifier = after := by
    rw [List.dropWhile_append_of_pos known]
    cases after with
    | nil => rfl
    | cons c more =>
      refine List.dropWhile_cons_of_neg ?_
      rw [(free c rfl).1]
      exact Bool.false_ne_true
  rw [← whole, Cleanup.methodWindow, List.append_assoc, List.dropWhile_append_of_pos method.letters,
    List.cons_append, List.cons_append, List.dropWhile_cons_of_neg (by decide)] at behind
  rw [← behind] at free
  exact (free ':' rfl).2 rfl

/-- White space neither continues a word nor follows a key. -/
theorem free_of_isBlank {after : Text} (blank : after.head?.all isBlank = true) :
    ∀ c ∈ after.head?, isIdentifier c = false ∧ c ≠ ':' := by
  intro c first
  have white : isBlank c = true := by
    rw [Option.mem_def.1 first] at blank
    exact blank
  refine ⟨?_, ?_⟩
  · rw [← Bool.not_eq_true]
    intro letter
    rw [LineByLine.isBlank_eq_false_of_isIdentifier letter] at white
    cases white
  · rintro rfl
    exact absurd white (by decide)

/-- Marking a receiver makes no method out of a line without functions. -/
theorem occursIn_of_window_receiverLine {name async star front line : Text}
    (method : Cleanup.Method name async star)
    (h : front ++ Cleanup.methodWindow name async star <+: receiverLine line) :
    Text.occursIn "function".toList line = true := by
  unfold receiverLine at h
  cases marked : markReceiver? line with
  | none =>
    rw [marked] at h
    exact occursIn_of_window h
  | some new =>
    rw [marked, Option.getD_some] at h
    obtain ⟨before, after, rfl, rfl, blank, -⟩ := markReceiver?_eq_some marked
    have marker : Marker.receiver.text = "this".toList ++ '.' :: "__coffeemapAtSign".toList := by
      decide
    rw [marker, List.append_assoc, List.append_assoc, ← List.append_assoc before,
      List.cons_append] at h
    have noDot := Cleanup.dot_not_mem_methodWindow method
    by_cases early : front.length ≤ (before ++ "this".toList).length
    · -- The window ends before the dot, and in a parenthesis, so before the marker.
      have inside := Text.prefix_of_prefix_append_of_head h early (by
        rintro c first
        obtain rfl := Option.some.inj first
        exact noDot)
      rw [Cleanup.methodWindow_eq, ← List.append_assoc] at inside
      have first := Text.prefix_of_prefix_append inside (by decide)
      rw [List.append_assoc, ← Cleanup.methodWindow_eq] at first
      exact occursIn_of_window (first.trans (List.prefix_append _ _))
    · have dotted : front ++ Cleanup.methodWindow name async star <+:
          (before ++ "this.".toList) ++ ("__coffeemapAtSign".toList ++ after) := by
        rw [List.append_assoc] at h ⊢
        exact h
      have size : (before ++ "this.".toList).length = (before ++ "this".toList).length + 1 := by
        simp only [List.length_append]
        rfl
      obtain ⟨later, rfl, inside⟩ := Text.exists_of_prefix_append dotted (by omega)
      by_cases reaching : "__coffeemapAtSign".toList.length ≤ later.length
      · obtain ⟨last, rfl, found⟩ := Text.exists_of_prefix_append inside reaching
        have inLine : (before ++ '@' :: last) ++ Cleanup.methodWindow name async star <+:
            before ++ '@' :: after := by
          rw [List.append_assoc, List.prefix_append_right_inj]
          exact List.cons_prefix_cons.2 ⟨rfl, found⟩
        exact occursIn_of_window inLine
      · have part : later <+: "__coffeemapAtSign".toList :=
          List.prefix_of_prefix_length_le ((List.prefix_append _ _).trans inside)
            (List.prefix_append _ _) (by omega)
        obtain ⟨letters, same⟩ := part
        rw [← same, List.append_assoc, List.prefix_append_right_inj] at inside
        refine absurd inside (not_window_front method (fun c member => ?_) (free_of_isBlank blank))
        have all : "__coffeemapAtSign".toList.all isIdentifier = true := by decide
        exact List.all_eq_true.1 all c (same ▸ List.mem_append_right _ member)

/-- **On a line without functions no method is found.** -/
theorem Edited.scan_methodShorthand {line edited : Text} (h : Edited line edited)
    (noFunction : Text.occursIn "function".toList line = false) :
    Text.scan Cleanup.methodShorthand (Text.trimRight edited ++ [';']) =
      Text.trimRight edited ++ [';'] := by
  refine Text.scan_eq_self Cleanup.methodShorthand_forward fun k bound => ?_
  cases decision : Cleanup.methodShorthand none ((Text.trimRight edited ++ [';']).drop k) with
  | none => rfl
  | some r =>
    obtain ⟨name, async, star, after, method, whole, -⟩ := Cleanup.methodShorthand_eq_some decision
    have paren := Cleanup.methodWindow_eq name async star
    have found : (Text.trimRight edited ++ [';']).take k ++ Cleanup.methodWindow name async star <+:
        Text.trimRight edited ++ [';'] := by
      refine ⟨after, ?_⟩
      rw [List.append_assoc, ← whole, List.take_append_drop]
    have noMark : '↯' ∉ Cleanup.methodWindow name async star := by
      rw [paren]
      simp [Cleanup.not_mem_methodHead method (c := '↯') (by decide) (by decide)]
    obtain ⟨extended, extension, blotted⟩ := h
    rw [paren] at found noMark
    obtain ⟨front, -, inExtended⟩ := blotted.exists_window noMark (by decide) found
    rw [← List.append_assoc] at inExtended
    have inMarked := extension.front_of_front inExtended (by decide) (by decide)
    rw [List.append_assoc, ← paren] at inMarked
    exact Bool.noConfusion
      (noFunction.symm.trans (occursIn_of_window_receiverLine method inMarked))

/-! ## The generated line -/

namespace Edited

variable {before word behind edited : Text}

/-- A word and what stands left of it stay at the beginning of an edited line. -/
theorem exists_append (h : Edited (before ++ (word ++ behind)) edited)
    (run : MaximalRun before word behind)
    (unmarked : ¬ ReceiverBefore (before ++ (word ++ behind)) (before.length + word.length)) :
    (before ++ word).length ≤
        (Text.body (receiverLine (before ++ (word ++ behind)))).length ∧
      ∃ before' rest, edited = before' ++ (word ++ rest) ∧ Blotted false before before' ∧
        Detached rest := by
  obtain ⟨front, c, rfl, letter⟩ := run.exists_last
  have whole := (List.append_assoc before (front ++ [c]) behind).symm
  rw [whole] at h unmarked ⊢
  rw [← List.length_append] at unmarked
  obtain ⟨rest, marked, detached⟩ := exists_receiverLine run.free_behind unmarked
  obtain ⟨extended, extension, blotted⟩ := h
  rw [marked, ← List.append_assoc before] at extension
  have other : c ≠ '\r' := by
    rintro rfl
    exact absurd letter (by decide)
  refine ⟨?_, ?_⟩
  · rw [marked, ← List.append_assoc before, (Text.body_append other rest).1]
    exact (List.prefix_append _ _).length_le
  obtain ⟨rest', rfl, detached'⟩ := extension.exists_append letter detached
  rw [List.append_assoc before, List.append_assoc before] at blotted
  obtain ⟨before', second, flag, rfl, first, later⟩ := blotted.exists_of_append
  obtain ⟨word', last, flag', rfl, inWord, ending⟩ := later.exists_of_append
  have noSpace : ' ' ∉ front ++ [c] := fun inside => absurd (run.letters _ inside) (by decide)
  have same := (inWord.front_of_front_left noSpace List.prefix_rfl).eq_of_length
    inWord.length_eq.symm
  refine ⟨before', last, ?_, first, ending.detached detached'⟩
  rw [same]

/-- No receiver's marker begins in the output of a line where none begins on the marked line. -/
theorem not_marker_front {line : Text} {k column : Nat} (h : Edited line edited)
    (unmarked : ¬ ReceiverBefore line column) (early : k < column)
    (inside : column ≤ (Text.body (receiverLine line)).length) :
    ¬ Marker.receiver.text <+: (Text.trimRight edited ++ [';']).drop k := by
  rintro ⟨after, whole⟩
  obtain ⟨extended, ⟨added, addition, rfl, -⟩, blotted⟩ := h
  have size : k ≤ (Text.trimRight edited ++ [';']).length := by
    by_contra long
    rw [List.drop_eq_nil_of_le (by omega), List.append_eq_nil_iff] at whole
    exact absurd whole.1 (by decide)
  have found : (Text.trimRight edited ++ [';']).take k ++
      ("this.__coffeemapAtSig".toList ++ ['n']) <+: Text.trimRight edited ++ [';'] := by
    refine ⟨after, ?_⟩
    rw [← receiver_text_eq, List.append_assoc, whole, List.take_append_drop]
  obtain ⟨front, length, inExtended⟩ := blotted.exists_window (by decide) (by decide) found
  rw [List.length_take, Nat.min_eq_left size] at length
  -- The addition begins with a sign, which the marker has none of.
  have noTail : 'n' ∉ Text.tail (receiverLine line) := by
    rcases Text.tail_eq (receiverLine line) with none_ | return_
    · rw [none_]
      exact List.not_mem_nil
    · rw [return_]
      decide
  rw [← List.append_assoc front] at inExtended
  have inCode := Text.prefix_of_prefix_append inExtended noTail
  rw [List.append_assoc, ← receiver_text_eq] at inCode
  have inBody := Text.prefix_of_prefix_append_of_head inCode (by omega) fun d start member => by
    have signs : Marker.receiver.text.all (fun e => isIdentifier e || e == '.') = true := by decide
    have sign := List.all_eq_true.1 signs d member
    rw [Bool.or_eq_true, beq_iff_eq] at sign
    rcases sign with letter | rfl
    · exact Bool.noConfusion ((addition.head d start).symm.trans letter)
    · exact addition.not_mem (by decide) (List.mem_of_head? start)
  obtain ⟨last, line_⟩ := inBody.trans ⟨Text.tail (receiverLine line), Text.body_append_tail _⟩
  refine unmarked ⟨k, early, last, ?_⟩
  rw [← line_, List.append_assoc, ← length, List.drop_left]

end Edited

/-- Cleaning takes the marks behind commas back. -/
theorem Blotted.scan_newProperty {comma : Bool} {t t' : Text} (h : Blotted comma t t')
    (clean : '↯' ∉ t) {rest : Text} (free : rest.head? ≠ some ':') :
    Text.scan Marker.newProperty.cleaning (t' ++ rest) =
      t ++ Text.scan Marker.newProperty.cleaning rest := by
  induction h with
  | nil => rfl
  | @keep comma c t t' inner ih =>
    have other : c ≠ '↯' := fun same => clean (same ▸ List.mem_cons_self)
    rw [List.cons_append, Marker.scan_newProperty_cons other,
      ih fun inside => clean (List.mem_cons_of_mem _ inside), List.cons_append]
  | @mark t t' noColon inner ih =>
    have single : Text.startsWith [':', ' '] (t' ++ rest) = false := by
      rw [Bool.eq_false_iff, Ne, Text.startsWith, List.isPrefixOf_iff_prefix]
      rintro ⟨more, whole⟩
      cases inner with
      | nil =>
        rw [List.nil_append] at whole
        rw [← whole] at free
        exact free rfl
      | keep =>
        obtain ⟨rfl, -⟩ := List.cons.inj whole
        exact noColon rfl
    have decision : Marker.newProperty.cleaning none ('↯' :: (t' ++ rest)) = some ⟨1, [' ']⟩ := by
      rw [Marker.cleaning, Marker.newProperty_residue?_mark, single]
      rfl
    rw [List.cons_append, Text.scan_cons_of_some (Marker.cleaning_forward _) decision,
      Nat.sub_self, List.drop_zero, ih fun inside => clean (List.mem_cons_of_mem _ inside)]
    rfl

/-- Behind a word, cleaning receivers leaves something that does not make it longer. -/
theorem Detached.exists_scan_receiver {rest : Text} (h : Detached rest) (some_ : rest ≠ []) :
    ∃ c behind, Text.scan Marker.receiver.cleaning rest = c :: behind ∧ isIdentifier c = false := by
  rcases h with free | marker
  · cases rest with
    | nil => exact absurd rfl some_
    | cons c more =>
      have other := free c rfl
      rcases Marker.scan_receiver_cons c more with kept | ⟨rfl, -⟩
      · exact ⟨c, _, kept, other⟩
      · exact absurd other (by decide)
  · obtain ⟨behind, same⟩ := Marker.exists_scan_receiver marker
    exact ⟨'(', behind, same, by decide⟩

/-- **A word in its generated line.** What stands left of a word, and the word itself, are in the
generated line what they are in the source, if the line has no function and no receiver is marked
before the end of the word. -/
theorem Edited.exists_replaceLine {before word behind edited : Text}
    (h : Edited (before ++ (word ++ behind)) edited) (run : MaximalRun before word behind)
    (unmarked : ¬ ReceiverBefore (before ++ (word ++ behind)) (before.length + word.length))
    (noFunction : Text.occursIn "function".toList (before ++ (word ++ behind)) = false)
    (clean : '↯' ∉ before) :
    ∃ behind', Cleanup.replaceLine (Text.trimRight edited ++ [';']) = before ++ (word ++ behind') ∧
      MaximalRun before word behind' := by
  obtain ⟨inside, before', rest, same, blotted, detached⟩ := h.exists_append run unmarked
  have output : Text.trimRight edited ++ [';'] =
      (before' ++ word) ++ (Text.trimRight rest ++ [';']) := by
    obtain ⟨front, c, rfl, letter⟩ := run.exists_last
    rw [same, ← List.append_assoc, ← List.append_assoc before',
      Text.trimRight_append (LineByLine.isBlank_eq_false_of_isIdentifier letter), List.append_assoc]
  have length : (before' ++ word).length = before.length + word.length := by
    rw [List.length_append, blotted.length_eq]
  have declined : ∀ k < (before' ++ word).length, Marker.receiver.cleaning none
      ((before' ++ word).drop k ++ (Text.trimRight rest ++ [';'])) = none := by
    intro k bound
    rw [Marker.cleaning, Marker.receiver_residue?, if_neg]
    · rfl
    · rw [Text.startsWith, List.isPrefixOf_iff_prefix, ← List.drop_append_of_le_length (by omega),
        ← output]
      exact h.not_marker_front unmarked (by omega) (by rw [← List.length_append]; exact inside)
  obtain ⟨c, more, scanned, other⟩ := detached.terminated.exists_scan_receiver (by simp)
  obtain ⟨d, behind', cleaned, free⟩ := Marker.exists_scan_newProperty_cons other more
  have letters : ∀ e, isIdentifier e = false → e ∉ word := fun e foreign member =>
    Bool.noConfusion (foreign.symm.trans (run.letters e member))
  refine ⟨d :: behind', ?_, run.letters, run.some_letter, run.free_before, ?_⟩
  · unfold Cleanup.replaceLine
    rw [h.scan_methodShorthand noFunction, output,
      Text.scan_append_of_declined (Marker.cleaning_forward _) declined, scanned, List.append_assoc,
      blotted.scan_newProperty clean, Marker.scan_newProperty_append (letters '↯' (by decide)),
      cleaned]
    obtain ⟨letter, others, rfl⟩ := List.exists_cons_of_ne_nil run.some_letter
    intro colon
    obtain rfl := Option.some.inj colon
    exact letters ':' (by decide) List.mem_cons_self
  · intro e first
    obtain rfl := Option.some.inj first
    exact free

end Preparation

end DialectBridge
