import DialectBridge.Proofs.Completions
import DialectBridge.Proofs.DottedLines
import DialectBridge.Proofs.Words

/-!
# Completions behind a receiver on its own

Preparation replaces a receiver on its own by a marker, and cleaning replaces the marker by a value
of the same length. So the entries of the line keep the columns of the marked line, and the value
stands in the column of the receiver, moved by keywords only.

A cursor directly behind the receiver has no entry of its own. If there is other text behind it, the
closest entry before it leads to the value, from where the member is found. At the end of the line
the entries behind the cursor are preferred, as those of a line that was longer when it was
compiled. The last of them is the member of the marker, and it leads onto the dot of the value, one
column too far for the member to be found.
-/

set_option autoImplicit false

namespace DialectBridge

open LineByLine

/-! ## The tokens of a marked receiver -/

namespace LineByLine

/-- A marked receiver has three tokens, the first of which may belong to the word before it. -/
theorem tokenColumns_receiver (inWord : Bool) (start : Nat) (rest : Text) :
    tokenColumns inWord start (Marker.receiver.text ++ rest) =
      (if inWord then [] else [start]) ++
        (start + 4) :: (start + 5) :: tokenColumns true (start + 22) rest := by
  have text : Marker.receiver.text = "this".toList ++ ('.' :: "__coffeemapAtSign".toList) := by
    decide
  have first : tokenColumns inWord start "this".toList = if inWord then [] else [start] := by
    cases inWord <;> rfl
  have second : tokenColumns true (start + 4) ('.' :: "__coffeemapAtSign".toList) =
      [start + 4, start + 5] := rfl
  rw [tokenColumns_append, text, tokenColumns_append, first]
  change (_ ++ tokenColumns true (start + 4) ('.' :: "__coffeemapAtSign".toList)) ++
    tokenColumns true (start + 22) rest = _
  rw [second, List.append_assoc]
  rfl

end LineByLine

/-! ## The value of a marked receiver -/

namespace Cleanup

/-- No method reaches into a marked receiver, and none begins in it. -/
theorem scan_methodShorthand_receiver {front rest : Text}
    (free : ∀ c ∈ rest.head?, isIdentifier c = false ∧ c ≠ ':') :
    Text.scan methodShorthand (front ++ (Marker.receiver.text ++ rest)) =
      Text.scan methodShorthand front ++
        (Marker.receiver.text ++ Text.scan methodShorthand rest) := by
  have text : Marker.receiver.text = "this".toList ++ '.' :: "__coffeemapAtSign".toList := by decide
  -- A window has no dot and ends in a parenthesis, so it ends before the receiver.
  have outside : ∀ (part behind name async star : Text), Method name async star →
      methodWindow name async star <+: part ++ ("this".toList ++ '.' :: behind) →
      methodWindow name async star <+: part := by
    intro part behind name async star method window
    rw [← List.append_assoc] at window
    have early := window_before_dot method window
    rw [methodWindow_eq] at early ⊢
    exact Text.prefix_of_prefix_append early (by decide)
  have inside : ∀ k < Marker.receiver.text.length,
      methodShorthand none (Marker.receiver.text.drop k ++ rest) = none := by
    intro k bound
    rw [Option.eq_none_iff_forall_not_mem]
    intro r replaced
    obtain ⟨name, async, star, behind, method, whole, -⟩ := methodShorthand_eq_some replaced
    have window : methodWindow name async star <+: Marker.receiver.text.drop k ++ rest :=
      ⟨behind, whole.symm⟩
    by_cases early : k ≤ 4
    · rw [text, List.drop_append_of_le_length early, List.append_assoc, List.cons_append] at window
      have word := window_before_dot method window
      rw [methodWindow_eq] at word
      have sign : '(' ∈ "this".toList :=
        List.mem_of_mem_drop (word.subset (List.mem_append_right _ (List.mem_singleton_self _)))
      exact absurd sign (by decide)
    · refine Preparation.not_window_front method (fun c member => ?_) free window
      have letters : (Marker.receiver.text.drop 5).all isIdentifier = true := by decide
      refine List.all_eq_true.1 letters c ?_
      rw [show k = 5 + (k - 5) by omega, ← List.drop_drop] at member
      exact List.mem_of_mem_drop member
  rw [Text.scan_append methodShorthand_forward methodShorthand_linewise.fitting fun k _ => ?_,
    Text.scan_append_of_declined methodShorthand_forward inside]
  refine methodShorthand_append fun name async star method window => ?_
  rw [text, List.append_assoc, List.cons_append] at window
  exact outside _ _ name async star method window

/-- The marker of a receiver becomes its value, and what stands before it and behind it is treated
apart. -/
theorem scan_receiver_receiver (front rest : Text) :
    Text.scan Marker.receiver.cleaning (front ++ (Marker.receiver.text ++ rest)) =
      Text.scan Marker.receiver.cleaning front ++
        (Marker.receiverValue ++ ' ' :: Text.scan Marker.receiver.cleaning rest) := by
  have marker : Marker.receiver.cleaning none (Marker.receiver.text ++ rest) =
      some ⟨22, Marker.receiverValue ++ [' ']⟩ := by
    have begins : Text.startsWith Marker.receiver.text (Marker.receiver.text ++ rest) = true :=
      List.isPrefixOf_iff_prefix.2 (List.prefix_append _ _)
    unfold Marker.cleaning
    rw [Marker.receiver_residue?, begins]
    decide
  -- No end of the marker is a beginning of it.
  have unbordered : ∀ k < Marker.receiver.text.length, 0 < k →
      ¬ Marker.receiver.text.drop k <+: Marker.receiver.text := by decide
  rw [Text.scan_append Marker.receiver_linewise.forward Marker.receiver_linewise.fitting
    fun k bound => ?_, Text.scan_of_some Marker.receiver_linewise.forward
    Marker.receiver_linewise.fitting marker]
  · have size : Marker.receiver.text.length = 22 := by decide
    dsimp only
    rw [← size, List.drop_left]
    simp
  · refine Marker.receiver_cleaning_append fun found => ?_
    have part : front.drop k <+: front.drop k ++ (Marker.receiver.text ++ rest) :=
      List.prefix_append _ _
    by_cases long : Marker.receiver.text.length ≤ (front.drop k).length
    · exact List.prefix_of_prefix_length_le found part long
    · obtain ⟨behind, whole⟩ := found
      have dropped := congrArg (List.drop (front.drop k).length) whole
      rw [List.drop_left, List.drop_append_of_le_length (by omega)] at dropped
      refine absurd (List.prefix_of_prefix_length_le ⟨behind, dropped⟩ (List.prefix_append _ _) ?_)
        (unbordered (front.drop k).length (by omega) (by rw [List.length_drop]; omega))
      rw [List.length_drop]
      omega

/-- **The value of a receiver has the column of its marker**, and what stands before it and behind
it is treated apart. -/
theorem replaceLine_receiver (front : Text) {rest : Text}
    (free : ∀ c ∈ rest.head?, isIdentifier c = false ∧ c ≠ ':') :
    replaceLine (front ++ (Marker.receiver.text ++ rest)) =
      replaceLine front ++ (Marker.receiverValue ++ ' ' :: replaceLine rest) := by
  have marks : ∀ first second : Text, Text.scan Marker.newProperty.cleaning
      (first ++ (Marker.receiverValue ++ ' ' :: second)) =
        Text.scan Marker.newProperty.cleaning first ++
          (Marker.receiverValue ++ ' ' :: Text.scan Marker.newProperty.cleaning second) := by
    intro first second
    have value : Marker.receiverValue ++ ' ' :: second =
        (Marker.receiverValue ++ [' ']) ++ second := by simp
    rw [Text.scan_append Marker.newProperty_linewise.forward Marker.newProperty_linewise.fitting
      fun k bound => ?_, value, Marker.scan_newProperty_append (by decide)]
    · simp
    · refine Marker.newProperty_cleaning_append (fun empty => ?_) fun c start => ?_
      · exact absurd (List.drop_eq_nil_iff.1 empty) (by omega)
      · obtain rfl : '(' = c := Option.some.inj start
        decide
  rw [replaceLine, scan_methodShorthand_receiver free, scan_receiver_receiver, marks, replaceLine,
    replaceLine]

end Cleanup

/-! ## Lines with a receiver on its own -/

namespace Preparation

/-- A line with one receiver on it, which preparation marks. -/
structure LoneReceiver (before behind : Text) : Prop where
  single : '@' ∉ before ++ behind
  marked : (markReceiver? (before ++ '@' :: behind)).isSome = true

namespace LoneReceiver

variable {t before behind edited : Text} {l p k : Nat}

/-- The receiver that is marked is the only one there is. -/
theorem receiverLine_eq (h : LoneReceiver before behind) :
    receiverLine (before ++ '@' :: behind) = before ++ (Marker.receiver.text ++ behind) ∧
      behind.head?.all isBlank = true ∧ admitsReceiver before = true := by
  obtain ⟨new, marked⟩ := Option.isSome_iff_exists.1 h.marked
  obtain ⟨before', after, whole, rfl, blank, admits⟩ := markReceiver?_eq_some marked
  have single := h.single
  rw [List.mem_append, not_or] at single
  obtain ⟨rfl, -, rfl⟩ := (List.append_cons_inj_of_notMem single.1 single.2).1 whole
  refine ⟨?_, blank, admits⟩
  rw [receiverLine, marked, Option.getD_some, List.append_assoc]

/-- A marker is kept as it is by marks behind commas. -/
theorem exists_of_blotted {rest text : Text}
    (blotted : Blotted false (before ++ (Marker.receiver.text ++ rest)) text) :
    ∃ front rest' flag, text = front ++ (Marker.receiver.text ++ rest') ∧
      Blotted false before front ∧ Blotted flag rest rest' := by
  obtain ⟨front, second, flag, rfl, first, later⟩ := blotted.exists_of_append
  obtain ⟨marker, rest', flag', rfl, own, last⟩ := later.exists_of_append
  obtain rfl := own.eq_of_filled (by decide)
  exact ⟨front, rest', flag', rfl, first, last⟩

/-- **A line with a receiver on its own after the gentle edits.** Nothing is added to a line that
ends in the receiver. -/
theorem exists_edited (h : LoneReceiver before behind)
    (carried : Carried t l (before ++ '@' :: behind) edited p k) :
    ∃ front rest, edited = front ++ (Marker.receiver.text ++ rest) ∧
      Blotted false before front ∧ (∀ c ∈ rest.head?, isBlank c = true ∨ c = '↯') ∧
      (Text.body behind = [] → rest = behind) := by
  obtain ⟨marked, blank, -⟩ := h.receiverLine_eq
  have ends : before ++ (Marker.receiver.text ++ behind) =
      (before ++ "this.__coffeemapAtSig".toList) ++ ['n'] ++ behind := by
    rw [receiver_text_eq]
    simp
  have parts : Text.body ((before ++ "this.__coffeemapAtSig".toList) ++ ['n'] ++ behind) =
        (before ++ "this.__coffeemapAtSig".toList) ++ ['n'] ++ Text.body behind ∧
      Text.tail ((before ++ "this.__coffeemapAtSig".toList) ++ ['n'] ++ behind) =
        Text.tail behind := Text.body_append (by decide) behind
  rw [← ends] at parts
  obtain ⟨code, ending⟩ := parts
  by_cases empty : Text.body behind = []
  · obtain ⟨dotted, kind, blots⟩ := carried.exists_dotted
    rw [marked] at kind
    rw [empty, List.append_nil] at code
    cases kind with
    | kept =>
      have settled : Settled (before ++ (Marker.receiver.text ++ behind)) := by
        constructor
        · rw [code]
          exact List.mem_append_left _ (List.mem_append_right _ (by decide))
        · rw [code, List.getLast?_concat]
          decide
      obtain ⟨front, rest, flag, shape, first, last⟩ := exists_of_blotted (blots settled)
      have spaceless : ' ' ∉ behind := by
        have own := Text.body_append_tail behind
        rw [empty, List.nil_append] at own
        rcases Text.tail_eq behind with none_ | return_
        · rw [← own, none_]
          decide
        · rw [← own, return_]
          decide
      obtain rfl := (last.eq_of_filled spaceless).symm
      refine ⟨front, behind, shape, first, fun c start => .inl ?_, fun _ => rfl⟩
      rw [Option.mem_def.1 start] at blank
      exact blank
    | terminated dot =>
      rw [code] at dot
      exact absurd (List.append_inj_right' dot rfl) (by decide)
  · obtain ⟨extended, ⟨added, -, shape, -⟩, blotted⟩ := carried.edits
    obtain ⟨c, inner, body⟩ := List.exists_cons_of_ne_nil empty
    have white : isBlank c = true := by
      rw [← Text.body_append_tail behind, body] at blank
      exact blank
    have whole : extended = before ++ (Marker.receiver.text ++
        (c :: (inner ++ added ++ Text.tail behind))) := by
      rw [shape, marked, code, ending, body, receiver_text_eq]
      simp
    rw [whole] at blotted
    obtain ⟨front, rest, flag, same, first, last⟩ := exists_of_blotted blotted
    refine ⟨front, rest, same, first, fun d start => ?_, fun none_ => absurd none_ empty⟩
    cases last with
    | keep => exact .inl (Option.some.inj start ▸ white)
    | mark => exact .inr (Option.some.inj start).symm

/-- A line that is no comment is none with its receiver marked. -/
theorem isComment_edited {front rest : Text} (blotted : Blotted false before front)
    (code : isComment (before ++ '@' :: behind) = false) :
    isComment (front ++ (Marker.receiver.text ++ rest)) = false := by
  have marker : Marker.receiver.text ++ rest =
      't' :: ("his.__coffeemapAtSign".toList ++ rest) := rfl
  unfold isComment at code ⊢
  rw [beq_eq_false_iff_ne] at code ⊢
  rw [marker, (Text.leadingBlank_append (by decide) front _).2]
  rw [(Text.leadingBlank_append (by decide) before _).2] at code
  intro sign
  cases text : Text.trimLeft front with
  | nil =>
    rw [text] at sign
    exact absurd (Option.some.inj sign) (by decide)
  | cons c more =>
    rw [text] at sign
    obtain rfl : c = '#' := Option.some.inj sign
    have inFront : Text.leadingBlank front ++ ['#'] <+: front := by
      refine ⟨more, ?_⟩
      rw [List.append_assoc]
      exact (congrArg (Text.leadingBlank front ++ ·) text).symm.trans
        (Text.leadingBlank_append_trimLeft front)
    have clean : '↯' ∉ Text.leadingBlank front ++ ['#'] := by
      intro member
      rcases List.mem_append.1 member with white | sign
      · exact absurd (Text.mem_leadingBlank white) (by decide)
      · exact absurd sign (by decide)
    obtain ⟨later, whole⟩ := blotted.front_of_front clean inFront
    refine code ?_
    rw [← whole, List.append_assoc, List.singleton_append,
      Text.trimLeft_append (fun _ => Text.mem_leadingBlank) (by decide)]
    rfl

/-- Where the tokens of a line with a marked receiver stand. -/
theorem mem_tokenColumns {front rest : Text} (same : front.length = before.length) {column : Nat}
    (token : column ∈ tokenColumns false 0 (front ++ (Marker.receiver.text ++ rest))) :
    column ≤ before.length ∨ column = before.length + 4 ∨ column = before.length + 5 ∨
      column ∈ tokenColumns true (before.length + 22) rest := by
  rw [tokenColumns_append, Nat.zero_add, tokenColumns_receiver, same] at token
  rcases List.mem_append.1 token with early | token
  · obtain ⟨i, c, rfl, found, -⟩ := exists_of_mem_tokenColumns early
    have := (List.getElem?_eq_some_iff.1 found).1
    exact .inl (by omega)
  · rcases List.mem_append.1 token with first | token
    · split at first
      · exact absurd first List.not_mem_nil
      · exact .inl (List.mem_singleton.1 first).le
    · rcases List.mem_cons.1 token with dot | token
      · exact .inr (.inl dot)
      · exact .inr (.inr (List.mem_cons.1 token))

/-- The receiver itself, its dot and its member are tokens of the line. -/
theorem tokens {front rest : Text} (same : front.length = before.length) :
    before.length + 5 ∈ tokenColumns false 0 (front ++ (Marker.receiver.text ++ rest)) ∧
      ((∀ c ∈ front.getLast?, isIdentifier c = false) →
        before.length ∈ tokenColumns false 0 (front ++ (Marker.receiver.text ++ rest))) := by
  rw [tokenColumns_append, Nat.zero_add, tokenColumns_receiver, same]
  constructor
  · simp
  · intro free
    have apart : (front.getLast?.map isIdentifier).getD false = false := by
      cases last : front.getLast? with
      | none => rfl
      | some c => exact free c last
    simp [apart]

/-- The text of the line without its line break has the receiver in its place. -/
theorem exists_lineText {source : Document} {n : Nat}
    (found : source.lines[n]? = some (before ++ '@' :: behind)) :
    ∃ rest, source.lineText n = before ++ '@' :: rest ∧
      (rest = behind ∨ rest = Text.body behind) := by
  rcases Document.lineText_of_getElem? found with ⟨whole, -⟩ | ⟨whole, -⟩
  · exact ⟨behind, whole, .inl rfl⟩
  · have body := (Text.body_append (show '@' ≠ '\r' by decide) behind : Text.body
      (before ++ ['@'] ++ behind) = before ++ ['@'] ++ Text.body behind ∧ _).1
    rw [List.append_cons] at whole
    exact ⟨Text.body behind, by rw [whole, body, ← List.append_cons], .inr rfl⟩

/-- A cursor directly behind a receiver on its own stands at no word. -/
theorem exists_cursor (h : LoneReceiver before behind) {source : Document} {q : Position}
    (found : source.lines[q.line]? = some (before ++ '@' :: behind))
    (character : q.character = before.length + 1) (small : source.text.length ≤ 2147483647) :
    ∃ c, Cursor.ofPosition source q = .ok c ∧ c.position = q ∧
      c.line = source.lineText q.line ∧ c.word.text = [] ∧ c.atEndOfWord = false := by
  obtain ⟨c, cursor, position, line, word, ends⟩ := ToOutput.cursor_returns source q small
  obtain ⟨rest, text, -⟩ := exists_lineText found
  obtain ⟨front, later, cut, whole⟩ := Document.exists_cut found
  have offset : source.offsetAt q = (front ++ before ++ ['@']).length := by
    rw [Document.offsetAt, Document.offsetOf_of_getElem? found, text, character, ← cut.size]
    simp only [List.length_append, List.length_cons, List.length_nil]
    omega
  have shape : source.text = (front ++ before ++ ['@']) ++ (behind ++ later) := by
    rw [whole]
    simp
  have free : Text.wordAround source.text (source.offsetAt q) = .ok ⟨[], source.offsetAt q⟩ := by
    refine Text.wordAround_of_free (Document.offsetOf_le _ _ _) (fun d last => ?_) fun d first => ?_
    · rw [shape, offset, List.take_left, List.getLast?_concat] at last
      obtain rfl := Option.some.inj last
      decide
    · rw [shape, offset, List.drop_left] at first
      have blank := h.receiverLine_eq.2.1
      cases behind with
      | nil =>
        rw [List.nil_append] at first
        rcases cut.behind with ⟨none_, -⟩ | ⟨feed, -⟩
        · rw [none_] at first
          cases first
        · rw [feed] at first
          obtain rfl := Option.some.inj first
          decide
      | cons e more =>
        obtain rfl : e = d := Option.some.inj first
        exact (free_of_isBlank blank e rfl).1
  obtain own : c.word = ⟨[], source.offsetAt q⟩ := Except.ok.inj (word.symm.trans free)
  refine ⟨c, cursor, position, line, by rw [own], ?_⟩
  rw [ends, own]
  rfl

/-- A cursor directly behind a receiver on its own is in no comment: there is no fence before. -/
theorem commentPosition?_eq_none (h : LoneReceiver before behind) {c : Cursor} {rest : Text}
    (line : c.line = before ++ '@' :: rest) (character : c.position.character = before.length + 1)
    (generated : Document) : ToOutput.commentPosition? c generated = .ok none := by
  refine ToOutput.commentPosition?_behind_plain (fun front d last => ?_) line character.le generated
  have admits := h.receiverLine_eq.2.2
  rw [admitsReceiver, last] at admits
  simp only [Bool.and_eq_true] at admits
  exact admits.1.1

/-- Code before a receiver is not made white space. -/
theorem length_leadingBlank_lt {front : Text} (blotted : Blotted false before front)
    (clean : '↯' ∉ before) (filled : Text.isEmptyLine before = false) :
    (Text.leadingBlank (Cleanup.replaceLine front)).length < before.length := by
  have filled' : Text.isEmptyLine front = false := by
    obtain ⟨c, member, code⟩ := List.all_eq_false.1 filled
    refine List.all_eq_false.2 ⟨c, blotted.mem_of_mem_left member ?_, code⟩
    rintro rfl
    exact code rfl
  cases text : Text.trimLeft front with
  | nil =>
    refine absurd filled' (Bool.not_eq_false _ ▸ ?_)
    refine List.all_eq_true.2 fun c member => Text.mem_leadingBlank (t := front) ?_
    have whole := Text.leadingBlank_append_trimLeft front
    rw [text, List.append_nil] at whole
    rwa [whole]
  | cons c more =>
    have whole := Text.leadingBlank_append_trimLeft front
    rw [text] at whole
    have white : ∀ d ∈ Text.leadingBlank front, isBlank d = true :=
      fun d member => Text.mem_leadingBlank member
    have other : c ≠ '↯' := by
      rintro rfl
      rw [← whole] at blotted
      exact clean ((blotted.mark_of_white white).subset (by simp))
    obtain ⟨d, behind', first, code⟩ :=
      Cleanup.exists_replaceLine_cons (Text.isBlank_of_trimLeft text) other more
    rw [← whole, Cleanup.replaceLine_append white, first]
    rw [(Text.leadingBlank_append code _ _).1]
    have short : (Text.leadingBlank (Text.leadingBlank front)).length ≤
        (Text.leadingBlank front).length := (List.takeWhile_sublist _).length_le
    have same := blotted.length_eq
    rw [← whole] at same
    simp only [List.length_append, List.length_cons] at same
    omega

/-- The generated line of a line with a marked receiver before narrowing. -/
theorem replaceLine_eq (front : Text) {rest : Text}
    (head : ∀ c ∈ rest.head?, isBlank c = true ∨ c = '↯') :
    Cleanup.replaceLine (Text.trimRight (front ++ (Marker.receiver.text ++ rest)) ++ [';']) =
      Cleanup.replaceLine front ++ (Marker.receiverValue ++
        ' ' :: Cleanup.replaceLine (Text.trimRight rest ++ [';'])) := by
  have trimmed : Text.trimRight (front ++ (Marker.receiver.text ++ rest)) =
      front ++ (Marker.receiver.text ++ Text.trimRight rest) := by
    have ends : Text.trimRight (front ++ "this.__coffeemapAtSig".toList ++ ['n'] ++ rest) = _ :=
      Text.trimRight_append (by decide) rest
    rw [receiver_text_eq]
    simpa using ends
  rw [trimmed, List.append_assoc, List.append_assoc, Cleanup.replaceLine_receiver]
  intro c first
  cases text : Text.trimRight rest with
  | nil =>
    rw [text] at first
    obtain rfl := Option.some.inj first
    decide
  | cons d more =>
    rw [text] at first
    obtain rfl : d = c := Option.some.inj first
    obtain ⟨later, whole⟩ := Text.trimRight_front rest
    rw [text] at whole
    rcases head d (by rw [← whole]; rfl) with blank | rfl
    · exact free_of_isBlank (show ([d] : Text).head?.all isBlank = true from blank) d rfl
    · decide

end LoneReceiver

/-- What the map and the generated text have for a line with a receiver on its own: the tokens of
the line, `times` keywords, and the value of the receiver. -/
structure ReceiverPlaces (t before behind : Text) (l n indent times : Nat) (columns : List Nat) :
    Prop where
  entries : ToOutput.TokenEntries (generatedMap t) l n indent times columns
  indented : indent ≤ before.length
  member : before.length + 5 ∈ columns
  first : (∀ c ∈ before.getLast?, isIdentifier c = false) → before.length ∈ columns
  /-- No token begins where the cursor stands behind the receiver. -/
  apart : ∀ column ∈ columns, column ≤ before.length ∨ before.length + 4 ≤ column
  last : Text.body behind = [] → ∀ column ∈ columns, column ≤ before.length + 5
  untouched : (Text.isEmptyLine before = true → '=' ∉ behind) → before.length ≠ indent ∨ times = 0
  generated : Declarations.parse? ((generatedLines t).getD n []) = none →
    ∃ front rest,
      (Text.lines (generatedText t))[n]? = some (front ++ (Marker.receiverValue ++ rest)) ∧
      front.length = before.length + 4 * times
  line_bound : n ≤ 2147483647
  bound : before.length + 5 + 4 * times ≤ 2147483647

/-- Every line of code with a receiver on its own has its places. -/
theorem LoneReceiver.exists_places {t before behind : Text} {l : Nat}
    (h : LoneReceiver before behind) (unmarked : '↯' ∉ t ∧ 'ᛟ' ∉ t) (small : t.length < 2 ^ 23)
    (compiles : Compiler.Compiles LineByLine.compile (prepare t).text)
    (found : (Text.lines t)[l]? = some (before ++ '@' :: behind))
    (code : isComment (before ++ '@' :: behind) = false) :
    ∃ n indent times columns, ReceiverPlaces t before behind l n indent times columns := by
  have filled : Text.isEmptyLine (before ++ '@' :: behind) = false :=
    List.all_eq_false.2 ⟨'@', by simp, by decide⟩
  obtain ⟨edited, p, n, carried⟩ := exists_carried found filled
  obtain ⟨front, rest, rfl, blotted, head, alone⟩ := h.exists_edited carried
  have coded : Coded t l _ _ p n := ⟨carried, isComment_edited blotted code⟩
  have size := blotted.length_eq
  have size' := Cleanup.length_replaceLine front
  have own := coded.getElem?_generatedLines
  have entries := coded.tokenEntries unmarked.2 compiles
  have text := coded.getElem?_generatedText unmarked.2
  have bound := coded.length_keyworded_le (Declarations.keywordsOn_le n _)
  have origin := fun c => carried.edits.mem_of_mem_replaceLine (c := c)
  rw [replaceLine_eq front head] at own entries text bound origin
  -- The value of the receiver begins with a parenthesis, so the indentation ends before it.
  have indented : Text.leadingBlank (Cleanup.replaceLine front ++ (Marker.receiverValue ++
      ' ' :: Cleanup.replaceLine (Text.trimRight rest ++ [';']))) =
        Text.leadingBlank (Cleanup.replaceLine front) :=
    (Text.leadingBlank_append (by decide) _ _).1
  rw [indented] at entries
  refine ⟨n, _, _, _, entries, ?_, (tokens size).1, fun own => (tokens size).2
    (blotted.getLast_free own), fun column token => ?_, fun empty column token => ?_,
    fun plain => ?_, fun plain => ?_, coded.number_le small, ?_⟩
  · rw [← size, ← size']
    exact (List.takeWhile_sublist _).length_le
  · rcases mem_tokenColumns size token with early | dot | name | later
    · exact .inl early
    · exact .inr dot.ge
    · exact .inr (by omega)
    · obtain ⟨i, c, rfl, -⟩ := exists_of_mem_tokenColumns later
      exact .inr (by omega)
  · rcases mem_tokenColumns size token with early | dot | name | later
    · omega
    · omega
    · omega
    · -- Behind the receiver there is at most a carriage return.
      obtain ⟨i, c, -, inside, filled⟩ := exists_of_mem_tokenColumns later
      have member := List.mem_of_getElem? inside
      rw [alone empty, ← Text.body_append_tail behind, empty, List.nil_append] at member
      rcases Text.tail_eq behind with none_ | return_
      · rw [none_] at member
        exact absurd member List.not_mem_nil
      · rw [return_] at member
        obtain rfl := List.mem_singleton.1 member
        exact absurd filled (by decide)
  · cases empty : Text.isEmptyLine before with
    | false =>
      have clean : '↯' ∉ before := fun member => unmarked.1
        (Text.mem_of_mem_lines (List.mem_of_getElem? found) (List.mem_append_left _ member))
      exact .inl (length_leadingBlank_lt blotted clean empty).ne'
    | true =>
      refine .inr (Declarations.keywordsOn_eq_zero fun sign => ?_)
      rw [List.getD_eq_getElem?_getD, own, Option.getD_some] at sign
      rcases List.mem_append.1 (origin '=' sign (by decide)) with white | later
      · exact absurd (List.all_eq_true.1 empty _ white) (by decide)
      · exact plain empty (List.mem_of_ne_of_mem (by decide) later)
  · rw [List.getD_eq_getElem?_getD, own, Option.getD_some] at plain
    refine ⟨Declarations.keyworded (Declarations.keywordsOn n
      (Declarations.narrowings (generatedLines t))) (Cleanup.replaceLine front),
      ' ' :: Cleanup.replaceLine (Text.trimRight rest ++ [';']), ?_, ?_⟩
    · rw [text plain]
      exact congrArg some (Declarations.keyworded_append (show isBlank '(' = false by decide) _ _ _)
    · rw [Declarations.length_keyworded, size', size]
  · have value : Marker.receiverValue.length = 21 := by decide
    rw [Declarations.length_keyworded, List.length_append, List.length_append, List.length_cons]
      at bound
    omega

end Preparation

/-! ## The request -/

namespace Workspace

open Preparation

/-- Where the value of a receiver stands in generated text: the member is found from the offset of
the value, but not from the offset of the dot in it. -/
theorem memberOffset_receiverValue {js behind : Text} {offset : Nat}
    (found : js.drop offset = Marker.receiverValue ++ behind) :
    memberOffset js offset = offset + 6 ∧ memberOffset js (offset + 5) = offset + 5 := by
  have value : Marker.receiverValue ++ behind =
      '(' :: (receiverCall ++ (",this)".toList ++ behind)) := rfl
  have inside : offset + 5 ≤ js.length := by
    have size := congrArg List.length found
    have width : Marker.receiverValue.length = 21 := by decide
    rw [List.length_drop, List.length_append] at size
    omega
  have next : ∀ k, js.drop (offset + k) = (Marker.receiverValue ++ behind).drop k := by
    intro k
    rw [← found, List.drop_drop]
  constructor
  · have here : Text.startsWith receiverCall (js.drop offset) = false := by
      rw [found]
      rfl
    have later : Text.startsWith receiverCall (js.drop (offset + 1)) = true := by
      rw [next, value]
      exact List.isPrefixOf_iff_prefix.2 (List.prefix_append _ _)
    unfold memberOffset
    rw [if_neg (by omega), here, later]
    rfl
  · refine memberOffset_eq_self ?_ ?_
    · rw [next]
      rfl
    · rw [Nat.add_assoc, next]
      rfl

/-- The same by columns: from the column of the value, and from the column of its dot. -/
theorem memberOffset_of_line {js front rest : Text} {n : Nat}
    (found : (Text.lines js)[n]? = some (front ++ (Marker.receiverValue ++ rest))) :
    let start := Document.lineStart ⟨js, ""⟩ n + front.length
    memberOffset js (Document.offsetOf ⟨js, ""⟩ n front.length) = start + 6 ∧
      memberOffset js (Document.offsetOf ⟨js, ""⟩ n (front.length + 5)) = start + 5 := by
  intro start
  have inText : (Document.lines ⟨js, ""⟩)[n]? = _ := found
  obtain ⟨later, drop, -⟩ := Document.exists_drop inText
  rw [List.append_assoc] at drop
  have value : Marker.receiverValue.length = 21 := by decide
  have offset : ∀ column ≤ 5, Document.offsetOf ⟨js, ""⟩ n (front.length + column) =
      start + column := by
    intro column few
    rw [Document.offsetOf_of_lt inText, ← Nat.add_assoc]
    rw [List.length_append, List.length_append]
    omega
  have first : Document.offsetOf ⟨js, ""⟩ n front.length = start := offset 0 (Nat.zero_le 5)
  rw [first, offset 5 (Nat.le_refl 5)]
  exact memberOffset_receiverValue drop

section Places

variable {t before behind : Text} {source generated : Document} {p : Position}
  {n indent times : Nat} {columns : List Nat} {c : Cursor}

/-- At the end of its line a cursor behind a receiver is mapped to the dot in the value of the
receiver: the marker was longer, and the last token of the line is the member of the marker. -/
theorem target_at_end (places : ReceiverPlaces t before behind p.line n indent times columns)
    (cursor : Cursor.ofPosition source p = .ok c) (position : c.position = p)
    (word : c.word.text = []) (free : c.atEndOfWord = false)
    (found : source.lines[p.line]? = some (before ++ '@' :: behind))
    (character : p.character = before.length + 1)
    (ends : p.character = (source.lineText p.line).length) :
    ToOutput.target (generatedMap t) c generated =
      .ok (some ⟨n, (before.length + 5 + 4 * times : Nat)⟩) := by
  have char : c.char = none := by
    rw [ToOutput.char_of_cursor cursor, ends, List.getElem?_eq_none (Nat.le_refl _)]
  have empty : Text.body behind = [] := by
    obtain ⟨rest, text, whole | body⟩ := LoneReceiver.exists_lineText found
    all_goals
      rw [text, character, List.length_append, List.length_cons] at ends
      have none_ : rest = [] := List.length_eq_zero_iff.1 (by omega)
    · rw [← whole, none_]
      rfl
    · rw [← body, none_]
  have indented := places.indented
  rw [← Declarations.keywordedColumn_of_le (show indent ≤ before.length + 5 by omega)]
  refine places.entries.target_of_end (congrArg Position.line position) char word free places.member
    (by rw [position]; omega) (by omega) (fun column token => ?_) (places.last empty)
  have := places.apart column token
  rw [position]
  omega

/-- Before other text a cursor behind a receiver is mapped to the beginning of the value of the
receiver, if the receiver is no part of a word and no keyword was inserted at it. -/
theorem target_before_text (places : ReceiverPlaces t before behind p.line n indent times columns)
    (receiver : LoneReceiver before behind) (cursor : Cursor.ofPosition source p = .ok c)
    (position : c.position = p) (line : c.line = source.lineText p.line)
    (word : c.word.text = []) (free : c.atEndOfWord = false)
    (found : source.lines[p.line]? = some (before ++ '@' :: behind))
    (character : p.character = before.length + 1)
    (inside : p.character < (source.lineText p.line).length)
    (apart : ∀ c ∈ before.getLast?, isIdentifier c = false)
    (untouched : Text.isEmptyLine before = true → '=' ∉ behind) :
    ToOutput.target (generatedMap t) c generated =
      .ok (some ⟨n, (before.length + 4 * times : Nat)⟩) := by
  obtain ⟨rest, text, part⟩ := LoneReceiver.exists_lineText found
  have char : ∃ d, c.char = some d ∧ isBlank d = true := by
    rw [ToOutput.char_of_cursor cursor, text, character]
    rw [text, character, List.length_append, List.length_cons] at inside
    obtain ⟨d, more, rfl⟩ := List.exists_cons_of_ne_nil
      (show rest ≠ [] from fun none_ => by simp [none_] at inside)
    refine ⟨d, by simp, ?_⟩
    have blank := receiver.receiverLine_eq.2.1
    have front : d :: more <+: behind := by
      rcases part with rfl | body
      · exact List.prefix_refl _
      · exact ⟨Text.tail behind, by rw [body, Text.body_append_tail]⟩
    obtain ⟨later, rfl⟩ := front
    exact blank
  obtain ⟨d, own, blank⟩ := char
  have previous : c.previousFilled? = some before.length := by
    have taken : c.line.take c.position.character = before ++ ['@'] := by
      rw [line, text, position, character, List.append_cons,
        List.take_left' (by rw [List.length_append, List.length_singleton])]
    have filled : ((before ++ ['@']).reverse.dropWhile (· == ' ')).length = before.length + 1 := by
      rw [List.reverse_append]
      change ('@' :: before.reverse).length = _
      rw [List.length_cons, List.length_reverse]
    unfold Cursor.previousFilled?
    rw [taken, filled]
  have indented := places.indented
  rw [← Declarations.keywordedColumn_of_le indented]
  refine places.entries.target_of_closest (congrArg Position.line position) (by rw [own]; rfl) ?_ ?_
    word free (places.first apart) (by rw [position]; omega) (fun column token => ?_)
    (fun column token le => ?_) (places.untouched untouched)
    ⟨n, places.line_bound, _, by rw [Declarations.keywordedColumn_of_le indented], Nat.le_refl _⟩ ?_
  · rw [own]
    rintro same
    obtain rfl := Option.some.inj same
    exact absurd blank (by decide)
  · intro place same
    obtain rfl := Option.some.inj (previous.symm.trans same)
    rw [line, text, List.getElem?_append_right (Nat.le_refl _), Nat.sub_self]
    exact fun brace => absurd (Option.some.inj brace) (by decide)
  · have := places.apart column token
    rw [position]
    omega
  · have := places.apart column token
    rw [position] at le
    omega
  · have := places.bound
    omega

/-- **The request behind a receiver.** The character before the cursor is the receiver and no dot,
so the position itself is mapped. -/
theorem journal_behind_receiver {τ : Type} {w : Workspace τ} {r : Ready} {uri file : String}
    {map : ColumnMap} {column : Nat} (ready : w.ready? uri = some r)
    (named : virtualFileName uri = .ok file) (text : r.generated.js = some r.js)
    (mapped : r.generated.map = some map) (genuine : r.generated.mechanism ≠ some .sourceInOutput)
    (receiver : LoneReceiver before behind) (cursor : Cursor.ofPosition r.document p = .ok c)
    (position : c.position = p) (line : c.line = r.document.lineText p.line)
    (found : r.document.lines[p.line]? = some (before ++ '@' :: behind))
    (character : p.character = before.length + 1)
    (target : ToOutput.target map c r.output = .ok (some ⟨n, column⟩)) (few : n ≤ 2147483647)
    (short : column ≤ 2147483647) (service : LanguageService) :
    (w.completions service uri p).journal = [⟨.completions, file,
      some (memberOffset r.js (r.output.offsetOf n column) : Nat)⟩] := by
  obtain ⟨ending, shape, -⟩ := LoneReceiver.exists_lineText found
  have outside := receiver.commentPosition?_eq_none (line.trans shape)
    (by rw [position, character]) r.output
  have offset := requestOffset_of_target text mapped genuine cursor position outside target few
    short
  have noDot : ((r.document.charAt ((r.document.offsetAt p : Int) - 1) == some trigger) &&
      r.generated.hasMap) = false := by
    rw [Document.charAt_before found character (by rw [shape, character]; simp)]
    rfl
  exact journal_completions ready named noDot rfl offset service

end Places

section Opened

variable {τ : Type} [Timeline τ] [LT τ] [DecidableLT τ] [LE τ] [DecidableLE τ] {w : Workspace τ}
  {now : τ} {uri : String} {text before behind : Text} {version : Int} {g : Generated}
  {p : Position}

/-- **Completions behind a receiver on its own.** They ask once, on a line of code whose generated
line is no declaration. Before other text they ask at the member of the value, directly behind
`this.`, unless the receiver continues a word or could itself be assigned to; at the end of the line
they ask one character before that. -/
theorem completions_behind_receiver (unmarked : '↯' ∉ text ∧ 'ᛟ' ∉ text)
    (small : text.length < 2 ^ 23) (fresh : w.cache.valid? (digest text) now = none)
    (opened : (w.change (generate LineByLine.compile) now uri text version).outcome = .ok (some g))
    (clear : g.diagnostics = none)
    (found : (Text.lines text)[p.line]? = some (before ++ '@' :: behind))
    (receiver : LoneReceiver before behind) (character : p.character = before.length + 1)
    (code : isComment (before ++ '@' :: behind) = false) (service : LanguageService) :
    let workspace := (w.change (generate LineByLine.compile) now uri text version).workspace
    let line := Document.lineText ⟨text, uri⟩ p.line
    ∃ js map file, g.js = some js ∧ g.map = some map ∧ virtualFileName uri = .ok file ∧
      ∃ n : Nat, (∀ m ∈ map.mappings, m.sourceLine = p.line ↔ m.outputLine = n) ∧
      (Declarations.parse? ((generatedLines text).getD n []) = none →
        ∃ front rest, (Text.lines js)[n]? = some (front ++ (Marker.receiverValue ++ rest)) ∧
          let start := Document.lineStart ⟨js, ""⟩ n + front.length
          (p.character = line.length →
            (workspace.completions service uri p).journal =
              [⟨.completions, file, some (start + 5 : Nat)⟩]) ∧
          (p.character < line.length → (∀ c ∈ before.getLast?, isIdentifier c = false) →
            (Text.isEmptyLine before = true → '=' ∉ behind) →
            (workspace.completions service uri p).journal =
              [⟨.completions, file, some (start + 6 : Nat)⟩])) := by
  intro workspace line
  obtain ⟨made, ⟨file, named⟩, ready⟩ := ready?_of_change fresh opened
  have compiles := (Pipeline.diagnostics_eq_none_iff made).1 clear
  have draft := Pipeline.toDraft_of_generate (Pipeline.compile_of_compiles compiles) made
  obtain ⟨js, map, -⟩ := Pipeline.parts_of_generate made clear
  have genuine : g.mechanism ≠ some .sourceInOutput := by
    rw [draft]
    exact fun sketched => nomatch sketched
  obtain ⟨n, indent, times, columns, places⟩ :=
    receiver.exists_places unmarked small compiles found code
  have here : (Document.lines ⟨text, uri⟩)[p.line]? = some (before ++ '@' :: behind) := found
  obtain ⟨c, cursor, position, own, word, free⟩ :=
    receiver.exists_cursor here character (by dsimp only; omega)
  refine ⟨_, _, file, js, map, named, n, places.entries.same_line, fun plain => ?_⟩
  obtain ⟨front, rest, inLine, size⟩ := places.generated plain
  obtain ⟨atValue, atDot⟩ := memberOffset_of_line inLine
  have bound := places.bound
  have asks : ∀ column : Nat, column ≤ 2147483647 →
      ToOutput.target (generatedMap text) c ⟨generatedText text, ""⟩ = .ok (some ⟨n, column⟩) →
      (workspace.completions service uri p).journal = [⟨.completions, file,
        some (memberOffset (generatedText text)
          (Document.offsetOf ⟨generatedText text, ""⟩ n column) : Nat)⟩] :=
    fun column short target => journal_behind_receiver (ready _ js) named js map genuine receiver
      cursor position own here character target places.line_bound short service
  refine ⟨front, rest, inLine, fun ends => ?_, fun inside apart untouched => ?_⟩
  · have column : before.length + 5 + 4 * times = front.length + 5 := by omega
    rw [asks _ bound (target_at_end places cursor position word free here character ends), column,
      atDot]
  · rw [asks _ (by omega) (target_before_text places receiver cursor position own word free here
      character inside apart untouched), ← size, atValue]

end Opened

/-- A receiver behind a keyword that was inserted is asked for its members, if there is a word
behind it. -/
theorem completions_behind_receiver_assigned :
    let uri := "file:///p/a.coffee"
    let text := "var x\nx = @ b".toList
    let w : Workspace Nat := .empty {} 180
    let workspace := (w.change (generate LineByLine.compile) 0 uri text 1).workspace
    let js := "\nlet x = (this.valueOf(),this)  b;".toList
    LoneReceiver "x = ".toList " b".toList ∧ ∃ front rest,
      (Text.lines js)[1]? = some (front ++ (Marker.receiverValue ++ rest)) ∧
        (workspace.completions (CannedAnswers.toService {}) uri (.mk 1 5)).journal =
          [⟨.completions, "/p/a.coffee.ts",
            some (Document.lineStart ⟨js, ""⟩ 1 + front.length + 6 : Nat)⟩] := by
  intro uri text w workspace js
  let g := (generate LineByLine.compile ⟨text, uri⟩).outcome.toOption.get (by decide +kernel)
  have opened : (w.change (generate LineByLine.compile) 0 uri text 1).outcome = .ok (some g) := by
    decide +kernel
  have receiver : LoneReceiver "x = ".toList " b".toList := ⟨by decide, by decide⟩
  obtain ⟨js', map, file, generated, mapped, named, n, lines, request⟩ :=
    completions_behind_receiver (p := .mk 1 5) (by decide) (by decide) rfl opened
      (by decide +kernel) (show (Text.lines text)[1]? = _ by decide) receiver rfl (by decide)
      (CannedAnswers.toService {})
  have known : g.js = some js ∧ virtualFileName uri = .ok "/p/a.coffee.ts" ∧
      g.map.any (fun map => ⟨1, 0, 1, 4⟩ ∈ map.mappings) = true := by decide +kernel
  obtain rfl := Option.some.inj (generated.symm.trans known.1)
  obtain rfl := Except.ok.inj (named.symm.trans known.2.1)
  obtain rfl : n = 1 := by
    rw [mapped] at known
    exact Int.ofNat.inj ((lines _ (by simpa using known.2.2)).1 rfl).symm
  obtain ⟨front, rest, line, -, inside⟩ := request (by decide +kernel)
  have apart : ∀ c ∈ "x = ".toList.getLast?, isIdentifier c = false := by
    intro c last
    obtain rfl := Option.some.inj last
    rfl
  exact ⟨receiver, front, rest, line, inside (by decide) apart (by decide)⟩

/-- Four texts with a receiver on its own behind which completions do not ask for its members. At
the end of a line they ask one character too early; in the other texts the receiver follows a
comment sign or a digit, or stands on a line with declarations. -/
theorem completions_off_member :
    let uri := "file:///p/a.coffee"
    let opened := fun text : Text => (Workspace.empty {} 180 : Workspace Nat).change
      (generate LineByLine.compile) 0 uri text 1
    let asked := fun (text : Text) (p : Position) =>
      ((opened text).workspace.completions (CannedAnswers.toService {}) uri p).journal
    let generated := fun (text : Text) => match (opened text).outcome with
      | .ok (some g) => if g.diagnostics = none then g.js else none
      | _ => none
    (LoneReceiver [] [] ∧ generated "@".toList = some "(this.valueOf(),this) ;".toList ∧
      asked "@".toList (.mk 0 1) = [⟨.completions, "/p/a.coffee.ts", some 5⟩]) ∧
    (LoneReceiver ['#'] [] ∧ generated "#@".toList ≠ none ∧
      asked "#@".toList (.mk 0 2) = []) ∧
    (LoneReceiver "a1".toList " b".toList ∧
      generated "a1@ b".toList = some "a1(this.valueOf(),this)  b;".toList ∧
      asked "a1@ b".toList (.mk 0 3) = [⟨.completions, "/p/a.coffee.ts", some 0⟩]) ∧
    (LoneReceiver "var c, ".toList " b".toList ∧
      generated "var c, @ b\nc = 1".toList =
        some "var (this.valueOf(),this)  b;\nlet c = 1;".toList ∧
      asked "var c, @ b\nc = 1".toList (.mk 0 8) = [⟨.completions, "/p/a.coffee.ts", some 7⟩]) := by
  intro uri opened asked generated
  refine ⟨⟨⟨by decide, by decide⟩, by decide +kernel, by decide +kernel⟩,
    ⟨⟨by decide, by decide⟩, by decide +kernel, by decide +kernel⟩,
    ⟨⟨by decide, by decide⟩, by decide +kernel, by decide +kernel⟩,
    ⟨⟨by decide, by decide⟩, by decide +kernel, by decide +kernel⟩⟩

end Workspace

end DialectBridge
