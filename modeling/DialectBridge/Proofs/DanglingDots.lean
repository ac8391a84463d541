import DialectBridge.Proofs.Completions
import DialectBridge.Proofs.DottedLines

/-!
# Completions behind a dangling dot

A dot that ends a line is terminated, so the line is rejected, its end is cut off, and the text
compiles with a placeholder behind the dot. The line is then put back with its own end. All of this
leaves the columns alone: the line that was compiled has a token where the dot is in the source, be
it the dot itself or, where a question mark was cut off as well, the placeholder. So the position
before the dot has an entry of its own, and it leads to the dot at the end of the generated line,
which only keywords have moved.

Forceful preparation adds nothing to such a line, for then the line would not end in its terminator.
But it may close a call on the next line, and when that line begins with `this.valueOf()`, it is
taken for the value of a receiver by completions at the end of the line above.
-/

set_option autoImplicit false

namespace DialectBridge

open LineByLine

/-- The last elements of related lists are related. -/
theorem exists_getLast? {α β : Type} {related : α → β → Prop} {all : List α} {all' : List β}
    (pairs : List.Forall₂ related all all') {a : α} (last : all.getLast? = some a) :
    ∃ b, all'.getLast? = some b ∧ related a b := by
  rw [List.getLast?_eq_getElem?] at last ⊢
  rw [← pairs.length_eq]
  exact exists_getElem?_right pairs last

/-! ## The ends of forced lines -/

namespace Preparation

/-- A character, or what a spread operator or the word beside it became. -/
def Spread (c c' : Char) : Prop :=
  c' = c ∨ (isIdentifierStart c = true ∨ c = '.') ∧
    (isIdentifierStart c' = true ∨ c' ∈ ['_', ':', ' '])

theorem Spread.trans {a b c : Char} (first : Spread a b) (second : Spread b c) : Spread a c := by
  rcases first with rfl | ⟨old, new⟩
  · exact second
  · rcases second with rfl | ⟨-, newer⟩
    · exact .inr ⟨old, new⟩
    · exact .inr ⟨old, newer⟩

/-- Other characters stay. -/
theorem Spread.eq {c c' : Char} (h : Spread c c') (kept : isIdentifierStart c = false ∧ c ≠ '.') :
    c' = c := by
  rcases h with same | ⟨letter | dot, -⟩
  · exact same
  · exact absurd (kept.1.symm.trans letter) Bool.false_ne_true
  · exact absurd dot kept.2

/-- Other characters are not written. -/
theorem Spread.eq_of_unwritten {c c' : Char} (h : Spread c c')
    (unwritten : isIdentifierStart c' = false ∧ c' ∉ ['_', ':', ' ']) : c' = c := by
  rcases h with same | ⟨-, letter | sign⟩
  · exact same
  · exact absurd (unwritten.1.symm.trans letter) Bool.false_ne_true
  · exact absurd sign unwritten.2

theorem forall₂_spread (line : Text) :
    List.Forall₂ Spread line (Text.scan trailingSpread (Text.scan leadingSpread line)) := by
  have refl : ∀ c, Spread c c := fun c => .inl rfl
  have keep : ∀ c (rest rest' : Text), List.Forall₂ Spread rest rest' →
      List.Forall₂ Spread (c :: rest) (c :: rest') := fun c _ _ later => .cons (refl c) later
  have dot : ∀ {c' : Char}, (isIdentifierStart c' = true ∨ c' ∈ ['_', ':', ' ']) → Spread '.' c' :=
    fun new => .inr ⟨.inr rfl, new⟩
  refine forall₂_trans (fun _ _ _ first second => first.trans second)
    (Text.scan_induction (List.Forall₂ Spread) .nil keep (fun before t r h => ?_) line)
    (Text.scan_induction (List.Forall₂ Spread) .nil keep (fun before t r h => ?_) _)
  · obtain ⟨c, rest, start, rfl, rfl⟩ := leadingSpread_eq_some h
    refine ⟨_, rest, rfl, rfl, by simp, fun rest' later => ?_⟩
    exact .cons (dot (.inr (by decide))) (.cons (dot (.inr (by decide)))
      (.cons (dot (.inr (by decide))) (.cons (refl c) later)))
  · obtain ⟨c, rest, start, rfl, rfl⟩ := trailingSpread_eq_some h
    refine ⟨_, rest, rfl, rfl, by simp, fun rest' later => ?_⟩
    exact .cons (refl c) (.cons (dot (.inr (by decide))) (.cons (dot (.inr (by decide)))
      (.cons (dot (.inr (by decide))) later)))

/-- A string that is closed has its quote behind its code. -/
theorem exists_closeString (line : Text) :
    ∃ added : Text, (∀ a ∈ added, a ∈ ['"', '\x27', ')']) ∧
      (closeString? line).getD line = Text.body line ++ added ++ Text.tail line := by
  have whole := Text.body_append_tail line
  unfold closeString?
  dsimp only
  split
  · next quote only =>
    split
    · exact ⟨[], by simp, by rw [Option.getD_none, List.append_nil, whole]⟩
    · refine ⟨[quote], fun a member => ?_, by simp⟩
      obtain rfl := List.mem_singleton.1 member
      have inside : a ∈ (Text.body line).filter isQuote := only ▸ List.mem_singleton_self a
      have sign := (List.mem_filter.1 inside).2
      simp only [isQuote, Bool.or_eq_true, beq_iff_eq] at sign
      rcases sign with rfl | rfl <;> decide
  · exact ⟨[], by simp, by rw [Option.getD_none, List.append_nil, whole]⟩

/-- A call that is closed has its parenthesis behind its code. -/
theorem exists_closeCall (line : Text) :
    ∃ added : Text, (∀ a ∈ added, a ∈ ['"', '\x27', ')']) ∧
      (closeCall? line).getD line = Text.body line ++ added ++ Text.tail line := by
  unfold closeCall?
  cases Text.firstPlace? isOpenCall (Text.body line) with
  | none =>
    refine ⟨[], by simp, ?_⟩
    rw [Option.map_none, Option.getD_none, List.append_nil, Text.body_append_tail]
  | some place => exact ⟨[')'], by simp, by simp⟩

/-- What forceful edits add to a line that does not end in a brace. -/
theorem exists_forced {line front : Text} {c : Char} (code : Text.body line = front ++ [c])
    (noBrace : c ≠ '\x7b' ∧ c ≠ '\x7d') :
    ∃ added : Text, (∀ a ∈ added, a ∈ ['"', '\x27', ')']) ∧
      List.Forall₂ Spread (Text.body line ++ added ++ Text.tail line) (forcefulLine line) := by
  have clean : ∀ added : Text, (∀ a ∈ added, a ∈ ['"', '\x27', ')']) → '\r' ∉ added :=
    fun added signs member => absurd (signs _ member) (by decide)
  obtain ⟨quotes, first, closed⟩ := exists_closeString line
  obtain ⟨parens, second, called⟩ := exists_closeCall (Text.body line ++ quotes ++ Text.tail line)
  rw [Text.body_append_added line (clean quotes first),
    Text.tail_append_added line (clean quotes first), List.append_assoc _ quotes parens] at called
  have signs : ∀ a ∈ quotes ++ parens, a ∈ ['"', '\x27', ')'] := by
    intro a member
    exact (List.mem_append.1 member).elim (first a) (second a)
  have kept : removeBrace? (Text.body line ++ (quotes ++ parens) ++ Text.tail line) = none := by
    unfold removeBrace?
    rw [Text.body_append_added line (clean _ signs)]
    split
    · next before d split =>
      have whole := Text.splitLast?_eq_some split
      have last : d = c ∨ d ∈ quotes ++ parens := by
        rw [code] at whole
        have ends := congrArg List.getLast? whole
        rw [List.getLast?_concat, List.getLast?_append, List.getLast?_concat] at ends
        cases added : (quotes ++ parens).getLast? with
        | none =>
          rw [added] at ends
          exact .inl (Option.some.inj ends).symm
        | some e =>
          rw [added] at ends
          exact .inr (Option.some.inj ends ▸ List.mem_of_getLast? added)
      have noSign : d ≠ '\x7b' ∧ d ≠ '\x7d' := by
        rcases last with rfl | member
        · exact noBrace
        · have sign := signs d member
          constructor <;> rintro rfl <;> exact absurd sign (by decide)
      rw [if_neg (by simp [noSign])]
    · rfl
  refine ⟨quotes ++ parens, signs, ?_⟩
  unfold forcefulLine
  dsimp only
  rw [closed, called, kept]
  exact forall₂_spread _

/-- **A line after which a member is missing ends in a terminator that was there before.** The line
may have been forced, but then nothing was added to it. -/
theorem length_of_cut {line front text ending : Text} {c d : Char}
    (code : Text.body line = front ++ [c]) (sign : c ∈ ['.', ';'])
    (whole : text ++ ending = line ∨ text ++ ending = forcefulLine line)
    (ends : ending = [] ∨ ending = ['\r']) (last : text.getLast? = some d)
    (open_ : d ∈ [';', '[']) : c = ';' ∧ d = ';' ∧ text.length = (Text.body line).length := by
  have noBrace : c ≠ '\x7b' ∧ c ≠ '\x7d' := by
    constructor <;> rintro rfl <;> exact absurd sign (by decide)
  obtain ⟨added, signs, pairs⟩ : ∃ added : Text, (∀ a ∈ added, a ∈ ['"', '\x27', ')']) ∧
      List.Forall₂ Spread (Text.body line ++ added ++ Text.tail line) (text ++ ending) := by
    rcases whole with same | forced
    · refine ⟨[], by simp, ?_⟩
      rw [same, List.append_nil, Text.body_append_tail]
      exact List.forall₂_same.2 fun c _ => .inl rfl
    · rw [forced]
      exact exists_forced code noBrace
  -- The code with what was added to it ends in a sign, which no spread operator reaches.
  obtain ⟨e, final, origin⟩ : ∃ e, (Text.body line ++ added).getLast? = some e ∧
      (added = [] ∧ e = c ∨ e ∈ ['"', '\x27', ')']) := by
    rw [code, List.getLast?_append, List.getLast?_concat]
    cases tail : added.getLast? with
    | none => exact ⟨c, rfl, .inl ⟨List.getLast?_eq_none_iff.1 tail, rfl⟩⟩
    | some e => exact ⟨e, rfl, .inr (signs e (List.mem_of_getLast? tail))⟩
  have size := pairs.length_eq
  simp only [List.length_append] at size
  have same : text.length = (Text.body line ++ added).length := by
    rw [List.length_append]
    rcases ends with rfl | rfl <;> rcases Text.tail_eq line with none_ | return_
    · simp only [none_, List.length_nil] at size
      omega
    · rw [return_, List.append_nil] at pairs
      obtain ⟨f, other, spread⟩ := exists_getLast? pairs List.getLast?_concat
      obtain rfl := Option.some.inj (last.symm.trans other)
      obtain rfl := spread.eq (by decide)
      exact absurd open_ (by decide)
    · rw [none_, List.append_nil] at pairs
      obtain ⟨f, other, spread⟩ := exists_getLast? pairs final
      rw [List.getLast?_concat] at other
      obtain rfl := Option.some.inj other
      obtain rfl := spread.eq_of_unwritten (by decide)
      rcases origin with ⟨-, rfl⟩ | quote
      · exact absurd sign (by decide)
      · exact absurd quote (by decide)
    · simp only [return_, List.length_singleton] at size
      omega
  obtain rfl : e = d := by
    have place := List.getLast?_eq_getElem? ▸ final
    have place' := List.getLast?_eq_getElem? ▸ last
    have inside := (List.getElem?_eq_some_iff.1 place).1
    obtain ⟨f, other, spread⟩ := exists_getElem?_right pairs
      ((List.getElem?_append_left inside).trans place)
    rw [← same, List.getElem?_append_left (by omega), place'] at other
    obtain rfl := Option.some.inj other
    refine (spread.eq_of_unwritten ?_).symm
    simp only [List.mem_cons, List.not_mem_nil, or_false] at open_
    rcases open_ with rfl | rfl <;> decide
  rcases origin with ⟨rfl, rfl⟩ | quote
  · rw [List.append_nil] at same
    simp only [List.mem_cons, List.not_mem_nil, or_false] at sign open_
    rcases sign with rfl | rfl
    · exact absurd open_ (by decide)
    · exact ⟨rfl, rfl, same⟩
  · simp only [List.mem_cons, List.not_mem_nil, or_false] at open_
    rcases open_ with rfl | rfl <;> exact absurd quote (by decide)

/-- Marks behind commas leave the end of a line that has no spaces. -/
theorem Blotted.exists_ending {front ending edited : Text}
    (h : Blotted false (front ++ ending) edited) (filled : ' ' ∉ ending) :
    ∃ front', edited = front' ++ ending ∧ front'.length = front.length := by
  obtain ⟨front', last, flag, rfl, first, later⟩ := h.exists_of_append
  obtain rfl := later.eq_of_filled filled
  exact ⟨front', rfl, first.length_eq⟩

/-- **A dot at the end of a line after which a member is missing was terminated**, and nothing else
was added to the line. -/
theorem Carried.exists_dangling {t line edited front text ending cut : Text} {l p k : Nat}
    (carried : Carried t l line edited p k) (plain : '@' ∉ line)
    (code : Text.body line = front ++ ['.'])
    (whole : text ++ ending = edited ∨ text ++ ending = forcefulLine edited)
    (ends : ending = [] ∨ ending = ['\r']) (cutOff : ∃ head, text = head ++ cut)
    (known : cut ∈ ErrorLine.memberCuts) :
    admitsDot front = true ∧ text.length = front.length + 2 ∧
      (cut = ['.', ';'] ∨ cut = ['?', '.', ';']) := by
  have signs : ' ' ∉ Text.tail line ∧ Text.body (Text.tail line) = [] := by
    rcases Text.tail_eq line with none_ | return_
    · rw [none_]
      decide
    · rw [return_]
      decide
  obtain ⟨d, last, open_, terminated⟩ : ∃ d, text.getLast? = some d ∧ d ∈ [';', '['] ∧
      (d = ';' → cut = ['.', ';'] ∨ cut = ['?', '.', ';']) := by
    obtain ⟨head, rfl⟩ := cutOff
    simp only [ErrorLine.memberCuts, List.mem_cons, List.not_mem_nil, or_false] at known
    rcases known with rfl | rfl | rfl | rfl <;> rw [List.getLast?_append]
    · exact ⟨';', rfl, by decide, fun _ => .inl rfl⟩
    · exact ⟨'[', rfl, by decide, fun same => absurd same (by decide)⟩
    · exact ⟨';', rfl, by decide, fun _ => .inr rfl⟩
    · exact ⟨'[', rfl, by decide, fun same => absurd same (by decide)⟩
  obtain ⟨dotted, kind, blots⟩ := carried.exists_dotted
  rw [receiverLine_of_not_mem plain] at kind
  -- Whatever the code ends in now, there is only what the line had before it.
  have ended : ∀ {before : Text} {c : Char}, dotted = before ++ [c] ++ Text.tail line →
      '.' ∈ before ++ [c] → c ∈ ['.', ';'] →
      c = ';' ∧ d = ';' ∧ text.length = before.length + 1 := by
    intro before c shape dot sign
    have other : c ≠ '\r' ∧ c ≠ ' ' := by
      constructor <;> rintro rfl <;> exact absurd sign (by decide)
    have body : Text.body dotted = before ++ [c] := by
      rw [shape, (Text.body_append other.1 _).1, signs.2, List.append_nil]
    have settled : Settled dotted := by
      refine ⟨body ▸ dot, ?_⟩
      rw [body, List.getLast?_concat]
      exact fun same => other.2 (Option.some.inj same)
    have blotted := blots settled
    rw [shape, List.append_assoc] at blotted
    obtain ⟨before', shape', size⟩ := blotted.exists_ending fun space => by
      rcases List.mem_cons.1 space with same | later
      · exact other.2 same.symm
      · exact signs.1 later
    have body' : Text.body edited = before' ++ [c] := by
      rw [shape', ← List.append_assoc, (Text.body_append other.1 _).1, signs.2, List.append_nil]
    have ends := length_of_cut body' sign whole ends last open_
    rw [body', List.length_append, List.length_singleton, size] at ends
    exact ends
  cases kind with
  | kept =>
    have shape : line = front ++ ['.'] ++ Text.tail line := by
      rw [← code, Text.body_append_tail]
    exact absurd (ended shape (by simp) (by decide)).1 (by decide)
  | @terminated before code' admits =>
    obtain rfl : before = front := List.append_cancel_right (code'.symm.trans code)
    have shape : before ++ ['.', ';'] ++ Text.tail line =
        (before ++ ['.']) ++ [';'] ++ Text.tail line := by simp
    obtain ⟨-, semicolon, size⟩ := ended shape (by simp) (by decide)
    rw [List.length_append, List.length_singleton] at size
    exact ⟨admits, size, terminated semicolon⟩

end Preparation

/-! ## The line that is put back -/

/-- A line that ends in a dot declares nothing. -/
theorem Declarations.parse?_append_dot (front : Text) : parse? (front ++ ['.']) = none := by
  cases parsed : parse? (front ++ ['.']) with
  | none => rfl
  | some found =>
    obtain ⟨indentation, names⟩ := found
    have ends := congrArg List.getLast? (declaring_of_parse? parsed).shape
    rw [← List.append_assoc, ← List.append_assoc, List.getLast?_concat,
      List.getLast?_concat] at ends
    exact absurd (Option.some.inj ends) (by decide)

/-- The dot before a placeholder and the placeholder are tokens. -/
theorem LineByLine.tokens_placeholder (front rest : Text) :
    front.length ∈ tokenColumns false 0 (front ++ '.' :: 'ᛝ' :: rest) ∧
      front.length + 1 ∈ tokenColumns false 0 (front ++ '.' :: 'ᛝ' :: rest) := by
  have signs : isIdentifier '.' = false ∧ isBlank '.' = false ∧ isIdentifier 'ᛝ' = false ∧
      isBlank 'ᛝ' = false := by decide
  obtain ⟨noLetter, filled, noLetter', filled'⟩ := signs
  rw [tokenColumns_append]
  simp [tokenColumns, noLetter, filled, noLetter', filled']

/-- Lines with one of them exchanged take up little more. -/
theorem Text.extent_set_le (all : List Text) (k : Nat) (new : Text) :
    extent (all.set k new) ≤ extent all + (new.length + 1) := by
  induction all generalizing k with
  | nil => exact Nat.zero_le _
  | cons line more ih =>
    cases k with
    | zero =>
      rw [List.set_cons_zero, extent, extent]
      omega
    | succ k =>
      have later := ih k
      rw [List.set_cons_succ, extent, extent]
      omega

/-- The lines with one of them put back take up a bounded multiple of the compiled text. -/
theorem LineByLine.extent_putBack_le (t : Text) (k : Nat) (new : Text) :
    Text.extent (putBack t k new) ≤ 3 * (t.length + 1) + (new.length + 1) := by
  have outputs : Text.extent (outputLines t) ≤ _ := Preparation.extent_lineOutput_le t
  have exchanged := Text.extent_set_le (outputLines t) k new
  have count := Text.length_le_extent (Text.lines t)
  rw [Text.extent_lines] at outputs count
  have released : Text.extent ((putBack t k new).map id) ≤
      1 * Text.extent ((outputLines t).set k new) + 0 * ((outputLines t).set k new).length := by
    refine Text.extent_le_of_forall₂
      ((Recovery.forall₂_joinPrevious _ k).imp fun line line' h => ?_)
    rcases h with rfl | ⟨front, rfl, rfl⟩
    · rw [id]
      omega
    · rw [id, List.length_append, List.length_append, List.length_singleton, List.length_singleton]
      omega
  rw [List.map_id] at released
  omega

/-- There are no more narrowings than characters. -/
theorem Cleanup.length_narrowings_le (js : Text) :
    (Declarations.narrowings (Text.lines (replaceResidues js))).length ≤ js.length + 1 := by
  have names := Declarations.length_narrowings_le (Text.lines (replaceResidues js))
  have replaced : Text.extent ((Text.lines js).map replaceLine) ≤
      1 * Text.extent (Text.lines js) + 0 * (Text.lines js).length := by
    refine Text.extent_le_of_forall₂ (List.forall₂_same.2 fun line _ => ?_)
    rw [length_replaceLine]
    omega
  rw [lines_replaceResidues] at names ⊢
  rw [Text.extent_lines] at replaced
  omega

namespace Preparation

/-- What the map and the generated text have for a line that ends in a dot: the tokens of the line,
`times` keywords, and a token where the dot stands. -/
structure DotPlaces (js : Text) (map : ColumnMap) (l n column indent times : Nat)
    (columns : List Nat) : Prop where
  entries : ToOutput.TokenEntries map l n indent times columns
  token : column ∈ columns
  indented : indent ≤ column
  untouched : column ≠ indent ∨ times = 0
  generated : ∃ front, (Text.lines js)[n]? = some (front ++ ['.']) ∧
    front.length = column + 4 * times
  line_bound : n ≤ 2147483647
  bound : column + 4 * times ≤ 2147483647

variable {t base t' line front text ending new : Text} {l n k : Nat}

/-- **A line that is put back with a dangling dot** ends in the dot, in the column that the dot has
in the source, and the line that was compiled for it has a token there. -/
theorem exists_restored_dot (plain : '@' ∉ t) (submitted : Submitted (prepare t).text base)
    (restored : Restored base t' n k text ending new)
    (place : (placesFrom 0 (editedLines t))[l]? = some n) (found : (Text.lines t)[l]? = some line)
    (code : Text.body line = front ++ ['.']) :
    admitsDot front = true ∧ n ∉ (prepare t).tweaked ∧ ∃ before compiled : Text,
      new = before ++ ['.'] ∧ before.length = front.length ∧
      (filledLines t')[k]? = some (compiled, n) ∧ isComment compiled = false ∧
      front.length ∈ tokenColumns false 0 compiled := by
  have filled : Text.isEmptyLine line = false := by
    refine List.all_eq_false.2 ⟨'.', ?_, by decide⟩
    rw [← Text.body_append_tail line, code]
    simp
  obtain ⟨edited, p, k', carried⟩ := exists_carried found filled
  obtain rfl := Option.some.inj (carried.place.symm.trans place)
  have prepared := (getElem?_of_filledLines carried.filled).1
  have own := (getElem?_of_filledLines restored.number).1
  have whole : text ++ ending = edited ∨ text ++ ending = forcefulLine edited := by
    rcases getElem?_lines_base submitted prepared with same | forced
    · exact .inl (Option.some.inj (own.symm.trans same))
    · exact .inr (Option.some.inj (own.symm.trans forced))
  obtain ⟨head, cut, width, shape, known, rfl, exchanged⟩ := restored.cut
  obtain ⟨admits, size, kind⟩ := carried.exists_dangling
    (fun member => plain (Text.mem_of_mem_lines (List.mem_of_getElem? found) member)) code whole
    restored.ending_eq ⟨head, shape⟩ known
  have compiled : (filledLines t')[k]? =
      some (head ++ '.' :: 'ᛝ' :: (List.replicate width ' ' ++ ending), p) := by
    rw [exchanged, List.getElem?_set_self (List.getElem?_eq_some_iff.1 restored.number).1]
    simp
  have noComment :
      isComment (head ++ '.' :: 'ᛝ' :: (List.replicate width ' ' ++ ending)) = false := by
    have source : isComment (head ++ (cut ++ ending)) = false := by
      rw [← List.append_assoc, ← shape]
      exact restored.incomplete.1
    exact Recovery.isComment_append_dot _ source
  obtain ⟨dot, placeholder⟩ := tokens_placeholder head (List.replicate width ' ' ++ ending)
  refine ⟨admits, carried.unmarked, ?_⟩
  rw [shape, List.length_append] at size
  -- The token is the dot, or the placeholder where a question mark went with the dot.
  rcases kind with rfl | rfl
  · have same : head.length = front.length := by simpa using size
    exact ⟨head, _, rfl, same, compiled, noComment, same ▸ dot⟩
  · have same : head.length + 1 = front.length := by simpa using size
    exact ⟨head ++ ['?'], _, by simp, by simpa using same, compiled, noComment, same ▸ placeholder⟩

/-- How many lines and characters there are when a line was put back. -/
theorem restored_bounds (submitted : Submitted (prepare t).text base)
    (restored : Restored base t' n k text ending new) :
    k ≤ 61 * (t.length + 1) ∧
      (Text.joinLines (putBack base k new)).length ≤ 244 * (t.length + 1) + 3 := by
  have short := length_base_le submitted
  have number := (List.getElem?_eq_some_iff.1 restored.number).1
  have lines_ := Text.length_le_extent (Text.lines base)
  have few : (filledLines base).length ≤ (Text.lines base).length := by
    rw [← List.length_zipIdx (l := Text.lines base) (i := 0)]
    exact List.length_filter_le _ _
  have shorter : new.length ≤ text.length := by
    obtain ⟨head, cut, width, rfl, known, rfl, exchanged⟩ := restored.cut
    have kept := List.length_filter_le (· != ';') cut
    rw [List.length_append, List.length_append]
    omega
  have inside := Text.length_lt_extent
    (List.mem_of_getElem? (getElem?_of_filledLines restored.number).1)
  have some_ : putBack base k new ≠ [] :=
    List.ne_nil_of_mem (List.mem_of_getElem? (getElem?_putBack restored.number))
  have characters := Text.length_joinLines some_
  have whole := extent_putBack_le base k new
  rw [Text.extent_lines] at lines_ inside
  rw [List.length_append] at inside
  constructor <;> omega

/-- **The places of a dangling dot.** -/
theorem exists_dotPlaces (unmarked : 'ᛟ' ∉ t) (plain : '@' ∉ t) (small : t.length < 2 ^ 21)
    (submitted : Submitted (prepare t).text base) (restored : Restored base t' n k text ending new)
    (place : (placesFrom 0 (editedLines t))[l]? = some n) (found : (Text.lines t)[l]? = some line)
    (code : Text.body line = front ++ ['.']) :
    ∃ indent times columns, DotPlaces (Cleanup.cleanText (Text.joinLines (putBack base k new)))
      (Cleanup.cleanedMap (Text.joinLines (putBack base k new)) (.ofMappings (mappings t'))
        (Pipeline.numbers (prepare t).inserted) (Pipeline.numbers (prepare t).tweaked))
      l k front.length indent times columns := by
  obtain ⟨-, untweaked, before, compiled, rfl, size, own, noComment, token⟩ :=
    exists_restored_dot plain submitted restored place found code
  have letters := restored.letters
  have inBase := (getElem?_of_filledLines restored.number).1
  have output : (Text.lines (Cleanup.replaceResidues
      (Text.joinLines (putBack base k (before ++ ['.'])))))[k]? =
        some (Cleanup.replaceLine before ++ ['.']) := by
    rw [Cleanup.lines_replaceResidues, List.getElem?_map,
      restored.toExchanged.getElem?_lines (.inr letters), Option.map_some,
      Cleanup.replaceLine_append_dot]
  have free : 'ᛟ' ∉ Cleanup.replaceLine before ++ ['.'] := by
    rw [← Cleanup.replaceLine_append_dot]
    intro member
    have inText := letters _ (Cleanup.mem_of_mem_replaceLine member (by decide))
    rcases mem_of_mem_base submitted inBase (by decide) (List.mem_append_left ending inText) with
      old | ⟨-, marked⟩
    · exact unmarked old
    · exact untweaked marked
  have entries := tokenEntries_cleanedMap submitted (.restored restored) place untweaked
    restored.number own noComment output free
  have generated := Cleanup.getElem?_lines_cleanText output (Declarations.parse?_append_dot _) free
  rw [Declarations.keyworded_append (by decide)] at generated
  rw [(Text.leadingBlank_append (by decide) _ []).1] at entries
  have size' := Cleanup.length_replaceLine before
  have keywords := Declarations.keywordsOn_le k
    (Declarations.narrowings (Text.lines (Cleanup.replaceResidues
      (Text.joinLines (putBack base k (before ++ ['.']))))))
  have narrowings :=
    Cleanup.length_narrowings_le (Text.joinLines (putBack base k (before ++ ['.'])))
  obtain ⟨number, characters⟩ := restored_bounds submitted restored
  have part := Text.length_lt_extent (List.mem_of_getElem? found)
  have body := Text.length_body_le line
  rw [code, List.length_append, List.length_singleton] at body
  rw [Text.extent_lines] at part
  refine ⟨_, _, _, entries, token, ?_, ?_, ⟨_, generated, ?_⟩, ?_, ?_⟩
  · rw [← size, ← size']
    exact (List.takeWhile_sublist _).length_le
  · -- Keywords stand before assignments, so there is something between them and the dot.
    by_cases sign : '=' ∈ Cleanup.replaceLine before
    · refine .inl fun same => ?_
      rw [← size, ← size'] at same
      have all : Text.leadingBlank (Cleanup.replaceLine before) = Cleanup.replaceLine before :=
        (List.takeWhile_prefix isBlank).eq_of_length same.symm
      rw [← all] at sign
      exact absurd (Text.mem_leadingBlank sign) (by decide)
    · refine .inr (Declarations.keywordsOn_eq_zero ?_)
      rw [List.getD_eq_getElem?_getD, output, Option.getD_some, List.mem_append, not_or]
      exact ⟨sign, by decide⟩
  · rw [Declarations.length_keyworded, size', size]
  · omega
  · omega

end Preparation

/-! ## The request -/

section LastDot

variable {d : Document} {n : Nat} {front : Text}

/-- The offset of a dot that ends a line, and what stands around it. -/
theorem Document.offset_of_last_dot (found : d.lines[n]? = some (front ++ ['.'])) :
    d.offsetOf n front.length = d.lineStart n + front.length ∧
      d.text[d.lineStart n + front.length]? = some '.' ∧
      (d.lineStart n + front.length + 1 = d.text.length ∨
        d.text[d.lineStart n + front.length + 1]? = some '\n') := by
  obtain ⟨behind, drop, ends⟩ := exists_drop found
  have next : d.text.drop (d.lineStart n + front.length + 1) = behind := by
    rw [← List.drop_drop, drop]
    rfl
  refine ⟨offsetOf_of_lt found (by simp), ?_, ?_⟩
  · rw [← List.head?_drop, drop]
    rfl
  · rcases ends with rfl | feed
    · left
      have size := congrArg List.length drop
      rw [List.length_drop] at size
      simp only [List.length_append, List.length_cons, List.length_nil] at size
      omega
    · right
      rw [← List.head?_drop, next, feed]

/-- A cursor that is mapped to a dot at the end of a line stays there: its word is before the dot,
for behind the dot there is none. -/
theorem ToOutput.onWord?_of_last_dot {c : Cursor} (found : d.lines[n]? = some (front ++ ['.']))
    (named : c.word.text ≠ []) (line : n ≤ 2147483647) (short : front.length ≤ 2147483647) :
    Returns (onWord? c d ⟨n, front.length⟩) fun moved => ∀ x ∈ moved, x = ⟨n, front.length⟩ := by
  obtain ⟨offset, dot, ends⟩ := Document.offset_of_last_dot found
  have room : d.offsetOf n front.length < d.text.length :=
    Document.offsetOf_lt found (.inr (by simp))
  obtain ⟨word, next, atDot, behindDot, moved⟩ := onWord?_of_room (c := c) line short room
  rw [offset] at atDot behindDot moved room
  have none_ : next.text = [] := by
    have free : Text.wordAround d.text (d.lineStart n + front.length + 1) =
        .ok ⟨[], d.lineStart n + front.length + 1⟩ := by
      refine Text.wordAround_of_free room (fun e last => ?_) fun e first => ?_
      · rw [List.getLast?_take, if_neg (by omega), Nat.add_sub_cancel, dot] at last
        obtain rfl := Option.some.inj last
        decide
      · rw [List.head?_drop] at first
        rcases ends with end_ | feed
        · rw [List.getElem?_eq_none end_.ge] at first
          cases first
        · rw [feed] at first
          obtain rfl := Option.some.inj first
          decide
    obtain rfl := Except.ok.inj (behindDot.symm.trans free)
    rfl
  have left : word.text ≠ [] → word.offset ≠ d.lineStart n + front.length := by
    intro letters same
    rw [Text.wordAround_of_le room.le] at atDot
    obtain rfl := Except.ok.inj atDot
    refine letters ?_
    dsimp only at same ⊢
    rw [same, List.drop_eq_getElem_cons room, (List.getElem?_eq_some_iff.1 dot).2]
    rfl
  rw [moved]
  refine .ok fun x inside => ?_
  split at inside
  · next same =>
    obtain rfl := Option.some.inj inside
    rw [onWord?.settle, if_neg]
    simp only [Bool.and_eq_true, beq_iff_eq, not_and]
    intro _
    exact left (beq_iff_eq.1 same ▸ named)
  · split at inside
    · next same =>
      rw [none_] at same
      exact absurd (beq_iff_eq.1 same).symm named
    · cases inside

end LastDot

/-- **Every line that was put back with its own dot has its places.** -/
theorem Pipeline.exists_dotPlaces {source : Document} {g : Generated} {l : Nat} {line front : Text}
    (unmarked : 'ᛝ' ∉ source.text ∧ 'ᛟ' ∉ source.text) (plain : '@' ∉ source.text)
    (small : source.text.length < 2 ^ 21)
    (made : (generate LineByLine.compile source).outcome = .ok g)
    (fake : g.fakeLine = some (l : Int)) (mechanism : g.mechanism = some .modifiedSource)
    (found : source.lines[l]? = some line) (code : Text.body line = front ++ ['.']) :
    ∃ js map n indent times columns, g.js = some js ∧ g.map = some map ∧
      Preparation.admitsDot front = true ∧
      Preparation.DotPlaces js map l n front.length indent times columns := by
  cases (generate_ends unmarked.1).of_ok made with
  | sketched text mapless genuine =>
    rw [genuine] at fake
    cases fake
  | cleaned submitted rendered text mapped fakeLine way =>
    rw [way] at mechanism
    rw [fakeLine] at fake
    cases rendered with
    | direct compiles => cases mechanism
    | sketched exchanged => cases mechanism
    | restored restored =>
      have own := (getElem?_of_filledLines restored.number).1
      obtain ⟨l', -, place⟩ := Preparation.exists_place submitted own
        (Preparation.not_mem_inserted_of_faulty submitted restored.faulty)
      obtain rfl : l' = l :=
        Int.ofNat.inj ((Preparation.sourceLine_place place).symm.trans (Option.some.inj fake))
      obtain ⟨admits, -⟩ :=
        Preparation.exists_restored_dot plain submitted restored place found code
      obtain ⟨indent, times, columns, places⟩ :=
        Preparation.exists_dotPlaces unmarked.2 plain small submitted restored place found code
      exact ⟨_, _, _, indent, times, columns, text, mapped, admits, places⟩

namespace Workspace

open Preparation

/-- A line that ends in a dot, with the code before the dot. -/
theorem exists_dotted_line {d : Document} {l : Nat} (dot : (d.lineText l).getLast? = some '.') :
    ∃ line front, d.lines[l]? = some line ∧ d.lineText l = front ++ ['.'] ∧
      Text.body line = front ++ ['.'] := by
  cases found : d.lines[l]? with
  | none =>
    rw [Document.lineText_of_none found] at dot
    cases dot
  | some line =>
    obtain ⟨front, text⟩ := List.getLast?_eq_some_iff.1 dot
    refine ⟨line, front, rfl, text, ?_⟩
    rcases Document.lineText_of_getElem? found with ⟨whole, -⟩ | ⟨body, -⟩
    · rw [← text, whole]
      refine Text.body_of_getLast?_ne fun return_ => ?_
      rw [← whole, dot] at return_
      exact absurd (Option.some.inj return_) (by decide)
    · rw [← body, text]

/-- A cursor on the dot of the source line is mapped to the dot of the generated line. -/
theorem target_at_dot {js : Text} {uri : String} {map : ColumnMap}
    {l n column indent times : Nat} {columns : List Nat} {c : Cursor}
    (places : DotPlaces js map l n column indent times columns) (line : c.position.line = l)
    (character : c.position.character = column) :
    ToOutput.target map c ⟨js, uri⟩ = .ok (some ⟨n, (column + 4 * times : Nat)⟩) := by
  subst character
  have place : Declarations.keywordedColumn times indent c.position.character = _ :=
    Declarations.keywordedColumn_of_le places.indented
  obtain ⟨front, found, size⟩ := places.generated
  have inText : (Document.lines ⟨js, uri⟩)[n]? = some (front ++ ['.']) := found
  have bound := places.bound
  rw [← place]
  refine places.entries.target_of_token line places.token places.untouched
    ⟨n, places.line_bound, _, by rw [place], Nat.le_refl _⟩ bound fun named => ?_
  rw [place, ← size]
  exact ToOutput.onWord?_of_last_dot inText named places.line_bound (by omega)

/-- In front of a dangling dot there is no fence of a comment. -/
theorem commentPosition?_before_dot {c : Cursor} {front : Text} (admits : admitsDot front = true)
    (line : c.line = front ++ ['.']) (character : c.position.character = front.length)
    (generated : Document) : ToOutput.commentPosition? c generated = .ok none := by
  refine ToOutput.commentPosition?_behind_plain (fun before d last => ?_) line
    (character.le.trans (Nat.le_succ _)) generated
  rw [admitsDot, last] at admits
  simp only [Bool.and_eq_true] at admits
  exact admits.1

/-- At the end of a line the member of a receiver is looked for on the next line. -/
theorem memberOffset_of_line_end {js : Text} {offset : Nat}
    (ends : offset = js.length ∨ js[offset]? = some '\n') :
    memberOffset js offset =
      if Text.startsWith receiverCall (js.drop (offset + 1)) then offset + 6 else offset := by
  have here : Text.startsWith receiverCall (js.drop offset) = false := by
    cases rest : js.drop offset with
    | nil => rfl
    | cons c more =>
      have first : js[offset]? = some c := by rw [← List.head?_drop, rest]; rfl
      rcases ends with end_ | feed
      · rw [List.getElem?_eq_none end_.ge] at first
        cases first
      · obtain rfl := Option.some.inj (feed.symm.trans first)
        rfl
  have inside : ¬ js.length < offset := by
    rcases ends with end_ | feed
    · omega
    · have := (List.getElem?_eq_some_iff.1 feed).1
      omega
  unfold memberOffset
  rw [if_neg inside, here]
  rfl

/-- **The request behind a dangling dot.** The dot is left out when the position is mapped, so that
it is the dot that is mapped, and put back behind the dot of the generated line. -/
theorem journal_behind_dot {τ : Type} {w : Workspace τ} {r : Ready} {uri file : String}
    {p : Position} {map : ColumnMap} {line front front' : Text} {n indent times : Nat}
    {columns : List Nat} (ready : w.ready? uri = some r) (named : virtualFileName uri = .ok file)
    (text : r.generated.js = some r.js) (mapped : r.generated.map = some map)
    (genuine : r.generated.mechanism ≠ some .sourceInOutput)
    (small : r.document.text.length ≤ 2147483647)
    (found : r.document.lines[p.line]? = some line)
    (lineText : r.document.lineText p.line = front ++ ['.'])
    (code : Text.body line = front ++ ['.']) (admits : admitsDot front = true)
    (character : p.character = (r.document.lineText p.line).length)
    (places : DotPlaces r.js map p.line n front.length indent times columns)
    (size : front'.length = front.length + 4 * times)
    (generated : r.output.lines[n]? = some (front' ++ ['.'])) (service : LanguageService) :
    (w.completions service uri p).journal = [⟨.completions, file,
      some (memberOffset r.js (r.output.lineStart n + front'.length + 1) : Nat)⟩] := by
  have long : p.character = front.length + 1 := by
    rw [character, lineText, List.length_append, List.length_singleton]
  have near : front.length ≤ 2147483647 := by
    have := p.character_le
    omega
  obtain ⟨q, left, line_, column_⟩ : ∃ q, leftOf p = .ok q ∧ q.line = p.line ∧
      q.character = front.length := by
    have column : (p.character : Int) - 1 = (front.length : Nat) := by omega
    exact ⟨⟨p.line, front.length, p.line_le, near⟩,
      by rw [leftOf, column, Position.make_natCast p.line_le near], rfl, rfl⟩
  obtain ⟨c, cursor, position, own, -⟩ := ToOutput.cursor_returns r.document q small
  rw [line_] at own
  have outside := commentPosition?_before_dot admits (own.trans lineText)
    (by rw [position, column_]) r.output
  have target : ToOutput.target map c r.output = _ :=
    target_at_dot places (by rw [position, line_]) (by rw [position, column_])
  have bound := places.bound
  have offset := requestOffset_of_target text mapped genuine cursor position outside target
    places.line_bound bound
  have skip : ((r.document.charAt ((r.document.offsetAt p : Int) - 1) == some trigger) &&
      r.generated.hasMap) = true := by
    have shape : line = front ++ '.' :: Text.tail line := by
      rw [List.append_cons, ← code, Text.body_append_tail]
    rw [shape] at found
    rw [Document.charAt_before found long character.le, Generated.hasMap, text, mapped]
    rfl
  have asked := journal_completions ready named skip left offset service
  rw [if_pos rfl, ← size, (Document.offset_of_last_dot generated).1] at asked
  exact asked

section Opened

variable {τ : Type} [Timeline τ] [LT τ] [DecidableLT τ] [LE τ] [DecidableLE τ] {w : Workspace τ}
  {now : τ} {uri : String} {text : Text} {version : Int} {g : Generated} {p : Position}

/-- **Completions behind a dangling dot.** They ask once, directly behind the dot that ends the
generated line, unless the next line begins with the value of a receiver. -/
theorem completions_behind_dot (unmarked : 'ᛝ' ∉ text ∧ 'ᛟ' ∉ text) (plain : '@' ∉ text)
    (small : text.length < 2 ^ 21) (fresh : w.cache.valid? (digest text) now = none)
    (opened : (w.change (generate LineByLine.compile) now uri text version).outcome = .ok (some g))
    (fake : g.fakeLine = some (p.line : Int)) (mechanism : g.mechanism = some .modifiedSource)
    (dot : (Document.lineText ⟨text, uri⟩ p.line).getLast? = some '.')
    (character : p.character = (Document.lineText ⟨text, uri⟩ p.line).length)
    (service : LanguageService) :
    let workspace := (w.change (generate LineByLine.compile) now uri text version).workspace
    ∃ js map file, g.js = some js ∧ g.map = some map ∧ virtualFileName uri = .ok file ∧
      ∃ (n : Nat) (front : Text), (∀ m ∈ map.mappings, m.sourceLine = p.line ↔ m.outputLine = n) ∧
        (Text.lines js)[n]? = some (front ++ ['.']) ∧
        let behind := Document.lineStart ⟨js, ""⟩ n + front.length + 1
        js[behind - 1]? = some '.' ∧ (behind = js.length ∨ js[behind]? = some '\n') ∧
        (workspace.completions service uri p).journal = [⟨.completions, file,
          some (if Text.startsWith receiverCall (js.drop (behind + 1)) then behind + 6
            else behind : Nat)⟩] := by
  intro workspace
  obtain ⟨made, ⟨file, named⟩, ready⟩ := ready?_of_change fresh opened
  obtain ⟨line, front, found, lineText, code⟩ := exists_dotted_line dot
  obtain ⟨js, map, n, indent, times, columns, generated, mapped, admits, places⟩ :=
    Pipeline.exists_dotPlaces unmarked plain small made fake mechanism found code
  obtain ⟨front', inText, size⟩ := places.generated
  have inOutput : (Document.lines ⟨js, ""⟩)[n]? = some (front' ++ ['.']) := inText
  obtain ⟨-, atDot, ends⟩ := Document.offset_of_last_dot inOutput
  have genuine : g.mechanism ≠ some .sourceInOutput := by
    rw [mechanism]
    exact fun same => nomatch same
  have asked := journal_behind_dot (ready js generated) named generated mapped genuine
    (by dsimp only; omega) found lineText code admits character places size inOutput service
  refine ⟨js, map, file, generated, mapped, named, n, front', places.entries.same_line, inText,
    atDot, ends, ?_⟩
  rw [← memberOffset_of_line_end ends]
  exact asked

end Opened

/-- Completions ask directly behind a dot that follows a question mark, on a line with an inserted
keyword. -/
theorem completions_behind_dot_assigned :
    let uri := "file:///p/a.coffee"
    let text := "var x\ny = 1\nx = a?.".toList
    let w : Workspace Nat := .empty {} 180
    let workspace := (w.change (generate LineByLine.compile) 0 uri text 1).workspace
    let js := "\ny = 1 \nlet x = a?.".toList
    (workspace.completions (CannedAnswers.toService {}) uri (.mk 2 7)).journal =
      [⟨.completions, "/p/a.coffee.ts", some js.length⟩] := by
  intro uri text w workspace js
  let g := (generate LineByLine.compile ⟨text, uri⟩).outcome.toOption.get (by decide +kernel)
  have opened : (w.change (generate LineByLine.compile) 0 uri text 1).outcome = .ok (some g) := by
    decide +kernel
  have faked : g.fakeLine = some 2 ∧ g.mechanism = some .modifiedSource := by decide +kernel
  obtain ⟨js', map, file, generated, mapped, named, n, front, lines, line, dot, ends, asked⟩ :=
    completions_behind_dot (p := .mk 2 7) (by decide) (by decide) (by decide) rfl opened faked.1
      faked.2 (by decide) (by decide) (CannedAnswers.toService {})
  have known : g.js = some js ∧ virtualFileName uri = .ok "/p/a.coffee.ts" ∧
      g.map.any (fun map => ⟨2, 0, 2, 4⟩ ∈ map.mappings) = true := by decide +kernel
  obtain rfl := Option.some.inj (generated.symm.trans known.1)
  obtain rfl := Except.ok.inj (named.symm.trans known.2.1)
  obtain rfl : n = 2 := by
    rw [mapped] at known
    exact Int.ofNat.inj ((lines _ (by simpa using known.2.2)).1 rfl).symm
  have last : (Text.lines js)[2]? = some ("let x = a?".toList ++ ['.']) := by decide
  obtain rfl := List.append_cancel_right (Option.some.inj (line.symm.trans last))
  exact asked.trans (by decide)

/-- Behind a dot above a line that begins with a call of `this.valueOf`, completions ask for the
members of `this`: the call is closed by force, and looks like the value of a receiver then. -/
theorem completions_below_dot :
    let uri := "file:///p/a.coffee"
    let text := "a.\nthis.valueOf(".toList
    let w : Workspace Nat := .empty {} 180
    let changed := w.change (generate LineByLine.compile) 0 uri text 1
    ('ᛝ' ∉ text ∧ '↯' ∉ text ∧ 'ᛟ' ∉ text ∧ '@' ∉ text) ∧
      Text.occursIn receiverCall text = false ∧
      Document.lineText ⟨text, uri⟩ 0 = "a.".toList ∧
      (∃ g, changed.outcome = .ok (some g) ∧ g.js = some "a.\nthis.valueOf();".toList ∧
        g.fakeLine = some 0 ∧ g.mechanism = some .modifiedSource) ∧
      (changed.workspace.completions (CannedAnswers.toService {}) uri (.mk 0 2)).journal =
        [⟨.completions, "/p/a.coffee.ts", some 8⟩] := by
  intro uri text w changed
  let g := (generate LineByLine.compile ⟨text, uri⟩).outcome.toOption.get (by decide +kernel)
  exact ⟨by decide, by decide, by decide, ⟨g, by decide +kernel, by decide +kernel,
    by decide +kernel, by decide +kernel⟩, by decide +kernel⟩

end Workspace

end DialectBridge
