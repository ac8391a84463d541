import DialectBridge.Proofs.SketchedByLine

/-!
# Columns of a sketched line

What a sketch writes mostly takes up as much room as what it replaces, and most characters keep
their columns. The exceptions are known: every receiver sign that is written out moves the rest of
the line, and so does the keyword of a declaration at its beginning. An object that gets its brace
and a block comment that is opened are others, so lines with a colon or with three comment signs in
a row are left out here.

The passes are described column by column. Where two texts differ, one of some characters has become
one of some others (`Text.Swaps`); an identifier keeps its characters unless it is a word of which
the generated language makes nothing (`Sketch.InForeignWord`). And a sketched line begins with the
keyword of a declaration exactly if it was declared.

The main result is `getElem?_sketch`.
-/

set_option autoImplicit false

namespace DialectBridge

namespace Text

/-! ## Texts column by column -/

/-- Two texts have the same characters, except for columns that go from one of the old ones to one
of the new ones; the end of a text counts as one of them. -/
def Swaps (old new : List (Option Char)) (t t' : Text) : Prop :=
  ∀ i : Nat, t'[i]? = t[i]? ∨ t[i]? ∈ old ∧ t'[i]? ∈ new

section Swaps

variable {old new : List (Option Char)} {t t' : Text} {i : Nat} {a : Char}

theorem Swaps.kept (h : Swaps old new t t') (here : t[i]? = some a) (other : some a ∉ old) :
    t'[i]? = some a := by
  rcases h i with same | ⟨gone, -⟩
  · rw [same, here]
  · exact absurd (here ▸ gone) other

theorem Swaps.back (h : Swaps old new t t') (here : t'[i]? = some a) (other : some a ∉ new) :
    t[i]? = some a := by
  rcases h i with same | ⟨-, written⟩
  · rw [← same, here]
  · exact absurd (here ▸ written) other

/-- The beginning of a text, column by column. -/
theorem startsWith_iff_getElem? {front t : Text} :
    startsWith front t = true ↔ ∀ (i : Nat) (a : Char), front[i]? = some a → t[i]? = some a := by
  rw [startsWith, List.isPrefixOf_iff_prefix, List.prefix_iff_getElem?]
  constructor
  · intro h i a here
    obtain ⟨bound, rfl⟩ := List.getElem?_eq_some_iff.1 here
    exact h i bound
  · intro h i bound
    exact h i _ (List.getElem?_eq_getElem bound)

theorem Swaps.mem_back (h : Swaps old new t t') (member : a ∈ t') (other : some a ∉ new) :
    a ∈ t := by
  obtain ⟨i, here⟩ := List.mem_iff_getElem?.1 member
  exact List.mem_of_getElem? (h.back here other)

theorem Swaps.refl (old new : List (Option Char)) (t : Text) : Swaps old new t t :=
  fun _ => .inl rfl

theorem Swaps.trans {old' new' : List (Option Char)} {t'' : Text} (first : Swaps old new t t')
    (second : Swaps old' new' t' t'') : Swaps (old ++ old') (new ++ new') t t'' := by
  intro i
  simp only [List.mem_append]
  rcases first i with same | ⟨gone, written⟩ <;> rcases second i with same' | ⟨gone', written'⟩
  · exact .inl (same'.trans same)
  · exact .inr ⟨.inr (same ▸ gone'), .inr written'⟩
  · exact .inr ⟨.inl gone, .inl (same' ▸ written)⟩
  · exact .inr ⟨.inl gone, .inr written'⟩

/-- A beginning that is not swapped stays. -/
theorem Swaps.startsWith_kept (h : Swaps old new t t') {front : Text}
    (unswapped : (front.all fun a => !old.contains (some a)) = true)
    (begins : startsWith front t = true) : startsWith front t' = true := by
  refine startsWith_iff_getElem?.2 fun i a here => ?_
  have other := List.all_eq_true.1 unswapped a (List.mem_of_getElem? here)
  exact h.kept (startsWith_iff_getElem?.1 begins i a here) (by simpa using other)

/-- A beginning that is not written was there before. -/
theorem Swaps.startsWith_back (h : Swaps old new t t') {front : Text}
    (unwritten : (front.all fun a => !new.contains (some a)) = true)
    (begins : startsWith front t' = true) : startsWith front t = true := by
  refine startsWith_iff_getElem?.2 fun i a here => ?_
  have other := List.all_eq_true.1 unwritten a (List.mem_of_getElem? here)
  exact h.back (startsWith_iff_getElem?.1 begins i a here) (by simpa using other)

/-- A fixed text that gives way to another one of the same length: their characters are swapped. -/
theorem swaps_replaceAll {old new : Text} (some_ : old ≠ []) (size : new.length = old.length)
    (t : Text) : Swaps (old.map some) (new.map some) t (replaceAll old new t) := by
  have inPlace : (literally old new).InPlace := by
    intro before t r h
    obtain ⟨rest, rfl, rfl⟩ := literally_eq_some h
    exact ⟨List.length_pos_iff.2 some_, by simp, size⟩
  intro i
  refine (getElem?_scanFrom_cases inPlace none t i).imp_right ?_
  rintro ⟨front, rest, r, rfl, replaced, le, lt, written⟩
  obtain ⟨behind, rfl, rfl⟩ := literally_eq_some replaced
  obtain ⟨j, rfl⟩ := Nat.exists_eq_add_of_le le
  have inside : j < old.length := Nat.lt_of_add_lt_add_left lt
  unfold replaceAll scan
  rw [written, List.getElem?_append_right le, Nat.add_sub_cancel_left,
    List.getElem?_append_left inside, List.getElem?_eq_getElem inside,
    List.getElem?_eq_getElem (size ▸ inside)]
  exact ⟨List.mem_map_of_mem (List.getElem_mem _), List.mem_map_of_mem (List.getElem_mem _)⟩

end Swaps

end Text

namespace Sketch

/-! ## Passes column by column -/

theorem expandReceivers_append (front rest : Text) :
    expandReceivers (front ++ rest) = expandReceivers front ++ expandReceivers rest :=
  List.flatMap_append

/-- Every receiver that is written out takes four columns more. -/
theorem length_expandReceivers (t : Text) :
    (expandReceivers t).length = t.length + t.count receiverSign * (receiverText.length - 1) := by
  have size : receiverText.length = 5 := by decide
  induction t with
  | nil => simp [expandReceivers]
  | cons c rest ih =>
    have step : expandReceivers (c :: rest) =
        (if c == receiverSign then receiverText else [c]) ++ expandReceivers rest := rfl
    rw [step, List.length_append, ih, List.length_cons, List.count_cons, size]
    split
    · rw [size]
      omega
    · rw [List.length_singleton]
      omega

/-- A character moves by what the receivers in front of it gain. -/
theorem getElem?_expandReceivers {s : Text} {c : Nat} {a : Char} (here : s[c]? = some a)
    (other : a ≠ receiverSign) :
    (expandReceivers s)[c + receiverExpansion s c]? = some a := by
  obtain ⟨bound, rfl⟩ := List.getElem?_eq_some_iff.1 here
  have front : c + receiverExpansion s c = (expandReceivers (s.take c)).length := by
    have natural : ¬ (c : Int) < 0 := by omega
    rw [length_expandReceivers, List.length_take, Nat.min_eq_left (Nat.le_of_lt bound)]
    unfold receiverExpansion
    rw [if_neg natural, Int.toNat_natCast]
  have alone : expandReceivers (s.drop c) = s[c] :: expandReceivers (s.drop (c + 1)) := by
    rw [List.drop_eq_getElem_cons bound]
    unfold expandReceivers
    rw [List.flatMap_cons, if_neg (by simpa using other)]
    rfl
  have whole : expandReceivers s =
      expandReceivers (s.take c) ++ s[c] :: expandReceivers (s.drop (c + 1)) := by
    rw [← alone, ← expandReceivers_append, List.take_append_drop]
  rw [front, whole, List.getElem?_append_right (Nat.le_refl _), Nat.sub_self]
  rfl

/-- Calls that get their parentheses. -/
theorem Enclosed.swaps {line line' : Text} (h : Enclosed line line') :
    Text.Swaps [some ' ', none] [some '(', some ' ', some ')'] line line' := by
  cases h with
  | itself => exact .refl _ _ _
  | call before rest =>
    intro i
    rw [List.append_assoc]
    rcases Nat.lt_or_ge i before.length with inside | behind
    · rw [List.getElem?_append_left inside, List.getElem?_append_left inside]
      exact .inl rfl
    rw [List.getElem?_append_right behind, List.getElem?_append_right behind, List.cons_append]
    cases i - before.length with
    | zero => exact .inr ⟨by simp, by simp⟩
    | succ j =>
      rw [List.getElem?_cons_succ, List.getElem?_cons_succ]
      rcases Nat.lt_or_ge j rest.length with inside | ended
      · rw [List.getElem?_append_left inside]
        exact .inl rfl
      rw [List.getElem?_append_right ended, List.getElem?_eq_none ended]
      cases closed : callEnd[j - rest.length]? with
      | none => exact .inl rfl
      | some a =>
        have signs : (callEnd.all fun a => [some '(', some ' ', some ')'].contains (some a)) =
            true := by decide
        have sign := List.all_eq_true.1 signs a (List.mem_of_getElem? closed)
        exact .inr ⟨by simp, List.contains_iff_mem.1 sign⟩

theorem swaps_templates (t : Text) :
    Text.Swaps [some '"', some '#', some '\x7b'] [some '\x60', some '$', some '\x7b'] t
      (templates t) := by
  unfold templates
  split
  · exact .refl _ _ _
  · have quotes : Text.Swaps [some '"'] [some '\x60'] t
        (t.map fun c => if c == '"' then '\x60' else c) := by
      intro i
      rw [List.getElem?_map]
      cases t[i]? with
      | none => exact .inl rfl
      | some a =>
        by_cases quote : a = '"'
        · exact .inr (by simp [quote])
        · exact .inl (by simp [quote])
    exact quotes.trans (Text.swaps_replaceAll (by decide) (by decide) _)

/-! ## Foreign words -/

/-- A whole word stands at a column: its letters follow, and no other word character touches
them. -/
structure IsWordAt (t : Text) (start : Nat) (word : Text) : Prop where
  letters : ∀ j < word.length, t[start + j]? = word[j]?
  before : start = 0 ∨ t[start - 1]?.any isWordChar = false
  behind : t[start + word.length]?.any isWordChar = false

instance (t : Text) (start : Nat) (word : Text) : Decidable (IsWordAt t start word) :=
  decidable_of_iff ((∀ j < word.length, t[start + j]? = word[j]?) ∧
      (start = 0 ∨ t[start - 1]?.any isWordChar = false) ∧
      t[start + word.length]?.any isWordChar = false)
    ⟨fun h => ⟨h.1, h.2.1, h.2.2⟩, fun h => ⟨h.letters, h.before, h.behind⟩⟩

/-- A column is inside a whole word of which the generated language makes nothing. -/
def InForeignWord (t : Text) (i : Nat) : Prop :=
  ∃ start < i + 1, ∃ word ∈ foreignWords, i < start + word.length ∧ IsWordAt t start word

instance (t : Text) (i : Nat) : Decidable (InForeignWord t i) :=
  inferInstanceAs (Decidable (∃ start < i + 1, ∃ word ∈ foreignWords,
    i < start + word.length ∧ IsWordAt t start word))

section ForeignWords

variable {old new : List (Option Char)} {t t' : Text} {i : Nat}

/-- Where only characters between words are swapped, the whole words are the same. -/
theorem inForeignWord_of_swaps (h : Text.Swaps old new t t')
    (apart : ∀ o ∈ old ++ new, o.any isWordChar = false) (foreign : InForeignWord t' i) :
    InForeignWord t i := by
  obtain ⟨start, le, word, member, inside, whole⟩ := foreign
  have kept : ∀ {k : Nat} {a : Char}, t'[k]? = some a → isWordChar a = true → t[k]? = some a :=
    fun here letter => h.back here fun written => by
      have none_ := apart _ (List.mem_append_right old written)
      simp [letter] at none_
  have free : ∀ {k : Nat}, t'[k]?.any isWordChar = false → t[k]?.any isWordChar = false := by
    intro k none_
    rcases h k with same | ⟨gone, -⟩
    · exact same ▸ none_
    · exact apart _ (List.mem_append_left new gone)
  have letters : ∀ word ∈ foreignWords, word.all isWordChar = true := by decide +kernel
  refine ⟨start, le, word, member, inside, fun j bound => ?_, whole.before.imp_right free,
    free whole.behind⟩
  have here := whole.letters j bound
  rw [List.getElem?_eq_getElem bound] at here ⊢
  exact kept here (List.all_eq_true.1 (letters word member) _ (List.getElem_mem bound))

/-- The word characters behind a character that is none are a whole word. -/
theorem isWordAt_takeWhile {front rest : Text} (detached : front.getLast?.any isWordChar = false) :
    IsWordAt (front ++ rest) front.length (rest.takeWhile isWordChar) where
  letters j bound := by
    rw [List.getElem?_append_right (Nat.le_add_right _ _), Nat.add_sub_cancel_left]
    conv_lhs => rw [← List.takeWhile_append_dropWhile (p := isWordChar) (l := rest)]
    rw [List.getElem?_append_left bound]
  before := by
    refine (Nat.eq_zero_or_pos front.length).imp_right fun some_ => ?_
    rwa [List.getElem?_append_left (by omega), ← List.getLast?_eq_getElem?]
  behind := by
    rw [List.getElem?_append_right (Nat.le_add_right _ _), Nat.add_sub_cancel_left,
      ← List.head?_drop, Text.drop_length_takeWhile]
    have stops := List.head?_dropWhile_not isWordChar rest
    cases next : (rest.dropWhile isWordChar).head? with
    | none => rfl
    | some a =>
      rw [next] at stops
      exact stops

/-- What is replaced is a whole word. -/
theorem inForeignWord_of_replacedAt {written : Option Char}
    (h : Text.ReplacedAt replaceForeignWord none t i written) :
    InForeignWord t i ∧ written ∈ [some '&', some ' '] := by
  obtain ⟨front, rest, r, rfl, replaced, le, lt, rfl⟩ := h
  obtain ⟨member, detached, rfl⟩ := replaceForeignWord_eq_some replaced
  rw [Option.or_none] at detached
  dsimp only at lt
  refine ⟨⟨front.length, Nat.lt_succ_of_le le, _, member, lt, isWordAt_takeWhile detached⟩, ?_⟩
  have signs : ∀ word ∈ foreignWords, ∀ j < word.length,
      (Text.padRight word.length ['&', '&'])[j]? ∈ [some '&', some ' '] := by decide
  exact signs _ member _ (by omega)

/-- **Every column outside foreign words is kept** when these are replaced by operators. -/
theorem getElem?_scan_replaceForeignWord_cases (t : Text) (i : Nat) :
    (Text.scan replaceForeignWord t)[i]? = t[i]? ∨
      InForeignWord t i ∧ (Text.scan replaceForeignWord t)[i]? ∈ [some '&', some ' '] := by
  have inPlace : ReplacementRule.InPlace replaceForeignWord := by
    intro before t r h
    have fitting := withinLines_replaceForeignWord.fitting before t r h
    obtain ⟨member, -, rfl⟩ := replaceForeignWord_eq_some h
    have sizes : ∀ word ∈ foreignWords,
        (Text.padRight word.length ['&', '&']).length = word.length := by decide
    exact ⟨fitting.1, fitting.2, sizes _ member⟩
  exact (Text.getElem?_scanFrom_cases inPlace none t i).imp_right inForeignWord_of_replacedAt

end ForeignWords

/-! ## The keyword of a declaration -/

/-- A beginning that cannot come from a receiver was there before receivers were written out. -/
theorem prefix_of_expandReceivers {front s : Text}
    (short : front.length ≤ receiverText.length)
    (apart : ∀ k < front.length, ¬ front.drop k <+: receiverText)
    (begins : front <+: expandReceivers s) : front <+: s := by
  induction front generalizing s with
  | nil => exact List.nil_prefix
  | cons a more ih =>
    cases s with
    | nil => exact begins
    | cons c rest =>
      have step : expandReceivers (c :: rest) =
          (if c == receiverSign then receiverText else [c]) ++ expandReceivers rest := rfl
      rw [step] at begins
      split at begins
      · refine absurd ?_ (apart 0 (Nat.succ_pos _))
        exact List.prefix_of_prefix_length_le begins (List.prefix_append _ _) short
      · obtain ⟨rfl, later⟩ := List.cons_prefix_cons.1 begins
        refine List.cons_prefix_cons.2 ⟨rfl, ih (by simp at short; omega) (fun k bound => ?_) later⟩
        exact apart (k + 1) (Nat.succ_lt_succ bound)

/-- Parentheses around an argument are no part of a beginning without one. -/
theorem Enclosed.prefix_back {line line' front : Text} (h : Enclosed line line')
    (clean : '(' ∉ front) (begins : front <+: line') : front <+: line := by
  cases h with
  | itself => exact begins
  | call before rest =>
    obtain ⟨behind, whole⟩ := begins
    rw [List.append_assoc, List.cons_append] at whole
    obtain ⟨more, rfl⟩ := Text.exists_of_append_eq clean whole.symm
    rw [List.append_assoc]
    exact List.prefix_append _ _

/-- A line that begins with the keyword of a declaration began with it before foreign words were
replaced, since no foreign word reaches into it. -/
theorem startsWith_of_scan_replaceForeignWord {t : Text}
    (begins : Text.startsWith declarationKeyword (Text.scan replaceForeignWord t) = true) :
    Text.startsWith declarationKeyword t = true := by
  rw [Text.startsWith_iff_getElem?] at begins ⊢
  have letters : ∀ i < 3, t[i]? = declarationKeyword[i]? := by
    intro i bound
    have signs : ∀ i < 3, declarationKeyword[i]? ∉ [some '&', some ' '] := by decide
    obtain ⟨a, here⟩ : ∃ a, declarationKeyword[i]? = some a :=
      ⟨_, List.getElem?_eq_getElem (Nat.lt_succ_of_lt bound)⟩
    rcases getElem?_scan_replaceForeignWord_cases t i with kept | ⟨-, written⟩
    · rw [← kept, begins i a here, here]
    · rw [begins i a here, ← here] at written
      exact absurd written (signs i bound)
  have apart : ¬ InForeignWord t 3 := by
    rintro ⟨start, le, word, member, inside, whole⟩
    rcases whole.before with rfl | free
    · have firsts : ∀ word ∈ foreignWords, declarationKeyword[0]? ≠ word[0]? := by decide
      have head := whole.letters 0 (by omega)
      rw [Nat.zero_add, letters 0 (by decide)] at head
      exact firsts word member head
    · have words : ∀ i < 3, declarationKeyword[i]?.any isWordChar = true := by decide +kernel
      rw [letters _ (by omega), words _ (by omega)] at free
      cases free
  intro i a here
  have bound : i < 4 := (List.getElem?_eq_some_iff.1 here).1
  rcases Nat.lt_succ_iff_lt_or_eq.1 bound with inside | rfl
  · rw [letters i inside, here]
  · rcases getElem?_scan_replaceForeignWord_cases t 3 with kept | ⟨foreign, -⟩
    · rw [← kept, begins 3 a here]
    · exact absurd foreign apart

/-! ## A line on the whole -/

/-- A line with its receivers written out and its calls in parentheses. -/
def called (s : Text) : Text := enclosesArgument (enclosesCallback (expandReceivers s))

/-- The same line without foreign words. -/
def worded (s : Text) : Text := Text.scan replaceForeignWord (called s)

/-- What becomes of the words of a line, column by column. -/
theorem swaps_called (s : Text) :
    ∃ old new, (∀ o ∈ old ++ new, o ∈ [some ' ', none, some '(', some ')']) ∧
      Text.Swaps old new (expandReceivers s) (called s) := by
  refine ⟨_, _, ?_, (enclosed_enclosesCallback _).swaps.trans (enclosed_enclosesArgument _).swaps⟩
  decide

theorem mem_of_mem_expandReceivers {c : Char} {s : Text} (member : c ∈ expandReceivers s)
    (other : c ∉ receiverText) : c ∈ s := by
  obtain ⟨d, inside, written⟩ := List.mem_flatMap.1 member
  split at written
  · exact absurd written other
  · exact List.mem_singleton.1 written ▸ inside

/-- Nothing in a line without colons is taken for the key of an object. -/
theorem scan_openObject_called {s : Text} (plain : ':' ∉ s) :
    Text.scan openObject (called s) = called s := by
  refine Text.scan_eq_self_of_declined fun before front rest whole => ?_
  cases decision : openObject before rest with
  | none => rfl
  | some r =>
    obtain ⟨c, gap, name, behind, rfl, -⟩ := openObject_eq_some decision
    have colon : ':' ∈ called s := by simp [whole]
    obtain ⟨old, new, signs, swaps⟩ := swaps_called s
    have early := swaps.mem_back colon fun written =>
      absurd (signs _ (List.mem_append_right old written)) (by decide)
    exact absurd (mem_of_mem_expandReceivers early (by decide)) plain

/-- Nothing in a line without three comment signs in a row is taken for a block comment. -/
theorem scan_openBlockComment_declare {s : Text} (unfenced : ¬ ['#', '#', '#'] <:+: s) :
    Text.scan openBlockComment (declare (worded s)) = declare (worded s) := by
  have h : Congruence (Text.NoNew ['#', '#', '#']) :=
    congruence_noNew (List.cons_ne_nil _ _) (by decide)
  have made : Text.NoNew ['#', '#', '#'] s (declare (worded s)) :=
    h.trans (h.expandReceivers s) <| h.trans (h.enclosesCallback _) <|
      h.trans (h.enclosesArgument _) <| h.trans (h.replaceForeignWord _) (h.declare _)
  refine Text.scan_eq_self_of_declined fun before front rest whole => ?_
  cases decision : openBlockComment before rest with
  | none => rfl
  | some r =>
    obtain ⟨part, next, behind, rfl, -⟩ := openBlockComment_eq_some decision
    have fence : ['#', '#', '#'] <:+: [] ++ declare (worded s) ++ [] := by
      refine ⟨front ++ part, next ++ behind, ?_⟩
      simp [whole]
    exact absurd (by simpa using made [] [] fence) unfenced

/-- **The sketch of a line without objects and block comments**, pass by pass. -/
theorem sketch_of_line {s : Text} (single : '\n' ∉ s) (plain : ':' ∉ s)
    (unfenced : ¬ ['#', '#', '#'] <:+: s) :
    DialectBridge.sketch s =
      Text.replaceAll [' ', '#'] ['/', '/'] (templates (declare (worded s))) := by
  have c1 := linewise_expandReceivers.not_mem single
  have c2 := unbroken_of_congruence (fun _ h => h.enclosesCallback) _ c1
  have c3 : '\n' ∉ called s := unbroken_of_congruence (fun _ h => h.enclosesArgument) _ c2
  have objects := scan_openObject_called plain
  have c4 : '\n' ∉ worded s := Text.not_mem_scanFrom withinLines_replaceForeignWord c3 none 0
  have c5 := unbroken_of_congruence (fun _ h => h.declare) _ c4
  have comments := scan_openBlockComment_declare unfenced
  unfold DialectBridge.sketch passes
  simp only [List.foldl_cons, List.foldl_nil]
  rw [Text.mapLines_of_not_mem _ c1, Text.mapLines_of_not_mem _ c2]
  change Text.replaceAll _ _ (Text.mapLines _ (Text.mapLines _ (Text.mapLines _
    (Text.scan _ (Text.scan openObject (called s)))))) = _
  rw [objects]
  change Text.replaceAll _ _ (Text.mapLines _ (Text.mapLines _ (Text.mapLines _ (worded s)))) = _
  rw [Text.mapLines_of_not_mem _ c4, Text.mapLines_of_not_mem _ c5, comments,
    Text.mapLines_of_not_mem _ c5]

/-- A declared line has moved by its keyword. -/
theorem getElem?_declare (t : Text) (i : Nat) :
    (declare t)[i + if isAssignment t then 4 else 0]? = t[i]? := by
  unfold declare
  split
  · rw [List.getElem?_append_right (Nat.le_add_left 4 i)]
    rfl
  · rfl

/-- What is declared does not begin with a comment. -/
theorem head?_ne_of_isAssignment {line : Text} (h : isAssignment line = true) :
    line.head? ≠ some '#' := by
  intro first
  obtain ⟨rest, rfl⟩ := List.head?_eq_some_iff.1 first
  have none_ : isAssignment ('#' :: rest) = false := rfl
  rw [none_] at h
  cases h

/-- The keyword of a declaration stays at the beginning, if no comment sign is behind it. -/
theorem startsWith_sketched {line : Text} (uncommented : line.head? ≠ some '#') :
    Text.startsWith declarationKeyword (Text.replaceAll [' ', '#'] ['/', '/']
      (templates (declarationKeyword ++ line))) = true := by
  have begins : declarationKeyword <+: templates (declarationKeyword ++ line) := by
    rw [← List.isPrefixOf_iff_prefix]
    refine (swaps_templates _).startsWith_kept (by decide) ?_
    rw [Text.startsWith, List.isPrefixOf_iff_prefix]
    exact List.prefix_append _ _
  obtain ⟨rest, whole⟩ := begins
  have next : rest.head? ≠ some '#' := by
    intro first
    have sign : (templates (declarationKeyword ++ line))[4]? = some '#' := by
      rw [← whole, ← first, List.head?_eq_getElem?]
      rfl
    have early := (swaps_templates _).back sign (by decide)
    rw [List.head?_eq_getElem?] at uncommented
    exact uncommented early
  have declined : ∀ k < declarationKeyword.length,
      Text.literally [' ', '#'] ['/', '/'] none (declarationKeyword.drop k ++ rest) = none := by
    intro k bound
    cases decision : Text.literally [' ', '#'] ['/', '/'] none
        (declarationKeyword.drop k ++ rest) with
    | none => rfl
    | some r =>
      obtain ⟨behind, same, -⟩ := Text.literally_eq_some decision
      -- Of the keyword only the space could begin what is replaced.
      rcases k with _ | _ | _ | _ | k
      · simp [declarationKeyword] at same
      · simp [declarationKeyword] at same
      · simp [declarationKeyword] at same
      · obtain rfl : rest = '#' :: behind := (List.cons.inj same).2
        exact absurd rfl next
      · exact absurd bound (by simp [declarationKeyword])
  rw [← whole, Text.replaceAll, Text.scan_append_of_declined (fun _ _ => rfl) declined,
    Text.startsWith, List.isPrefixOf_iff_prefix]
  exact List.prefix_append _ _

/-- **A sketched line begins with the keyword of a declaration exactly if it was declared**, unless
it began with it from the start. -/
theorem startsWith_sketch {s : Text} (single : '\n' ∉ s) (plain : ':' ∉ s)
    (unfenced : ¬ ['#', '#', '#'] <:+: s)
    (undeclared : Text.startsWith declarationKeyword s = false) :
    Text.startsWith declarationKeyword (DialectBridge.sketch s) = isAssignment (worded s) := by
  rw [sketch_of_line single plain unfenced, declare]
  cases assigned : isAssignment (worded s) with
  | true =>
    rw [if_pos rfl]
    exact startsWith_sketched (head?_ne_of_isAssignment assigned)
  | false =>
    rw [if_neg (by decide), Bool.eq_false_iff]
    intro begins
    -- No pass writes the keyword, so it goes back through all of them to the line itself.
    have coded :=
      (Text.swaps_replaceAll (by decide) (by decide) _).startsWith_back (by decide) begins
    have replaced := (swaps_templates _).startsWith_back (by decide) coded
    have whole := startsWith_of_scan_replaceForeignWord replaced
    rw [Text.startsWith, List.isPrefixOf_iff_prefix] at whole
    have expanded := (enclosed_enclosesCallback _).prefix_back (by decide)
      ((enclosed_enclosesArgument _).prefix_back (by decide) whole)
    have own := prefix_of_expandReceivers (by decide) (by decide) expanded
    rw [← List.isPrefixOf_iff_prefix] at own
    exact Bool.false_ne_true (undeclared.symm.trans own)

end Sketch

/-- **A character of an identifier keeps its column in the sketch of its line**, except for what the
receivers in front of it gain when they are written out and for the keyword of a declaration; unless
it belongs to a word of which the generated language makes nothing. -/
theorem getElem?_sketch (s : Text) (c : Nat) (a : Char) (single : '\n' ∉ s) (plain : ':' ∉ s)
    (unfenced : ¬ "###".toList <:+: s) (undeclared : Text.startsWith "let ".toList s = false)
    (here : s[c]? = some a) (letter : isIdentifier a = true)
    (apart : ¬ Sketch.InForeignWord (Sketch.expandReceivers s) (c + receiverExpansion s c)) :
    (sketch s)[c + receiverExpansion s c +
      (if Text.startsWith "let ".toList (sketch s) then 4 else 0)]? = some a := by
  have other : ∀ signs : List (Option Char),
      (signs.all fun o => !o.any isIdentifier) = true → some a ∉ signs := by
    intro signs free inside
    have none_ := List.all_eq_true.1 free _ inside
    simp [letter] at none_
  have expanded := Sketch.getElem?_expandReceivers here fun same =>
    absurd letter (by rw [same]; decide)
  obtain ⟨old, new, signs, swaps⟩ := Sketch.swaps_called s
  have called := swaps.kept expanded fun gone =>
    other _ (by decide) (signs _ (List.mem_append_left new gone))
  have worded : (Sketch.worded s)[c + receiverExpansion s c]? = some a := by
    rcases Sketch.getElem?_scan_replaceForeignWord_cases (Sketch.called s)
      (c + receiverExpansion s c) with kept | ⟨foreign, -⟩
    · exact kept.trans called
    · have free : ([some ' ', none, some '(', some ')'].all fun o => !o.any isWordChar) = true := by
        decide +kernel
      refine absurd (Sketch.inForeignWord_of_swaps swaps (fun o inside => ?_) foreign) apart
      simpa using List.all_eq_true.1 free o (signs o inside)
  have declared := (Sketch.getElem?_declare (Sketch.worded s) _).trans worded
  have coded := (Sketch.swaps_templates _).kept declared (other _ (by decide))
  have comments := Text.swaps_replaceAll (List.cons_ne_nil ' ' ['#'])
    (show ['/', '/'].length = _ from rfl) (Sketch.templates (Sketch.declare (Sketch.worded s)))
  have sketched := comments.kept coded (other _ (by decide))
  rw [← Sketch.sketch_of_line single plain unfenced] at sketched
  rw [show "let ".toList = Sketch.declarationKeyword from rfl,
    Sketch.startsWith_sketch single plain unfenced undeclared]
  exact sketched

/-- A declaration with a receiver, a call, a foreign word, a template and a comment: the value in
the template is eight columns further on, and the foreign word is gone. -/
theorem getElem?_sketch_in_template :
    let s : Text := "y = @f a and \"#\x7bb\x7d\" # c".toList
    sketch s = "let y = this.f a && (\x60$\x7bb\x7d\x60// c   )".toList ∧ s[16]? = some 'b' ∧
      (sketch s)[24]? = some 'b' ∧ s[9]? = some 'a' ∧
      Sketch.InForeignWord (Sketch.expandReceivers s) (9 + receiverExpansion s 9) ∧
      (sketch s)[17]? = some '&' := by
  intro s
  have made : sketch s = "let y = this.f a && (\x60$\x7bb\x7d\x60// c   )".toList := by
    decide +kernel
  have kept := getElem?_sketch s 16 'b' (by decide) (by decide) (by decide) (by decide) rfl
    (by decide) (by decide +kernel)
  have moved : 16 + receiverExpansion s 16 +
      (if Text.startsWith "let ".toList (sketch s) then 4 else 0) = 24 := by decide +kernel
  exact ⟨made, rfl, moved ▸ kept, rfl, by decide +kernel, made ▸ rfl⟩

end DialectBridge
