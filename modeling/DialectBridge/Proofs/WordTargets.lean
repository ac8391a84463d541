import DialectBridge.Proofs.Overruns
import DialectBridge.Proofs.Words

/-!
# Targets on the word of the cursor

Narrowing by word keeps the targets at which the word of the cursor stands, or stands one column
further; a cursor behind its word wants the end of the word. A target that is kept is right for the
cursor (`Target.Suits`) if its own place in the generated text touches the word, and is not the
beginning of the word where the cursor wants the end.

A target in front of a character of its line is always right once it is kept: the word does not
reach over a line break, so moving along the line and moving through the text come to the same. At
the end of its line, or behind it, a target still stands for the end, but the place one further is
the beginning of the line below. If the word of the cursor begins that line, the target is kept and
moved behind the end of its own line, where the word does not stand (`LooksBelow`). This is the only
way in which a target that is kept can be wrong, as long as its column can be addressed.
-/

set_option autoImplicit false

namespace DialectBridge

/-! ## Words -/

namespace Text

/-- A run that ends before a character that does not belong to it is not made longer. -/
theorem takeWhile_append_of_free {condition : Char → Bool} (run : Text) {rest : Text}
    (behind : ∀ c ∈ rest.head?, condition c = false) :
    (run ++ rest).takeWhile condition = run.takeWhile condition := by
  conv_lhs => rw [← List.takeWhile_append_dropWhile (p := condition) (l := run), List.append_assoc]
  refine takeWhile_append_of_head (fun c inside => List.mem_takeWhile_imp inside) fun c first => ?_
  cases left : run.dropWhile condition with
  | nil =>
    rw [left] at first
    exact behind c first
  | cons d more =>
    have stops := List.head?_dropWhile_not condition run
    rw [left] at first stops
    obtain rfl := Option.some.inj first
    simpa using stops

/-- Directly behind a character that belongs to no word, the word begins at the place. -/
theorem wordAround_succ (front : Text) {c : Char} (more : Text) (free : isIdentifier c = false) :
    wordAround (front ++ c :: more) (front.length + 1) =
      .ok ⟨more.takeWhile isIdentifier, front.length + 1⟩ := by
  have size : (front ++ [c]).length = front.length + 1 := by simp
  have none_ : identifierBefore (front ++ [c] ++ more) (front ++ [c]).length = 0 := by
    rw [identifierBefore_eq_zero_iff, List.take_left]
    simpa using free
  rw [List.append_cons, ← size, wordAround_of_le (by simp), none_, Nat.sub_zero, List.drop_left]

end Text

namespace Document

variable {d : Document} {k column : Nat} {word : Word}

/-- What a text is around one of its lines: what stands in front of the line, its text, and
something that does not make a word longer. -/
theorem exists_around {line : Text} (h : d.lines[k]? = some line) :
    ∃ front behind, d.text = front ++ (d.lineText k ++ behind) ∧
      (∀ column, d.offsetOf k column = front.length + min column (d.lineText k).length) ∧
      ∀ c ∈ behind.head?, isIdentifier c = false := by
  obtain ⟨front, rest, cut, whole⟩ := exists_cut h
  obtain ⟨ending, same, ends⟩ := exists_eq_lineText_append h
  refine ⟨front, ending ++ rest, ?_, fun column => ?_, fun c first => ?_⟩
  · rw [whole]
    conv_lhs => rw [same]
    simp only [List.append_assoc]
  · rw [offsetOf_of_getElem? h, cut.size]
  · rcases ends with rfl | rfl
    · rcases cut.behind with ⟨rfl, -⟩ | ⟨feed, -⟩
      · cases first
      · obtain rfl := Option.some.inj (feed.symm.trans first)
        decide
    · obtain rfl := Option.some.inj first
      decide

/-- A word that begins at a place of a line fits on the line. -/
theorem column_add_le (found : Text.wordAround d.text (d.offsetOf k column) = .ok word)
    (begins : word.offset = d.offsetOf k column) (named : word.text ≠ []) :
    column + word.text.length ≤ (d.lineText k).length := by
  rw [Text.wordAround_of_le (d.offsetOf_le k column)] at found
  obtain rfl := Except.ok.inj found
  dsimp only at begins named ⊢
  rw [begins] at named ⊢
  have some_ := List.length_pos_iff.2 named
  cases here : d.lines[k]? with
  | none =>
    rw [offsetOf_of_none here, List.drop_length] at some_
    exact absurd some_ (Nat.lt_irrefl 0)
  | some line =>
    obtain ⟨front, behind, whole, offset, free⟩ := exists_around here
    rw [offset, whole, List.drop_length_add_append, List.drop_append_of_le_length (by omega),
      Text.takeWhile_append_of_free _ free] at some_ ⊢
    have short := (List.takeWhile_sublist isIdentifier
      (l := (d.lineText k).drop (min column (d.lineText k).length))).length_le
    rw [List.length_drop] at short
    omega

/-- What a text is around a line and the line below it. -/
theorem exists_around_below {line next : Text} (h : d.lines[k]? = some line)
    (below : d.lines[k + 1]? = some next) :
    ∃ front rest, d.text = front ++ line ++ '\n' :: (next ++ rest) ∧
      front.length = Text.extent (d.lines.take k) ∧ ∀ c ∈ rest.head?, isIdentifier c = false := by
  obtain ⟨front, more, cut, whole⟩ := exists_cut h
  obtain ⟨front', rest, cut', whole'⟩ := exists_cut below
  obtain ⟨others, rfl⟩ : ∃ others, more = '\n' :: others := by
    rcases cut.behind with ⟨-, last⟩ | ⟨feed, -⟩
    · have inside := (List.getElem?_eq_some_iff.1 below).1
      omega
    · exact ⟨List.tail more, (List.cons_head?_tail feed).symm⟩
  have size : front'.length = (front ++ line ++ ['\n']).length := by
    rw [cut'.size, List.take_add_one, h, Text.extent_append, ← cut.size]
    simp [Text.extent]
  have same : others = next ++ rest := by
    rw [List.append_cons, whole', List.append_assoc] at whole
    exact (List.append_inj whole size).2.symm
  refine ⟨front, rest, by rw [whole, same], cut.size, fun c first => ?_⟩
  rcases cut'.behind with ⟨rfl, -⟩ | ⟨feed, -⟩
  · cases first
  · obtain rfl := Option.some.inj (feed.symm.trans first)
    decide

/-- One place behind the end of a line, a word is the beginning of the line below. -/
theorem exists_line_below (far : (d.lineText k).length ≤ column)
    (found : Text.wordAround d.text (d.offsetOf k column + 1) = .ok word)
    (named : word.text ≠ []) :
    ∃ line, d.lines[k + 1]? = some line ∧ line.takeWhile isIdentifier = word.text := by
  have room : d.offsetOf k column < d.text.length :=
    Nat.lt_of_succ_le (Text.wordAround_eq_ok_iff.1 found).1
  cases here : d.lines[k]? with
  | none =>
    rw [offsetOf_of_none here] at room
    exact absurd room (Nat.lt_irrefl _)
  | some line =>
    have offset := offsetOf_of_getElem? here column
    rw [Nat.min_eq_right far] at offset
    rcases lineText_of_getElem? here with ⟨same, last⟩ | ⟨same, more⟩
    · obtain ⟨front, rest, cut, whole⟩ := exists_cut here
      rcases cut.behind with ⟨rfl, -⟩ | ⟨-, inside⟩
      · rw [offset, same, whole, ← cut.size] at room
        simp at room
      · omega
    · obtain ⟨next, below⟩ : ∃ next, d.lines[k + 1]? = some next :=
        ⟨_, List.getElem?_eq_getElem more⟩
      obtain ⟨front, rest, whole, size, free⟩ := exists_around_below here below
      rw [← size, same, ← List.length_append] at offset
      have cut : d.text =
          (front ++ Text.body line) ++ (Text.tail line ++ '\n' :: (next ++ rest)) := by
        rw [whole]
        conv_lhs => rw [← Text.body_append_tail line]
        simp only [List.append_assoc]
      rw [offset, cut] at found
      refine ⟨next, below, ?_⟩
      rcases Text.tail_eq line with none_ | feed
      · rw [none_, List.nil_append, Text.wordAround_succ _ _ (by decide)] at found
        obtain rfl := Except.ok.inj found
        exact (Text.takeWhile_append_of_free _ free).symm
      · -- In front of the line feed there is a carriage return, so no word follows the line.
        rw [feed, List.singleton_append, Text.wordAround_succ _ _ (by decide)] at found
        obtain rfl := Except.ok.inj found
        exact absurd rfl named

end Document

/-! ## Targets -/

/-- A result of computations in a row is the result of one of them. -/
theorem exists_of_mem_mapM {α β : Type} {f : α → Except Fault β} {all : List α} {results : List β}
    (h : all.mapM f = .ok results) {b : β} (member : b ∈ results) : ∃ a ∈ all, f a = .ok b := by
  induction all generalizing results with
  | nil =>
    obtain rfl := Except.ok.inj h
    exact absurd member List.not_mem_nil
  | cons first rest ih =>
    rw [List.mapM_cons] at h
    obtain ⟨b', here, more⟩ := exists_ok_of_bind h
    obtain ⟨others, later, same⟩ := exists_ok_of_bind more
    obtain rfl := Except.ok.inj same
    rcases List.mem_cons.1 member with rfl | inside
    · exact ⟨first, List.mem_cons_self, here⟩
    · obtain ⟨a, from_, result⟩ := ih later inside
      exact ⟨a, List.mem_cons_of_mem _ from_, result⟩

/-- A target stands on the word of the cursor: its place touches the word, and is not the beginning
of the word if the cursor is behind it. -/
def Target.Suits (c : Cursor) (generated : Document) (t : Target) : Prop :=
  ∃ offset word, t.offset generated = .ok offset ∧ t.word generated = .ok word ∧
    word.text = c.word.text ∧ (c.atEndOfWord = true → offset ≠ word.offset)

namespace ToOutput

/-- A target at or behind the end of its line is off the word of the cursor, and the line below
begins with that word. -/
structure LooksBelow (c : Cursor) (generated : Document) (t : Target) : Prop where
  at_end : ((generated.lineText t.line.toNat).length : Int) ≤ t.column
  apart : ∀ word, t.word generated = .ok word → word.text ≠ c.word.text
  below : ∃ line, generated.lines[t.line.toNat + 1]? = some line ∧
    line.takeWhile isIdentifier = c.word.text

section Targets

variable {generated : Document} {c : Cursor} {t : Target} {k column offset : Nat} {word : Word}

/-- A target that has an offset has natural coordinates that can be addressed. -/
theorem exists_of_offset (h : t.offset generated = .ok offset) :
    ∃ k column : Nat, t = ⟨k, column⟩ ∧ k ≤ 2147483647 ∧ column ≤ 2147483647 ∧
      offset = generated.offsetOf k column := by
  unfold Target.offset at h
  obtain ⟨p, made, same⟩ := exists_ok_of_bind h
  obtain ⟨line, character⟩ := Position.coordinates_of_make made
  refine ⟨p.line, p.character, ?_, p.line_le, p.character_le, (Except.ok.inj same).symm⟩
  rw [line, character]

theorem word_of_natCast (hk : k ≤ 2147483647) (hc : column ≤ 2147483647) :
    Target.word generated ⟨k, column⟩ =
      Text.wordAround generated.text (generated.offsetOf k column) := by
  unfold Target.word
  rw [offset_of_natCast hk hc]
  rfl

/-- A place at which the word is the cursor's suits a cursor that is not behind its word, or a place
that is not the beginning of the word. -/
theorem suits_of_natCast (hk : k ≤ 2147483647) (hc : column ≤ 2147483647)
    (found : Text.wordAround generated.text (generated.offsetOf k column) = .ok word)
    (same : word.text = c.word.text)
    (behind : c.atEndOfWord = true → generated.offsetOf k column ≠ word.offset) :
    Target.Suits c generated ⟨k, column⟩ :=
  ⟨_, word, offset_of_natCast hk hc, (word_of_natCast hk hc).trans found, same, behind⟩

/-- **A target settled at a place with the word of the cursor suits the cursor**, if its column can
be addressed. -/
theorem suits_settle_iff (named : c.word.text ≠ []) (hk : k ≤ 2147483647)
    (found : Text.wordAround generated.text (generated.offsetOf k column) = .ok word)
    (same : word.text = c.word.text) :
    (onWord?.settle c ⟨k, column⟩ (generated.offsetOf k column) word).Suits c generated ↔
      (onWord?.settle c ⟨k, column⟩ (generated.offsetOf k column) word).column ≤ 2147483647 := by
  constructor
  · rintro ⟨offset, -, made, -⟩
    obtain ⟨k', column', place, -, hc, -⟩ := exists_of_offset made
    rw [place]
    exact Int.ofNat_le.2 hc
  · intro hc
    unfold onWord?.settle at hc ⊢
    split at hc
    · next wanted =>
      rw [if_pos wanted]
      rw [Bool.and_eq_true, beq_iff_eq] at wanted
      dsimp only at hc
      have some_ : word.text ≠ [] := same ▸ named
      have ending : Text.wordAround generated.text
          (generated.offsetOf k column + word.text.length) = .ok word :=
        Text.wordAround_of_touched found (by omega) (by omega)
      have inside := Document.column_add_le found wanted.2 some_
      have size := List.length_pos_iff.2 some_
      rw [← same] at hc ⊢
      rw [← Document.offsetOf_add inside] at ending
      refine suits_of_natCast hk (by omega) ending same fun _ => ?_
      rw [Document.offsetOf_add inside]
      omega
    · next other =>
      rw [if_neg other]
      dsimp only at hc
      refine suits_of_natCast hk (by omega) found same fun wants begins => other ?_
      simp [wants, begins]

/-- A target is settled at its place or further along its line. -/
theorem exists_of_settle (k column offset : Nat) (word : Word) :
    ∃ further : Nat, column ≤ further ∧
      onWord?.settle c ⟨k, column⟩ offset word = ⟨k, further⟩ := by
  unfold onWord?.settle
  split
  · exact ⟨column + c.word.text.length, Nat.le_add_right _ _, rfl⟩
  · exact ⟨column, Nat.le_refl _, rfl⟩

/-- The word of the cursor is at the place of a target that is kept, or one place further, where the
target is settled. -/
theorem settled_of_onWord? {moved : Target} (h : onWord? c generated t = .ok (some moved)) :
    ∃ k column : Nat, t = ⟨k, column⟩ ∧ k ≤ 2147483647 ∧ column ≤ 2147483647 ∧
      ∃ word, Text.wordAround generated.text (generated.offsetOf k column) = .ok word ∧
        (word.text = c.word.text ∧
            moved = onWord?.settle c ⟨k, column⟩ (generated.offsetOf k column) word ∨
          word.text ≠ c.word.text ∧ ∃ next,
            Text.wordAround generated.text (generated.offsetOf k column + 1) = .ok next ∧
            next.text = c.word.text ∧
            moved = onWord?.settle c ⟨k, (column + 1 : Nat)⟩
              (generated.offsetOf k column + 1) next) := by
  unfold onWord? at h
  obtain ⟨offset, made, h⟩ := exists_ok_of_bind h
  obtain ⟨k, column, rfl, hk, hc, rfl⟩ := exists_of_offset made
  obtain ⟨word, found, h⟩ := exists_ok_of_bind h
  refine ⟨k, column, rfl, hk, hc, word, found, ?_⟩
  split at h
  · next same =>
    exact .inl ⟨beq_iff_eq.1 same, (Option.some.inj (Except.ok.inj h)).symm⟩
  · next other =>
    obtain ⟨next, further, h⟩ := exists_ok_of_bind h
    refine .inr ⟨by simpa using other, next, further, ?_⟩
    split at h
    · next same => exact ⟨beq_iff_eq.1 same, (Option.some.inj (Except.ok.inj h)).symm⟩
    · cases Except.ok.inj h

/-- **A target that is kept suits the cursor**, unless its column cannot be addressed or the word
was found on the line below. -/
theorem suits_onWord?_iff (named : c.word.text ≠ []) {moved : Target}
    (h : onWord? c generated t = .ok (some moved)) :
    moved.Suits c generated ↔ moved.column ≤ 2147483647 ∧ ¬ LooksBelow c generated t := by
  obtain ⟨k, column, rfl, hk, hc, word, found, ⟨same, rfl⟩ | ⟨other, next, further, same, rfl⟩⟩ :=
    settled_of_onWord? h
  · rw [suits_settle_iff named hk found same, and_iff_left]
    intro below
    exact below.apart word ((word_of_natCast hk hc).trans found) same
  · by_cases room : column < (generated.lineText k).length
    · rw [← Document.offsetOf_add (Nat.succ_le_of_lt room)] at further
      rw [← Document.offsetOf_add (Nat.succ_le_of_lt room)]
      rw [suits_settle_iff named hk further same, and_iff_left]
      intro below
      have := below.at_end
      dsimp only [Int.toNat_natCast] at this
      omega
    · have far := Nat.le_of_not_lt room
      have below := Document.exists_line_below far further (same ▸ named)
      refine iff_of_false ?_ fun ⟨_, free⟩ => free ⟨Int.ofNat_le.2 far, fun _ here => ?_, ?_⟩
      · -- The target was moved behind the end of its line, so its place is where it was.
        obtain ⟨further, behind, place⟩ := exists_of_settle (c := c) k (column + 1)
          (generated.offsetOf k column + 1) next
        rw [place]
        rintro ⟨offset, own, made, here, equal, -⟩
        obtain ⟨_, _, same', -, addressable, -⟩ := exists_of_offset made
        obtain rfl := Int.ofNat.inj (Target.mk.inj same').2
        rw [word_of_natCast hk addressable, Document.offsetOf_of_far far (by omega), found] at here
        obtain rfl := Except.ok.inj here
        exact other equal
      · obtain rfl := Except.ok.inj (found.symm.trans ((word_of_natCast hk hc).symm.trans here))
        exact other
      · rw [same] at below
        exact below

/-- **What is kept by word suits the cursor**, unless its column cannot be addressed, or it comes
from a target that is off the word and has the word on the line below. -/
theorem byWord_suits_iff (named : c.word.text ≠ []) {targets kept : List Target}
    (h : byWord targets c generated = .ok kept) {t : Target} (member : t ∈ kept) :
    ∃ s ∈ targets, onWord? c generated s = .ok (some t) ∧
      (t.Suits c generated ↔ t.column ≤ 2147483647 ∧ ¬ LooksBelow c generated s) := by
  unfold byWord at h
  rw [if_neg (by simpa using named)] at h
  obtain ⟨results, each, kept_⟩ := exists_ok_of_bind h
  obtain rfl := Except.ok.inj kept_
  obtain ⟨_, inside, rfl⟩ := List.mem_filterMap.1 member
  obtain ⟨s, from_, moved⟩ := exists_of_mem_mapM each inside
  exact ⟨s, from_, moved, suits_onWord?_iff named moved⟩

/-- Behind its word a cursor wants the end of the word, and the target at the beginning of the word
is moved there. -/
theorem byWord_suits_iff_behind_word :
    let generated : Document := ⟨"(b);".toList, ""⟩
    ∃ c, Cursor.ofPosition ⟨"a = b".toList, ""⟩ ⟨0, 5, by decide, by decide⟩ = .ok c ∧
      byWord [⟨0, 0⟩] c generated = .ok [⟨0, 2⟩] ∧ Target.Suits c generated ⟨0, 2⟩ := by
  intro generated
  let c := (Cursor.ofPosition ⟨"a = b".toList, ""⟩ ⟨0, 5, by decide, by decide⟩).toOption.get
    (by decide +kernel)
  have kept : byWord [⟨0, 0⟩] c generated = .ok [⟨0, 2⟩] := by decide +kernel
  obtain ⟨s, from_, -, suits⟩ := byWord_suits_iff (c := c) (by decide +kernel) kept
    (List.mem_singleton_self _)
  obtain rfl := List.mem_singleton.1 from_
  refine ⟨c, by decide +kernel, kept, suits.2 ⟨by decide, fun below => ?_⟩⟩
  exact absurd below.at_end (by decide +kernel)

/-- The target at the end of a line is moved behind it, off the word, if the line below begins with
the word of the cursor. -/
theorem byWord_off_word :
    let generated : Document := ⟨"a\nb".toList, ""⟩
    ∃ c, Cursor.ofPosition ⟨"b".toList, ""⟩ Position.origin = .ok c ∧ c.word.text = ['b'] ∧
      byWord [⟨0, 1⟩] c generated = .ok [⟨0, 2⟩] ∧
      Target.word generated ⟨0, 2⟩ = .ok ⟨['a'], 0⟩ ∧ ¬ Target.Suits c generated ⟨0, 2⟩ := by
  intro generated
  let c := (Cursor.ofPosition ⟨"b".toList, ""⟩ Position.origin).toOption.get (by decide +kernel)
  have named : c.word.text = ['b'] := by decide +kernel
  have here : Target.word generated ⟨0, 2⟩ = .ok ⟨['a'], 0⟩ := by decide +kernel
  refine ⟨c, by decide +kernel, named, by decide +kernel, here, ?_⟩
  rintro ⟨-, word, -, found, same, -⟩
  obtain rfl := Except.ok.inj (here.symm.trans found)
  rw [named] at same
  exact absurd same (by decide)

end Targets

end ToOutput

end DialectBridge
