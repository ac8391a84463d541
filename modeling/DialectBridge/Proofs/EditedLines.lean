import Mathlib.Data.List.Forall2
import Mathlib.Data.List.TakeWhile
import DialectBridge.Preparation
import DialectBridge.Proofs.Scanning

/-!
# What the gentle edits do to a line

The gentle edits treat the lines of a source one by one, apart from the mark behind a comma, which
may look for its brace on a later line. So the edited text has as many lines as the source, and
every edited line comes from its source line in a fixed way. The last receiver on its own becomes
its marker; some spaces directly behind commas become marks; and something may be added at the end
of the line, in front of a final carriage return. What is added begins with a terminator, a colon or
a mark, and otherwise consists of such signs and of identifier characters.
-/

set_option autoImplicit false

namespace DialectBridge

namespace Text

/-! ## Bodies and tails -/

/-- A tail is a carriage return or nothing. -/
theorem tail_eq (line : Text) : tail line = [] ∨ tail line = ['\r'] := by
  unfold tail
  split
  · exact .inr rfl
  · exact .inl rfl

theorem not_mem_body {line : Text} {c : Char} (h : c ∉ line) : c ∉ body line :=
  fun inside => h (body_append_tail line ▸ List.mem_append_left _ inside)

theorem not_mem_tail {line : Text} {c : Char} (h : c ∉ line) : c ∉ tail line :=
  fun inside => h (body_append_tail line ▸ List.mem_append_right _ inside)

/-- Without a carriage return at the end the body is all there is. -/
theorem body_of_getLast?_ne {line : Text} (h : line.getLast? ≠ some '\r') : body line = line := by
  unfold body
  rw [if_neg h]

theorem tail_of_getLast?_ne {line : Text} (h : line.getLast? ≠ some '\r') : tail line = [] := by
  unfold tail
  rw [if_neg h]

@[simp]
theorem body_append_return (front : Text) : body (front ++ ['\r']) = front := by
  unfold body
  rw [List.getLast?_append]
  simp

/-- What is added in front of the tail belongs to the body. -/
theorem body_append_added (line : Text) {added : Text} (h : '\r' ∉ added) :
    body (body line ++ added ++ tail line) = body line ++ added := by
  rcases List.eq_nil_or_concat' added with rfl | ⟨front, c, rfl⟩
  · rw [List.append_nil, body_append_tail]
  · rcases tail_eq line with empty | ending
    · rw [empty, List.append_nil]
      refine body_of_getLast?_ne ?_
      rw [← List.append_assoc, List.getLast?_concat]
      rintro same
      cases same
      exact h (List.mem_append_right _ (List.mem_singleton_self _))
    · rw [ending, body_append_return]

/-- What is added in front of the tail leaves the tail. -/
theorem tail_append_added (line : Text) {added : Text} (h : '\r' ∉ added) :
    tail (body line ++ added ++ tail line) = tail line := by
  have whole := body_append_tail (body line ++ added ++ tail line)
  rw [body_append_added line h] at whole
  exact List.append_cancel_left whole

theorem length_body_le (line : Text) : (body line).length ≤ line.length := by
  have size := congrArg List.length (body_append_tail line)
  rw [List.length_append] at size
  omega

/-- A text is the front that was dropped and the rest. -/
theorem dropFront?_eq_some {front t rest : Text} (h : dropFront? front t = some rest) :
    t = front ++ rest := by
  induction front generalizing t with
  | nil => exact Option.some.inj h
  | cons a more ih =>
    cases t with
    | nil => cases h
    | cons c later =>
      unfold dropFront? at h
      split at h
      · next same => rw [same, ih h, List.cons_append]
      · cases h

/-- Dropping as many characters as a run has leaves what stands behind the run. -/
theorem drop_length_takeWhile (condition : Char → Bool) (t : Text) :
    t.drop (t.takeWhile condition).length = t.dropWhile condition := by
  have whole := List.takeWhile_append_dropWhile (l := t) (p := condition)
  calc t.drop (t.takeWhile condition).length
      = (t.takeWhile condition ++ t.dropWhile condition).drop (t.takeWhile condition).length := by
        rw [whole]
    _ = t.dropWhile condition := List.drop_left

/-- A run ends in front of a character at which its condition fails. -/
theorem takeWhile_append_cons {condition : Char → Bool} {c : Char} (stops : condition c = false)
    (t rest : Text) : (t ++ c :: rest).takeWhile condition = t.takeWhile condition := by
  induction t with
  | nil => exact List.takeWhile_cons_of_neg (by simp [stops])
  | cons d more ih => rw [List.cons_append, List.takeWhile_cons, List.takeWhile_cons, ih]

theorem dropWhile_append_cons {condition : Char → Bool} {c : Char} (stops : condition c = false)
    (t rest : Text) :
    (t ++ c :: rest).dropWhile condition = t.dropWhile condition ++ c :: rest := by
  induction t with
  | nil => exact List.dropWhile_cons_of_neg (by simp [stops])
  | cons d more ih =>
    rw [List.cons_append, List.dropWhile_cons, List.dropWhile_cons, ih]
    split <;> rfl

theorem lines_cons_lineFeed (t : Text) : lines ('\n' :: t) = [] :: lines t := by
  simp [lines]

/-- Any other character belongs to the first line. -/
theorem lines_cons_of_ne {c : Char} {t line : Text} {more : List Text} (h : c ≠ '\n')
    (whole : lines t = line :: more) : lines (c :: t) = (c :: line) :: more := by
  simp [lines, h, whole]

theorem splitLast?_eq_some {t front : Text} {c : Char} (h : splitLast? t = some (front, c)) :
    t = front ++ [c] := by
  unfold splitLast? at h
  obtain ⟨last, found, same⟩ := Option.map_eq_some_iff.1 h
  cases same
  obtain ⟨init, rfl⟩ := List.getLast?_eq_some_iff.1 found
  simp

end Text

/-! ## Edits that work on lines -/

section Related

variable {α β γ : Type} {related : α → β → Prop}

/-- Whatever stands on the right of a relation between lists is related to what stands at the same
index on the left. -/
theorem exists_getElem?_left {all : List α} {all' : List β} (pairs : List.Forall₂ related all all')
    {k : Nat} {b : β} (found : all'[k]? = some b) : ∃ a, all[k]? = some a ∧ related a b := by
  induction pairs generalizing k with
  | nil => cases found
  | @cons first first' rest rest' here _ ih =>
    cases k with
    | zero =>
      obtain rfl := Option.some.inj found
      exact ⟨first, rfl, here⟩
    | succ k => exact ih found

/-- Whatever stands on the left of a relation between lists is related to what stands at the same
index on the right. -/
theorem exists_getElem?_right {all : List α} {all' : List β}
    (pairs : List.Forall₂ related all all') {k : Nat} {a : α} (found : all[k]? = some a) :
    ∃ b, all'[k]? = some b ∧ related a b :=
  exists_getElem?_left (List.Forall₂.flip pairs) found

/-- Relations between lists compose where the relations do. -/
theorem forall₂_trans {next : β → γ → Prop} {both : α → γ → Prop} {a : List α} {b : List β}
    {c : List γ} (compose : ∀ x y z, related x y → next y z → both x z)
    (here : List.Forall₂ related a b) (there : List.Forall₂ next b c) : List.Forall₂ both a c := by
  induction here generalizing c with
  | nil =>
    cases there
    exact .nil
  | cons relation _ ih =>
    cases there with
    | cons step more => exact .cons (compose _ _ _ relation step) (ih more)

end Related

namespace Edit

/-- An edit on lines that breaks none of them gives the lines of the text after it. -/
theorem lines_onLines (name : String) (edit : List Text → List EditedLine)
    {related : Text → Text → Prop} (unbroken : ∀ a b, related a b → '\n' ∉ a → '\n' ∉ b)
    (each : ∀ all, List.Forall₂ related all ((edit all).map (·.line))) (t : Text) :
    Text.lines ((onLines name edit).apply t) = (edit (Text.lines t)).map (·.line) := by
  have pairs := each (Text.lines t)
  refine Text.lines_joinLines ?_ ?_
  · intro empty
    rw [empty] at pairs
    exact Text.lines_ne_nil t (List.forall₂_nil_right_iff.1 pairs)
  · intro line member
    obtain ⟨k, found⟩ := List.mem_iff_getElem?.1 member
    obtain ⟨original, inside, relation⟩ := exists_getElem?_left pairs found
    exact unbroken original line relation
      (Text.not_mem_of_mem_lines (List.mem_of_getElem? inside))

/-- An edit on lines relates the lines of the text before and after it as it relates lists of
lines. -/
theorem forall₂_lines_onLines (name : String) (edit : List Text → List EditedLine)
    {related : Text → Text → Prop} (unbroken : ∀ a b, related a b → '\n' ∉ a → '\n' ∉ b)
    (each : ∀ all, List.Forall₂ related all ((edit all).map (·.line))) (t : Text) :
    List.Forall₂ related (Text.lines t) (Text.lines ((onLines name edit).apply t)) := by
  rw [lines_onLines name edit unbroken each]
  exact each (Text.lines t)

/-- The line after an edit is the new one where there is one. -/
theorem line_become (line : Text) (new : Option Text) :
    (EditedLine.become line new).line = new.getD line := by
  cases new <;> rfl

/-- An edit of every line on its own relates each line to what it becomes. -/
theorem forall₂_lines_onEachLine (name : String) (edit : Text → Option Text)
    {related : Text → Text → Prop} (unbroken : ∀ a b, related a b → '\n' ∉ a → '\n' ∉ b)
    (each : ∀ line, related line ((edit line).getD line)) (t : Text) :
    List.Forall₂ related (Text.lines t) (Text.lines ((onEachLine name edit).apply t)) := by
  refine forall₂_lines_onLines name _ unbroken (fun all => ?_) t
  rw [List.map_map, List.forall₂_map_right_iff]
  refine List.forall₂_same.2 fun line _ => ?_
  rw [Function.comp_apply, line_become]
  exact each line

/-- An edit of every line on its own acts on the lines of a text one by one. -/
theorem lines_onEachLine (name : String) (edit : Text → Option Text)
    (unbroken : ∀ a, '\n' ∉ a → '\n' ∉ (edit a).getD a) (t : Text) :
    Text.lines ((onEachLine name edit).apply t) =
      (Text.lines t).map fun line => (edit line).getD line := by
  have pairs : List.Forall₂ (fun line line' => (edit line).getD line = line') (Text.lines t)
      (Text.lines ((onEachLine name edit).apply t)) := by
    refine forall₂_lines_onEachLine name edit ?_ (fun line => rfl) t
    rintro line _ rfl clean
    exact unbroken line clean
  rw [← List.forall₂_map_left_iff (f := fun line => (edit line).getD line),
    List.forall₂_eq_eq_eq] at pairs
  exact pairs.symm

end Edit

namespace Preparation

/-! ## Additions at the end of a line -/

/-- What an edit may add at the end of a line: signs and identifier characters, a sign first. -/
structure Addition (added : Text) : Prop where
  signs : ∀ c ∈ added, isIdentifier c = true ∨ c = ';' ∨ c = ':' ∨ c = '↯'
  head : ∀ c ∈ added.head?, isIdentifier c = false

namespace Addition

theorem nil : Addition [] where
  signs c member := absurd member List.not_mem_nil
  head c first := by cases first

theorem append {first second : Text} (a : Addition first) (b : Addition second) :
    Addition (first ++ second) where
  signs c member := by
    rcases List.mem_append.1 member with left | right
    · exact a.signs c left
    · exact b.signs c right
  head c start := by
    cases first with
    | nil => exact b.head c start
    | cons d rest => exact a.head c start

theorem terminator : Addition [';'] where
  signs c member := .inr (.inl (List.mem_singleton.1 member))
  head c first := by
    obtain rfl := Option.some.inj first
    decide

/-- A character that is neither a sign nor part of an identifier is never added. -/
theorem not_mem {added : Text} (a : Addition added) {c : Char}
    (foreign : isIdentifier c = false ∧ c ≠ ';' ∧ c ≠ ':' ∧ c ≠ '↯') : c ∉ added := by
  intro member
  rcases a.signs c member with letter | rfl | rfl | rfl
  · exact Bool.noConfusion (foreign.1.symm.trans letter)
  · exact foreign.2.1 rfl
  · exact foreign.2.2.1 rfl
  · exact foreign.2.2.2 rfl

end Addition

/-- A line with an addition in front of its tail, no longer than its growth allows. -/
def Extension (growth : Nat → Nat) (line line' : Text) : Prop :=
  ∃ added, Addition added ∧ line' = Text.body line ++ added ++ Text.tail line ∧
    line'.length ≤ growth line.length

namespace Extension

variable {line line' line'' : Text} {growth : Nat → Nat}

theorem of_eq (h : line' = line) (enough : line.length ≤ growth line.length) :
    Extension growth line line' := by
  subst h
  refine ⟨[], .nil, ?_, enough⟩
  rw [List.append_nil, Text.body_append_tail]

/-- An extension of an extension is an extension. -/
theorem trans {more : Nat → Nat} (first : Extension growth line line')
    (second : Extension more line' line'') (monotone : ∀ a b, a ≤ b → more a ≤ more b) :
    Extension (fun n => more (growth n)) line line'' := by
  obtain ⟨added, a, rfl, size⟩ := first
  obtain ⟨added', b, rfl, size'⟩ := second
  have clean : '\r' ∉ added := a.not_mem (by decide)
  refine ⟨added ++ added', a.append b, ?_, Nat.le_trans size' (monotone _ _ size)⟩
  rw [Text.body_append_added line clean, Text.tail_append_added line clean,
    List.append_assoc (Text.body line)]

/-- What is never added is new in no extension. -/
theorem not_mem (h : Extension growth line line') {c : Char}
    (foreign : isIdentifier c = false ∧ c ≠ ';' ∧ c ≠ ':' ∧ c ≠ '↯') (clean : c ∉ line) :
    c ∉ line' := by
  obtain ⟨added, a, rfl, -⟩ := h
  have kept : c ∉ added := a.not_mem foreign
  simp [Text.not_mem_body clean, Text.not_mem_tail clean, kept]

theorem not_mem_lineFeed (h : Extension growth line line') (clean : '\n' ∉ line) :
    '\n' ∉ line' :=
  h.not_mem (by decide) clean

end Extension

/-- A dangling dot gets its terminator in front of the tail. -/
theorem extension_terminateDot (line : Text) :
    Extension (· + 1) line ((terminateDot? line).getD line) := by
  unfold terminateDot?
  split
  · next before split =>
    have whole := Text.splitLast?_eq_some split
    split
    · refine ⟨[';'], .terminator, ?_, ?_⟩
      · rw [whole]
        simp
      · have size := congrArg List.length (Text.body_append_tail line)
        rw [whole] at size
        simp only [List.length_append, List.length_cons, List.length_nil] at size
        simp only [Option.getD_some, List.length_append, List.length_cons, List.length_nil]
        omega
    · exact .of_eq rfl (Nat.le_succ _)
  · exact .of_eq rfl (Nat.le_succ _)

/-- Terminating dots extends lines. -/
theorem extension_terminateDots (all : List Text) :
    List.Forall₂ (Extension (· + 1)) all ((terminateDots all).map (·.line)) := by
  fun_induction terminateDots all with
  | case1 => exact .nil
  | case2 line =>
    have here := extension_terminateDot line
    rw [← Edit.line_become] at here
    exact .cons here .nil
  | case3 line next rest shared ih =>
    simp only [Bool.and_eq_true, beq_iff_eq] at shared
    refine .cons (.of_eq rfl (Nat.le_succ _)) (.cons ⟨[';'], .terminator, ?_, ?_⟩ ih)
    · rw [shared.2]
      rfl
    · have size := congrArg List.length (Text.body_append_tail next)
      rw [shared.2] at size
      simp only [List.length_append, List.length_cons, List.length_nil] at size ⊢
      omega
  | case4 line next rest apart ih =>
    have here := extension_terminateDot line
    rw [← Edit.line_become] at here
    exact .cons here ih

/-- A word on its own consists of identifier characters and is part of its line. -/
theorem loneWord?_eq_some {indentation line word : Text}
    (h : loneWord? indentation line = some word) :
    (∀ c ∈ word, isIdentifier c = true) ∧ word.length ≤ line.length := by
  unfold loneWord? at h
  split at h
  · next rest front =>
    dsimp only at h
    split at h
    · next lone =>
      obtain rfl := Option.some.inj h
      simp only [Bool.and_eq_true, List.all_eq_true] at lone
      refine ⟨lone.1.2, ?_⟩
      have size := congrArg List.length (Text.dropFront?_eq_some front)
      have inner := Text.length_body_le rest
      rw [List.length_append] at size
      omega
    · cases h
  · cases h

/-- A key is indented by indentation characters. -/
theorem isIndent_of_keyIndentation? {above indentation : Text}
    (h : keyIndentation? above = some indentation) : ∀ c ∈ indentation, isIndent c = true := by
  unfold keyIndentation? at h
  dsimp only at h
  split at h
  · split at h
    · obtain rfl := Option.some.inj h
      exact fun c member => List.mem_takeWhile_imp member
    · cases h
  · cases h

/-- A key is completed by a colon and the word once more. -/
theorem extension_completeKey (above line : Text) :
    Extension (2 * · + 1) line ((completeKey? above line).getD line) := by
  unfold completeKey?
  cases keyIndentation? above with
  | none => exact .of_eq rfl (by omega)
  | some indentation =>
    cases found : loneWord? indentation line with
    | none => exact .of_eq (by simp [found]) (by omega)
    | some word =>
      obtain ⟨letters, size⟩ := loneWord?_eq_some found
      refine ⟨':' :: word, ⟨?_, ?_⟩, by simp [found], ?_⟩
      · intro c member
        rcases List.mem_cons.1 member with rfl | inside
        · exact .inr (.inr (.inl rfl))
        · exact .inl (letters c inside)
      · rintro c ⟨⟩
        decide
      · have whole := congrArg List.length (Text.body_append_tail line)
        simp [found] at whole ⊢
        omega

/-- Completing keys extends lines. -/
theorem extension_completeKeysBelow (above : Text) (all : List Text) :
    List.Forall₂ (Extension (2 * · + 1)) all ((completeKeysBelow above all).map (·.line)) := by
  induction all generalizing above with
  | nil => exact .nil
  | cons line rest ih =>
    have here := extension_completeKey above line
    rw [← Edit.line_become] at here
    exact .cons here (ih line)

theorem extension_completeKeys (all : List Text) :
    List.Forall₂ (Extension (2 * · + 1)) all ((completeKeys all).map (·.line)) := by
  cases all with
  | nil => exact .nil
  | cons line rest =>
    exact .cons (.of_eq rfl (by omega)) (extension_completeKeysBelow line rest)

theorem newProperty_text : Marker.newProperty.text = ['↯'] := rfl

/-- The room for a property stands behind a space at the end. -/
theorem extension_markTrailingSpace (line : Text) :
    Extension (· + 3) line ((markTrailingSpace? line).getD line) := by
  unfold markTrailingSpace?
  split
  · rw [Option.getD_some, newProperty_text]
    refine ⟨['↯', ':', '↯'], ⟨by simp, ?_⟩, ?_, ?_⟩
    · rintro c ⟨⟩
      rfl
    · simp only [List.append_assoc, List.cons_append, List.nil_append]
    · have whole := congrArg List.length (Text.body_append_tail line)
      simp only [List.length_append, List.length_cons, List.length_nil] at whole ⊢
      omega
  · exact .of_eq rfl (Nat.le_add_right _ _)

/-! ## Marks behind commas -/

/-- The second text is the first with marks in the place of some spaces. A mark stands directly
behind a comma, never in front of a colon. The flag says that a comma was just passed. -/
inductive Blotted : Bool → Text → Text → Prop
  | nil {comma : Bool} : Blotted comma [] []
  | keep {comma : Bool} {c : Char} {t t' : Text} (rest : Blotted (c == ',') t t') :
      Blotted comma (c :: t) (c :: t')
  | mark {t t' : Text} (free : t.head? ≠ some ':') (rest : Blotted false t t') :
      Blotted true (' ' :: t) ('↯' :: t')

namespace Blotted

variable {comma : Bool} {t t' : Text}

theorem length_eq (h : Blotted comma t t') : t'.length = t.length := by
  induction h with
  | nil => rfl
  | keep rest ih => rw [List.length_cons, List.length_cons, ih]
  | mark free rest ih => rw [List.length_cons, List.length_cons, ih]

/-- Only marks are new. -/
theorem mem_of_mem (h : Blotted comma t t') {c : Char} (member : c ∈ t') : c ∈ t ∨ c = '↯' := by
  induction h with
  | nil => exact .inl member
  | keep rest ih =>
    rcases List.mem_cons.1 member with rfl | inside
    · exact .inl List.mem_cons_self
    · exact (ih inside).imp_left (List.mem_cons_of_mem _)
  | mark free rest ih =>
    rcases List.mem_cons.1 member with rfl | inside
    · exact .inr rfl
    · exact (ih inside).imp_left (List.mem_cons_of_mem _)

/-- Only spaces go. -/
theorem mem_of_mem_left (h : Blotted comma t t') {c : Char} (member : c ∈ t) (filled : c ≠ ' ') :
    c ∈ t' := by
  induction h with
  | nil => exact member
  | keep rest ih =>
    rcases List.mem_cons.1 member with rfl | inside
    · exact List.mem_cons_self
    · exact List.mem_cons_of_mem _ (ih inside)
  | mark free rest ih =>
    rcases List.mem_cons.1 member with rfl | inside
    · exact absurd rfl filled
    · exact List.mem_cons_of_mem _ (ih inside)

/-- A text without commas, and not directly behind one, stays as it is. -/
theorem eq_of_not_mem (h : Blotted false t t') (plain : ',' ∉ t) : t' = t := by
  generalize passed : false = flag at h
  induction h with
  | nil => rfl
  | @keep comma c t t' rest ih =>
    have other : (c == ',') = false := by
      rw [beq_eq_false_iff_ne]
      rintro rfl
      exact plain List.mem_cons_self
    rw [ih (fun inside => plain (List.mem_cons_of_mem _ inside)) other.symm]
  | mark free rest ih => cases passed

end Blotted

theorem markTrailingComma_forward : ReplacementRule.Forward markTrailingComma :=
  fun _ _ => rfl

/-- Nothing but white space stands in front of a closing brace. -/
def closesNext (t : Text) : Bool := (Text.trimLeft t).head? == some '\x7d'

theorem closesNext_cons (c : Char) (t : Text) :
    closesNext (c :: t) = if isBlank c = true then closesNext t else c == '\x7d' := by
  unfold closesNext Text.trimLeft
  split
  · next blank => rw [List.dropWhile_cons_of_pos blank]
  · next filled =>
    rw [List.dropWhile_cons_of_neg filled]
    rfl

/-- The rule for commas replaces where a brace is next, and takes everything up to the brace. -/
theorem markTrailingComma_comma (rest : Text) :
    markTrailingComma none (',' :: ' ' :: rest) =
      if closesNext rest = true then
        some ⟨(rest.takeWhile isBlank).length + 3,
          ',' :: '↯' :: (rest.takeWhile isBlank ++ ['\x7d'])⟩
      else none := by
  rw [markTrailingComma, Text.drop_length_takeWhile]
  rfl

/-- Without a comma nothing is replaced. -/
theorem scan_markTrailingComma_append {front : Text} (plain : ',' ∉ front) (rest : Text) :
    Text.scan markTrailingComma (front ++ rest) = front ++ Text.scan markTrailingComma rest := by
  induction front with
  | nil => rfl
  | cons c more ih =>
    have declined : markTrailingComma none (c :: (more ++ rest)) = none := by
      unfold markTrailingComma
      split
      · next same =>
        obtain ⟨rfl, -⟩ := List.cons.inj same
        exact absurd List.mem_cons_self plain
      · rfl
    rw [List.cons_append, Text.scan_cons_of_none markTrailingComma_forward declined,
      ih fun inside => plain (List.mem_cons_of_mem _ inside), List.cons_append]

/-- Marking the spaces behind commas as a recursion on the text. -/
def makeRoom : Text → Text
  | ',' :: ' ' :: rest =>
    if closesNext rest then ',' :: '↯' :: makeRoom rest else ',' :: ' ' :: makeRoom rest
  | c :: rest => c :: makeRoom rest
  | [] => []

theorem scan_markTrailingComma (t : Text) : Text.scan markTrailingComma t = makeRoom t := by
  fun_induction makeRoom t with
  | case1 rest closes ih =>
    have replaced := markTrailingComma_comma rest
    rw [if_pos closes] at replaced
    obtain ⟨later, brace⟩ := List.head?_eq_some_iff.1 (beq_iff_eq.1 closes)
    have whole : rest.takeWhile isBlank ++ ['\x7d'] ++ later = rest := by
      rw [List.append_assoc, List.singleton_append, ← brace]
      exact List.takeWhile_append_dropWhile
    have plain : ',' ∉ rest.takeWhile isBlank ++ ['\x7d'] := by
      intro member
      rcases List.mem_append.1 member with blank | last
      · exact absurd (List.mem_takeWhile_imp blank) (by decide)
      · exact absurd last (by decide)
    -- What the rule takes up to the brace has no comma, so it would be kept anyway.
    have behind : (' ' :: rest).drop ((rest.takeWhile isBlank).length + 3 - 1) = later :=
      calc (' ' :: rest).drop ((rest.takeWhile isBlank).length + 3 - 1)
          = (rest.takeWhile isBlank ++ ['\x7d'] ++ later).drop
              (rest.takeWhile isBlank ++ ['\x7d']).length := by
            rw [whole, List.length_append]
            rfl
        _ = later := List.drop_left
    have kept := scan_markTrailingComma_append plain later
    rw [whole, ih] at kept
    rw [Text.scan_cons_of_some markTrailingComma_forward replaced, behind, kept]
    rfl
  | case2 rest open_ ih =>
    have declined : markTrailingComma none (',' :: ' ' :: rest) = none := by
      rw [markTrailingComma_comma, if_neg open_]
    rw [Text.scan_cons_of_none markTrailingComma_forward declined,
      Text.scan_cons_of_none markTrailingComma_forward rfl, ih]
  | case3 c rest other ih =>
    have declined : markTrailingComma none (c :: rest) = none := by
      unfold markTrailingComma
      split
      · next more same =>
        obtain ⟨rfl, rfl⟩ := List.cons.inj same
        exact absurd rfl (other more rfl)
      · rfl
    rw [Text.scan_cons_of_none markTrailingComma_forward declined, ih]
  | case4 => rfl

/-- A text, or the first line of a text with the given lines below it, and the same with marks in
the place of some spaces. A mark stands directly behind a comma, and behind it stands nothing but
white space up to a closing brace. The flag says that a comma was just passed. -/
inductive Roomed (below : List Text) : Bool → Text → Text → Prop
  | nil {comma : Bool} : Roomed below comma [] []
  | keep {comma : Bool} {c : Char} {t t' : Text} (rest : Roomed below (c == ',') t t') :
      Roomed below comma (c :: t) (c :: t')
  | mark {t t' : Text} (closes : closesNext (Text.joinLines (t :: below)) = true)
      (rest : Roomed below false t t') : Roomed below true (' ' :: t) ('↯' :: t')

namespace Roomed

variable {below : List Text} {comma : Bool} {t t' : Text}

/-- Having passed a comma only allows more. -/
theorem of_false (h : Roomed below false t t') (comma : Bool) : Roomed below comma t t' := by
  cases h with
  | nil => exact .nil
  | keep rest => exact .keep rest

/-- No colon follows a mark, since white space or the brace does. -/
theorem blotted (h : Roomed below comma t t') : Blotted comma t t' := by
  induction h with
  | nil => exact .nil
  | keep rest ih => exact .keep ih
  | mark closes rest ih =>
    refine .mark (fun colon => ?_) ih
    obtain ⟨more, rfl⟩ := List.head?_eq_some_iff.1 colon
    cases below <;>
      exact absurd closes (by simp [closesNext, Text.joinLines, Text.trimLeft, isBlank])

end Roomed

/-- Marking the spaces behind commas makes room for properties. -/
theorem roomed_scan (t : Text) : Roomed [] false t (Text.scan markTrailingComma t) := by
  rw [scan_markTrailingComma]
  fun_induction makeRoom t with
  | case1 rest closes ih => exact .keep (.mark closes ih)
  | case2 rest open_ ih => exact .keep (.keep ih)
  | case3 c rest other ih => exact .keep (ih.of_false _)
  | case4 => exact .nil

/-- Lines and the same with marks, each line in view of the lines below it. -/
inductive RoomedLines : List Text → List Text → Prop
  | nil : RoomedLines [] []
  | cons {line line' : Text} {below below' : List Text} (here : Roomed below false line line')
      (rest : RoomedLines below below') : RoomedLines (line :: below) (line' :: below')

/-- Line feeds are kept, so a text is marked line by line. -/
theorem Roomed.lines_cons {comma : Bool} {t t' : Text} (h : Roomed [] comma t t') :
    ∃ line line' more more', Text.lines t = line :: more ∧ Text.lines t' = line' :: more' ∧
      Roomed more comma line line' ∧ RoomedLines more more' := by
  induction h with
  | nil => exact ⟨[], [], [], [], rfl, rfl, .nil, .nil⟩
  | @keep comma c t t' rest ih =>
    obtain ⟨line, line', more, more', whole, whole', first, others⟩ := ih
    by_cases feed : c = '\n'
    · subst feed
      refine ⟨[], [], Text.lines t, Text.lines t', Text.lines_cons_lineFeed t,
        Text.lines_cons_lineFeed t', .nil, ?_⟩
      rw [whole, whole']
      exact .cons first others
    · exact ⟨c :: line, c :: line', more, more', Text.lines_cons_of_ne feed whole,
        Text.lines_cons_of_ne feed whole', .keep first, others⟩
  | @mark t t' closes rest ih =>
    obtain ⟨line, line', more, more', whole, whole', first, others⟩ := ih
    refine ⟨' ' :: line, '↯' :: line', more, more', Text.lines_cons_of_ne (by decide) whole,
      Text.lines_cons_of_ne (by decide) whole', .mark ?_ first, others⟩
    rw [← whole, Text.joinLines_lines]
    exact closes

/-- Marking the spaces behind commas is marking them line by line. -/
theorem roomedLines_scan (t : Text) :
    RoomedLines (Text.lines t) (Text.lines (Text.scan markTrailingComma t)) := by
  obtain ⟨line, line', more, more', whole, whole', first, others⟩ := (roomed_scan t).lines_cons
  rw [whole, whole']
  exact .cons first others

/-- Marking the spaces behind commas blots every line. -/
theorem RoomedLines.blotted {all all' : List Text} (h : RoomedLines all all') :
    List.Forall₂ (Blotted false) all all' := by
  induction h with
  | nil => exact .nil
  | cons here _ ih => exact .cons here.blotted ih

/-! ## Receivers on their own -/

/-- Where a receiver was marked, it stood on its own. -/
theorem markReceiver?_eq_some {line new : Text} (h : markReceiver? line = some new) :
    ∃ before after, line = before ++ '@' :: after ∧
      new = before ++ Marker.receiver.text ++ after ∧ after.head?.all isBlank = true ∧
      admitsReceiver before = true := by
  unfold markReceiver? at h
  obtain ⟨⟨before, after⟩, found, rfl⟩ := Option.map_eq_some_iff.1 h
  obtain ⟨whole, lone⟩ := Text.lastPlace?_sound found
  unfold isLoneReceiver at lone
  split at lone
  · next rest same =>
    simp only [Bool.and_eq_true] at lone
    simp only at same whole
    refine ⟨before, rest, ?_, ?_, lone.1, lone.2⟩
    · rw [← whole, same]
    · rw [same]
      rfl
  · cases lone

/-- A line with the last receiver on its own marked. -/
def receiverLine (line : Text) : Text := (markReceiver? line).getD line

/-- A line without receivers has none marked. -/
theorem receiverLine_of_not_mem {line : Text} (plain : '@' ∉ line) : receiverLine line = line := by
  cases marked : markReceiver? line with
  | none => rw [receiverLine, marked, Option.getD_none]
  | some new =>
    obtain ⟨before, after, whole, -⟩ := markReceiver?_eq_some marked
    exact absurd (whole ▸ by simp) plain

/-- The characters of a marked receiver. -/
theorem mem_receiverLine {line : Text} {c : Char} (h : c ∈ receiverLine line) :
    c ∈ line ∨ c ∈ Marker.receiver.text := by
  unfold receiverLine at h
  cases marked : markReceiver? line with
  | none =>
    rw [marked] at h
    exact .inl h
  | some new =>
    rw [marked] at h
    obtain ⟨before, after, rfl, rfl, -, -⟩ := markReceiver?_eq_some marked
    simp only [Option.getD_some, List.mem_append] at h
    rcases h with (left | written) | right
    · exact .inl (List.mem_append_left _ left)
    · exact .inr written
    · exact .inl (List.mem_append_right _ (List.mem_cons_of_mem _ right))

/-- A line with text still has text once its receiver is marked. -/
theorem isEmptyLine_receiverLine {line : Text} (filled : Text.isEmptyLine line = false) :
    Text.isEmptyLine (receiverLine line) = false := by
  unfold receiverLine
  cases marked : markReceiver? line with
  | none => exact filled
  | some new =>
    obtain ⟨before, after, -, rfl, -, -⟩ := markReceiver?_eq_some marked
    refine List.all_eq_false.2 ⟨'t', ?_, by decide⟩
    exact List.mem_append_left _ (List.mem_append_right _ (by decide))

theorem length_receiverLine_le (line : Text) : (receiverLine line).length ≤ line.length + 21 := by
  unfold receiverLine
  cases marked : markReceiver? line with
  | none => exact Nat.le_add_right _ _
  | some new =>
    obtain ⟨before, after, rfl, rfl, -, -⟩ := markReceiver?_eq_some marked
    have size : Marker.receiver.text.length = 22 := by decide
    simp only [Option.getD_some, List.length_append, List.length_cons, size]
    omega

/-! ## All gentle edits -/

/-- How a line looks after the gentle edits: its receiver marked, something added at its end, and
marks behind commas. -/
def Edited (line line' : Text) : Prop :=
  ∃ extended, Extension (2 * · + 6) (receiverLine line) extended ∧ Blotted false extended line'

theorem lines_dotEdit (t : Text) :
    Text.lines (dotEdit.apply t) = (terminateDots (Text.lines t)).map (·.line) :=
  Edit.lines_onLines _ _ (fun _ _ h => h.not_mem_lineFeed) extension_terminateDots t

theorem lines_keyEdit (t : Text) :
    Text.lines (keyEdit.apply t) = (completeKeys (Text.lines t)).map (·.line) :=
  Edit.lines_onLines _ _ (fun _ _ h => h.not_mem_lineFeed) extension_completeKeys t

/-- A line with room for a property behind the single space in which it ends. -/
def spacedLine (line : Text) : Text := (markTrailingSpace? line).getD line

theorem lines_spaceEdit (t : Text) :
    Text.lines (spaceEdit.apply t) = (Text.lines t).map spacedLine :=
  Edit.lines_onEachLine _ markTrailingSpace?
    (fun line clean => (extension_markTrailingSpace line).not_mem_lineFeed clean) t

/-- The edits that only add something, one after the other. -/
theorem forall₂_extension (t : Text) :
    List.Forall₂ (Extension (2 * · + 6)) (Text.lines t)
      (Text.lines (spaceEdit.apply (keyEdit.apply (dotEdit.apply t)))) := by
  rw [lines_spaceEdit, lines_keyEdit, lines_dotEdit]
  have dots := extension_terminateDots (Text.lines t)
  generalize (terminateDots (Text.lines t)).map (·.line) = dotted at dots ⊢
  have keys := extension_completeKeys dotted
  generalize (completeKeys dotted).map (·.line) = completed at keys ⊢
  have spaces : List.Forall₂ (Extension (· + 3)) completed (completed.map spacedLine) := by
    rw [List.forall₂_map_right_iff]
    exact List.forall₂_same.2 fun line _ => extension_markTrailingSpace line
  have both : List.Forall₂ (Extension fun n => 2 * (n + 1) + 1) (Text.lines t) completed :=
    forall₂_trans (fun _ _ _ first second => first.trans second (by intros; omega)) dots keys
  have all : List.Forall₂ (Extension fun n => 2 * (n + 1) + 1 + 3) (Text.lines t)
      (completed.map spacedLine) :=
    forall₂_trans (fun _ _ _ first second => first.trans second (by intros; omega)) both spaces
  refine all.imp ?_
  rintro line line' ⟨added, addition, same, size⟩
  exact ⟨added, addition, same, by omega⟩

/-- The edit of receivers marks them line by line. -/
theorem lines_receiverEdit (t : Text) :
    Text.lines (receiverEdit.apply t) = (Text.lines t).map receiverLine := by
  refine Edit.lines_onEachLine _ markReceiver? (fun line clean member => ?_) t
  rcases mem_receiverLine member with inside | written
  · exact clean inside
  · exact absurd written (by decide)

theorem editedLines_eq (t : Text) :
    editedLines t = Text.lines (Text.scan markTrailingComma
      (spaceEdit.apply (keyEdit.apply (dotEdit.apply (receiverEdit.apply t))))) := by
  unfold editedLines gentleEdits
  rw [Edit.applyAll, List.foldl_cons, List.foldl_cons, List.foldl_cons, List.foldl_cons,
    List.foldl_cons, List.foldl_nil]
  rfl

/-- **The gentle edits treat a source line by line.** -/
theorem forall₂_edited (t : Text) : List.Forall₂ Edited (Text.lines t) (editedLines t) := by
  rw [editedLines_eq]
  unfold Edited
  have extended := forall₂_extension (receiverEdit.apply t)
  have blotted := (roomedLines_scan (spaceEdit.apply (keyEdit.apply (dotEdit.apply
    (receiverEdit.apply t))))).blotted
  rw [← List.forall₂_map_left_iff (f := receiverLine) (R := fun line line' => ∃ between,
    Extension (2 * · + 6) line between ∧ Blotted false between line'), ← lines_receiverEdit]
  exact forall₂_trans (fun _ between _ first second => ⟨between, first, second⟩) extended blotted

/-- A blank line consists of indentation and carriage returns. -/
theorem mem_of_isBlankLine {line : Text} (h : isBlankLine line = true) {c : Char}
    (member : c ∈ line) : isIndent c = true ∨ c = '\r' := by
  rw [← Text.body_append_tail line] at member
  rcases List.mem_append.1 member with inside | ending
  · exact .inl (List.all_eq_true.1 h c inside)
  · rcases Text.tail_eq line with none_ | return_
    · rw [none_] at ending
      exact absurd ending List.not_mem_nil
    · rw [return_] at ending
      exact .inr (List.mem_singleton.1 ending)

namespace Edited

variable {line line' : Text}

/-- Characters of an edited line come from the line, from the receiver's marker, or from an
addition. -/
theorem mem (h : Edited line line') {c : Char} (member : c ∈ line') :
    c ∈ line ∨ c ∈ Marker.receiver.text ∨ isIdentifier c = true ∨ c = ';' ∨ c = ':' ∨ c = '↯' := by
  obtain ⟨_, ⟨added, addition, rfl, -⟩, blotted⟩ := h
  rcases blotted.mem_of_mem member with inside | mark
  · rcases List.mem_append.1 inside with front | ending
    · rcases List.mem_append.1 front with code | new
      · rcases mem_receiverLine (Text.body_append_tail (receiverLine line) ▸
          List.mem_append_left _ code) with old | written
        · exact .inl old
        · exact .inr (.inl written)
      · exact .inr (.inr (addition.signs c new))
    · rcases mem_receiverLine (Text.body_append_tail (receiverLine line) ▸
          List.mem_append_right _ ending) with old | written
      · exact .inl old
      · exact .inr (.inl written)
  · exact .inr (.inr (.inr (.inr (.inr mark))))

/-- No edit leaves a line with nothing but indentation where there was something else. -/
theorem eq_of_isBlankLine (h : Edited line line') (blank : isBlankLine line' = true) :
    line' = line := by
  obtain ⟨extended, ⟨added, addition, shape, -⟩, blotted⟩ := h
  have kept : line' = extended := by
    refine blotted.eq_of_not_mem fun comma => ?_
    rcases mem_of_isBlankLine blank (blotted.mem_of_mem_left comma (by decide)) with bad | bad
    · exact absurd bad (by decide)
    · exact absurd bad (by decide)
  subst kept
  have nothing : added = [] := by
    refine List.eq_nil_iff_forall_not_mem.2 fun c member => ?_
    have inside : c ∈ line' := by
      rw [shape]
      exact List.mem_append_left _ (List.mem_append_right _ member)
    rcases mem_of_isBlankLine blank inside with indent | rfl
    · simp only [isIndent, Bool.or_eq_true, beq_iff_eq] at indent
      rcases indent with rfl | rfl
      · exact addition.not_mem (by decide) member
      · exact addition.not_mem (by decide) member
    · exact addition.not_mem (by decide) member
  rw [nothing, List.append_nil, Text.body_append_tail] at shape
  rw [shape]
  unfold receiverLine
  cases marked : markReceiver? line with
  | none => rfl
  | some new =>
    obtain ⟨before, after, -, rfl, -, -⟩ := markReceiver?_eq_some marked
    have letter : 't' ∈ line' := by
      rw [shape, receiverLine, marked, Option.getD_some]
      exact List.mem_append_left _ (List.mem_append_right _ (by decide))
    rcases mem_of_isBlankLine blank letter with bad | bad
    · exact absurd bad (by decide)
    · exact absurd bad (by decide)

/-- A line with text still has text. -/
theorem isEmptyLine_eq_false (h : Edited line line') (filled : Text.isEmptyLine line = false) :
    Text.isEmptyLine line' = false := by
  obtain ⟨d, member, letter⟩ := List.all_eq_false.1 (isEmptyLine_receiverLine filled)
  obtain ⟨_, ⟨added, -, rfl, -⟩, blotted⟩ := h
  rw [← Text.body_append_tail (receiverLine line)] at member
  rcases List.mem_append.1 member with code | ending
  · refine List.all_eq_false.2 ⟨d, blotted.mem_of_mem_left ?_ ?_, by simpa using letter⟩
    · exact List.mem_append_left _ (List.mem_append_left _ code)
    · rintro rfl
      exact absurd letter (by decide)
  · rcases Text.tail_eq (receiverLine line) with none_ | return_
    · rw [none_] at ending
      exact absurd ending List.not_mem_nil
    · rw [return_, List.mem_singleton] at ending
      subst ending
      exact absurd letter (by decide)

/-- An edited line is at most twice as long as its line, up to the marks. -/
theorem length_le (h : Edited line line') : line'.length ≤ 2 * line.length + 48 := by
  obtain ⟨extended, ⟨added, -, -, size⟩, blotted⟩ := h
  have marked := length_receiverLine_le line
  dsimp only at size
  rw [blotted.length_eq]
  omega

end Edited

end Preparation

end DialectBridge
