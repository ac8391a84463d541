import DialectBridge.Proofs.Narrowing

/-!
# Declarations that move

Narrowing neither loses nor doubles a declaration. A variable moves to its first assignment, if that
stands in the block of the declaration and at its depth, and stays where it is declared otherwise.
`FirstAssigned` says which line that is, without the search that finds it.

Different variables never move to the same line, since the name in front of an assignment sign can
be read off the line. So a keyword is inserted twice on a line only if a name is declared twice at
the depth of that line, and generated text without such declarations has every name declared exactly
once, before and after.
-/

set_option autoImplicit false

namespace DialectBridge

namespace Declarations

/-! ## The search for the first assignment -/

/-- A line at the depth of a declaration that begins with an assignment to its variable. -/
structure Assigns (d : Declaration) (line : Text) : Prop where
  depth : (Text.leadingBlank line).length = d.indent
  assignment : assignmentTo d.name <+: Text.trimLeft line

/-- A line inside the block of a declaration that does not begin with an assignment to its
variable. -/
structure Passes (d : Declaration) (line : Text) : Prop where
  inside : d.indent ≤ (Text.leadingBlank line).length
  other : ¬ assignmentTo d.name <+: Text.trimLeft line

/-- The line that can declare a variable in the place of a hoisted declaration: its first assignment
below, in the block of the declaration and at its depth. -/
structure FirstAssigned (lines : List Text) (d : Declaration) (g : Nat) : Prop where
  below : d.line < g
  assigns : ∃ line, lines[g]? = some line ∧ Assigns d line
  between : ∀ k line, d.line < k → k < g → lines[k]? = some line →
    Text.isEmptyLine line = false → Passes d line

theorem startsWith_iff {front t : Text} : Text.startsWith front t = true ↔ front <+: t :=
  List.isPrefixOf_iff_prefix

/-- An assignment has its sign. -/
theorem mem_of_assignmentTo {name line : Text} (h : assignmentTo name <+: Text.trimLeft line) :
    '=' ∈ line := by
  have sign : '=' ∈ assignmentTo name := List.mem_append_right _ (by decide)
  exact (List.dropWhile_sublist _).subset (h.subset sign)

theorem Assigns.isEmptyLine_eq_false {d : Declaration} {line : Text} (h : Assigns d line) :
    Text.isEmptyLine line = false :=
  List.all_eq_false.2 ⟨'=', mem_of_assignmentTo h.assignment, by decide⟩

/-- A line with an assignment is no declaration line. -/
theorem Assigns.parse?_eq_none {d : Declaration} {line : Text} (h : Assigns d line) :
    parse? line = none := by
  cases parsed : parse? line with
  | none => rfl
  | some parts =>
    exact absurd (mem_of_assignmentTo h.assignment) (declaring_of_parse? parsed).plain

section Search

variable {d : Declaration} {line : Text}

theorem searchFrom_of_passes (h : Text.isEmptyLine line = false → Passes d line) (number : Nat)
    (rest : List Text) : searchFrom d number (line :: rest) = searchFrom d (number + 1) rest := by
  rw [searchFrom]
  split
  · rfl
  · next filled =>
    obtain ⟨inside, other⟩ := h (Bool.eq_false_iff.2 filled)
    dsimp only
    rw [if_neg (Nat.not_lt.2 inside), if_neg (mt startsWith_iff.1 other)]

theorem searchFrom_of_assigns (h : Assigns d line) (number : Nat) (rest : List Text) :
    searchFrom d number (line :: rest) = some ⟨d, number, d.indent⟩ := by
  rw [searchFrom, if_neg (Bool.eq_false_iff.1 h.isEmptyLine_eq_false)]
  dsimp only
  rw [h.depth, if_neg (Nat.lt_irrefl _), if_pos (startsWith_iff.2 h.assignment),
    if_neg (Nat.lt_irrefl _)]

/-- The search ends with the block, and at an assignment that is deeper. -/
theorem searchFrom_of_neither (filled : Text.isEmptyLine line = false) (notPassed : ¬ Passes d line)
    (notAssigned : ¬ Assigns d line) (number : Nat) (rest : List Text) :
    searchFrom d number (line :: rest) = none := by
  rw [searchFrom, if_neg (Bool.eq_false_iff.1 filled)]
  dsimp only
  split
  · rfl
  · next inside =>
    split
    · next assigned =>
      rw [startsWith_iff] at assigned
      refine if_pos (Nat.lt_of_le_of_ne (Nat.not_lt.1 inside) fun same => ?_)
      exact notAssigned ⟨same.symm, assigned⟩
    · next other => exact absurd ⟨Nat.not_lt.1 inside, mt startsWith_iff.2 other⟩ notPassed

end Search

/-- **What the search finds** is the first line that assigns, behind lines that are passed. -/
theorem searchFrom_eq_some_iff {d : Declaration} {number : Nat} {lines : List Text}
    {n : Narrowing} :
    searchFrom d number lines = some n ↔
      ∃ (k : Nat) (line : Text), lines[k]? = some line ∧ Assigns d line ∧
        n = ⟨d, number + k, d.indent⟩ ∧ ∀ j < k, ∀ other, lines[j]? = some other →
          Text.isEmptyLine other = false → Passes d other := by
  induction lines generalizing number with
  | nil =>
    refine iff_of_false (fun found => nomatch found) ?_
    rintro ⟨k, line, found, -⟩
    cases found
  | cons first rest ih =>
    by_cases passed : Text.isEmptyLine first = false → Passes d first
    · rw [searchFrom_of_passes passed, ih]
      constructor
      · rintro ⟨k, line, found, assigns, rfl, before⟩
        refine ⟨k + 1, line, found, assigns, by rw [Nat.add_right_comm, Nat.add_assoc], ?_⟩
        intro j bound other there
        cases j with
        | zero =>
          obtain rfl := Option.some.inj there
          exact passed
        | succ j => exact before j (Nat.lt_of_succ_lt_succ bound) other there
      · rintro ⟨k, line, found, assigns, rfl, before⟩
        cases k with
        | zero =>
          obtain rfl := Option.some.inj found
          exact absurd assigns.assignment (passed assigns.isEmptyLine_eq_false).other
        | succ k =>
          refine ⟨k, line, found, assigns, by rw [Nat.add_right_comm, Nat.add_assoc], ?_⟩
          exact fun j bound other there => before (j + 1) (Nat.succ_lt_succ bound) other there
    · obtain ⟨filled, stopped⟩ := Classical.not_imp.1 passed
      by_cases assigns : Assigns d first
      · rw [searchFrom_of_assigns assigns]
        constructor
        · intro found
          obtain rfl := Option.some.inj found
          exact ⟨0, first, rfl, assigns, rfl, fun j bound => absurd bound (Nat.not_lt_zero j)⟩
        · rintro ⟨k, line, found, -, rfl, before⟩
          cases k with
          | zero => rfl
          | succ k => exact absurd (before 0 (Nat.succ_pos k) first rfl filled) stopped
      · rw [searchFrom_of_neither filled stopped assigns]
        refine iff_of_false (fun found => nomatch found) ?_
        rintro ⟨k, line, found, taken, -, before⟩
        cases k with
        | zero =>
          obtain rfl := Option.some.inj found
          exact assigns taken
        | succ k => exact stopped (before 0 (Nat.succ_pos k) first rfl filled)

/-! ## Declared variables -/

/-- All variables of hoisted declarations. -/
def declared (lines : List Text) : List Declaration := (find lines).flatMap (·.declarations)

theorem mem_findFrom (number : Nat) {k : Nat} {lines : List Text} {line indentation : Text}
    {names : List Text} (found : lines[k]? = some line)
    (parsed : parse? line = some (indentation, names)) :
    ⟨number + k, indentation, names⟩ ∈ findFrom number lines := by
  induction lines generalizing number k with
  | nil => cases found
  | cons first rest ih =>
    unfold findFrom
    cases k with
    | zero =>
      obtain rfl := Option.some.inj found
      rw [parsed]
      exact List.mem_cons_self
    | succ k =>
      have later := ih (number + 1) found
      rw [Nat.add_right_comm, Nat.add_assoc] at later
      split
      · exact List.mem_cons_of_mem _ later
      · exact later

/-- A declaration line is found, with its number. -/
theorem mem_find {v : Nat} {lines : List Text} {line indentation : Text} {names : List Text}
    (found : lines[v]? = some line) (parsed : parse? line = some (indentation, names)) :
    ⟨v, indentation, names⟩ ∈ find lines := by
  have member := mem_findFrom 0 found parsed
  rwa [Nat.zero_add] at member

/-- Only one declaration line has a given number. -/
theorem eq_of_mem_find {lines : List Text} {d e : DeclarationLine} (hd : d ∈ find lines)
    (he : e ∈ find lines) (same : d.line = e.line) : d = e := by
  obtain ⟨line, found, parsed⟩ := parse?_of_mem_find hd
  obtain ⟨other, there, parsed'⟩ := parse?_of_mem_find he
  obtain rfl := Option.some.inj ((same ▸ found).symm.trans there)
  obtain ⟨indentation, names⟩ := Prod.mk.inj (Option.some.inj (parsed.symm.trans parsed'))
  cases d
  cases e
  simp_all

theorem mem_declared_iff {lines : List Text} {d : Declaration} :
    d ∈ declared lines ↔
      ∃ e ∈ find lines, e.line = d.line ∧ e.indentation.length = d.indent ∧ d.name ∈ e.names := by
  unfold declared
  rw [List.mem_flatMap]
  constructor
  · rintro ⟨e, member, inside⟩
    obtain ⟨name, listed, rfl⟩ := List.mem_map.1 inside
    exact ⟨e, member, rfl, rfl, listed⟩
  · rintro ⟨e, member, line, indent, listed⟩
    refine ⟨e, member, List.mem_map.2 ⟨d.name, listed, ?_⟩⟩
    rw [line, indent]

/-- A declaration line assigns nothing, and no name has an assignment sign. -/
theorem passes_of_mem_declared {lines : List Text} {d : Declaration} (h : d ∈ declared lines) :
    '=' ∉ d.name ∧ ∃ line, lines[d.line]? = some line ∧ Passes d line := by
  obtain ⟨e, member, number, indent, listed⟩ := mem_declared_iff.1 h
  obtain ⟨line, found, parsed⟩ := parse?_of_mem_find member
  have declaring := declaring_of_parse? parsed
  refine ⟨fun sign => declaring.plain (declaring.letters _ listed _ sign), line, number ▸ found, ?_⟩
  refine ⟨?_, fun assigned => declaring.plain ?_⟩
  · rw [← indent, declaring.blank]
  · exact mem_of_assignmentTo assigned

/-- **A declared variable is narrowed exactly where it is first assigned.** -/
theorem firstAssignment?_eq_some_iff {lines : List Text} {d : Declaration}
    (h : d ∈ declared lines) {n : Narrowing} :
    firstAssignment? lines d = some n ↔
      ∃ g, FirstAssigned lines d g ∧ n = ⟨d, g, d.indent⟩ := by
  obtain ⟨-, own, at_, passed⟩ := passes_of_mem_declared h
  unfold firstAssignment?
  rw [searchFrom_eq_some_iff]
  simp only [List.getElem?_drop]
  constructor
  · rintro ⟨k, line, found, assigns, rfl, before⟩
    have later : k ≠ 0 := by
      rintro rfl
      obtain rfl := Option.some.inj (at_.symm.trans found)
      exact passed.other assigns.assignment
    refine ⟨d.line + k, ⟨by omega, ⟨line, found, assigns⟩, ?_⟩, rfl⟩
    intro j other after bound there
    obtain ⟨m, rfl⟩ := Nat.exists_eq_add_of_le (Nat.le_of_lt after)
    exact before m (by omega) other there
  · rintro ⟨g, ⟨below, ⟨line, found, assigns⟩, between⟩, rfl⟩
    obtain ⟨k, rfl⟩ := Nat.exists_eq_add_of_le (Nat.le_of_lt below)
    refine ⟨k, line, found, assigns, rfl, fun j bound other there filled => ?_⟩
    rcases Nat.eq_zero_or_pos j with rfl | positive
    · obtain rfl := Option.some.inj (at_.symm.trans there)
      exact passed
    · exact between (d.line + j) other (by omega) (by omega) there filled

theorem mem_narrowings_iff {lines : List Text} {n : Narrowing} :
    n ∈ narrowings lines ↔
      n.declaration ∈ declared lines ∧ FirstAssigned lines n.declaration n.line ∧
        n.column = n.declaration.indent := by
  unfold narrowings
  rw [List.mem_filterMap]
  constructor
  · rintro ⟨d, member, found⟩
    obtain ⟨g, first, rfl⟩ := (firstAssignment?_eq_some_iff member).1 found
    exact ⟨member, first, rfl⟩
  · rintro ⟨member, first, column⟩
    refine ⟨n.declaration, member, (firstAssignment?_eq_some_iff member).2 ⟨n.line, first, ?_⟩⟩
    rw [← column]

/-! ## One keyword for each variable -/

/-- The name in front of an assignment can be read off the line. -/
theorem eq_of_assignmentTo {name other t : Text} (plain : '=' ∉ name) (plain' : '=' ∉ other)
    (h : assignmentTo name <+: t) (h' : assignmentTo other <+: t) : name = other := by
  have read : ∀ word : Text, '=' ∉ word → assignmentTo word <+: t →
      t.takeWhile (· != '=') = word ++ [' '] := by
    rintro word free ⟨rest, rfl⟩
    have letters : ∀ c ∈ word ++ [' '], (c != '=') = true := by
      intro c member
      rw [bne_iff_ne]
      rintro rfl
      rcases List.mem_append.1 member with inside | space
      · exact free inside
      · exact absurd space (by decide)
    have whole : assignmentTo word ++ rest = (word ++ [' ']) ++ '=' :: ' ' :: rest := by
      simp [assignmentTo]
    rw [whole, List.takeWhile_append_of_pos letters, List.takeWhile_cons_of_neg (by decide),
      List.append_nil]
  exact List.append_cancel_right ((read name plain h).symm.trans (read other plain' h'))

/-- A variable is first assigned on one line only. -/
theorem FirstAssigned.unique {lines : List Text} {d : Declaration} {g g' : Nat}
    (h : FirstAssigned lines d g) (h' : FirstAssigned lines d g') : g' = g := by
  have order : ∀ i j, FirstAssigned lines d i → FirstAssigned lines d j → ¬ i < j := by
    intro i j first second less
    obtain ⟨line, found, assigns⟩ := first.assigns
    exact (second.between i line first.below less found assigns.isEmptyLine_eq_false).other
      assigns.assignment
  have := order g g' h h'
  have := order g' g h' h
  omega

/-- Variables that are first assigned on one line have one name and one depth. -/
theorem FirstAssigned.same {lines : List Text} {d e : Declaration} {g : Nat}
    (h : FirstAssigned lines d g) (h' : FirstAssigned lines e g) (declares : d ∈ declared lines)
    (declares' : e ∈ declared lines) : (d.name, d.indent) = (e.name, e.indent) := by
  obtain ⟨line, found, assigns⟩ := h.assigns
  obtain ⟨other, there, assigns'⟩ := h'.assigns
  obtain rfl := Option.some.inj (found.symm.trans there)
  rw [eq_of_assignmentTo (passes_of_mem_declared declares).1 (passes_of_mem_declared declares').1
    assigns.assignment assigns'.assignment, ← assigns.depth, ← assigns'.depth]

/-- Of items with different keys, at most one satisfies a condition that fixes the key. -/
theorem countP_le_one {α β : Type} {key : α → β} {condition : α → Bool} {all : List α}
    (distinct : (all.map key).Nodup)
    (fixed : ∀ a ∈ all, ∀ b ∈ all, condition a = true → condition b = true → key a = key b) :
    all.countP condition ≤ 1 := by
  rw [List.countP_eq_length_filter]
  have members : ∀ a ∈ all.filter condition, a ∈ all ∧ condition a = true :=
    fun a member => List.mem_filter.1 member
  have apart : ((all.filter condition).map key).Nodup :=
    distinct.sublist (List.filter_sublist.map key)
  match all.filter condition, members, apart with
  | [], _, _ => exact Nat.zero_le 1
  | [a], _, _ => exact Nat.le_refl 1
  | a :: b :: rest, members, apart =>
    obtain ⟨inside, held⟩ := members a List.mem_cons_self
    obtain ⟨inside', held'⟩ := members b (List.mem_cons_of_mem _ List.mem_cons_self)
    refine absurd (fixed a inside b inside' held held') ?_
    exact (List.pairwise_cons.1 apart).1 _ (List.mem_map_of_mem List.mem_cons_self)

/-- No name is declared twice at one depth. -/
def DeclaredOnce (lines : List Text) : Prop :=
  ((declared lines).map fun d => (d.name, d.indent)).Nodup

instance (lines : List Text) : Decidable (DeclaredOnce lines) :=
  inferInstanceAs (Decidable (List.Nodup _))

/-- The line of a first assignment gets one keyword. -/
theorem keywordsOn_eq_one {lines : List Text} (once : DeclaredOnce lines) {d : Declaration} {g : Nat}
    (declares : d ∈ declared lines) (first : FirstAssigned lines d g) :
    keywordsOn g (narrowings lines) = 1 := by
  have some_ : 0 < keywordsOn g (narrowings lines) := by
    refine List.countP_pos_iff.2 ⟨⟨d, g, d.indent⟩, ?_, beq_self_eq_true g⟩
    exact mem_narrowings_iff.2 ⟨declares, first, rfl⟩
  have few : keywordsOn g (narrowings lines) ≤ 1 := by
    unfold keywordsOn narrowings
    rw [List.countP_filterMap]
    refine countP_le_one once fun a inside b inside' here there => ?_
    have assigned : ∀ e ∈ declared lines,
        (((firstAssignment? lines e).map (·.line == g)).getD false) = true →
        FirstAssigned lines e g := by
      intro e member found
      cases narrowed : firstAssignment? lines e with
      | none =>
        rw [narrowed] at found
        cases found
      | some n =>
        obtain ⟨k, assigned, rfl⟩ := (firstAssignment?_eq_some_iff member).1 narrowed
        rw [narrowed] at found
        exact beq_iff_eq.1 found ▸ assigned
    exact (assigned a inside here).same (assigned b inside' there) inside inside'
  omega

/-- A line where no variable is first assigned gets no keyword. -/
theorem keywordsOn_of_forall_not {lines : List Text} {g : Nat}
    (unassigned : ∀ d ∈ declared lines, ¬ FirstAssigned lines d g) :
    keywordsOn g (narrowings lines) = 0 := by
  refine List.countP_eq_zero.2 fun n member same => ?_
  obtain ⟨declares, first, -⟩ := mem_narrowings_iff.1 member
  exact unassigned _ declares (beq_iff_eq.1 same ▸ first)

/-! ## Declaration lines afterwards -/

/-- A line that is set is set to something new. -/
theorem exists_getElem?_foldl_set (new : DeclarationLine → Text) {all : List DeclarationLine}
    {lines : List Text} {d : DeclarationLine} (member : d ∈ all) (bound : d.line < lines.length) :
    ∃ e ∈ all, e.line = d.line ∧
      (all.foldl (fun lines d => lines.set d.line (new d)) lines)[d.line]? = some (new e) := by
  induction all generalizing lines with
  | nil => exact absurd member List.not_mem_nil
  | cons first rest ih =>
    rw [List.foldl_cons]
    rcases List.mem_cons.1 member with rfl | later
    · rcases getElem?_foldl_set new (List.getElem?_set_self bound) with last | ⟨e, inside, found⟩
      · exact ⟨d, List.mem_cons_self, rfl, last⟩
      · exact ⟨e, List.mem_cons_of_mem _ inside, found⟩
    · have still : d.line < (lines.set first.line (new first)).length := by rwa [List.length_set]
      obtain ⟨e, inside, found⟩ := ih later still
      exact ⟨e, List.mem_cons_of_mem _ inside, found⟩

/-- A declaration line has the names that remain. -/
theorem getElem?_narrowLines_of_mem_find {lines : List Text} {d : DeclarationLine}
    (h : d ∈ find lines) :
    (narrowLines lines)[d.line]? = some (remainingLine (narrowings lines) d) := by
  obtain ⟨line, found, parsed⟩ := parse?_of_mem_find h
  unfold narrowLines
  dsimp only
  split
  · next none_ =>
    have all : remaining (narrowings lines) d = d.names := by
      rw [List.isEmpty_iff.1 none_]
      exact List.filter_eq_self.2 fun _ _ => rfl
    rw [remainingLine_eq_self (declaring_of_parse? parsed) all, found]
  · have bound := (List.getElem?_eq_some_iff.1 found).1
    rw [← length_foldl_insertKeyword (narrowings lines)] at bound
    obtain ⟨e, member, same, last⟩ :=
      exists_getElem?_foldl_set (remainingLine (narrowings lines)) h bound
    rwa [eq_of_mem_find member h same] at last

/-- The names that remain are those that no line below can declare. -/
theorem mem_remaining_iff {lines : List Text} {d : DeclarationLine} (h : d ∈ find lines)
    {name : Text} (listed : name ∈ d.names) :
    name ∈ remaining (narrowings lines) d ↔
      ∀ g, ¬ FirstAssigned lines ⟨name, d.indentation.length, d.line⟩ g := by
  have declares : ⟨name, d.indentation.length, d.line⟩ ∈ declared lines :=
    mem_declared_iff.2 ⟨d, h, rfl, rfl, listed⟩
  unfold remaining
  rw [List.mem_filter, Bool.not_eq_true', List.any_eq_false]
  constructor
  · rintro ⟨-, kept⟩ g first
    let narrowed : Narrowing := ⟨⟨name, d.indentation.length, d.line⟩, g, d.indentation.length⟩
    have member : narrowed ∈ narrowings lines := mem_narrowings_iff.2 ⟨declares, first, rfl⟩
    exact kept narrowed member (by simp [narrowed])
  · intro unassigned
    refine ⟨listed, fun n member both => ?_⟩
    rw [Bool.and_eq_true, beq_iff_eq, beq_iff_eq] at both
    obtain ⟨known, first, -⟩ := mem_narrowings_iff.1 member
    obtain ⟨e, inside, number, indent, -⟩ := mem_declared_iff.1 known
    obtain rfl := eq_of_mem_find inside h (number.trans both.1)
    have same : n.declaration = ⟨name, e.indentation.length, e.line⟩ := by
      rw [indent, number, ← both.2]
    exact unassigned n.line (same ▸ first)

/-! ## Nothing is lost -/

/-- How narrowed lines stand to the lines before. -/
structure Conserved (lines lines' : List Text) : Prop where
  length_eq : lines'.length = lines.length
  /-- A declaration line has the names that are kept, in their order, and is empty without any. A
  name is kept unless a line below can declare it; there is one such line then, and it has the
  keyword behind its indentation. -/
  declaration : ∀ (v : Nat) (line indentation : Text) (names : List Text), lines[v]? = some line →
    parse? line = some (indentation, names) → ∃ kept line', kept.Sublist names ∧
      lines'[v]? = some line' ∧
      (kept = [] ∧ line' = [] ∨
        kept ≠ [] ∧ line' = indentation ++ ("var ".toList ++ (joinNames kept ++ [';']))) ∧
      ∀ name ∈ names,
        (name ∈ kept ∧ ∀ g, ¬ FirstAssigned lines ⟨name, indentation.length, v⟩ g) ∨
        name ∉ kept ∧ ∃ g old, FirstAssigned lines ⟨name, indentation.length, v⟩ g ∧
          (∀ g', FirstAssigned lines ⟨name, indentation.length, v⟩ g' → g' = g) ∧
          lines[g]? = some old ∧
          lines'[g]? = some (Text.leadingBlank old ++ (keyword ++ Text.trimLeft old))
  /-- All other lines stay. -/
  unchanged : ∀ (g : Nat) (line : Text), lines[g]? = some line → parse? line = none →
    (∀ d ∈ declared lines, ¬ FirstAssigned lines d g) → lines'[g]? = some line

theorem keyworded_one (line : Text) :
    keyworded 1 line = Text.leadingBlank line ++ (keyword ++ Text.trimLeft line) := by
  simp [keyworded]

/-- A line that declares nothing has its keywords. -/
theorem getElem?_narrowLines_of_parse?_eq_none {lines : List Text} {g : Nat} {line : Text}
    (found : lines[g]? = some line) (plain : parse? line = none) :
    (narrowLines lines)[g]? = some (keyworded (keywordsOn g (narrowings lines)) line) := by
  rcases getElem?_narrowLines found with last | ⟨-, d, member, rfl, -⟩
  · exact last
  · obtain ⟨own, inside, parsed⟩ := parse?_of_mem_find member
    obtain rfl := Option.some.inj (found.symm.trans inside)
    cases plain.symm.trans parsed

/-- **Narrowing conserves declarations**, where no name is declared twice at one depth. -/
theorem narrowLines_conserved {lines : List Text} (once : DeclaredOnce lines) :
    Conserved lines (narrowLines lines) where
  length_eq := length_narrowLines lines
  declaration v line indentation names found parsed := by
    have member := mem_find found parsed
    refine ⟨remaining (narrowings lines) ⟨v, indentation, names⟩, _, List.filter_sublist,
      getElem?_narrowLines_of_mem_find member, ?_, ?_⟩
    · unfold remainingLine
      split
      · next none_ => exact .inl ⟨none_, rfl⟩
      · next some_ => exact .inr ⟨some_, by simp only [List.append_assoc]⟩
    · intro name listed
      have declares : ⟨name, indentation.length, v⟩ ∈ declared lines :=
        mem_declared_iff.2 ⟨_, member, rfl, rfl, listed⟩
      by_cases kept : name ∈ remaining (narrowings lines) ⟨v, indentation, names⟩
      · exact .inl ⟨kept, (mem_remaining_iff member listed).1 kept⟩
      · refine .inr ⟨kept, ?_⟩
        obtain ⟨g, first⟩ := Classical.not_forall_not.1 (mt (mem_remaining_iff member listed).2 kept)
        obtain ⟨old, there, assigns⟩ := first.assigns
        refine ⟨g, old, first, fun g' other => first.unique other, there, ?_⟩
        rw [getElem?_narrowLines_of_parse?_eq_none there assigns.parse?_eq_none,
          keywordsOn_eq_one once declares first, keyworded_one]
  unchanged g line found plain unassigned := by
    rw [getElem?_narrowLines_of_parse?_eq_none found plain, keywordsOn_of_forall_not unassigned,
      keyworded_zero]

/-- A name that is declared in two scopes moves in both, and one that is assigned in a deeper block
only stays. -/
theorem narrowLines_conserved_scopes :
    let lines : List Text := ["var a, b, f;".toList, "a = 1;".toList, "f = function() \x7b".toList,
      "  var a;".toList, "".toList, "  a = 2;".toList, "\x7d;".toList, "if (f) \x7b".toList,
      "  b = 3;".toList, "\x7d".toList, "a = 4;".toList]
    DeclaredOnce lines ∧ Conserved lines (narrowLines lines) ∧
      narrowLines lines = ["var b;".toList, "let a = 1;".toList, "let f = function() \x7b".toList,
        "".toList, "".toList, "  let a = 2;".toList, "\x7d;".toList, "if (f) \x7b".toList,
        "  b = 3;".toList, "\x7d".toList, "a = 4;".toList] := by
  intro lines
  have once : DeclaredOnce lines := by decide
  exact ⟨once, narrowLines_conserved once, by decide⟩

end Declarations

end DialectBridge
