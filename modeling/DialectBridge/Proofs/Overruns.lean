import DialectBridge.Proofs.Entries
import DialectBridge.Proofs.GeneratedLines

/-!
# When mapping a position faults

A position is mapped by arithmetic on columns that come from two different texts. As long as the
texts and the entries of the map are far smaller than what can be addressed, that arithmetic goes
wrong in three ways only, and in all of them on the way from the source to the generated text:

* inside a comment whose opening fence is long, the position may fall before the beginning of the
  generated line;
* an entry may lead to the very end of the generated text, where the word of the cursor is looked
  for one column further;
* on a sketched line, written-out receivers may push the column behind the last one that can be
  addressed.

`Overrun` states the three conditions, and `Generated.mapping_returns_iff` that a position is mapped
without a fault exactly when none of them holds. The way back has no such condition.
-/

set_option autoImplicit false

namespace DialectBridge

/-! ## Bounds -/

/-- All four coordinates are natural numbers up to a bound. -/
structure Mapping.Within (bound : Nat) (m : Mapping) : Prop where
  sourceLine : 0 ≤ m.sourceLine ∧ m.sourceLine ≤ bound
  sourceColumn : 0 ≤ m.sourceColumn ∧ m.sourceColumn ≤ bound
  outputLine : 0 ≤ m.outputLine ∧ m.outputLine ≤ bound
  outputColumn : 0 ≤ m.outputColumn ∧ m.outputColumn ≤ bound

/-- Both coordinates are at most a bound. -/
structure Position.Within (bound : Nat) (p : Position) : Prop where
  line : p.line ≤ bound
  character : p.character ≤ bound

namespace Text

/-- An occurrence begins inside the text. -/
theorem find?_le {needle t : Text} {i : Nat} (h : find? needle t = some i) : i ≤ t.length := by
  induction t generalizing i with
  | nil =>
    unfold find? at h
    split at h
    · obtain rfl := Option.some.inj h
      exact Nat.le_refl _
    · cases h
  | cons c rest ih =>
    unfold find? at h
    split at h
    · obtain rfl := Option.some.inj h
      exact Nat.zero_le _
    · obtain ⟨j, found, rfl⟩ := Option.map_eq_some_iff.1 h
      exact Nat.succ_le_succ (ih found)

theorem getD_find?_le (needle t : Text) : (find? needle t).getD 0 ≤ t.length := by
  cases found : find? needle t with
  | none => exact Nat.zero_le _
  | some i => exact find?_le found

/-- A text has at most one line more than characters. -/
theorem length_lines_le (t : Text) : (lines t).length ≤ t.length + 1 := by
  rw [← extent_lines]
  exact length_le_extent _

/-- A line is at most as long as its text. -/
theorem length_le_of_mem_lines {t line : Text} (h : line ∈ lines t) : line.length ≤ t.length := by
  have inside := length_lt_extent h
  rw [extent_lines] at inside
  omega

end Text

theorem Position.make_returns {line character : Int} (hl : 0 ≤ line ∧ line ≤ 2147483647)
    (hc : 0 ≤ character ∧ character ≤ 2147483647) :
    Returns (Position.make line character) fun _ => True := by
  unfold Position.make
  rw [dif_pos hl, dif_pos hc]
  exact .ok trivial

/-- Looking a line up by its content never faults. -/
theorem LineContent.position?_returns {character : Nat} {inText : Text} (line : Text)
    (hc : character ≤ 2 ^ 29) (short : inText.length < 2 ^ 29) :
    Returns (LineContent.position? character line inText) fun _ => True := by
  unfold LineContent.position?
  dsimp only
  split
  · exact .ok trivial
  · split
    · exact .ok trivial
    · next found number known =>
      have member := List.mem_of_find?_eq_some known
      have bound := (List.getElem?_eq_some_iff.1 (List.mem_zipIdx_iff_getElem?.1 member)).1
      have few := Text.length_lines_le inText
      have inside := Text.length_le_of_mem_lines (List.fst_mem_of_mem_zipIdx member)
      have column := Text.getD_find?_le (LineContent.content line) found
      dsimp only at bound inside
      exact (Position.make_returns (by omega) (by omega)).map fun _ _ => trivial

namespace ToSource

/-- The entry for a position on its own line is an entry of the map. -/
theorem mem_of_entryOnLine? {map : ColumnMap} {js : Text} {p : Position} {m : Mapping}
    (h : entryOnLine? map js p = some m) : m ∈ map.mappings := by
  unfold entryOnLine? at h
  split at h
  · cases h
  · obtain ⟨line, found, here⟩ := Option.bind_eq_some_iff.1 h
    unfold ColumnMap.line? at found
    rw [if_neg (by omega)] at found
    exact List.mem_flatMap.2 ⟨line, List.mem_of_getElem? found, entry?_mem here⟩

/-- The entry below a position is an entry of the map. -/
theorem mem_of_entryBelow? {map : ColumnMap} {p : Position} {m : Mapping}
    (h : entryBelow? map p = some m) : m ∈ map.mappings := by
  obtain ⟨line, later, first⟩ := List.exists_of_findSome?_eq_some h
  exact List.mem_flatMap.2 ⟨line, List.mem_of_mem_drop later, List.mem_of_head? first⟩

end ToSource

/-! ## Results in a row -/

/-- A result of two computations in a row is one of both. -/
theorem exists_ok_of_bind {α β : Type} {x : Except Fault α} {f : α → Except Fault β} {b : β}
    (h : (x >>= f) = .ok b) : ∃ a, x = .ok a ∧ f a = .ok b := by
  cases x with
  | error fault => cases h
  | ok a => exact ⟨a, rfl, h⟩

/-- Results of all computations in a row are results of each. -/
theorem exists_ok_of_mapM {α β : Type} {f : α → Except Fault β} {all : List α} {results : List β}
    (h : all.mapM f = .ok results) {a : α} (member : a ∈ all) : ∃ b, f a = .ok b := by
  induction all generalizing results with
  | nil => exact absurd member List.not_mem_nil
  | cons first rest ih =>
    rw [List.mapM_cons] at h
    obtain ⟨b, here, more⟩ := exists_ok_of_bind h
    obtain ⟨others, later, -⟩ := exists_ok_of_bind more
    rcases List.mem_cons.1 member with rfl | inside
    · exact ⟨b, here⟩
    · exact ih later inside

/-- All computations in a row have results exactly when each of them has one. -/
theorem exists_mapM_iff {α β : Type} {f : α → Except Fault β} {all : List α} :
    (∃ results, all.mapM f = .ok results) ↔ ∀ a ∈ all, ∃ b, f a = .ok b := by
  constructor
  · rintro ⟨results, h⟩ a member
    exact exists_ok_of_mapM h member
  · intro each
    induction all with
    | nil => exact ⟨[], rfl⟩
    | cons first rest ih =>
      obtain ⟨b, here⟩ := each first List.mem_cons_self
      obtain ⟨others, later⟩ := ih fun a member => each a (List.mem_cons_of_mem _ member)
      rw [List.mapM_cons, here, later]
      exact ⟨b :: others, rfl⟩

namespace ToOutput

/-! ## The three conditions -/

/-- The column on a sketched line: the column of the source, the width of the keyword with which
the generated line begins, and four columns for every receiver sign before. -/
def sketchedColumn (generated : Document) (c : Cursor) (line : Int) : Nat :=
  c.position.character +
    (if Text.startsWith Sketch.declarationKeyword (generated.lineAt line) then 4 else 0) +
    4 * (c.line.take c.position.character).count '@'

/-- The ways in which mapping the position of a cursor leaves what can be addressed. -/
inductive Overrun (g : Generated) (generated : Document) (map : ColumnMap) (c : Cursor) : Prop
  /-- Inside a comment, the position lies before the beginning of the generated line. -/
  | beforeLine {comment : InlineComment} {line : Text} {number : Nat}
    (here : inlineComment? c.line = some comment)
    (inside : comment.start ≤ c.position.character ∧
      c.position.character ≤ comment.start + comment.content.length)
    (first : (generated.lines.zipIdx.find? fun entry =>
      Text.occursIn comment.content entry.1) = some (line, number))
    (left : c.position.character + (Text.find? comment.content line).getD 0 <
      (Text.find? comment.content c.line).getD 0)
  /-- The word of the cursor is looked for behind the end of the generated text. -/
  | pastEnd {fit : List Mapping} {m : Mapping}
    (outside : commentPosition? c generated = .ok none)
    (fits : fitting map c generated = .ok fit) (member : m ∈ fit) (named : c.word.text ≠ [])
    (stranded : Stranded c generated (.ofMapping m))
  /-- On a sketched line, the column cannot be addressed. -/
  | pastLimit {t : Target}
    (outside : commentPosition? c generated = .ok none)
    (found : target map c generated = .ok (some t))
    (fake : g.fakeLine = some (c.position.line : Int))
    (sketched : g.mechanism = some .sourceInOutput)
    (far : Position.limit < sketchedColumn generated c t.line)

/-! ## Comments -/

section Comments

variable {g : Generated} {generated : Document} {map : ColumnMap} {c : Cursor}

/-- Inside a comment a position is found or not, or lies before its line. -/
theorem commentPosition?_returns (generated : Document)
    (short : generated.text.length < 2 ^ 29)
    (small : c.position.character ≤ 2 ^ 29) (free : ¬ Overrun g generated map c) :
    Returns (commentPosition? c generated) fun _ => True := by
  unfold commentPosition?
  split
  · exact .ok trivial
  · next comment here =>
    dsimp only
    split
    · next inside =>
      rw [Bool.and_eq_true, decide_eq_true_eq, decide_eq_true_eq] at inside
      split
      · exact .ok trivial
      · next line number first =>
        have member := List.mem_of_find?_eq_some first
        have bound := (List.getElem?_eq_some_iff.1 (List.mem_zipIdx_iff_getElem?.1 member)).1
        have few := Text.length_lines_le generated.text
        have within := Text.length_le_of_mem_lines (List.fst_mem_of_mem_zipIdx member)
        have column := Text.getD_find?_le comment.content line
        have right : ¬ c.position.character + (Text.find? comment.content line).getD 0 <
            (Text.find? comment.content c.line).getD 0 :=
          fun left => free (.beforeLine here inside first left)
        dsimp only [Document.lines] at bound within
        exact (Position.make_returns (by omega) (by omega)).map fun _ _ => trivial
    · exact .ok trivial

/-- A position before its line cannot be made. -/
theorem commentPosition?_ne_ok {comment : InlineComment} {line : Text} {number : Nat}
    (here : inlineComment? c.line = some comment)
    (inside : comment.start ≤ c.position.character ∧
      c.position.character ≤ comment.start + comment.content.length)
    (first : (generated.lines.zipIdx.find? fun entry =>
      Text.occursIn comment.content entry.1) = some (line, number))
    (left : c.position.character + (Text.find? comment.content line).getD 0 <
      (Text.find? comment.content c.line).getD 0) (q : Option Position) :
    commentPosition? c generated ≠ .ok q := by
  unfold commentPosition?
  rw [here]
  dsimp only
  rw [if_pos (by simpa using inside), first]
  dsimp only
  intro found
  cases made : Position.make number (c.position.character -
      ((Text.find? comment.content c.line).getD 0 : Nat) +
      ((Text.find? comment.content line).getD 0 : Nat)) with
  | error fault =>
    rw [made] at found
    cases found
  | ok p =>
    have column := (Position.coordinates_of_make made).2
    omega

end Comments

/-! ## Words -/

section Words

variable {generated : Document} {c : Cursor} {bound : Nat} {t : Target}

/-- From a stranded target the word of the cursor is looked for behind the end. -/
theorem onWord?_of_stranded (h : InReach bound t) (hb : bound ≤ 2147483647)
    (stranded : Stranded c generated t) : onWord? c generated t = .error .wordPastEnd := by
  obtain ⟨k, hk, column, rfl, hc⟩ := h
  obtain ⟨found, here, same⟩ := onWord?_of_end (c := c) hk (Nat.le_trans hc hb) stranded.at_end
  rw [same, if_neg (by simpa using stranded.other_word found here)]

/-- Where a target is stranded, none is chosen. -/
theorem choose?_ne_ok {targets : List Target} (h : InReach bound t) (hb : bound ≤ 2147483647)
    (member : t ∈ targets) (named : c.word.text ≠ []) (stranded : Stranded c generated t)
    (chosen : Option Target) : choose? c generated targets ≠ .ok chosen := by
  intro made
  unfold choose? at made
  rw [if_neg (by simpa using List.ne_nil_of_mem member), narrowers] at made
  obtain ⟨left, narrowed, -⟩ := exists_ok_of_bind made
  -- Words are the first criterion and move every target, so one that is stranded is enough.
  rw [narrow] at narrowed
  obtain ⟨words, byWords, -⟩ := exists_ok_of_bind narrowed
  unfold byWord at byWords
  rw [if_neg (by simpa using named)] at byWords
  obtain ⟨results, each, -⟩ := exists_ok_of_bind byWords
  obtain ⟨result, moved⟩ := exists_ok_of_mapM each member
  rw [onWord?_of_stranded h hb stranded] at moved
  cases moved

end Words

/-! ## The way into the generated text -/

section Routes

variable {g : Generated} {js : Text} {map : ColumnMap} {source : Document} {p : Position}
  {c : Cursor}

/-- Entries within bounds lead to targets in reach. -/
theorem inReach_of_within (small : ∀ m ∈ map.mappings, m.Within (2 ^ 29)) :
    ∀ m ∈ map.forSourceLine c.position.line, InReach (2 ^ 29) (.ofMapping m) := by
  intro m member
  have within := small m (List.mem_filter.1 member).1
  obtain ⟨lineLow, lineHigh⟩ := within.outputLine
  obtain ⟨columnLow, columnHigh⟩ := within.outputColumn
  refine ⟨m.outputLine.toNat, by omega, m.outputColumn.toNat, ?_, by omega⟩
  rw [Int.toNat_of_nonneg lineLow, Int.toNat_of_nonneg columnLow]
  rfl

/-- On a sketched line the column is computed from the source; elsewhere the target has it. -/
theorem columnOn_eq (generated : Document) (t : Target) :
    columnOn g generated c t =
      if g.fakeLine = some (c.position.line : Int) ∧ g.mechanism = some .sourceInOutput then
        (sketchedColumn generated c t.line : Int)
      else t.column := by
  have expansion : receiverExpansion c.line c.position.character =
      4 * (c.line.take c.position.character).count '@' := by
    have stop : ¬ (c.position.character : Int) < 0 := by omega
    unfold receiverExpansion
    dsimp only
    rw [if_neg stop, Int.toNat_natCast, Nat.mul_comm]
    rfl
  unfold columnOn sketchedColumn
  dsimp only
  rw [expansion]
  by_cases fake : g.fakeLine = some (c.position.line : Int) ∧ g.mechanism = some .sourceInOutput
  · rw [if_pos (by simpa using fake), if_pos fake]
    rfl
  · rw [if_neg (by simpa using fake), if_neg fake]

/-- Where a position ends up once it is known whether it has a target. -/
def arrival (g : Generated) (js : Text) (c : Cursor) : Option Target → Except Fault Route
  | some t => do return .mapped (← Position.make t.line (columnOn g ⟨js, ""⟩ c t))
  | none => do
    match ← LineContent.position? c.position.character c.line js with
    | some found => return .mapped found
    | none => return .unmapped

/-- Outside comments, a position is mapped by its target or by the content of its line. -/
theorem routeOn_eq (cursor : Cursor.ofPosition source p = .ok c) (position : c.position = p)
    (outside : commentPosition? c ⟨js, ""⟩ = .ok none) :
    routeOn g js map p source = target map c ⟨js, ""⟩ >>= arrival g js c := by
  subst position
  unfold routeOn target
  rw [cursor]
  simp only [bind, Except.bind, outside]
  cases fitting map c ⟨js, ""⟩ with
  | error fault => rfl
  | ok fit =>
    dsimp only
    cases choose? c ⟨js, ""⟩ (fit.map .ofMapping) with
    | error fault => rfl
    | ok found => cases found <;> rfl

/-- Inside a comment, a position is mapped by the content of the comment. -/
theorem routeOn_of_comment (cursor : Cursor.ofPosition source p = .ok c) {q : Position}
    (inside : commentPosition? c ⟨js, ""⟩ = .ok (some q)) :
    routeOn g js map p source = .ok (.inComment q) := by
  unfold routeOn
  rw [cursor]
  simp only [bind, Except.bind, inside]
  rfl

/-- Without an overrun, the search for the target of a position returns. -/
theorem target_returns_of_free (small : ∀ m ∈ map.mappings, m.Within (2 ^ 29))
    (word : c.word.text.length < 2 ^ 29) (outside : commentPosition? c ⟨js, ""⟩ = .ok none)
    (free : ¬ Overrun g ⟨js, ""⟩ map c) :
    Returns (target map c ⟨js, ""⟩) fun found =>
      ∀ t ∈ found, InReach (2 ^ 29 + 1 + c.word.text.length) t := by
  have ending := target_ends ⟨js, ""⟩ (inReach_of_within (c := c) small)
  refine (ending.returns ?_).mono fun found result t member => (result.1 t member).2
  rintro f (far | ⟨-, named, fit, fits, m, member, stranded⟩)
  · exact not_tooFar (by omega) f far
  · exact free (.pastEnd outside fits member named stranded)

/-- Without an overrun, a position is mapped or found to be unmapped. -/
theorem routeOn_returns (cursor : Cursor.ofPosition source p = .ok c) (position : c.position = p)
    (word : c.word.text.length < 2 ^ 29) (short : js.length < 2 ^ 29)
    (small : ∀ m ∈ map.mappings, m.Within (2 ^ 29)) (near : p.Within (2 ^ 29))
    (free : ¬ Overrun g ⟨js, ""⟩ map c) :
    Returns (routeOn g js map p source) fun _ => True := by
  have character : c.position.character ≤ 2 ^ 29 := position ▸ near.character
  obtain ⟨answer, inComment, -⟩ :=
    commentPosition?_returns ⟨js, ""⟩ short character free
  cases answer with
  | some q => exact ⟨_, routeOn_of_comment cursor inComment, trivial⟩
  | none =>
    obtain ⟨found, reached, reach⟩ := target_returns_of_free small word inComment free
    rw [routeOn_eq cursor position inComment, reached]
    cases found with
    | none =>
      refine (LineContent.position?_returns c.line character short).bind fun answer _ => ?_
      cases answer <;> exact .ok trivial
    | some t =>
      obtain ⟨k, hk, column, rfl, hc⟩ := reach t rfl
      have addressable : 0 ≤ columnOn g ⟨js, ""⟩ c ⟨k, column⟩ ∧
          columnOn g ⟨js, ""⟩ c ⟨k, column⟩ ≤ 2147483647 := by
        rw [columnOn_eq]
        split
        · next fake =>
          have close : ¬ Position.limit < sketchedColumn ⟨js, ""⟩ c k :=
            fun far => free (.pastLimit inComment reached fake.1 fake.2 far)
          unfold Position.limit at close
          dsimp only
          omega
        · dsimp only
          omega
      exact (Position.make_returns (by dsimp only; omega) addressable).bind fun _ _ => .ok trivial

/-- With an overrun, a position cannot be mapped. -/
theorem routeOn_ne_ok (cursor : Cursor.ofPosition source p = .ok c) (position : c.position = p)
    (small : ∀ m ∈ map.mappings, m.Within (2 ^ 29)) (overrun : Overrun g ⟨js, ""⟩ map c)
    (route : Route) : routeOn g js map p source ≠ .ok route := by
  intro made
  cases overrun with
  | beforeLine here inside first left =>
    unfold routeOn at made
    obtain ⟨c', cursor', made⟩ := exists_ok_of_bind made
    obtain rfl := Except.ok.inj (cursor.symm.trans cursor')
    obtain ⟨answer, inComment, -⟩ := exists_ok_of_bind made
    exact commentPosition?_ne_ok here inside first left answer inComment
  | pastEnd outside fits member named stranded =>
    rw [routeOn_eq cursor position outside] at made
    obtain ⟨found, reached, -⟩ := exists_ok_of_bind made
    unfold target at reached
    rw [fits] at reached
    have part := (fitting_ends ⟨js, ""⟩ (inReach_of_within (c := c) small)).of_ok fits
    exact choose?_ne_ok (inReach_of_within small _ (part.1 member)) (by omega)
      (List.mem_map_of_mem member) named stranded found reached
  | pastLimit outside found fake sketched far =>
    rw [routeOn_eq cursor position outside] at made
    obtain ⟨answer, found', made⟩ := exists_ok_of_bind made
    obtain rfl := Except.ok.inj (found.symm.trans found')
    obtain ⟨q, made, -⟩ := exists_ok_of_bind made
    have column := (Position.coordinates_of_make made).2
    rw [columnOn_eq, if_pos ⟨fake, sketched⟩] at column
    have bound := q.character_le
    unfold Position.limit at far
    omega

end Routes

end ToOutput

namespace Generated

open ToOutput

/-- Mapping a position of a source leaves what can be addressed. -/
def Overruns (g : Generated) (p : Position) (source : Document) : Prop :=
  ∃ js map c, g.js = some js ∧ g.map = some map ∧ Cursor.ofPosition source p = .ok c ∧
    Overrun g ⟨js, ""⟩ map c

variable {g : Generated} {source : Document} {p : Position}

/-- A position is mapped without a fault exactly when it does not overrun. -/
theorem toOutput_ok_iff (short : ∀ js ∈ g.js, js.length < 2 ^ 29)
    (small : ∀ map ∈ g.map, ∀ m ∈ map.mappings, m.Within (2 ^ 29))
    (brief : source.text.length < 2 ^ 29) (near : p.Within (2 ^ 29)) :
    (∃ q, g.toOutput p source = .ok q) ↔ ¬ g.Overruns p source := by
  have route : (∃ q, g.toOutput p source = .ok q) ↔ ∃ way, g.route p source = .ok way := by
    unfold toOutput
    cases g.route p source with
    | error fault => simp [bind, Except.bind]
    | ok way => simp [bind, Except.bind, pure, Except.pure]
  rw [route]
  unfold Generated.route
  obtain ⟨c, cursor, position, -, word, -⟩ := cursor_returns source p (by omega)
  have fewer := length_word_le word
  split
  · next js map text mapped =>
    constructor
    · rintro ⟨way, made⟩ ⟨js', map', c', text', mapped', cursor', overrun⟩
      obtain rfl := Option.some.inj (text.symm.trans text')
      obtain rfl := Option.some.inj (mapped.symm.trans mapped')
      obtain rfl := Except.ok.inj (cursor.symm.trans cursor')
      exact routeOn_ne_ok cursor position (small map mapped) overrun way made
    · intro free
      obtain ⟨way, made, -⟩ := routeOn_returns (g := g) cursor position (by omega) (short js text)
        (small map mapped) near fun overrun => free ⟨js, map, c, text, mapped, cursor, overrun⟩
      exact ⟨way, made⟩
  · next incomplete =>
    refine ⟨fun _ => ?_, fun _ => ⟨_, rfl⟩⟩
    rintro ⟨js, map, -, text, mapped, -⟩
    exact incomplete js map text mapped

/-- A generated position is always mapped or found to be unmapped. -/
theorem toSource_returns (text : Text)
    (small : ∀ map ∈ g.map, ∀ m ∈ map.mappings, m.Within (2 ^ 29))
    (brief : text.length < 2 ^ 29) (near : p.Within (2 ^ 29)) :
    ∃ q, g.toSource p text = .ok q := by
  unfold toSource
  split
  · next js map _ mapped =>
    have entry : ∀ m ∈ map.mappings,
        Returns ((ToSource.entryPosition m).map some) fun _ => True := by
      intro m member
      obtain ⟨lineLow, lineHigh⟩ := (small map mapped m member).sourceLine
      obtain ⟨columnLow, columnHigh⟩ := (small map mapped m member).sourceColumn
      exact (Position.make_returns (by omega) (by omega)).map fun _ _ => trivial
    have returns : Returns (ToSource.position? js map p text) fun _ => True := by
      unfold ToSource.position?
      split
      · next m found => exact entry m (ToSource.mem_of_entryOnLine? found)
      · refine (LineContent.position?_returns _ near.character brief).bind fun answer _ => ?_
        cases answer with
        | some found => exact .ok trivial
        | none =>
          dsimp only
          split
          · next m found => exact entry m (ToSource.mem_of_entryBelow? found)
          · exact .ok trivial
    obtain ⟨q, made, -⟩ := returns
    exact ⟨q, made⟩
  · exact ⟨none, rfl⟩

/-- A range is mapped without a fault exactly when both of its ends are. -/
theorem rangeToOutput_ok_iff (r : Range) :
    (∃ q, g.rangeToOutput r source = .ok q) ↔
      (∃ q, g.toOutput r.start source = .ok q) ∧ ∃ q, g.toOutput r.stop source = .ok q := by
  unfold rangeToOutput
  constructor
  · rintro ⟨q, made⟩
    obtain ⟨start, first, made⟩ := exists_ok_of_bind made
    obtain ⟨stop, second, -⟩ := exists_ok_of_bind made
    exact ⟨⟨start, first⟩, stop, second⟩
  · rintro ⟨⟨start, first⟩, stop, second⟩
    rw [first, second]
    cases start <;> cases stop <;> exact ⟨_, rfl⟩

/-- **Mapping returns, except in the three cases of an overrun.** -/
theorem mapping_returns_iff (short : ∀ js ∈ g.js, js.length < 2 ^ 29)
    (small : ∀ map ∈ g.map, ∀ m ∈ map.mappings, m.Within (2 ^ 29))
    (brief : source.text.length < 2 ^ 29) :
    (∀ p : Position, p.Within (2 ^ 29) →
      ((∃ q, g.toOutput p source = .ok q) ↔ ¬ g.Overruns p source) ∧
        ∃ q, g.toSource p source.text = .ok q) ∧
    ∀ r : Range, r.start.Within (2 ^ 29) → r.stop.Within (2 ^ 29) →
      ((∃ q, g.rangeToOutput r source = .ok q) ↔
        ¬ g.Overruns r.start source ∧ ¬ g.Overruns r.stop source) ∧
        ∃ q, g.rangeToSource r source.text = .ok q := by
  refine ⟨fun p near => ⟨toOutput_ok_iff short small brief near,
    toSource_returns source.text small brief near⟩, fun r start stop => ⟨?_, ?_⟩⟩
  · rw [rangeToOutput_ok_iff, toOutput_ok_iff short small brief start,
      toOutput_ok_iff short small brief stop]
  · obtain ⟨first, begins⟩ := toSource_returns source.text small brief start
    obtain ⟨second, ends⟩ := toSource_returns source.text small brief stop
    unfold rangeToSource
    rw [begins, ends]
    cases first <;> cases second <;> exact ⟨_, rfl⟩

/-- Behind a long fence, the first columns of a comment overrun, and the line of code above it does
not. -/
theorem mapping_returns_behind_fence :
    let source : Document := ⟨"ab\n##########ab###".toList, ""⟩
    ∃ g, (generate LineByLine.compile source).outcome = .ok g ∧
      g.Overruns ⟨1, 4, by decide, by decide⟩ source ∧
      ¬ g.Overruns Position.origin source := by
  intro source
  let g := (generate LineByLine.compile source).outcome.toOption.get (by decide +kernel)
  have made : (generate LineByLine.compile source).outcome = .ok g := by decide +kernel
  have text : g.js = some "ab;\n//#########ab###".toList := by decide +kernel
  have mapped : g.map = some ⟨[⟨0, [⟨0, 0, 0, 0⟩]⟩]⟩ := by decide +kernel
  have returns := (@mapping_returns_iff g source
    (fun js here => by
      obtain rfl := Option.some.inj (text.symm.trans here)
      decide)
    (fun map here m member => by
      obtain rfl := Option.some.inj (mapped.symm.trans here)
      obtain rfl := List.mem_singleton.1 member
      exact ⟨by decide, by decide, by decide, by decide⟩)
    (by decide)).1
  refine ⟨g, made, ?_, ?_⟩
  · by_contra free
    obtain ⟨q, here⟩ := (returns ⟨1, 4, by decide, by decide⟩ ⟨by decide, by decide⟩).1.2 free
    have fault : g.toOutput ⟨1, 4, by decide, by decide⟩ source =
        .error (.characterOutOfRange (-6)) := by decide +kernel
    cases fault.symm.trans here
  · exact (returns Position.origin ⟨by decide, by decide⟩).1.1
      ⟨some Position.origin, by decide +kernel⟩

/-- A position in a comment behind a long fence falls before its generated line, and an entry at the
end of the generated text makes the search for a word run behind it. -/
theorem toOutput_outside_text :
    (let source : Document := ⟨"ab\n##########ab###".toList, ""⟩
      ∃ g, (generate LineByLine.compile source).outcome = .ok g ∧
        g.toOutput ⟨1, 4, by decide, by decide⟩ source = .error (.characterOutOfRange (-6))) ∧
    ∃ g : Generated, g.js = some [] ∧ g.map = some (.ofMappings [⟨0, 0, 0, 0⟩]) ∧
      g.toOutput Position.origin ⟨['a'], ""⟩ = .error .wordPastEnd := by
  refine ⟨?_, ⟨{ js := some [], map := some (.ofMappings [⟨0, 0, 0, 0⟩]) }, by decide⟩, rfl, rfl,
    by decide +kernel⟩
  intro source
  let g := (generate LineByLine.compile source).outcome.toOption.get (by decide +kernel)
  have made : (generate LineByLine.compile source).outcome = .ok g := by decide +kernel
  exact ⟨g, made, by decide +kernel⟩

end Generated

end DialectBridge
