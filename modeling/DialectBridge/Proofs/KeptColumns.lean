import DialectBridge.Proofs.Fronts

/-!
# Columns that preparation keeps

A position in a source line is a column, and the compiler only ever sees the prepared line. So that
its answers can be read as answers about the source, whatever preparation adds to a line stands
behind the code of the line, in front of a final carriage return. Inside the code one kind of
character is replaced: the space behind a comma, when the next thing is a closing brace. The brace
may stand on a later line, and the edits that run first have added to the lines on the way; but they
add signs, and a sign would be the next thing. So the brace is the next thing in the source, too.

The main statement, **prepare_keeps_columns**, says this of every line of every source without
receivers.
-/

set_option autoImplicit false

namespace DialectBridge

namespace Preparation

/-! ## The next thing behind white space -/

/-- White space is passed over, and anything else decides. -/
theorem closesNext_append (front rest : Text) :
    closesNext (front ++ rest) = if front.all isBlank then closesNext rest else closesNext front := by
  induction front with
  | nil => rfl
  | cons c more ih =>
    rw [List.cons_append, closesNext_cons, closesNext_cons, List.all_cons, ih]
    cases isBlank c <;> rfl

/-- Nothing that is added is a closing brace, or may stand in front of one. -/
theorem Addition.eq_nil_of_closesNext {added rest : Text} (h : Addition added)
    (closes : closesNext (added ++ rest) = true) : added = [] := by
  cases added with
  | nil => rfl
  | cons c more =>
    have visible : isBlank c = false ∧ c ≠ '\x7d' := by
      rcases h.signs c List.mem_cons_self with letter | rfl | rfl | rfl
      · refine ⟨LineByLine.isBlank_eq_false_of_isIdentifier letter, ?_⟩
        rintro rfl
        exact absurd letter (by decide)
      · decide
      · decide
      · decide
    rw [List.cons_append, closesNext_cons, if_neg (by simp [visible]), beq_iff_eq] at closes
    exact absurd closes visible.2

/-- The rest of a line, and the same with something added in front of the tail. -/
def Padded (back back' : Text) : Prop :=
  ∃ code added ending, Addition added ∧ (ending = [] ∨ ending = ['\r']) ∧ back = code ++ ending ∧
    back' = code ++ added ++ ending

theorem Extension.padded {growth : Nat → Nat} {line line' : Text}
    (h : Extension growth line line') : Padded line line' := by
  obtain ⟨added, addition, rfl, -⟩ := h
  exact ⟨_, added, _, addition, Text.tail_eq line, (Text.body_append_tail line).symm, rfl⟩

/-- A brace that comes next after something was added came next before. -/
theorem Padded.closes_before {back back' rest rest' : Text} (h : Padded back back')
    (later : closesNext rest' = true → closesNext rest = true)
    (closes : closesNext (back' ++ rest') = true) : closesNext (back ++ rest) = true := by
  obtain ⟨code, added, ending, addition, last, rfl, rfl⟩ := h
  rw [List.append_assoc, List.append_assoc, closesNext_append] at closes
  rw [List.append_assoc, closesNext_append]
  split at closes
  · next blank =>
    rw [if_pos blank]
    obtain rfl := addition.eq_nil_of_closesNext closes
    have white : ending.all isBlank = true := by
      rcases last with rfl | rfl <;> decide
    rw [List.nil_append, closesNext_append, if_pos white] at closes
    rw [closesNext_append, if_pos white]
    exact later closes
  · next filled =>
    rw [if_neg filled]
    exact closes

/-- The same over any number of lines. -/
theorem closesNext_of_padded {all all' : List Text} (pairs : List.Forall₂ Padded all all')
    (closes : closesNext (Text.joinLines all') = true) :
    closesNext (Text.joinLines all) = true := by
  induction pairs with
  | nil => exact closes
  | @cons line line' more more' here pairs ih =>
    cases pairs with
    | nil =>
      rw [Text.joinLines, ← List.append_nil line'] at closes
      rw [Text.joinLines, ← List.append_nil line]
      exact here.closes_before id closes
    | cons next others =>
      rw [Text.joinLines_cons (List.cons_ne_nil _ _)] at closes ⊢
      refine here.closes_before (fun below => ?_) closes
      rw [← List.singleton_append, closesNext_append, if_pos (by decide)] at below ⊢
      exact ih below

/-! ## Marks and their places -/

/-- A column has its old character, or a mark for a space behind a comma with a brace next. The comma
may be the last character that was passed before the text begins. -/
theorem Roomed.getElem?_or {below : List Text} {comma : Bool} {t t' : Text}
    (h : Roomed below comma t t') (passed : Text)
    (behind : comma = true → passed.getLast? = some ',') (c : Nat) :
    t'[c]? = t[c]? ∨ t'[c]? = some '↯' ∧ ∃ front back, passed ++ t = front ++ ',' :: ' ' :: back ∧
      passed.length + c = front.length + 1 ∧
      closesNext (Text.joinLines (back :: below)) = true := by
  induction h generalizing passed c with
  | nil => exact .inl rfl
  | @keep comma d t t' rest ih =>
    cases c with
    | zero => exact .inl rfl
    | succ c =>
      have next := ih (passed ++ [d]) (fun same => by simp [beq_iff_eq.1 same]) c
      rw [List.append_assoc, List.length_append, List.length_singleton, Nat.add_assoc,
        Nat.add_comm 1 c] at next
      exact next
  | @mark t t' closes rest ih =>
    cases c with
    | zero =>
      obtain ⟨front, rfl⟩ := List.getLast?_eq_some_iff.1 (behind rfl)
      refine .inr ⟨rfl, front, t, by simp, by simp, closes⟩
    | succ c =>
      have next := ih (passed ++ [' ']) (fun impossible => nomatch impossible) c
      rw [List.append_assoc, List.length_append, List.length_singleton, Nat.add_assoc,
        Nat.add_comm 1 c] at next
      exact next

/-- Every line is marked in view of the lines below it. -/
theorem RoomedLines.exists_getElem? {all all' : List Text} (h : RoomedLines all all') {l : Nat}
    {line : Text} (found : all[l]? = some line) :
    ∃ line', all'[l]? = some line' ∧ Roomed (all.drop (l + 1)) false line line' := by
  induction h generalizing l with
  | nil => cases found
  | @cons first first' below below' here rest ih =>
    cases l with
    | zero =>
      obtain rfl := Option.some.inj found
      exact ⟨first', rfl, here⟩
    | succ l => exact ih found

/-! ## Columns -/

/-- The space in a column of a line stands directly behind a comma, and nothing but white space is
between it and a closing brace on the same line or further down. -/
def AwaitsProperty (all : List Text) (l c : Nat) : Prop :=
  ∃ front back, all[l]? = some (front ++ ',' :: ' ' :: back) ∧ c = front.length + 1 ∧
    closesNext (Text.joinLines (back :: all.drop (l + 1))) = true

/-- A prepared line keeps the columns of its source line: something may be added between the code of
the line and its tail, and in the code only a space in an awaiting column may be marked. -/
structure KeepsColumns (source prepared : Text) (awaits : Nat → Prop) : Prop where
  added_behind : ∃ code added, prepared = code ++ added ++ Text.tail source ∧
    code.length = (Text.body source).length
  columns : ∀ c < (Text.body source).length,
    prepared[c]? = source[c]? ∨ prepared[c]? = some '↯' ∧ source[c]? = some ' ' ∧ awaits c

theorem getElem?_of_lt_body {source : Text} {c : Nat} (inside : c < (Text.body source).length)
    (added : Text) : (Text.body source ++ added)[c]? = source[c]? := by
  conv_rhs => rw [← Text.body_append_tail source]
  rw [List.getElem?_append_left inside, List.getElem?_append_left inside]

/-- What is only added to keeps its columns. -/
theorem KeepsColumns.of_added (line added : Text) (awaits : Nat → Prop) :
    KeepsColumns line (Text.body line ++ added ++ Text.tail line) awaits where
  added_behind := ⟨_, added, rfl, rfl⟩
  columns c inside := by
    rw [List.append_assoc]
    exact .inl (getElem?_of_lt_body inside _)

/-- A line that is added to and then marked keeps its columns. A column awaits a property when it
does so in view of the lines below as they were before anything was added to them. -/
theorem KeepsColumns.of_roomed {line prepared added : Text} {below below' : List Text}
    (addition : Addition added) (others : List.Forall₂ Padded below below')
    (h : Roomed below' false (Text.body line ++ added ++ Text.tail line) prepared) :
    KeepsColumns line prepared fun c => ∃ front back, line = front ++ ',' :: ' ' :: back ∧
      c = front.length + 1 ∧ closesNext (Text.joinLines (back :: below)) = true where
  added_behind := by
    have filled : ' ' ∉ Text.tail line := by
      rcases Text.tail_eq line with none_ | return_
      · simp [none_]
      · simp [return_]
    obtain ⟨first, ending, flag, rfl, early, late⟩ := h.blotted.exists_of_append
    obtain ⟨code, added', flag', rfl, kept, -⟩ := early.exists_of_append
    obtain rfl := late.eq_of_filled filled
    exact ⟨code, added', rfl, kept.length_eq⟩
  columns c inside := by
    rcases h.getElem?_or [] (fun impossible => nomatch impossible) c with
      same | ⟨marked, front, back', whole, place, closes⟩
    · left
      rw [same, List.append_assoc, getElem?_of_lt_body inside]
    · right
      rw [List.nil_append] at whole
      rw [List.length_nil, Nat.zero_add] at place
      have early : front ++ [',', ' '] <+: Text.body line ++ (added ++ Text.tail line) := by
        rw [← List.append_assoc]
        exact ⟨back', by rw [whole]; simp⟩
      have reaching : front ++ [',', ' '] <+: Text.body line := by
        refine List.prefix_of_prefix_length_le early (List.prefix_append _ _) ?_
        rw [List.length_append, List.length_cons, List.length_singleton]
        omega
      obtain ⟨back, code⟩ := reaching
      have source : line = front ++ ',' :: ' ' :: (back ++ Text.tail line) := by
        conv_lhs => rw [← Text.body_append_tail line, ← code]
        simp
      have rest : back' = back ++ added ++ Text.tail line := by
        rw [← code] at whole
        simpa using whole.symm
      have padded : Padded (back ++ Text.tail line) back' :=
        ⟨back, added, _, addition, Text.tail_eq line, rfl, rest⟩
      refine ⟨marked, ?_, front, back ++ Text.tail line, source, place,
        closesNext_of_padded (.cons padded others) closes⟩
      rw [source, place, List.getElem?_append_right (Nat.le_succ _)]
      simp

/-- A source without receivers is not changed by marking them. -/
theorem receiverEdit_eq_self {t : Text} (noReceiver : '@' ∉ t) : receiverEdit.apply t = t := by
  rw [← Text.joinLines_lines (receiverEdit.apply t), lines_receiverEdit]
  conv_rhs => rw [← Text.joinLines_lines t, ← List.map_id (Text.lines t)]
  congr 1
  refine List.map_congr_left fun line member => ?_
  exact receiverLine_of_not_mem fun inside => noReceiver (Text.mem_of_mem_lines member inside)

/-- The gentle edits keep the columns of every line. -/
theorem exists_edited_keepsColumns {t : Text} (noReceiver : '@' ∉ t) {l : Nat} {line : Text}
    (found : (Text.lines t)[l]? = some line) :
    ∃ edited, (editedLines t)[l]? = some edited ∧
      KeepsColumns line edited (AwaitsProperty (Text.lines t) l) := by
  have extensions := forall₂_extension t
  obtain ⟨extended, at_, ⟨added, addition, rfl, -⟩⟩ := exists_getElem?_right extensions found
  obtain ⟨edited, there, roomed⟩ := (roomedLines_scan _).exists_getElem? at_
  refine ⟨edited, ?_, ?_⟩
  · rw [editedLines_eq, receiverEdit_eq_self noReceiver]
    exact there
  · have others : List.Forall₂ Padded ((Text.lines t).drop (l + 1))
        ((Text.lines (spaceEdit.apply (keyEdit.apply (dotEdit.apply t)))).drop (l + 1)) :=
      List.forall₂_drop (l + 1) (extensions.imp fun _ _ => Extension.padded)
    have kept := KeepsColumns.of_roomed addition others roomed
    refine ⟨kept.added_behind, fun c inside => (kept.columns c inside).imp_right ?_⟩
    rintro ⟨marked, space, front, back, rfl, place, closes⟩
    exact ⟨marked, space, front, back, found, place, closes⟩

/-- **Preparation keeps columns.** In a source without receivers, every line has its place among the
lines that were not inserted, and the line that stands there keeps its columns. -/
theorem prepare_keeps_columns {t : Text} (noReceiver : '@' ∉ t) {l : Nat} {line : Text}
    (found : (Text.lines t)[l]? = some line) :
    ∃ j prepared, (keptLines (prepare t))[l]? = some j ∧
      (Text.lines (prepare t).text)[j]? = some prepared ∧
      KeepsColumns line prepared (AwaitsProperty (Text.lines t) l) := by
  obtain ⟨edited, there, kept⟩ := exists_edited_keepsColumns noReceiver found
  have bound : l < (placesFrom 0 (editedLines t)).length := by
    rw [length_placesFrom]
    exact (List.getElem?_eq_some_iff.1 there).1
  have place := List.getElem?_eq_getElem bound
  obtain ⟨j, same, inserted⟩ := getElem?_insertCommentLines_place place
  rw [Nat.zero_add] at same
  rw [there] at inserted
  rw [keptLines_prepare]
  rcases getElem?_lines_prepare inserted with plain | ⟨empty, marked⟩
  · exact ⟨j, edited, same ▸ place, plain, kept⟩
  · refine ⟨j, _, same ▸ place, marked, ?_⟩
    obtain ⟨source, from_, edits⟩ := exists_getElem?_left (forall₂_edited t) there
    obtain rfl := Option.some.inj (found.symm.trans from_)
    rw [isIndentedEmpty, Bool.and_eq_true] at empty
    rw [edits.eq_of_isBlankLine empty.1]
    exact .of_added line _ _

/-- The brace stands below a line with more white space, and a dot is terminated on the way. -/
theorem prepare_keeps_columns_across_lines :
    let t := "###\nf \x7ba,  \n  \x7d, b.\n".toList
    '@' ∉ t ∧ (Text.lines t)[1]? = some "f \x7ba,  ".toList ∧
      (∃ j prepared, (keptLines (prepare t))[1]? = some j ∧
        (Text.lines (prepare t).text)[j]? = some prepared ∧
        KeepsColumns "f \x7ba,  ".toList prepared (AwaitsProperty (Text.lines t) 1)) ∧
      (prepare t).text = "#\n###\nf \x7ba,↯ \n  \x7d, b.;\n".toList := by
  intro t
  have plain : '@' ∉ t := by decide
  have found : (Text.lines t)[1]? = some "f \x7ba,  ".toList := by decide
  exact ⟨plain, found, prepare_keeps_columns plain found, by decide⟩

end Preparation

end DialectBridge
