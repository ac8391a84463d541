import DialectBridge.Proofs.Fronts

/-!
# Lines with a dot

Of the gentle edits only two can add something behind a dot: a dot that ends the code of a line gets
its terminator, and a space that ends the code gets room for a property. A word is completed only
where it is all there is on its line, so never behind a dot. Thus a line with a dot in it that does
not end in a space is known exactly after the edits, up to the marks behind commas: it is the line
itself, or the line with a terminator. Cleaning keeps a dot at the end of a line as well: no residue
reaches as far as the dot.
-/

set_option autoImplicit false

namespace DialectBridge

namespace Preparation

/-- A line, or the line with a terminator behind the dot in which its code ends. -/
inductive Dotted (line : Text) : Text → Prop
  | kept : Dotted line line
  | terminated {front : Text} (code : Text.body line = front ++ ['.'])
      (admits : admitsDot front = true) : Dotted line (front ++ ['.', ';'] ++ Text.tail line)

theorem dotted_terminateDot (line : Text) : Dotted line ((terminateDot? line).getD line) := by
  unfold terminateDot?
  split
  · next before split =>
    split
    · next admits => exact .terminated (Text.splitLast?_eq_some split) admits
    · exact .kept
  · exact .kept

/-- The dots of lines are terminated or not. -/
theorem forall₂_dotted (all : List Text) :
    List.Forall₂ Dotted all ((terminateDots all).map (·.line)) := by
  fun_induction terminateDots all with
  | case1 => exact .nil
  | case2 line =>
    have here := dotted_terminateDot line
    rw [← Edit.line_become] at here
    exact .cons here .nil
  | case3 line next rest shared ih =>
    simp only [Bool.and_eq_true, beq_iff_eq] at shared
    have alone : Dotted next ([] ++ ['.', ';'] ++ Text.tail next) := .terminated shared.2 rfl
    exact .cons .kept (.cons alone ih)
  | case4 line next rest apart ih =>
    have here := dotted_terminateDot line
    rw [← Edit.line_become] at here
    exact .cons here ih

/-- Code with a dot that does not end in a space. -/
structure Settled (line : Text) : Prop where
  dot : '.' ∈ Text.body line
  ending : (Text.body line).getLast? ≠ some ' '

namespace Settled

variable {line : Text}

/-- A dot keeps a line from being a word. -/
theorem completeKey?_eq_none (h : Settled line) (above : Text) :
    completeKey? above line = none := by
  unfold completeKey?
  cases indented : keyIndentation? above with
  | none => rfl
  | some indentation =>
    have indents := isIndent_of_keyIndentation? indented
    have none_ : loneWord? indentation line = none := by
      unfold loneWord?
      split
      · next rest front =>
        have inRest : '.' ∈ Text.body rest := by
          have inLine : '.' ∈ line := Text.body_append_tail line ▸ List.mem_append_left _ h.dot
          rw [Text.dropFront?_eq_some front, ← Text.body_append_tail rest] at inLine
          rcases List.mem_append.1 inLine with indent | code
          · exact absurd (indents _ indent) (by decide)
          · rcases List.mem_append.1 code with inside | ending
            · exact inside
            · rcases Text.tail_eq rest with none_ | return_
              · rw [none_] at ending
                exact absurd ending List.not_mem_nil
              · rw [return_] at ending
                exact absurd ending (by decide)
        dsimp only
        rw [if_neg]
        simp only [Bool.and_eq_true, List.all_eq_true, not_and]
        intro word
        exact absurd (word.2 _ inRest) (by decide)
      · rfl
    simp only [bind, Option.bind, none_]

theorem markTrailingSpace?_eq_none (h : Settled line) : markTrailingSpace? line = none := by
  unfold markTrailingSpace?
  rw [if_neg]
  unfold endsInOneSpace
  intro spaced
  split at spaced
  · next front split =>
    refine h.ending ?_
    rw [Text.splitLast?_eq_some split, List.getLast?_concat]
  · cases spaced

/-- Completing keys leaves such lines. -/
theorem forall₂_completeKeys (all : List Text) :
    List.Forall₂ (fun line line' => Settled line → line' = line) all
      ((completeKeys all).map (·.line)) := by
  have below : ∀ (all : List Text) above,
      List.Forall₂ (fun line line' => Settled line → line' = line) all
      ((completeKeysBelow above all).map (·.line)) := by
    intro all
    induction all with
    | nil => exact fun _ => .nil
    | cons line rest ih =>
      refine fun above => .cons (fun settled => ?_) (ih line)
      dsimp only
      rw [settled.completeKey?_eq_none above]
      rfl
  cases all with
  | nil => exact .nil
  | cons line rest => exact .cons (fun _ => rfl) (below rest line)

/-- Completing keys and making room for properties leaves such lines. -/
theorem forall₂_edits (t : Text) :
    List.Forall₂ (fun line line' => Settled line → line' = line) (Text.lines t)
      (Text.lines (spaceEdit.apply (keyEdit.apply t))) := by
  rw [lines_spaceEdit, lines_keyEdit, List.forall₂_map_right_iff]
  refine (forall₂_completeKeys (Text.lines t)).imp fun line line' kept settled => ?_
  obtain rfl := kept settled
  rw [spacedLine, settled.markTrailingSpace?_eq_none, Option.getD_none]

end Settled

/-- **A line with a dot after the gentle edits**: its receiver is marked and its dot terminated, and
unless that ends in a space, there are only marks behind commas to come. -/
theorem forall₂_dotted_edited (t : Text) :
    List.Forall₂ (fun line edited => ∃ dotted, Dotted (receiverLine line) dotted ∧
      (Settled dotted → Blotted false dotted edited)) (Text.lines t) (editedLines t) := by
  rw [editedLines_eq, ← List.forall₂_map_left_iff (f := receiverLine) (R := fun line edited =>
    ∃ dotted, Dotted line dotted ∧ (Settled dotted → Blotted false dotted edited)),
    ← lines_receiverEdit]
  have dots : List.Forall₂ Dotted (Text.lines (receiverEdit.apply t))
      (Text.lines (dotEdit.apply (receiverEdit.apply t))) := by
    rw [lines_dotEdit]
    exact forall₂_dotted _
  have edits := Settled.forall₂_edits (dotEdit.apply (receiverEdit.apply t))
  have marks := (roomedLines_scan (spaceEdit.apply (keyEdit.apply (dotEdit.apply
    (receiverEdit.apply t))))).blotted
  refine forall₂_trans (fun line dotted edited first second => ⟨dotted, first, second⟩) dots
    (forall₂_trans (fun dotted between edited first second settled => ?_) edits marks)
  obtain rfl := first settled
  exact second

theorem Carried.exists_dotted {t line edited : Text} {l p k : Nat}
    (h : Carried t l line edited p k) :
    ∃ dotted, Dotted (receiverLine line) dotted ∧
      (Settled dotted → Blotted false dotted edited) := by
  obtain ⟨other, found, dotted⟩ := exists_getElem?_right (forall₂_dotted_edited t) h.source
  obtain rfl := Option.some.inj (h.inEdited.symm.trans found)
  exact dotted

end Preparation

/-! ## Residues before a dot -/

namespace Cleanup

/-- A method ends before the next dot. -/
theorem window_before_dot {name async star part behind : Text} (method : Method name async star)
    (window : methodWindow name async star <+: part ++ '.' :: behind) :
    methodWindow name async star <+: part := by
  have early : [] ++ methodWindow name async star <+: part :=
    Text.prefix_of_prefix_append_of_head window (Nat.zero_le _) fun c first => by
      obtain rfl := Option.some.inj first
      exact dot_not_mem_methodWindow method
  exact early

/-- **A dot at the end of a line is kept**, and the line before it is treated as if it were not
there. -/
theorem replaceLine_append_dot (front : Text) :
    replaceLine (front ++ ['.']) = replaceLine front ++ ['.'] := by
  have methods : Text.scan methodShorthand (front ++ ['.']) =
      Text.scan methodShorthand front ++ ['.'] := by
    rw [Text.scan_append methodShorthand_forward methodShorthand_linewise.fitting fun k _ =>
      methodShorthand_append fun name async star method window => window_before_dot method window]
    rfl
  have receivers : ∀ front : Text, Text.scan Marker.receiver.cleaning (front ++ ['.']) =
      Text.scan Marker.receiver.cleaning front ++ ['.'] := by
    intro front
    rw [Text.scan_append Marker.receiver_linewise.forward Marker.receiver_linewise.fitting
      fun k _ => Marker.receiver_cleaning_append fun found => ?_]
    · rfl
    · have text : Marker.receiver.text = "this.__coffeemapAtSig".toList ++ ['n'] := by decide
      rw [text] at found ⊢
      exact Text.prefix_of_prefix_append found (by decide)
  have marks : ∀ front : Text, Text.scan Marker.newProperty.cleaning (front ++ ['.']) =
      Text.scan Marker.newProperty.cleaning front ++ ['.'] := by
    intro front
    rw [Text.scan_append Marker.newProperty_linewise.forward Marker.newProperty_linewise.fitting
      fun k bound => Marker.newProperty_cleaning_append (fun empty => ?_) fun c start => ?_]
    · rfl
    · exact absurd (List.drop_eq_nil_iff.1 empty) (by omega)
    · obtain rfl : '.' = c := Option.some.inj start
      decide
  rw [replaceLine, methods, receivers, marks, replaceLine]

end Cleanup

end DialectBridge
