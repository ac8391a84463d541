import DialectBridge.Text.Blank

/-!
# Texts and their lines

A text is a list of characters, so that every offset and every column counts characters. Lines are
separated by line feeds only; a carriage return in front of one belongs to the line. Splitting and
joining are inverse to each other on lists of lines without line feeds, and `lines` never returns
the empty list.
-/

set_option autoImplicit false

namespace DialectBridge

/-- A text, character by character. -/
abbrev Text := List Char

namespace Text

/-- The characters of a string. -/
abbrev ofString (s : String) : Text := s.toList

/-- The string with these characters. -/
abbrev toString (t : Text) : String := String.ofList t

/-! ## Lines -/

/-- The pieces between line feeds; a text without one is a single line. -/
def lines : Text → List Text
  | [] => [[]]
  | c :: rest =>
    if c = '\n' then [] :: lines rest
    else
      match lines rest with
      | [] => [[c]]
      | line :: more => (c :: line) :: more

/-- Lines with line feeds between them. -/
def joinLines : List Text → Text
  | [] => []
  | [line] => line
  | line :: more => line ++ '\n' :: joinLines more

/-- How many characters lines take up, each with a line feed behind it. -/
def extent : List Text → Nat
  | [] => 0
  | line :: more => line.length + 1 + extent more

/-- The effect of a function on every line. -/
def mapLines (f : Text → Text) (t : Text) : Text := joinLines ((lines t).map f)

theorem lines_ne_nil (t : Text) : lines t ≠ [] := by
  cases t with
  | nil => simp [lines]
  | cons c rest =>
    unfold lines
    split
    · simp
    · split <;> simp

theorem joinLines_cons {line : Text} {more : List Text} (h : more ≠ []) :
    joinLines (line :: more) = line ++ '\n' :: joinLines more := by
  cases more with
  | nil => exact absurd rfl h
  | cons next rest => rfl

/-- Nothing is lost by splitting. -/
@[simp]
theorem joinLines_lines (t : Text) : joinLines (lines t) = t := by
  induction t with
  | nil => rfl
  | cons c rest ih =>
    unfold lines
    split
    · next h => rw [joinLines_cons (lines_ne_nil rest), ih, h]; rfl
    · split
      · next h => exact absurd h (lines_ne_nil rest)
      · next line more h =>
        rw [h] at ih
        cases more with
        | nil => simpa [joinLines] using ih
        | cons next others => simpa [joinLines] using ih

/-- No line has a line feed in it. -/
theorem not_mem_of_mem_lines {t line : Text} (h : line ∈ lines t) : '\n' ∉ line := by
  induction t generalizing line with
  | nil =>
    obtain rfl := List.mem_singleton.1 h
    exact List.not_mem_nil
  | cons c rest ih =>
    unfold lines at h
    split at h
    · rcases List.mem_cons.1 h with rfl | later
      · exact List.not_mem_nil
      · exact ih later
    · next distinct =>
      split at h
      · next empty => exact absurd empty (lines_ne_nil rest)
      · next first more split =>
        rcases List.mem_cons.1 h with rfl | later
        · intro present
          rcases List.mem_cons.1 present with same | inside
          · exact distinct same.symm
          · exact ih (split ▸ List.mem_cons_self) inside
        · exact ih (split ▸ List.mem_cons_of_mem _ later)

/-- A text without line feeds is its only line. -/
theorem lines_of_not_mem {t : Text} (h : '\n' ∉ t) : lines t = [t] := by
  induction t with
  | nil => rfl
  | cons c rest ih =>
    have here : c ≠ '\n' := fun same => h (same ▸ List.mem_cons_self)
    simp [lines, here, ih fun inside => h (List.mem_cons_of_mem _ inside)]

/-- A line feed ends the first line. -/
theorem lines_append_lineFeed {line : Text} (h : '\n' ∉ line) (rest : Text) :
    lines (line ++ '\n' :: rest) = line :: lines rest := by
  induction line with
  | nil => simp [lines]
  | cons c more ih =>
    have here : c ≠ '\n' := fun same => h (same ▸ List.mem_cons_self)
    simp [lines, here, ih fun inside => h (List.mem_cons_of_mem _ inside)]

/-- Splitting takes joining back, for lines that are lines. -/
theorem lines_joinLines {all : List Text} (nonempty : all ≠ [])
    (h : ∀ line ∈ all, '\n' ∉ line) : lines (joinLines all) = all := by
  induction all with
  | nil => exact absurd rfl nonempty
  | cons line more ih =>
    have first := h line List.mem_cons_self
    cases more with
    | nil => exact lines_of_not_mem first
    | cons next others =>
      rw [joinLines_cons (List.cons_ne_nil next others), lines_append_lineFeed first,
        ih (List.cons_ne_nil next others) fun l inside => h l (List.mem_cons_of_mem _ inside)]

/-! ## Ends of a line -/

/-- The line without one final carriage return, which is kept apart. -/
def body (line : Text) : Text :=
  if line.getLast? = some '\r' then line.dropLast else line

/-- The final carriage return of a line, if it has one. -/
def tail (line : Text) : Text :=
  if line.getLast? = some '\r' then ['\r'] else []

/-- A line is its body and its final carriage return. -/
theorem body_append_tail (line : Text) : body line ++ tail line = line := by
  unfold body tail
  split
  · next h =>
    obtain ⟨front, rfl⟩ := List.getLast?_eq_some_iff.1 h
    simp
  · simp

/-! ## Stripping -/

/-- Without leading white space. -/
def trimLeft (t : Text) : Text := t.dropWhile isBlank

/-- Without trailing white space. -/
def trimRight (t : Text) : Text := (t.reverse.dropWhile isBlank).reverse

/-- Without white space at either end. -/
def trim (t : Text) : Text := trimRight (trimLeft t)

/-- Nothing but white space. -/
def isEmptyLine (t : Text) : Bool := t.all isBlank

/-- The leading white space. -/
def leadingBlank (t : Text) : Text := t.takeWhile isBlank

/-- The text filled up with spaces on the right to the given length. -/
def padRight (n : Nat) (t : Text) : Text := t ++ List.replicate (n - t.length) ' '

/-! ## Occurrences -/

/-- Whether the second text begins with the first. -/
def startsWith (front t : Text) : Bool := front.isPrefixOf t

/-- Whether the second text ends with the first. -/
def endsWith (back t : Text) : Bool := back.isSuffixOf t

/-- Offset of the first occurrence. -/
def find? (needle : Text) : Text → Option Nat
  | [] => if needle.isEmpty then some 0 else none
  | c :: rest => if startsWith needle (c :: rest) then some 0 else (find? needle rest).map (· + 1)

/-- Whether the needle occurs at all. -/
def occursIn (needle t : Text) : Bool := (find? needle t).isSome

/-- The text behind the given front, when it begins with it. -/
def dropFront? : Text → Text → Option Text
  | [], t => some t
  | _ :: _, [] => none
  | a :: front, c :: rest => if a = c then dropFront? front rest else none

/-- The pieces of a text between separators. -/
def splitOn (separator : Char) : Text → List Text
  | [] => [[]]
  | c :: rest =>
    if c = separator then [] :: splitOn separator rest
    else
      match splitOn separator rest with
      | [] => [[c]]
      | piece :: more => (c :: piece) :: more

/-- The part before the last character, and that character. -/
def splitLast? (t : Text) : Option (Text × Char) := t.getLast?.map fun c => (t.dropLast, c)

end Text

end DialectBridge
