import DialectBridge.Fault

/-!
# Texts as they are received

An editor sends a text as a sequence of code points, and not all of them are characters: half of a
surrogate pair may come without the other half. Such a text has lines and columns like any other,
but it cannot be encoded. Where it has to be kept, the replacement character stands for every half:
it is as wide as the half and, like the half, no part of a word, no white space and no line break.
-/

set_option autoImplicit false

namespace DialectBridge

/-- A character, or half of a surrogate pair that stands alone. -/
inductive CodePoint where
  | char (c : Char)
  | half (index : Fin 2048)
  deriving DecidableEq, Repr

namespace CodePoint

/-- The number of a code point. -/
def number : CodePoint → Nat
  | char c => c.toNat
  | half index => 0xD800 + index

/-- The character that a code point is, if it is one. -/
def char? : CodePoint → Option Char
  | char c => some c
  | half _ => none

/-- The character that stands for a code point. -/
def shown : CodePoint → Char
  | char c => c
  | half _ => Char.ofNat 0xFFFD

end CodePoint

/-- A text as it is received, code point by code point. -/
abbrev Received := List CodePoint

namespace Received

/-- A text of characters only. -/
def ofText (t : Text) : Received := t.map .char

/-- The text as it is kept. -/
def shown (t : Received) : Text := t.map CodePoint.shown

/-- The text that was received, if it consists of characters. -/
def text? : Received → Option Text
  | [] => some []
  | p :: rest => do return (← p.char?) :: (← text? rest)

/-- Why a text cannot be encoded: the first half of a pair in it, and how many there are in a row. -/
def flaw (t : Received) : Fault :=
  let start := (t.takeWhile (·.char?.isSome)).length
  let halves := (t.drop start).takeWhile (·.char?.isNone)
  .unencodable ((halves.head?.map CodePoint.number).getD 0) start halves.length

@[simp]
theorem shown_ofText (t : Text) : (ofText t).shown = t := by
  induction t with
  | nil => rfl
  | cons c rest ih => exact congrArg (c :: ·) ih

@[simp]
theorem text?_ofText (t : Text) : (ofText t).text? = some t := by
  induction t with
  | nil => rfl
  | cons c rest ih =>
    change (do return (← some c) :: (← text? (ofText rest))) = some (c :: rest)
    rw [ih]
    rfl

/-- A received text that consists of characters is known by them. -/
theorem eq_ofText_of_text? {received : Received} {t : Text} (h : received.text? = some t) :
    received = ofText t := by
  induction received generalizing t with
  | nil =>
    cases h
    rfl
  | cons p rest ih =>
    cases p with
    | half index => cases h
    | char c =>
      cases found : text? rest with
      | none => simp [text?, CodePoint.char?, found] at h
      | some more =>
        simp only [text?, CodePoint.char?, found, bind, Option.bind_some, pure,
          Option.some.injEq] at h
        rw [ih found, ← h]
        rfl

end Received

end DialectBridge
