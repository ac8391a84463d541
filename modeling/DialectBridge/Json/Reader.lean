import DialectBridge.Fault
import DialectBridge.Json.Basic
import DialectBridge.Number.Digits

/-!
# Reading JSON

The reader takes the standard grammar and, beyond it, the words `NaN`, `Infinity` and `-Infinity`.
Raw control characters in strings, leading zeros, trailing commas and anything behind the value are
refused. Numbers without fraction and exponent are exact integers, all others are rounded to double
precision. Integers that are too long and values that are nested too deeply are refused as well, at
the place where they are met, so that of several flaws the first one counts. Every reading function
returns the rest of the text behind what it read; the recursion over nested values is bounded by the
length of the text.
-/

set_option autoImplicit false

namespace DialectBridge

namespace Json

/-- What keeps a text from being read. -/
inductive Flaw where
  /-- The text is not well-formed. -/
  | malformed
  /-- An integer has more digits than are read. -/
  | integerTooLong (digits : Nat)
  /-- A list or an object is inside too many others. -/
  | tooDeep (nesting : Nesting)
  deriving DecidableEq, Repr

/-- A part that was read, or else the text is not well-formed. -/
def wellFormed {α : Type} : Option α → Except Flaw α
  | some a => .ok a
  | none => .error .malformed

/-- How many lists and objects may be open at once. -/
def depthLimit : Nat := 988

/-- The white space of the grammar. -/
def isGap (c : Char) : Bool := c == ' ' || c == '\t' || c == '\n' || c == '\r'

/-- The text behind white space. -/
def skipGap (t : Text) : Text := t.dropWhile isGap

/-- Four hexadecimal digits. -/
def readHex4 : Text → Option (Nat × Text)
  | a :: b :: c :: d :: rest => do
    let a ← Digits.hexValue? a
    let b ← Digits.hexValue? b
    let c ← Digits.hexValue? c
    let d ← Digits.hexValue? d
    return (((a * 16 + b) * 16 + c) * 16 + d, rest)
  | _ => none

/-- The character of a code point; half of a pair on its own has none and becomes the replacement
character. -/
def charOf (n : Nat) : Char := if n.isValidChar then Char.ofNat n else Char.ofNat 0xFFFD

/-- The character behind `\u`: four digits, or two halves of a pair. -/
def readUnicode (t : Text) : Option (Char × Text) := do
  let (high, rest) ← readHex4 t
  if 0xD800 ≤ high && high ≤ 0xDBFF then
    match rest with
    | '\\' :: 'u' :: more =>
      match readHex4 more with
      | some (low, rest') =>
        if 0xDC00 ≤ low && low ≤ 0xDFFF then
          return (charOf (0x10000 + (high - 0xD800) * 0x400 + (low - 0xDC00)), rest')
        else return (charOf high, rest)
      | none => return (charOf high, rest)
    | _ => return (charOf high, rest)
  else return (charOf high, rest)

/-- The character of a one-letter escape. -/
def simpleEscape? : Char → Option Char
  | '"' => some '"'
  | '\\' => some '\\'
  | '/' => some '/'
  | 'b' => some '\x08'
  | 'f' => some '\x0c'
  | 'n' => some '\n'
  | 'r' => some '\r'
  | 't' => some '\t'
  | _ => none

/-- The rest of a string up to its closing quote, given the characters read so far in reverse. -/
def readString (fuel : Nat) (sofar t : Text) : Option (String × Text) :=
  match fuel, t with
  | _, '"' :: rest => some (String.ofList sofar.reverse, rest)
  | fuel + 1, '\\' :: 'u' :: rest => do
    let (c, rest) ← readUnicode rest
    readString fuel (c :: sofar) rest
  | fuel + 1, '\\' :: c :: rest => do
    let c ← simpleEscape? c
    readString fuel (c :: sofar) rest
  | fuel + 1, c :: rest =>
    if c.toNat < 0x20 || c == '\\' then none else readString fuel (c :: sofar) rest
  | _, _ => none

/-- A run of decimal digits. -/
def readDigits (t : Text) : Text × Text := (t.takeWhile Char.isDigit, t.dropWhile Char.isDigit)

/-- The fraction part behind a point, if there is one with digits. -/
def readFraction : Text → Text × Text
  | '.' :: rest =>
    match readDigits rest with
    | ([], _) => ([], '.' :: rest)
    | (digits, rest') => (digits, rest')
  | t => ([], t)

/-- The digits of an exponent and their sign. -/
def readExponentDigits : Text → Option (Int × Text)
  | '+' :: rest => unsigned rest 1
  | '-' :: rest => unsigned rest (-1)
  | t => unsigned t 1
where
  /-- Digits with the sign that was read in front of them. -/
  unsigned (t : Text) (sign : Int) : Option (Int × Text) :=
    match readDigits t with
    | ([], _) => none
    | (digits, rest) => some (sign * Digits.decimalValue digits, rest)

/-- The exponent, if there is one with digits. -/
def readExponent (t : Text) : Option Int × Text :=
  match t with
  | e :: rest =>
    if e == 'e' || e == 'E' then
      match readExponentDigits rest with
      | some (value, rest') => (some value, rest')
      | none => (none, t)
    else (none, t)
  | [] => (none, t)

/-- The digits before the fraction: a single zero, or any digits. -/
def readWhole : Text → Option (Text × Text)
  | '0' :: rest => some (['0'], rest)
  | t =>
    match readDigits t with
    | ([], _) => none
    | (digits, rest) => some (digits, rest)

/-- A number behind its sign. -/
def readUnsigned (negative : Bool) (t : Text) : Except Flaw (Json × Text) := do
  let (whole, rest) ← wellFormed (readWhole t)
  let (fraction, rest) := readFraction rest
  let (exponent, rest) := readExponent rest
  if fraction.isEmpty && exponent.isNone then
    if Digits.limit < whole.length then throw (.integerTooLong whole.length)
    let value : Int := Digits.decimalValue whole
    return (.int (if negative then -value else value), rest)
  else
    let digits := whole ++ fraction
    let significant := digits.dropWhile (· == '0')
    return (.float (Binary64.ofDecimal negative (Digits.decimalValue digits) significant.length
      (exponent.getD 0 - fraction.length)), rest)

/-- Words that stand for values. -/
def words : List (Text × Json) :=
  [("null".toList, .null), ("true".toList, .bool true), ("false".toList, .bool false),
    ("NaN".toList, .float .nan), ("Infinity".toList, .float (.infinite false)),
    ("-Infinity".toList, .float (.infinite true))]

/-- One of the words at the beginning of the text. -/
def readWord (t : Text) : Option (Json × Text) :=
  words.findSome? fun word => (Text.dropFront? word.1 t).map fun rest => (word.2, rest)

mutual

/-- A value at the beginning of the text, where `room` more lists and objects may be opened. -/
def readValue (fuel room : Nat) (t : Text) : Except Flaw (Json × Text) :=
  match fuel with
  | 0 => .error .malformed
  | fuel + 1 =>
    match t with
    | '"' :: rest =>
      wellFormed ((readString rest.length [] rest).map fun found => (.str found.1, found.2))
    | '[' :: rest =>
      match room with
      | 0 => .error (.tooDeep .array)
      | room + 1 =>
        match skipGap rest with
        | ']' :: rest' => .ok (.arr [], rest')
        | rest' => readItems fuel room [] rest'
    | '\x7b' :: rest =>
      match room with
      | 0 => .error (.tooDeep .object)
      | room + 1 =>
        match skipGap rest with
        | '\x7d' :: rest' => .ok (.obj [], rest')
        | rest' => readMembers fuel room [] rest'
    | _ =>
      match readWord t with
      | some found => .ok found
      | none =>
        match t with
        | '-' :: rest => readUnsigned true rest
        | _ => readUnsigned false t

/-- The items of a list from the first one on, given those read so far in reverse. -/
def readItems (fuel room : Nat) (sofar : List Json) (t : Text) : Except Flaw (Json × Text) :=
  match fuel with
  | 0 => .error .malformed
  | fuel + 1 =>
    match readValue fuel room t with
    | .error flaw => .error flaw
    | .ok (item, rest) =>
      match skipGap rest with
      | ',' :: rest' => readItems fuel room (item :: sofar) (skipGap rest')
      | ']' :: rest' => .ok (.arr (item :: sofar).reverse, rest')
      | _ => .error .malformed

/-- The members of an object from the first one on, given those read so far. -/
def readMembers (fuel room : Nat) (sofar : List (String × Json)) (t : Text) :
    Except Flaw (Json × Text) :=
  match fuel with
  | 0 => .error .malformed
  | fuel + 1 =>
    match t with
    | '"' :: rest =>
      match readString rest.length [] rest with
      | none => .error .malformed
      | some (key, rest) =>
        match skipGap rest with
        | ':' :: rest =>
          match readValue fuel room (skipGap rest) with
          | .error flaw => .error flaw
          | .ok (value, rest) =>
            match skipGap rest with
            | ',' :: rest' => readMembers fuel room (put sofar key value) (skipGap rest')
            | '\x7d' :: rest' => .ok (.obj (put sofar key value), rest')
            | _ => .error .malformed
        | _ => .error .malformed
    | _ => .error .malformed

end

/-- The value written by a whole text. -/
def read (t : Text) : Except Flaw Json :=
  match readValue (2 * t.length + 2) depthLimit (skipGap t) with
  | .ok (value, rest) => if (skipGap rest).isEmpty then .ok value else .error .malformed
  | .error flaw => .error flaw

end Json

end DialectBridge
