import DialectBridge.Text.Basic

/-!
# UTF-8

Decoding bytes to text, character by character. Where the bytes are not well-formed, the longest
part that could have begun a character counts as one error; decoding either stops there or goes on
behind it with a replacement character.
-/

set_option autoImplicit false

namespace DialectBridge

namespace Utf8

/-- The bytes of a text. -/
def encode (t : Text) : List UInt8 := (String.ofList t).toUTF8.toList

/-- What is left to read of a character that began with some byte. -/
structure Pending where
  /-- How many bytes follow. -/
  count : Nat
  /-- The range of the next byte. -/
  low : Nat := 0x80
  high : Nat := 0xBF
  /-- The bits read so far. -/
  bits : Nat

/-- The character a byte begins: complete, in need of more bytes, or none at all. -/
def begin? (b : Nat) : Option Pending :=
  if b < 0x80 then some { count := 0, bits := b }
  else if b < 0xC2 then none
  else if b < 0xE0 then some { count := 1, bits := b - 0xC0 }
  else if b == 0xE0 then some { count := 2, low := 0xA0, bits := 0 }
  else if b == 0xED then some { count := 2, high := 0x9F, bits := 0xD }
  else if b < 0xF0 then some { count := 2, bits := b - 0xE0 }
  else if b == 0xF0 then some { count := 3, low := 0x90, bits := 0 }
  else if b < 0xF4 then some { count := 3, bits := b - 0xF0 }
  else if b == 0xF4 then some { count := 3, high := 0x8F, bits := 4 }
  else none

/-- Reads the bytes that are still to come for a character. Returned are the character, if it is
complete, and the bytes behind what was read. -/
def continueWith (low high : Nat) : Nat → Nat → List UInt8 → Option Char × List UInt8
  | 0, bits, rest => (some (Char.ofNat bits), rest)
  | _ + 1, _, [] => (none, [])
  | count + 1, bits, b :: rest =>
    if low ≤ b.toNat && b.toNat ≤ high then
      continueWith 0x80 0xBF count (bits * 64 + (b.toNat - 0x80)) rest
    else (none, b :: rest)

/-- Decodes bytes to characters, with `none` where they are not well-formed. -/
def decodeFrom : Nat → List UInt8 → List (Option Char)
  | 0, _ => []
  | _ + 1, [] => []
  | fuel + 1, b :: rest =>
    match begin? b.toNat with
    | none => none :: decodeFrom fuel rest
    | some p =>
      let (c, rest) := continueWith p.low p.high p.count p.bits rest
      c :: decodeFrom fuel rest

/-- The characters of bytes, with `none` for every error. -/
def decodeAll (bytes : List UInt8) : List (Option Char) := decodeFrom bytes.length bytes

/-- The text of bytes, if they are well-formed. -/
def decode? (bytes : List UInt8) : Option Text := (decodeAll bytes).mapM id

/-- The text of bytes, with the replacement character for every error. -/
def decodeLossy (bytes : List UInt8) : Text :=
  (decodeAll bytes).map fun c => c.getD (Char.ofNat 0xFFFD)

end Utf8

end DialectBridge
