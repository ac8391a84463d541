import DialectBridge.Text.Received
import DialectBridge.Utf8

/-!
# Content digests

Texts are recognised by a digest of 128 bits, the message digest 5 of their UTF-8 bytes, written as
32 hexadecimal digits. A received text that cannot be encoded has none.
-/

set_option autoImplicit false

namespace DialectBridge

namespace Digest

/-- By how many bits each step rotates. -/
def rotations : List Nat :=
  [[7, 12, 17, 22], [5, 9, 14, 20], [4, 11, 16, 23], [6, 10, 15, 21]].flatMap fun round =>
    round ++ round ++ round ++ round

/-- What each step adds: the fractional bits of sines. -/
def additions : List UInt32 := [
  0xd76aa478, 0xe8c7b756, 0x242070db, 0xc1bdceee, 0xf57c0faf, 0x4787c62a, 0xa8304613, 0xfd469501,
  0x698098d8, 0x8b44f7af, 0xffff5bb1, 0x895cd7be, 0x6b901122, 0xfd987193, 0xa679438e, 0x49b40821,
  0xf61e2562, 0xc040b340, 0x265e5a51, 0xe9b6c7aa, 0xd62f105d, 0x02441453, 0xd8a1e681, 0xe7d3fbc8,
  0x21e1cde6, 0xc33707d6, 0xf4d50d87, 0x455a14ed, 0xa9e3e905, 0xfcefa3f8, 0x676f02d9, 0x8d2a4c8a,
  0xfffa3942, 0x8771f681, 0x6d9d6122, 0xfde5380c, 0xa4beea44, 0x4bdecfa9, 0xf6bb4b60, 0xbebfbc70,
  0x289b7ec6, 0xeaa127fa, 0xd4ef3085, 0x04881d05, 0xd9d4d039, 0xe6db99e5, 0x1fa27cf8, 0xc4ac5665,
  0xf4292244, 0x432aff97, 0xab9423a7, 0xfc93a039, 0x655b59c3, 0x8f0ccc92, 0xffeff47d, 0x85845dd1,
  0x6fa87e4f, 0xfe2ce6e0, 0xa3014314, 0x4e0811a1, 0xf7537e82, 0xbd3af235, 0x2ad7d2bb, 0xeb86d391]

/-- The four words of a digest under way. -/
structure State where
  a : UInt32 := 0x67452301
  b : UInt32 := 0xefcdab89
  c : UInt32 := 0x98badcfe
  d : UInt32 := 0x10325476

/-- A word rotated to the left. -/
def rotateLeft (x : UInt32) (n : Nat) : UInt32 := (x <<< n.toUInt32) ||| (x >>> (32 - n).toUInt32)

/-- The mixing function of a step, and the word of the block it takes. -/
def mix (s : State) (i : Nat) : UInt32 × Nat :=
  if i < 16 then ((s.b &&& s.c) ||| (~~~s.b &&& s.d), i)
  else if i < 32 then ((s.d &&& s.b) ||| (~~~s.d &&& s.c), (5 * i + 1) % 16)
  else if i < 48 then (s.b ^^^ s.c ^^^ s.d, (3 * i + 5) % 16)
  else (s.c ^^^ (s.b ||| ~~~s.d), (7 * i) % 16)

/-- One of the 64 steps on a block. -/
def step (block : Array UInt32) (s : State) (i : Nat) (rotation : Nat) (addition : UInt32) :
    State :=
  let (mixed, word) := mix s i
  let sum := mixed + s.a + addition + block.getD word 0
  ⟨s.d, s.b + rotateLeft sum rotation, s.b, s.c⟩

/-- The state after a block of 16 words. -/
def addBlock (s : State) (block : Array UInt32) : State :=
  let steps := (rotations.zip additions).zipIdx
  let after := steps.foldl (fun s entry => step block s entry.2 entry.1.1 entry.1.2) s
  ⟨s.a + after.a, s.b + after.b, s.c + after.c, s.d + after.d⟩

/-- The bytes of a number, the least significant first. -/
def littleEndian : Nat → Nat → List UInt8
  | 0, _ => []
  | count + 1, n => n.toUInt8 :: littleEndian count (n / 256)

/-- The number with the given bytes, the least significant first. -/
def ofLittleEndian (bytes : List UInt8) : Nat :=
  bytes.foldr (fun b n => n * 256 + b.toNat) 0

/-- The bytes filled up to whole blocks: a single bit, zeros, and the length in bits. -/
def pad (bytes : List UInt8) : List UInt8 :=
  bytes ++ 0x80 :: List.replicate ((119 - bytes.length % 64) % 64) 0 ++
    littleEndian 8 (bytes.length * 8)

/-- The blocks of padded bytes, as words. -/
def blocks (bytes : List UInt8) : List (Array UInt32) :=
  (List.range (bytes.length / 64)).map fun i =>
    ((List.range 16).map fun j =>
      (ofLittleEndian ((bytes.drop (64 * i + 4 * j)).take 4)).toUInt32).toArray

/-- The hexadecimal digits of a digest. -/
def digits (s : State) : Text :=
  [s.a, s.b, s.c, s.d].flatMap fun word =>
    (littleEndian 4 word.toNat).flatMap fun b => Quoted.hex 2 b.toNat

/-- The digest of bytes. -/
def ofBytes (bytes : List UInt8) : String :=
  String.ofList (digits ((blocks (pad bytes)).foldl addBlock {}))

end Digest

/-- The digest of a text. -/
def digest (t : Text) : String := Digest.ofBytes (Utf8.encode t)

namespace Received

/-- The digest of a received text. -/
def digest (t : Received) : Except Fault String :=
  match t.text? with
  | some text => .ok (DialectBridge.digest text)
  | none => .error t.flaw

@[simp]
theorem digest_ofText (t : Text) : (ofText t).digest = .ok (DialectBridge.digest t) := by
  rw [digest, text?_ofText]

theorem digest_of_text?_eq_none {t : Received} (h : t.text? = none) : t.digest = .error t.flaw := by
  rw [digest, h]

end Received

end DialectBridge
