import Unroll.Text.Bytes

set_option autoImplicit false

/-!
# Message digest

The MD5 digest of a byte text: the text is padded to whole blocks of sixteen 32-bit words, and each
block stirs a state of four words in sixty-four steps.
-/

namespace Unroll.Digest

structure State where
  a : UInt32
  b : UInt32
  c : UInt32
  d : UInt32

def initial : State := ⟨0x67452301, 0xefcdab89, 0x98badcfe, 0x10325476⟩

/-- The integer parts of the absolute sines of 1 to 64, scaled by 2^32. -/
def sines : List UInt32 :=
  [0xd76aa478, 0xe8c7b756, 0x242070db, 0xc1bdceee, 0xf57c0faf, 0x4787c62a, 0xa8304613, 0xfd469501,
    0x698098d8, 0x8b44f7af, 0xffff5bb1, 0x895cd7be, 0x6b901122, 0xfd987193, 0xa679438e, 0x49b40821,
    0xf61e2562, 0xc040b340, 0x265e5a51, 0xe9b6c7aa, 0xd62f105d, 0x02441453, 0xd8a1e681, 0xe7d3fbc8,
    0x21e1cde6, 0xc33707d6, 0xf4d50d87, 0x455a14ed, 0xa9e3e905, 0xfcefa3f8, 0x676f02d9, 0x8d2a4c8a,
    0xfffa3942, 0x8771f681, 0x6d9d6122, 0xfde5380c, 0xa4beea44, 0x4bdecfa9, 0xf6bb4b60, 0xbebfbc70,
    0x289b7ec6, 0xeaa127fa, 0xd4ef3085, 0x04881d05, 0xd9d4d039, 0xe6db99e5, 0x1fa27cf8, 0xc4ac5665,
    0xf4292244, 0x432aff97, 0xab9423a7, 0xfc93a039, 0x655b59c3, 0x8f0ccc92, 0xffeff47d, 0x85845dd1,
    0x6fa87e4f, 0xfe2ce6e0, 0xa3014314, 0x4e0811a1, 0xf7537e82, 0xbd3af235, 0x2ad7d2bb, 0xeb86d391]

/-- How far each step of a round rotates, in turn. -/
def rotations : List (List UInt32) :=
  [[7, 12, 17, 22], [5, 9, 14, 20], [4, 11, 16, 23], [6, 10, 15, 21]]

def rotation (step : Nat) : UInt32 := ((rotations.getD (step / 16) []).getD (step % 4) 0)

def rotate (value amount : UInt32) : UInt32 := (value <<< amount) ||| (value >>> (32 - amount))

/-- The mixing function of a step's round. -/
def mixed (state : State) (step : Nat) : UInt32 :=
  if step < 16 then (state.b &&& state.c) ||| (~~~state.b &&& state.d)
  else if step < 32 then (state.d &&& state.b) ||| (~~~state.d &&& state.c)
  else if step < 48 then state.b ^^^ state.c ^^^ state.d
  else state.c ^^^ (state.b ||| ~~~state.d)

/-- The word of the block that a step reads. -/
def wordIndex (step : Nat) : Nat :=
  if step < 16 then step
  else if step < 32 then (5 * step + 1) % 16
  else if step < 48 then (3 * step + 5) % 16
  else 7 * step % 16

def stir (words : List UInt32) (state : State) (sineAt : UInt32 × Nat) : State :=
  let (sine, step) := sineAt
  let sum := state.a + mixed state step + sine + words.getD (wordIndex step) 0
  ⟨state.d, state.b + rotate sum (rotation step), state.b, state.c⟩

def absorb (state : State) (words : List UInt32) : State :=
  let stirred := sines.zipIdx.foldl (stir words) state
  ⟨state.a + stirred.a, state.b + stirred.b, state.c + stirred.c, state.d + stirred.d⟩

/-- The bytes of a number, lowest first. -/
def littleEndian : (width : Nat) → Nat → Bytes
  | 0, _ => []
  | width + 1, number => (number % 256).toUInt8 :: littleEndian width (number / 256)

/-- A text behind which stand a one bit, zeros up to whole blocks, and its length in bits. -/
def padded (text : Bytes) : Bytes :=
  text ++ 0x80 :: List.replicate ((119 - text.length % 64) % 64) 0 ++
    littleEndian 8 (text.length * 8)

/-- The words of a text, four bytes each, lowest byte first. -/
def wordsOf : Bytes → List UInt32
  | a :: b :: c :: d :: rest =>
    (a.toUInt32 ||| (b.toUInt32 <<< 8) ||| (c.toUInt32 <<< 16) ||| (d.toUInt32 <<< 24)) ::
      wordsOf rest
  | _ => []

/-- The first sixteen words stir the state, then the next sixteen. -/
def absorbAll (state : State) (words : List UInt32) : State :=
  if words.isEmpty then state else absorbAll (absorb state (words.take 16)) (words.drop 16)
termination_by words.length
decreasing_by
  rename_i nonempty
  have : words ≠ [] := by simpa using nonempty
  have := List.length_pos_iff.mpr this
  simp only [List.length_drop]
  omega

def ofBytes (text : Bytes) : Bytes :=
  let state := absorbAll initial (wordsOf (padded text))
  [state.a, state.b, state.c, state.d].flatMap fun part => littleEndian 4 part.toNat

/-- The digest in hexadecimal digits. -/
def hex (text : Bytes) : Bytes := (ofBytes text).flatMap fun b => Bytes.hexadecimal 2 b.toNat

end Unroll.Digest
