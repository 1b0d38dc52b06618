/-!
# Digests of inputs

Inputs are told apart by the MD5 digest of their UTF-8 code. The message is padded to whole
blocks of sixteen words, and each block is folded into a state of four words in sixty-four
rounds. Main statement: `padded_length`, a padded message consists of whole blocks.
-/
namespace ThriftIdl.Digest

/-- The state that the blocks are folded into. -/
structure State where
  /-- First word. -/
  a : UInt32
  /-- Second word. -/
  b : UInt32
  /-- Third word. -/
  c : UInt32
  /-- Fourth word. -/
  d : UInt32
deriving DecidableEq, Repr

/-- The state before the first block. -/
def State.initial : State := ⟨0x67452301, 0xefcdab89, 0x98badcfe, 0x10325476⟩

/-- The constants of the rounds: the whole part of 2^32 times the absolute sine of each round
number counted from one. -/
def sines : Array UInt32 := #[
  0xd76aa478, 0xe8c7b756, 0x242070db, 0xc1bdceee, 0xf57c0faf, 0x4787c62a, 0xa8304613, 0xfd469501,
  0x698098d8, 0x8b44f7af, 0xffff5bb1, 0x895cd7be, 0x6b901122, 0xfd987193, 0xa679438e, 0x49b40821,
  0xf61e2562, 0xc040b340, 0x265e5a51, 0xe9b6c7aa, 0xd62f105d, 0x02441453, 0xd8a1e681, 0xe7d3fbc8,
  0x21e1cde6, 0xc33707d6, 0xf4d50d87, 0x455a14ed, 0xa9e3e905, 0xfcefa3f8, 0x676f02d9, 0x8d2a4c8a,
  0xfffa3942, 0x8771f681, 0x6d9d6122, 0xfde5380c, 0xa4beea44, 0x4bdecfa9, 0xf6bb4b60, 0xbebfbc70,
  0x289b7ec6, 0xeaa127fa, 0xd4ef3085, 0x04881d05, 0xd9d4d039, 0xe6db99e5, 0x1fa27cf8, 0xc4ac5665,
  0xf4292244, 0x432aff97, 0xab9423a7, 0xfc93a039, 0x655b59c3, 0x8f0ccc92, 0xffeff47d, 0x85845dd1,
  0x6fa87e4f, 0xfe2ce6e0, 0xa3014314, 0x4e0811a1, 0xf7537e82, 0xbd3af235, 0x2ad7d2bb, 0xeb86d391]

/-- The distance of the rotation in a round. -/
def rotation (round : Nat) : UInt32 :=
  match round / 16, round % 4 with
  | 0, 0 => 7 | 0, 1 => 12 | 0, 2 => 17 | 0, _ => 22
  | 1, 0 => 5 | 1, 1 => 9 | 1, 2 => 14 | 1, _ => 20
  | 2, 0 => 4 | 2, 1 => 11 | 2, 2 => 16 | 2, _ => 23
  | _, 0 => 6 | _, 1 => 10 | _, 2 => 15 | _, _ => 21

/-- The index of the word of the block that a round takes in. -/
def wordIndex (round : Nat) : Nat :=
  match round / 16 with
  | 0 => round % 16
  | 1 => (5 * round + 1) % 16
  | 2 => (3 * round + 5) % 16
  | _ => 7 * round % 16

/-- The mixture of three words that a round uses. -/
def mixture (round : Nat) (state : State) : UInt32 :=
  match round / 16 with
  | 0 => (state.b &&& state.c) ||| (~~~state.b &&& state.d)
  | 1 => (state.d &&& state.b) ||| (~~~state.d &&& state.c)
  | 2 => state.b ^^^ state.c ^^^ state.d
  | _ => state.c ^^^ (state.b ||| ~~~state.d)

/-- One round with the words of a block. -/
def State.round (words : Array UInt32) (state : State) (round : Nat) : State :=
  let sum := state.a + mixture round state + sines.getD round 0 + words.getD (wordIndex round) 0
  let distance := rotation round
  let turned := (sum <<< distance) ||| (sum >>> (32 - distance))
  ⟨state.d, state.b + turned, state.b, state.c⟩

/-- All rounds of a block, added to the state before it. -/
def State.absorb (state : State) (words : Array UInt32) : State :=
  let last := (List.range 64).foldl (State.round words) state
  ⟨state.a + last.a, state.b + last.b, state.c + last.c, state.d + last.d⟩

/-- The least `count` bytes of a number, the least one first. -/
def littleEndian : Nat → Nat → List UInt8
  | 0, _ => []
  | count + 1, n => UInt8.ofNat (n % 256) :: littleEndian count (n / 256)

/-- As many bytes are written as asked for. -/
theorem littleEndian_length (count n : Nat) : (littleEndian count n).length = count := by
  induction count generalizing n with
  | zero => rfl
  | succ count ih => simp [littleEndian, ih]

/-- The number of zeros that fill up the last block before the length of the message. -/
def padding (size : Nat) : Nat := (119 - size % 64) % 64

/-- A message with a mark, zeros and its length in bits after it. -/
def padded (message : List UInt8) : List UInt8 :=
  message ++ 0x80 :: List.replicate (padding message.length) 0 ++
    littleEndian 8 (message.length * 8)

/-- A padded message consists of whole blocks. -/
theorem padded_length (message : List UInt8) : (padded message).length % 64 = 0 := by
  simp only [padded, List.length_append, List.length_cons, List.length_replicate,
    littleEndian_length, padding]
  omega

/-- The words of a list of bytes, four bytes each, the least byte first. -/
def words : List UInt8 → List UInt32
  | a :: b :: c :: d :: bytes =>
    (a.toUInt32 ||| (b.toUInt32 <<< 8) ||| (c.toUInt32 <<< 16) ||| (d.toUInt32 <<< 24)) ::
      words bytes
  | _ => []

/-- Fold whole blocks of words into a state, at most as many as given. -/
def State.absorbAll : Nat → State → List UInt32 → State
  | 0, state, _ => state
  | count + 1, state, text =>
    State.absorbAll count (state.absorb (text.take 16).toArray) (text.drop 16)

/-- The sixteen bytes of the digest of a message. -/
def digest (message : List UInt8) : List UInt8 :=
  let text := words (padded message)
  let state := State.initial.absorbAll (text.length / 16) text
  [state.a, state.b, state.c, state.d].flatMap fun word => littleEndian 4 word.toNat

/-- A byte as two hexadecimal digits. -/
def hexByte (byte : UInt8) : List Char :=
  [Nat.digitChar (byte.toNat / 16), Nat.digitChar (byte.toNat % 16)]

/-- The digest of a text in hexadecimal digits. -/
def hexDigest (text : String) : String :=
  String.ofList ((digest text.toUTF8.toList).flatMap hexByte)

end ThriftIdl.Digest
