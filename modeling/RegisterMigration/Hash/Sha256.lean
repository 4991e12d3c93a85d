/-!
# SHA-256

The 256-bit Secure Hash Algorithm, on messages that are lists of bytes. The widths are in
the types: a block is sixteen words, a chaining value eight, and a digest is the bytes of
the last chaining value.

The sixty-four words that a block is expanded into are produced by sliding a window of
sixteen words along the recurrence, so no index leaves its array.
-/

namespace RegisterMigration.Hash.Sha256

/-! ## Words -/

/-- A word turned right by `n` places, `0 < n < 32`. -/
def rotateRight (x n : UInt32) : UInt32 :=
  (x >>> n) ||| (x <<< (32 - n))

/-- The word that four bytes spell, the most significant byte first. -/
def wordOfBytes (a b c d : UInt8) : UInt32 :=
  (a.toUInt32 <<< 24) ||| (b.toUInt32 <<< 16) ||| (c.toUInt32 <<< 8) ||| d.toUInt32

/-- The bytes of a word, the most significant byte first. -/
def bytesOfWord (w : UInt32) : List UInt8 :=
  [(w >>> 24).toUInt8, (w >>> 16).toUInt8, (w >>> 8).toUInt8, w.toUInt8]

/-! ## Padding -/

/-- The length of a message in bits, in eight bytes. -/
def lengthBytes (size : Nat) : List UInt8 :=
  let bits := UInt64.ofNat (8 * size)
  bytesOfWord (bits >>> 32).toUInt32 ++ bytesOfWord bits.toUInt32

/-- How many zeros bring a message, its end mark and its length to whole blocks. -/
def paddingZeros (size : Nat) : Nat :=
  (119 - size % 64) % 64

/-- A message with an end mark, zeros and its length behind it: a whole number of blocks. -/
def pad (message : List UInt8) : List UInt8 :=
  message ++ 0x80 :: (List.replicate (paddingZeros message.length) 0
    ++ lengthBytes message.length)

/-- Padding fills whole blocks of sixty-four bytes. -/
theorem pad_length_mod (message : List UInt8) : (pad message).length % 64 = 0 := by
  simp [pad, lengthBytes, bytesOfWord, paddingZeros]
  omega

/-! ## Compression -/

/-- Sixteen words: what one compression step takes in. -/
abbrev Block := Vector UInt32 16

/-- Eight words: what compression steps hand on. -/
structure Chain where
  (a b c d e f g h : UInt32)
  deriving DecidableEq, Repr

/-- The sixty-four constants of the rounds. -/
def roundConstants : List UInt32 :=
  [0x428a2f98, 0x71374491, 0xb5c0fbcf, 0xe9b5dba5, 0x3956c25b, 0x59f111f1, 0x923f82a4,
   0xab1c5ed5, 0xd807aa98, 0x12835b01, 0x243185be, 0x550c7dc3, 0x72be5d74, 0x80deb1fe,
   0x9bdc06a7, 0xc19bf174, 0xe49b69c1, 0xefbe4786, 0x0fc19dc6, 0x240ca1cc, 0x2de92c6f,
   0x4a7484aa, 0x5cb0a9dc, 0x76f988da, 0x983e5152, 0xa831c66d, 0xb00327c8, 0xbf597fc7,
   0xc6e00bf3, 0xd5a79147, 0x06ca6351, 0x14292967, 0x27b70a85, 0x2e1b2138, 0x4d2c6dfc,
   0x53380d13, 0x650a7354, 0x766a0abb, 0x81c2c92e, 0x92722c85, 0xa2bfe8a1, 0xa81a664b,
   0xc24b8b70, 0xc76c51a3, 0xd192e819, 0xd6990624, 0xf40e3585, 0x106aa070, 0x19a4c116,
   0x1e376c08, 0x2748774c, 0x34b0bcb5, 0x391c0cb3, 0x4ed8aa4a, 0x5b9cca4f, 0x682e6ff3,
   0x748f82ee, 0x78a5636f, 0x84c87814, 0x8cc70208, 0x90befffa, 0xa4506ceb, 0xbef9a3f7,
   0xc67178f2]

/-- The chaining value before the first block. -/
def initialChain : Chain :=
  ⟨0x6a09e667, 0xbb67ae85, 0x3c6ef372, 0xa54ff53a, 0x510e527f, 0x9b05688c, 0x1f83d9ab,
   0x5be0cd19⟩

/-- The word that follows a window of sixteen in the message schedule. -/
def nextWord (w : Block) : UInt32 :=
  let s0 := rotateRight w[1] 7 ^^^ rotateRight w[1] 18 ^^^ (w[1] >>> 3)
  let s1 := rotateRight w[14] 17 ^^^ rotateRight w[14] 19 ^^^ (w[14] >>> 10)
  w[0] + s0 + w[9] + s1

/-- The window one word further along the schedule. -/
def slide (w : Block) : Block :=
  Vector.ofFn fun i => if h : i.val + 1 < 16 then w[i.val + 1] else nextWord w

/-- The first `n` words of the schedule that starts with the window `w`. -/
def schedule : Nat → Block → List UInt32
  | 0, _ => []
  | n + 1, w => w[0] :: schedule n (slide w)

/-- One round, with the sum of its constant and its schedule word. -/
def round (s : Chain) (input : UInt32) : Chain :=
  let s1 := rotateRight s.e 6 ^^^ rotateRight s.e 11 ^^^ rotateRight s.e 25
  let choice := (s.e &&& s.f) ^^^ ((~~~ s.e) &&& s.g)
  let t1 := s.h + s1 + choice + input
  let s0 := rotateRight s.a 2 ^^^ rotateRight s.a 13 ^^^ rotateRight s.a 22
  let majority := (s.a &&& s.b) ^^^ (s.a &&& s.c) ^^^ (s.b &&& s.c)
  ⟨t1 + (s0 + majority), s.a, s.b, s.c, s.d + t1, s.e, s.f, s.g⟩

/-- Word by word addition of two chaining values. -/
def Chain.add (s t : Chain) : Chain :=
  ⟨s.a + t.a, s.b + t.b, s.c + t.c, s.d + t.d, s.e + t.e, s.f + t.f, s.g + t.g, s.h + t.h⟩

/-- The chaining value after one more block. -/
def compress (s : Chain) (w : Block) : Chain :=
  s.add ((List.zipWith (· + ·) roundConstants (schedule 64 w)).foldl round s)

/-! ## Digests -/

/-- The block that starts at byte `64 * k` of a padded message. -/
def blockAt (message : Array UInt8) (k : Nat) : Block :=
  Vector.ofFn fun i =>
    let byte (j : Nat) := message.getD (64 * k + 4 * i.val + j) 0
    wordOfBytes (byte 0) (byte 1) (byte 2) (byte 3)

/-- The bytes of a chaining value. -/
def Chain.bytes (s : Chain) : List UInt8 :=
  [s.a, s.b, s.c, s.d, s.e, s.f, s.g, s.h].flatMap bytesOfWord

/-- The SHA-256 digest of a message: thirty-two bytes. -/
def digest (message : List UInt8) : List UInt8 :=
  let padded := (pad message).toArray
  ((List.range (padded.size / 64)).foldl (fun s k => compress s (blockAt padded k))
    initialChain).bytes

/-- Every digest has thirty-two bytes. -/
theorem digest_length (message : List UInt8) : (digest message).length = 32 := by
  simp [digest, Chain.bytes, bytesOfWord]

end RegisterMigration.Hash.Sha256
