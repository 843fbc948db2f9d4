/-! # SHA-256

The digest of a text's UTF-8 bytes. A message is padded to whole blocks of sixty-four bytes; each
block is stretched to a schedule of sixty-four words, which sixty-four rounds mix into the state. -/

namespace PatchCompiler

namespace Sha256

/-- The eight words of the state. -/
structure State where
  /-- First word. -/
  a : UInt32
  /-- Second word. -/
  b : UInt32
  /-- Third word. -/
  c : UInt32
  /-- Fourth word. -/
  d : UInt32
  /-- Fifth word. -/
  e : UInt32
  /-- Sixth word. -/
  f : UInt32
  /-- Seventh word. -/
  g : UInt32
  /-- Eighth word. -/
  h : UInt32
  deriving DecidableEq, Repr

/-- The state before the first block. -/
def initial : State :=
  ⟨0x6a09e667, 0xbb67ae85, 0x3c6ef372, 0xa54ff53a, 0x510e527f, 0x9b05688c, 0x1f83d9ab, 0x5be0cd19⟩

/-- The constants of the rounds. -/
def constants : List UInt32 := [
  0x428a2f98, 0x71374491, 0xb5c0fbcf, 0xe9b5dba5, 0x3956c25b, 0x59f111f1, 0x923f82a4, 0xab1c5ed5,
  0xd807aa98, 0x12835b01, 0x243185be, 0x550c7dc3, 0x72be5d74, 0x80deb1fe, 0x9bdc06a7, 0xc19bf174,
  0xe49b69c1, 0xefbe4786, 0x0fc19dc6, 0x240ca1cc, 0x2de92c6f, 0x4a7484aa, 0x5cb0a9dc, 0x76f988da,
  0x983e5152, 0xa831c66d, 0xb00327c8, 0xbf597fc7, 0xc6e00bf3, 0xd5a79147, 0x06ca6351, 0x14292967,
  0x27b70a85, 0x2e1b2138, 0x4d2c6dfc, 0x53380d13, 0x650a7354, 0x766a0abb, 0x81c2c92e, 0x92722c85,
  0xa2bfe8a1, 0xa81a664b, 0xc24b8b70, 0xc76c51a3, 0xd192e819, 0xd6990624, 0xf40e3585, 0x106aa070,
  0x19a4c116, 0x1e376c08, 0x2748774c, 0x34b0bcb5, 0x391c0cb3, 0x4ed8aa4a, 0x5b9cca4f, 0x682e6ff3,
  0x748f82ee, 0x78a5636f, 0x84c87814, 0x8cc70208, 0x90befffa, 0xa4506ceb, 0xbef9a3f7, 0xc67178f2]

/-- Rotate a word to the right. -/
def rotate (x : UInt32) (n : UInt32) : UInt32 := (x >>> n) ||| (x <<< (32 - n))

/-- The next word of a schedule, from the words before it with the latest one first. -/
def nextWord (words : List UInt32) : UInt32 :=
  let early := words.getD 14 0
  let late := words.getD 1 0
  let s0 := rotate early 7 ^^^ rotate early 18 ^^^ (early >>> 3)
  let s1 := rotate late 17 ^^^ rotate late 19 ^^^ (late >>> 10)
  words.getD 15 0 + s0 + words.getD 6 0 + s1

/-- Add words to a schedule whose latest word comes first. -/
def stretch : (count : Nat) → List UInt32 → List UInt32
  | 0, words => words
  | count + 1, words => stretch count (nextWord words :: words)

/-- The sixty-four words of a block of sixteen. -/
def schedule (block : List UInt32) : List UInt32 := (stretch 48 block.reverse).reverse

/-- One round with a constant and a word of the schedule. -/
def round (s : State) (constant word : UInt32) : State :=
  let s1 := rotate s.e 6 ^^^ rotate s.e 11 ^^^ rotate s.e 25
  let choice := (s.e &&& s.f) ^^^ (~~~s.e &&& s.g)
  let t1 := s.h + s1 + choice + constant + word
  let s0 := rotate s.a 2 ^^^ rotate s.a 13 ^^^ rotate s.a 22
  let majority := (s.a &&& s.b) ^^^ (s.a &&& s.c) ^^^ (s.b &&& s.c)
  ⟨t1 + s0 + majority, s.a, s.b, s.c, s.d + t1, s.e, s.f, s.g⟩

/-- Mix a block into the state. -/
def mix (s : State) (block : List UInt32) : State :=
  let t := (constants.zip (schedule block)).foldl (fun t (k, w) => round t k w) s
  ⟨s.a + t.a, s.b + t.b, s.c + t.c, s.d + t.d, s.e + t.e, s.f + t.f, s.g + t.g, s.h + t.h⟩

/-- Bytes of a number of up to 64 bits, the most significant first. -/
def bigEndian (width : Nat) (n : Nat) : List UInt8 :=
  (List.range width).reverse.map fun i => UInt8.ofNat (n >>> (8 * i))

/-- A message with its padding: a one bit, zeros, and the number of its bits. -/
def pad (message : List UInt8) : List UInt8 :=
  let zeros := (55 + 64 * (message.length / 64 + 1) - message.length) % 64
  message ++ 0x80 :: (List.replicate zeros 0 ++ bigEndian 8 (8 * message.length))

/-- Bytes as words of four bytes each. -/
def words : List UInt8 → List UInt32
  | a :: b :: c :: d :: rest =>
    ((a.toUInt32 <<< 24) ||| (b.toUInt32 <<< 16) ||| (c.toUInt32 <<< 8) ||| d.toUInt32)
      :: words rest
  | _ => []

/-- Mix so many blocks into the state. -/
def mixAll : (blocks : Nat) → State → List UInt32 → State
  | 0, s, _ => s
  | blocks + 1, s, message => mixAll blocks (mix s (message.take 16)) (message.drop 16)

/-- The digest of a message. -/
def digest (message : List UInt8) : State :=
  let message := words (pad message)
  mixAll (message.length / 16) initial message

/-- A word as eight hexadecimal digits. -/
def hexWord (word : UInt32) : List Char :=
  (List.range 8).reverse.map fun i => Nat.digitChar (word.toNat >>> (4 * i) % 16)

/-- A state as hexadecimal digits. -/
def State.hex (s : State) : String :=
  String.ofList ([s.a, s.b, s.c, s.d, s.e, s.f, s.g, s.h].flatMap hexWord)

end Sha256

/-- The SHA-256 digest of a text in hexadecimal digits. -/
def sha256 (text : String) : String := (Sha256.digest text.toUTF8.toList).hex

end PatchCompiler
