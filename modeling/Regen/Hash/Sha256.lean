import Regen.Text.Quoted

/-! # SHA-256

    The digest that identifies file contents, computed on lists of bytes in blocks of 64. -/

namespace Regen.Sha256

/-- The round constants: the first 32 bits of the fractional parts of the cube roots of the first
    64 primes. -/
def roundConstants : List UInt32 := [
  0x428a2f98, 0x71374491, 0xb5c0fbcf, 0xe9b5dba5, 0x3956c25b, 0x59f111f1, 0x923f82a4, 0xab1c5ed5,
  0xd807aa98, 0x12835b01, 0x243185be, 0x550c7dc3, 0x72be5d74, 0x80deb1fe, 0x9bdc06a7, 0xc19bf174,
  0xe49b69c1, 0xefbe4786, 0x0fc19dc6, 0x240ca1cc, 0x2de92c6f, 0x4a7484aa, 0x5cb0a9dc, 0x76f988da,
  0x983e5152, 0xa831c66d, 0xb00327c8, 0xbf597fc7, 0xc6e00bf3, 0xd5a79147, 0x06ca6351, 0x14292967,
  0x27b70a85, 0x2e1b2138, 0x4d2c6dfc, 0x53380d13, 0x650a7354, 0x766a0abb, 0x81c2c92e, 0x92722c85,
  0xa2bfe8a1, 0xa81a664b, 0xc24b8b70, 0xc76c51a3, 0xd192e819, 0xd6990624, 0xf40e3585, 0x106aa070,
  0x19a4c116, 0x1e376c08, 0x2748774c, 0x34b0bcb5, 0x391c0cb3, 0x4ed8aa4a, 0x5b9cca4f, 0x682e6ff3,
  0x748f82ee, 0x78a5636f, 0x84c87814, 0x8cc70208, 0x90befffa, 0xa4506ceb, 0xbef9a3f7, 0xc67178f2]

/-- The eight working words. -/
structure Words where
  a : UInt32
  b : UInt32
  c : UInt32
  d : UInt32
  e : UInt32
  f : UInt32
  g : UInt32
  h : UInt32
  deriving DecidableEq, Repr

/-- The first words: the first 32 bits of the fractional parts of the square roots of the first
    eight primes. -/
def start : Words :=
  ⟨0x6a09e667, 0xbb67ae85, 0x3c6ef372, 0xa54ff53a, 0x510e527f, 0x9b05688c, 0x1f83d9ab, 0x5be0cd19⟩

def rotate (x : UInt32) (n : UInt32) : UInt32 := (x >>> n) ||| (x <<< (32 - n))

/-- One round with its message word and constant. -/
def round (s : Words) (wk : UInt32 × UInt32) : Words :=
  let s1 := rotate s.e 6 ^^^ rotate s.e 11 ^^^ rotate s.e 25
  let ch := (s.e &&& s.f) ^^^ (~~~s.e &&& s.g)
  let t1 := s.h + s1 + ch + wk.2 + wk.1
  let s0 := rotate s.a 2 ^^^ rotate s.a 13 ^^^ rotate s.a 22
  let maj := (s.a &&& s.b) ^^^ (s.a &&& s.c) ^^^ (s.b &&& s.c)
  let t2 := s0 + maj
  ⟨t1 + t2, s.a, s.b, s.c, s.d + t1, s.e, s.f, s.g⟩

/-- The big-endian words of a list of bytes; a rest of fewer than four bytes is dropped. -/
def wordsOfBytes : List UInt8 → List UInt32
  | b0 :: b1 :: b2 :: b3 :: rest =>
    ((b0.toUInt32 <<< 24) ||| (b1.toUInt32 <<< 16) ||| (b2.toUInt32 <<< 8) ||| b3.toUInt32) ::
      wordsOfBytes rest
  | _ => []

/-- The message schedule: `left` more words, each computed from the last sixteen, which `window`
    holds with the latest first. -/
def extendSchedule : Nat → List UInt32 → List UInt32
  | 0, _ => []
  | left + 1, window =>
    let w15 := window.getD 14 0
    let w2 := window.getD 1 0
    let s0 := rotate w15 7 ^^^ rotate w15 18 ^^^ (w15 >>> 3)
    let s1 := rotate w2 17 ^^^ rotate w2 19 ^^^ (w2 >>> 10)
    let w := window.getD 15 0 + s0 + window.getD 6 0 + s1
    w :: extendSchedule left (w :: window.take 15)

/-- The 64 words of a block's schedule. -/
def schedule (block : List UInt8) : List UInt32 :=
  let words := wordsOfBytes block
  words ++ extendSchedule 48 words.reverse

/-- Take one block of 64 bytes into the state. -/
def absorb (s : Words) (block : List UInt8) : Words :=
  let t := ((schedule block).zip roundConstants).foldl round s
  ⟨s.a + t.a, s.b + t.b, s.c + t.c, s.d + t.d, s.e + t.e, s.f + t.f, s.g + t.g, s.h + t.h⟩

/-- The bytes behind a message of `length` bytes: a one bit, zeros up to eight bytes before a full
    block, and the length in bits. -/
def padding (length : Nat) : List UInt8 :=
  let zeros := (119 - length % 64) % 64
  let bits := length * 8
  0x80 :: List.replicate zeros 0 ++
    [56, 48, 40, 32, 24, 16, 8, 0].map fun k => (bits / Nat.pow 2 k).toUInt8

/-- Take `count` blocks into the state. -/
def absorbBlocks : Nat → Words → List UInt8 → Words
  | 0, s, _ => s
  | count + 1, s, bytes => absorbBlocks count (absorb s (bytes.take 64)) (bytes.drop 64)

/-- The digest of a message as words. -/
def digest (message : List UInt8) : Words :=
  let padded := message ++ padding message.length
  absorbBlocks (padded.length / 64) start padded

/-- Eight words in hexadecimal digits. -/
def hexText (s : Words) : String :=
  String.ofList ([s.a, s.b, s.c, s.d, s.e, s.f, s.g, s.h].flatMap fun w => Text.hex 8 w.toNat)

/-- The digest of a message in hexadecimal digits. -/
def hexDigest (message : List UInt8) : String := hexText (digest message)

/-! ## Messages in pieces -/

/-- A message that comes in pieces: the state after its full blocks, the bytes behind them, and
    its length so far. -/
structure Hasher where
  words : Words
  rest : List UInt8
  length : Nat
  deriving DecidableEq, Repr

namespace Hasher

def empty : Hasher := ⟨start, [], 0⟩

/-- Take in the next piece. -/
def update (h : Hasher) (piece : List UInt8) : Hasher :=
  let bytes := h.rest ++ piece
  let count := bytes.length / 64
  ⟨absorbBlocks count h.words bytes, bytes.drop (64 * count), h.length + piece.length⟩

/-- The digest of all pieces. -/
def digest (h : Hasher) : Words :=
  let padded := h.rest ++ padding h.length
  absorbBlocks (padded.length / 64) h.words padded

end Hasher

end Regen.Sha256
