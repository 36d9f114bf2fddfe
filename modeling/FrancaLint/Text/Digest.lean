import FrancaLint.Text.Encoding

/-! # Digests

The SHA-256 digest of some bytes, as 64 hexadecimal digits. Main definition: `Digest.ofBytes`. -/

namespace FrancaLint.Digest

/-- The constants of the rounds: the first bits of the fractional parts of the cube roots of the
first sixty-four primes. -/
def roundConstants : Array UInt32 :=
  #[0x428a2f98, 0x71374491, 0xb5c0fbcf, 0xe9b5dba5, 0x3956c25b, 0x59f111f1, 0x923f82a4, 0xab1c5ed5,
    0xd807aa98, 0x12835b01, 0x243185be, 0x550c7dc3, 0x72be5d74, 0x80deb1fe, 0x9bdc06a7, 0xc19bf174,
    0xe49b69c1, 0xefbe4786, 0x0fc19dc6, 0x240ca1cc, 0x2de92c6f, 0x4a7484aa, 0x5cb0a9dc, 0x76f988da,
    0x983e5152, 0xa831c66d, 0xb00327c8, 0xbf597fc7, 0xc6e00bf3, 0xd5a79147, 0x06ca6351, 0x14292967,
    0x27b70a85, 0x2e1b2138, 0x4d2c6dfc, 0x53380d13, 0x650a7354, 0x766a0abb, 0x81c2c92e, 0x92722c85,
    0xa2bfe8a1, 0xa81a664b, 0xc24b8b70, 0xc76c51a3, 0xd192e819, 0xd6990624, 0xf40e3585, 0x106aa070,
    0x19a4c116, 0x1e376c08, 0x2748774c, 0x34b0bcb5, 0x391c0cb3, 0x4ed8aa4a, 0x5b9cca4f, 0x682e6ff3,
    0x748f82ee, 0x78a5636f, 0x84c87814, 0x8cc70208, 0x90befffa, 0xa4506ceb, 0xbef9a3f7, 0xc67178f2]

/-- The eight words of a state. -/
structure State where
  /-- First word. -/
  a : UInt32
  /-- Second word. -/
  b : UInt32
  /-- Third word. -/
  c : UInt32
  /-- Fourth word. -/
  d : UInt32
  /-- Fifth word. -/
  e : UInt32
  /-- Sixth word. -/
  f : UInt32
  /-- Seventh word. -/
  g : UInt32
  /-- Eighth word. -/
  h : UInt32

/-- The first state: the first bits of the fractional parts of the square roots of the first eight
primes. -/
def State.first : State :=
  ⟨0x6a09e667, 0xbb67ae85, 0x3c6ef372, 0xa54ff53a, 0x510e527f, 0x9b05688c, 0x1f83d9ab, 0x5be0cd19⟩

/-- Turn the bits of a word to the right. -/
def rotate (word count : UInt32) : UInt32 :=
  (word >>> count) ||| (word <<< (32 - count))

/-- The word of four bytes, highest first. -/
def wordOf (p q r s : UInt8) : UInt32 :=
  (p.toUInt32 <<< 24) ||| (q.toUInt32 <<< 16) ||| (r.toUInt32 <<< 8) ||| s.toUInt32

/-- The words of some bytes. -/
def words : List UInt8 → List UInt32
  | p :: q :: r :: s :: rest => wordOf p q r s :: words rest
  | _ => []

/-- The next word of a schedule. -/
def nextWord (schedule : Array UInt32) : UInt32 :=
  let n := schedule.size
  let w2 := schedule.getD (n - 2) 0
  let w7 := schedule.getD (n - 7) 0
  let w15 := schedule.getD (n - 15) 0
  let w16 := schedule.getD (n - 16) 0
  let s0 := rotate w15 7 ^^^ rotate w15 18 ^^^ (w15 >>> 3)
  let s1 := rotate w2 17 ^^^ rotate w2 19 ^^^ (w2 >>> 10)
  w16 + s0 + w7 + s1

/-- The sixty-four words of a block of sixteen. -/
def schedule (block : List UInt32) : Array UInt32 :=
  (List.range 48).foldl (fun schedule _ => schedule.push (nextWord schedule)) block.toArray

/-- One round with its constant and its word. -/
def round (state : State) (constant word : UInt32) : State :=
  let ⟨a, b, c, d, e, f, g, h⟩ := state
  let s1 := rotate e 6 ^^^ rotate e 11 ^^^ rotate e 25
  let choice := (e &&& f) ^^^ ((0xffffffff ^^^ e) &&& g)
  let t1 := h + s1 + choice + constant + word
  let s0 := rotate a 2 ^^^ rotate a 13 ^^^ rotate a 22
  let majority := (a &&& b) ^^^ (a &&& c) ^^^ (b &&& c)
  ⟨t1 + (s0 + majority), a, b, c, d + t1, e, f, g⟩

/-- The state after a block. -/
def compress (state : State) (block : List UInt32) : State :=
  let schedule := schedule block
  let last := (List.range 64).foldl
    (fun s i => round s (roundConstants.getD i 0) (schedule.getD i 0)) state
  ⟨state.a + last.a, state.b + last.b, state.c + last.c, state.d + last.d,
    state.e + last.e, state.f + last.f, state.g + last.g, state.h + last.h⟩

/-- The bytes behind a message: a mark, zeros, and the number of bits. -/
def padding (length : Nat) : List UInt8 :=
  let bits := 8 * length
  let size := (List.range 8).map fun i => UInt8.ofNat (bits >>> (8 * (7 - i)))
  0x80 :: List.replicate ((119 - length % 64) % 64) 0 ++ size

/-- The words of a message in blocks of sixteen, of as many blocks as asked for. -/
def blocks : Nat → List UInt32 → List (List UInt32)
  | 0, _ => []
  | count + 1, words => words.take 16 :: blocks count (words.drop 16)

/-- A word as eight hexadecimal digits. -/
def hexWord (word : UInt32) : String :=
  String.ofList (hexDigits 8 word.toNat)

/-- The digest of some bytes. -/
def ofBytes (bytes : List UInt8) : String :=
  let length := bytes.length
  let words := words (bytes ++ padding length)
  let state := (blocks (words.length / 16) words).foldl compress State.first
  hexWord state.a ++ hexWord state.b ++ hexWord state.c ++ hexWord state.d ++
    hexWord state.e ++ hexWord state.f ++ hexWord state.g ++ hexWord state.h

/-- The digest of a text in UTF-8. -/
def ofText (text : String) : String :=
  ofBytes (utf8Bytes text)

end FrancaLint.Digest
