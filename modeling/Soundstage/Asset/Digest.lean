import Soundstage.Number.Hexadecimal

/-!
# SHA-256

The digest that names assets. A message is padded to blocks of sixteen words, and each block is
mixed into eight words of state. `Digest.leading` writes the first half of the final state as 32
hexadecimal digits.
-/

namespace Soundstage.Digest

/-- The eight words of state. -/
structure State where
  a : UInt32
  b : UInt32
  c : UInt32
  d : UInt32
  e : UInt32
  f : UInt32
  g : UInt32
  h : UInt32
  deriving DecidableEq, Repr

/-- The state before the first block: the leading fraction bits of the square roots of the first
eight primes. -/
def State.start : State :=
  ⟨0x6a09e667, 0xbb67ae85, 0x3c6ef372, 0xa54ff53a, 0x510e527f, 0x9b05688c, 0x1f83d9ab, 0x5be0cd19⟩

/-- The constants of the rounds: the leading fraction bits of the cube roots of the first 64
primes. -/
def roundConstants : List UInt32 :=
  [0x428a2f98, 0x71374491, 0xb5c0fbcf, 0xe9b5dba5, 0x3956c25b, 0x59f111f1, 0x923f82a4, 0xab1c5ed5,
   0xd807aa98, 0x12835b01, 0x243185be, 0x550c7dc3, 0x72be5d74, 0x80deb1fe, 0x9bdc06a7, 0xc19bf174,
   0xe49b69c1, 0xefbe4786, 0x0fc19dc6, 0x240ca1cc, 0x2de92c6f, 0x4a7484aa, 0x5cb0a9dc, 0x76f988da,
   0x983e5152, 0xa831c66d, 0xb00327c8, 0xbf597fc7, 0xc6e00bf3, 0xd5a79147, 0x06ca6351, 0x14292967,
   0x27b70a85, 0x2e1b2138, 0x4d2c6dfc, 0x53380d13, 0x650a7354, 0x766a0abb, 0x81c2c92e, 0x92722c85,
   0xa2bfe8a1, 0xa81a664b, 0xc24b8b70, 0xc76c51a3, 0xd192e819, 0xd6990624, 0xf40e3585, 0x106aa070,
   0x19a4c116, 0x1e376c08, 0x2748774c, 0x34b0bcb5, 0x391c0cb3, 0x4ed8aa4a, 0x5b9cca4f, 0x682e6ff3,
   0x748f82ee, 0x78a5636f, 0x84c87814, 0x8cc70208, 0x90befffa, 0xa4506ceb, 0xbef9a3f7, 0xc67178f2]

/-- A word with its bits moved cyclically to the right. -/
def rotate (x n : UInt32) : UInt32 := (x >>> n) ||| (x <<< (32 - n))

/-- The padded message: one set bit, zeros, and the length of the message in bits as 64 bits, up to
a multiple of 64 bytes. -/
def pad (message : List UInt8) : List UInt8 :=
  let zeros := (119 - message.length % 64) % 64
  let bits := 8 * message.length
  message ++ 0x80 :: List.replicate zeros 0
    ++ (List.range 8).map fun i => UInt8.ofNat (bits / Nat.pow 2 (8 * (7 - i)))

/-- Bytes as words, most significant byte first. -/
def words : List UInt8 → List UInt32
  | p :: q :: r :: s :: rest =>
    (p.toUInt32 <<< 24 ||| q.toUInt32 <<< 16 ||| r.toUInt32 <<< 8 ||| s.toUInt32) :: words rest
  | _ => []

/-- Words in groups of sixteen; `fuel` bounds their count. -/
def blocks : Nat → List UInt32 → List (List UInt32)
  | 0, _ => []
  | fuel + 1, ws => if ws.isEmpty then [] else ws.take 16 :: blocks fuel (ws.drop 16)

/-- The next word of a message schedule whose words so far are given, latest first. -/
def nextWord (earlier : List UInt32) : UInt32 :=
  let x := earlier.getD 1 0
  let y := earlier.getD 14 0
  let s := rotate y 7 ^^^ rotate y 18 ^^^ (y >>> 3)
  let t := rotate x 17 ^^^ rotate x 19 ^^^ (x >>> 10)
  earlier.getD 15 0 + s + earlier.getD 6 0 + t

/-- The schedule of a block: its sixteen words and 48 more, each made from earlier ones. -/
def schedule (block : List UInt32) : List UInt32 :=
  ((List.range 48).foldl (fun earlier _ => nextWord earlier :: earlier) block.reverse).reverse

/-- One round. -/
def State.round (s : State) (constant word : UInt32) : State :=
  let big := rotate s.e 6 ^^^ rotate s.e 11 ^^^ rotate s.e 25
  let choice := (s.e &&& s.f) ^^^ (~~~s.e &&& s.g)
  let first := s.h + big + choice + constant + word
  let small := rotate s.a 2 ^^^ rotate s.a 13 ^^^ rotate s.a 22
  let majority := (s.a &&& s.b) ^^^ (s.a &&& s.c) ^^^ (s.b &&& s.c)
  ⟨first + (small + majority), s.a, s.b, s.c, s.d + first, s.e, s.f, s.g⟩

/-- Word by word sum of two states. -/
def State.add (s t : State) : State :=
  ⟨s.a + t.a, s.b + t.b, s.c + t.c, s.d + t.d, s.e + t.e, s.f + t.f, s.g + t.g, s.h + t.h⟩

/-- Mixes one block into a state. -/
def State.absorb (s : State) (block : List UInt32) : State :=
  s.add <| (roundConstants.zip (schedule block)).foldl
    (fun s (constant, word) => s.round constant word) s

/-- The digest of a message. -/
def sha256 (message : List UInt8) : State :=
  let ws := words (pad message)
  (blocks ws.length ws).foldl State.absorb State.start

/-- A word as eight hexadecimal digits. -/
def hexWord (w : UInt32) : List Char := Hexadecimal.fixed 8 w.toNat

/-- The first 16 bytes of the digest of a text as 32 hexadecimal digits. -/
def leading (text : String) : List Char :=
  let s := sha256 text.toUTF8.data.toList
  hexWord s.a ++ hexWord s.b ++ hexWord s.c ++ hexWord s.d

end Soundstage.Digest
