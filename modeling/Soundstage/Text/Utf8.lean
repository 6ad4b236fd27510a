import Soundstage.Text.Gapped

/-!
# Bytes as UTF-8 text

`Utf8.decode` reads any bytes. Each well-formed sequence becomes its character, and each maximal
run of bytes that begins a sequence but does not complete one becomes a gap, `none`. Text with gaps
is what a reader of foreign bytes works on; `lossy` fills the gaps for display.
-/

namespace Soundstage.Utf8

/-- What a first byte announces: the number of bytes to follow, the range of the first of these,
and the bits of the character it contributes. -/
structure Lead where
  more : Nat
  low : Nat
  high : Nat
  bits : Nat

/-- The announcement of a byte, if it can begin a sequence of several bytes. The ranges of the
second byte leave out overlong forms, surrogates and numbers beyond the last character. -/
def lead? (b : Nat) : Option Lead :=
  if 0xc2 ≤ b ∧ b ≤ 0xdf then some ⟨1, 0x80, 0xbf, b - 0xc0⟩
  else if b = 0xe0 then some ⟨2, 0xa0, 0xbf, 0⟩
  else if b = 0xed then some ⟨2, 0x80, 0x9f, 0xd⟩
  else if 0xe1 ≤ b ∧ b ≤ 0xef then some ⟨2, 0x80, 0xbf, b - 0xe0⟩
  else if b = 0xf0 then some ⟨3, 0x90, 0xbf, 0⟩
  else if 0xf1 ≤ b ∧ b ≤ 0xf3 then some ⟨3, 0x80, 0xbf, b - 0xf0⟩
  else if b = 0xf4 then some ⟨3, 0x80, 0x8f, 4⟩
  else none

/-- Where a reader stands between two bytes: what is still owed of a character. -/
structure Pending where
  more : Nat
  low : Nat
  high : Nat
  bits : Nat

/-- Starts a character at byte `b`: finished characters and gaps, and what is owed afterwards. -/
def begin (b : Nat) : Gapped × Option Pending :=
  if b < 0x80 then ([some (Char.ofNat b)], none)
  else match lead? b with
    | some l => ([], some ⟨l.more, l.low, l.high, l.bits⟩)
    | none => ([none], none)

/-- Reads one byte. -/
def step (pending : Option Pending) (b : Nat) : Gapped × Option Pending :=
  match pending with
  | none => begin b
  | some p =>
    if p.low ≤ b ∧ b ≤ p.high then
      let bits := p.bits * 64 + (b - 0x80)
      if p.more ≤ 1 then ([some (Char.ofNat bits)], none)
      else ([], some ⟨p.more - 1, 0x80, 0xbf, bits⟩)
    else
      let (found, next) := begin b
      (none :: found, next)

/-- Reads the bytes that follow. -/
def decodeFrom : Option Pending → List UInt8 → Gapped
  | none, [] => []
  | some _, [] => [none]
  | pending, b :: rest =>
    let (found, next) := step pending b.toNat
    found ++ decodeFrom next rest

/-- The characters and gaps of a sequence of bytes. -/
def decode (bytes : List UInt8) : Gapped := decodeFrom none bytes

/-- The text of well-formed bytes. -/
def text? (bytes : List UInt8) : Option String :=
  (decode bytes).text?

/-- The text of any bytes, with U+FFFD for each gap. -/
def lossy (bytes : List UInt8) : String :=
  String.ofList (decode bytes).lossy

end Soundstage.Utf8
