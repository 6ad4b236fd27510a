import Mathlib.Tactic.SplitIfs
import Soundstage.Text.Utf8

/-!
# Strings as bytes

The bytes of a string are read as its characters, without gaps. A character takes one to four bytes;
the first one announces how many follow and contributes the highest bits, and each of the others is
in its range and contributes six bits more.
-/

namespace Soundstage.Utf8

variable {b more low high bits : Nat} {rest : List UInt8}

theorem toNat_ofNat (h : b < 256) : (UInt8.ofNat b).toNat = b := by
  simpa using h

/-- A byte that is owed contributes six bits, and more bytes are still owed. -/
theorem decodeFrom_owed (hlow : low ≤ b) (hhigh : b ≤ high) (hb : b < 256) (rest : List UInt8) :
    decodeFrom (some ⟨more + 2, low, high, bits⟩) (.ofNat b :: rest)
      = decodeFrom (some ⟨more + 1, 0x80, 0xbf, bits * 64 + (b - 0x80)⟩) rest := by
  have hstep : step (some ⟨more + 2, low, high, bits⟩) (UInt8.ofNat b).toNat
      = ([], some ⟨more + 1, 0x80, 0xbf, bits * 64 + (b - 0x80)⟩) := by
    simp only [step, toNat_ofNat hb, hlow, hhigh, and_self, if_true]
    rfl
  rw [decodeFrom, hstep]
  · rfl

/-- The last byte that is owed completes the character. -/
theorem decodeFrom_last (hlow : low ≤ b) (hhigh : b ≤ high) (hb : b < 256) (rest : List UInt8) :
    decodeFrom (some ⟨1, low, high, bits⟩) (.ofNat b :: rest)
      = some (Char.ofNat (bits * 64 + (b - 0x80))) :: decodeFrom none rest := by
  have hstep : step (some ⟨1, low, high, bits⟩) (UInt8.ofNat b).toNat
      = ([some (Char.ofNat (bits * 64 + (b - 0x80)))], none) := by
    simp only [step, toNat_ofNat hb, hlow, hhigh, and_self, if_true, Nat.le_refl]
  rw [decodeFrom, hstep]
  · rfl

/-- A byte that announces others. -/
theorem decodeFrom_lead (hlead : lead? b = some ⟨more, low, high, bits⟩) (hlarge : 0x80 ≤ b)
    (hb : b < 256) (rest : List UInt8) :
    decodeFrom none (.ofNat b :: rest) = decodeFrom (some ⟨more, low, high, bits⟩) rest := by
  have hstep : step none (UInt8.ofNat b).toNat = ([], some ⟨more, low, high, bits⟩) := by
    simp only [step, begin, toNat_ofNat hb, Nat.not_lt.mpr hlarge, if_false, hlead]
  rw [decodeFrom, hstep]
  · rfl

/-- A byte that is a character by itself. -/
theorem decodeFrom_single (h : b < 0x80) (rest : List UInt8) :
    decodeFrom none (.ofNat b :: rest) = some (Char.ofNat b) :: decodeFrom none rest := by
  have hstep : step none (UInt8.ofNat b).toNat = ([some (Char.ofNat b)], none) := by
    simp only [step, begin, toNat_ofNat (by omega : b < 256), h, if_true]
  rw [decodeFrom, hstep]
  · rfl

section Leads

variable {v : Nat}

theorem lead?_two (hlow : 0x7f < v) (hhigh : v ≤ 0x7ff) :
    lead? (v / 64 % 0x20 + 0xc0) = some ⟨1, 0x80, 0xbf, v / 64⟩ := by
  have hbits : v / 64 % 0x20 = v / 64 := Nat.mod_eq_of_lt (by omega)
  unfold lead?
  rw [hbits, if_pos (by omega), Nat.add_sub_cancel]

/-- The first of three bytes. The second one keeps off short characters and halves. -/
theorem exists_lead?_three (hlow : 0x7ff < v) (hhigh : v ≤ 0xffff)
    (hvalid : v < 0xd800 ∨ 0xdfff < v) :
    ∃ low high, lead? (v / 4096 % 0x10 + 0xe0) = some ⟨2, low, high, v / 4096⟩ ∧
      low ≤ v / 64 % 0x40 + 0x80 ∧ v / 64 % 0x40 + 0x80 ≤ high := by
  have hbits : v / 4096 % 0x10 = v / 4096 := Nat.mod_eq_of_lt (by omega)
  unfold lead?
  rw [hbits, if_neg (by omega)]
  by_cases hfirst : v / 4096 = 0
  · rw [hfirst, if_pos rfl]
    exact ⟨_, _, rfl, by omega, by omega⟩
  rw [if_neg (by omega)]
  by_cases hhalves : v / 4096 = 0xd
  · rw [hhalves, if_pos rfl]
    exact ⟨_, _, rfl, by omega, by omega⟩
  rw [if_neg (by omega), if_pos (by omega), Nat.add_sub_cancel]
  exact ⟨_, _, rfl, by omega, by omega⟩

/-- The first of four bytes. The second one keeps off short characters and what lies beyond the
last character. -/
theorem exists_lead?_four (hlow : 0xffff < v) (hhigh : v < 0x110000) :
    ∃ low high, lead? (v / 262144 % 0x08 + 0xf0) = some ⟨3, low, high, v / 262144⟩ ∧
      low ≤ v / 4096 % 0x40 + 0x80 ∧ v / 4096 % 0x40 + 0x80 ≤ high := by
  have hbits : v / 262144 % 0x08 = v / 262144 := Nat.mod_eq_of_lt (by omega)
  unfold lead?
  rw [hbits, if_neg (by omega), if_neg (by omega), if_neg (by omega), if_neg (by omega)]
  by_cases hfirst : v / 262144 = 0
  · rw [hfirst, if_pos rfl]
    exact ⟨_, _, rfl, by omega, by omega⟩
  rw [if_neg (by omega)]
  by_cases hlast : v / 262144 = 4
  · rw [hlast, if_neg (by omega), if_pos rfl]
    exact ⟨_, _, rfl, by omega, by omega⟩
  rw [if_pos (by omega), Nat.add_sub_cancel]
  exact ⟨_, _, rfl, by omega, by omega⟩

end Leads

/-- The bytes of a character are read as the character. -/
theorem decodeFrom_utf8EncodeChar (c : Char) (rest : List UInt8) :
    decodeFrom none (String.utf8EncodeChar c ++ rest) = some c :: decodeFrom none rest := by
  have hvalid : c.toNat < 0xd800 ∨ 0xdfff < c.toNat ∧ c.toNat < 0x110000 := c.valid
  have hc : ∀ v, v = c.toNat → Char.ofNat v = c := by
    rintro v rfl
    exact Char.ofNat_toNat c
  have hv : c.val.toNat = c.toNat := rfl
  unfold String.utf8EncodeChar
  rw [hv]
  dsimp only
  split_ifs with hone htwo hthree
  · exact (decodeFrom_single (by omega) rest).trans (by rw [hc _ rfl])
  · simp only [List.cons_append, List.nil_append]
    rw [decodeFrom_lead (lead?_two (by omega) htwo) (by omega) (by omega),
      decodeFrom_last (by omega) (by omega) (by omega), hc _ (by omega)]
  · obtain ⟨low, high, hlead, hlow, hhigh⟩ :=
      exists_lead?_three (by omega) hthree (by omega)
    simp only [List.cons_append, List.nil_append]
    rw [decodeFrom_lead hlead (by omega) (by omega), decodeFrom_owed hlow hhigh (by omega),
      decodeFrom_last (by omega) (by omega) (by omega), hc _ (by omega)]
  · obtain ⟨low, high, hlead, hlow, hhigh⟩ := exists_lead?_four (v := c.toNat) (by omega) (by omega)
    simp only [List.cons_append, List.nil_append]
    rw [decodeFrom_lead hlead (by omega) (by omega), decodeFrom_owed hlow hhigh (by omega),
      decodeFrom_owed (by omega) (by omega) (by omega),
      decodeFrom_last (by omega) (by omega) (by omega), hc _ (by omega)]

/-- The bytes of a string are read as the string. -/
theorem decode_toUTF8 (s : String) : decode s.toUTF8.data.toList = .ofString s := by
  have hchars : ∀ chars : List Char,
      decodeFrom none (chars.flatMap String.utf8EncodeChar) = chars.map some := by
    intro chars
    induction chars with
    | nil => rfl
    | cons c chars ih => rw [List.flatMap_cons, decodeFrom_utf8EncodeChar, ih, List.map_cons]
  rw [decode, String.toUTF8_eq_toByteArray, ← String.utf8Encode_toList, List.utf8Encode,
    List.toList_data_toByteArray, hchars]
  rfl

end Soundstage.Utf8
