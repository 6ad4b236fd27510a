import Mathlib
import Soundstage.Proofs.Number.Pattern

/-!
# The bits of doubles

A double is a sign and a bit pattern, and nothing else, as `ext_pattern` says; `sign_ofBits` and
`pattern_ofBits` make a double of the two. `size?_grid` reads a finite double as a place in a row.
Core's arithmetic works on unpacked doubles: `unpack_cases` tells which form of those a double has,
and `pattern_pack` what a place in a row is packed into.
-/

open Float.Model Float.Model.UnpackedFloat

namespace Soundstage.Binary64

/-- The bit pattern of a double without its sign. -/
def pattern (x : Float) : ℕ := x.toBits.toNat % signBit

/-- The sign of a double as core has it. -/
def sign (x : Float) : Sign := if isNegative x then .negative else .positive

theorem toBits_toNat (x : Float) :
    x.toBits.toNat = (if isNegative x then signBit else 0) + pattern x := by
  have hlt := x.toBits.toNat_lt
  have hbit : signBit = 9223372036854775808 := rfl
  unfold isNegative pattern
  split_ifs with h <;> simp only [decide_eq_true_eq] at h <;> rw [hbit] at * <;> omega

/-- A double is its sign and its pattern. -/
theorem ext_pattern {x y : Float} (hsign : isNegative x = isNegative y)
    (hpattern : pattern x = pattern y) : x = y := by
  rw [← Float.toBits_inj, ← UInt64.toNat_inj, toBits_toNat, toBits_toNat, hsign, hpattern]

theorem pattern_lt (x : Float) : pattern x < signBit := Nat.mod_lt _ (by decide)

section Size

variable {x : Float} {mantissa : ℕ} {exponent : ℤ}

theorem size?_eq (x : Float) : size? x =
    if pattern x / mantissaFloor = 2047 then none
    else if pattern x / mantissaFloor = 0 then some (pattern x % mantissaFloor, leastExponent)
    else some (mantissaFloor + pattern x % mantissaFloor,
      (pattern x / mantissaFloor : ℕ) - 1075) := rfl

theorem size?_eq_none_iff : size? x = none ↔ infinityBits ≤ pattern x := by
  have hlt := pattern_lt x
  have hM : mantissaFloor = 4503599627370496 := rfl
  rw [size?_eq, signBit, infinityBits] at *
  split_ifs <;> simp only [true_iff, false_iff] <;> rw [hM] at * <;> omega

/-- A finite double is a place in a row. -/
theorem size?_grid (h : size? x = some (mantissa, exponent)) :
    ∃ row : ℕ, exponent = row + leastExponent ∧ pattern x = row * mantissaFloor + mantissa ∧
      IsPlace row mantissa ∧ mantissa < 2 * mantissaFloor := by
  have hM : mantissaFloor = 4503599627370496 := rfl
  rw [size?_eq] at h
  unfold IsPlace leastExponent at *
  split_ifs at h with hlast hfirst
  · obtain ⟨rfl, rfl⟩ := Prod.ext_iff.mp (Option.some.inj h)
    refine ⟨0, ?_, ?_, ?_, ?_⟩ <;> dsimp only <;> rw [hM] at * <;> omega
  · obtain ⟨rfl, rfl⟩ := Prod.ext_iff.mp (Option.some.inj h)
    refine ⟨pattern x / mantissaFloor - 1, ?_, ?_, ?_, ?_⟩ <;> dsimp only <;> rw [hM] at * <;> omega

theorem pattern_of_size?_zero (h : size? x = some (0, exponent)) : pattern x = 0 := by
  obtain ⟨row, -, hpattern, hplace, -⟩ := size?_grid h
  have hM : 0 < mantissaFloor := by decide
  obtain rfl := hplace.2.resolve_right (by omega)
  rw [hpattern, Nat.zero_mul]

theorem size_pattern (h : size? x = some (mantissa, exponent)) :
    size (pattern x) = mantissa * 2 ^ exponent := by
  obtain ⟨row, rfl, hpattern, hplace, -⟩ := size?_grid h
  rw [hpattern, size_grid hplace, gap]

theorem pattern_lt_of_size? (h : size? x = some (mantissa, exponent)) :
    pattern x < infinityBits := by
  rw [← not_le, ← size?_eq_none_iff, h]
  exact Option.some_ne_none _

theorem exists_size? (h : pattern x < infinityBits) :
    ∃ mantissa exponent, size? x = some (mantissa, exponent) := by
  rw [← not_le, ← size?_eq_none_iff] at h
  obtain ⟨⟨mantissa, exponent⟩, hsize⟩ := Option.ne_none_iff_exists'.mp h
  exact ⟨mantissa, exponent, hsize⟩

end Size

section Words

variable (b : BitVec 64)

theorem unpackMantissa_toNat :
    (@unpackMantissa Format.binary64 b).toNat = b.toNat % mantissaFloor := by
  rw [unpackMantissa_def, BitVec.extractLsb'_toNat, Nat.shiftRight_zero]
  rfl

theorem unpackExponent_toNat :
    (@unpackExponent Format.binary64 b).toNat = b.toNat / mantissaFloor % 2048 := by
  rw [unpackExponent_def, BitVec.extractLsb'_toNat, Nat.shiftRight_eq_div_pow]
  rfl

theorem unpackSign_toNat :
    (@unpackSign Format.binary64 b).toNat = b.toNat / signBit := by
  rw [unpackSign_def, BitVec.extractLsb'_toNat, Nat.shiftRight_eq_div_pow]
  have := b.isLt
  change b.toNat / 2 ^ 63 % 2 ^ 1 = b.toNat / 2 ^ 63
  omega

theorem packComponents_toNat (sign : Sign) (exponent : BitVec 11) (mantissa : BitVec 52) :
    (packComponents Format.binary64 sign exponent mantissa).toNat
      = sign.toBitVec.toNat * signBit + exponent.toNat * mantissaFloor + mantissa.toNat := by
  have hexponent := exponent.isLt
  have hmantissa := mantissa.isLt
  change (sign.toBitVec ++ exponent ++ mantissa).toNat = _
  rw [BitVec.toNat_append, BitVec.toNat_append, ← Nat.shiftLeft_add_eq_or_of_lt hexponent,
    ← Nat.shiftLeft_add_eq_or_of_lt hmantissa, Nat.shiftLeft_eq, Nat.shiftLeft_eq, mantissaFloor,
    signBit]
  ring

end Words

section Unpack

variable {x : Float} {mantissa : ℕ} {exponent : ℤ}

theorem exponent_toNat (x : Float) :
    (@unpackExponent Format.binary64 x.toModel.toBits.toBitVec).toNat
      = pattern x / mantissaFloor := by
  rw [unpackExponent_toNat]
  change x.toBits.toNat / mantissaFloor % 2048 = _
  unfold pattern mantissaFloor signBit
  omega

theorem mantissa_toNat (x : Float) :
    (@unpackMantissa Format.binary64 x.toModel.toBits.toBitVec).toNat
      = pattern x % mantissaFloor := by
  rw [unpackMantissa_toNat]
  change x.toBits.toNat % mantissaFloor = _
  unfold pattern mantissaFloor signBit
  omega

theorem sign_eq (x : Float) :
    Sign.ofBitVec (@unpackSign Format.binary64 x.toModel.toBits.toBitVec) = sign x := by
  have hlt := x.toBits.toNat_lt
  have hsign := unpackSign_toNat x.toModel.toBits.toBitVec
  change _ = x.toBits.toNat / signBit at hsign
  unfold sign isNegative
  by_cases hneg : signBit ≤ x.toBits.toNat
  · have hone : @unpackSign Format.binary64 x.toModel.toBits.toBitVec = 1#1 := by
      apply BitVec.eq_of_toNat_eq
      rw [hsign]
      unfold signBit at *
      change _ = 1
      omega
    rw [hone, if_pos (decide_eq_true hneg)]
    rfl
  · have hzero : @unpackSign Format.binary64 x.toModel.toBits.toBitVec = 0#1 := by
      apply BitVec.eq_of_toNat_eq
      rw [hsign]
      unfold signBit at *
      change _ = 0
      omega
    rw [hzero, if_neg (by simpa using hneg)]
    rfl

theorem exponent_eq_ones_iff (x : Float) :
    @unpackExponent Format.binary64 x.toModel.toBits.toBitVec = -1#_
      ↔ pattern x / mantissaFloor = 2047 := by
  rw [← exponent_toNat, ← BitVec.toNat_inj]
  rfl

theorem exponent_eq_zero_iff (x : Float) :
    @unpackExponent Format.binary64 x.toModel.toBits.toBitVec = 0#_
      ↔ pattern x / mantissaFloor = 0 := by
  rw [← exponent_toNat, ← BitVec.toNat_inj]
  rfl

theorem mantissa_eq_zero_iff (x : Float) :
    @unpackMantissa Format.binary64 x.toModel.toBits.toBitVec = 0#_
      ↔ pattern x % mantissaFloor = 0 := by
  rw [← mantissa_toNat, ← BitVec.toNat_inj]
  rfl

theorem unpack_of_size? (h : size? x = some (mantissa, exponent)) (hpos : 0 < mantissa) :
    x.toModel.unpack = .finite (sign x) mantissa exponent hpos := by
  rw [size?_eq] at h
  unfold Float.Model.unpack UnpackedFloat.unpack
  dsimp only
  rw [sign_eq]
  split_ifs at h with hlast hfirst
  · obtain ⟨rfl, rfl⟩ := Prod.ext_iff.mp (Option.some.inj h)
    rw [if_neg (mt (exponent_eq_ones_iff x).mp hlast), if_pos ((exponent_eq_zero_iff x).mpr hfirst),
      dif_neg (mt (mantissa_eq_zero_iff x).mp (Nat.pos_iff_ne_zero.mp hpos))]
    congr 1
    · exact mantissa_toNat x
    · rw [exponent_toNat, hfirst]
      rfl
  · obtain ⟨rfl, rfl⟩ := Prod.ext_iff.mp (Option.some.inj h)
    rw [if_neg (mt (exponent_eq_ones_iff x).mp hlast),
      if_neg (mt (exponent_eq_zero_iff x).mp hfirst)]
    congr 1
    · rw [BitVec.toNat_append, ← Nat.shiftLeft_add_eq_or_of_lt (BitVec.isLt _), mantissa_toNat]
      rfl
    · rw [exponent_toNat]
      rfl

theorem unpack_of_size?_zero (h : size? x = some (0, exponent)) :
    x.toModel.unpack = .zero (sign x) := by
  rw [size?_eq] at h
  have hM : 0 < mantissaFloor := by decide
  unfold Float.Model.unpack UnpackedFloat.unpack
  dsimp only
  rw [sign_eq]
  split_ifs at h with hlast hfirst <;> obtain ⟨hzero, -⟩ := Prod.ext_iff.mp (Option.some.inj h)
  · rw [if_neg (mt (exponent_eq_ones_iff x).mp hlast), if_pos ((exponent_eq_zero_iff x).mpr hfirst),
      dif_pos ((mantissa_eq_zero_iff x).mpr hzero)]
  · omega

theorem unpack_of_pattern_eq (h : pattern x = infinityBits) :
    x.toModel.unpack = .infinity (sign x) := by
  unfold Float.Model.unpack UnpackedFloat.unpack
  dsimp only
  rw [sign_eq, if_pos ((exponent_eq_ones_iff x).mpr (by rw [h]; rfl)),
    if_pos ((mantissa_eq_zero_iff x).mpr (by rw [h]; rfl))]

theorem unpack_of_pattern_gt (h : infinityBits < pattern x) :
    x.toModel.unpack = .notANumber := by
  have hlt := pattern_lt x
  unfold Float.Model.unpack UnpackedFloat.unpack
  dsimp only
  have hfield : pattern x / mantissaFloor = 2047 ∧ pattern x % mantissaFloor ≠ 0 := by
    unfold infinityBits mantissaFloor signBit at *
    omega
  rw [if_pos ((exponent_eq_ones_iff x).mpr hfield.1),
    if_neg (mt (mantissa_eq_zero_iff x).mp hfield.2)]

/-- The forms of doubles: undefined, infinite, zero, or a size that is not zero. -/
theorem form_cases (x : Float) : infinityBits < pattern x ∨ pattern x = infinityBits ∨
    (∃ exponent, size? x = some (0, exponent)) ∨
      ∃ mantissa exponent, 0 < mantissa ∧ size? x = some (mantissa, exponent) := by
  rcases lt_trichotomy (pattern x) infinityBits with h | h | h
  · obtain ⟨mantissa, exponent, hsize⟩ := exists_size? h
    rcases Nat.eq_zero_or_pos mantissa with rfl | hpos
    · exact .inr (.inr (.inl ⟨exponent, hsize⟩))
    · exact .inr (.inr (.inr ⟨mantissa, exponent, hpos, hsize⟩))
  · exact .inr (.inl h)
  · exact .inl h

theorem isNaN_iff (x : Float) : x.isNaN = true ↔ infinityBits < pattern x := by
  change x.toModel.unpack.isNaN = true ↔ _
  rcases form_cases x with h | h | ⟨exponent, h⟩ | ⟨mantissa, exponent, hpos, h⟩
  · rw [unpack_of_pattern_gt h]
    exact iff_of_true rfl h
  · rw [unpack_of_pattern_eq h]
    exact iff_of_false Bool.false_ne_true h.not_gt
  · rw [unpack_of_size?_zero h]
    exact iff_of_false Bool.false_ne_true (pattern_lt_of_size? h).not_gt
  · rw [unpack_of_size? h hpos]
    exact iff_of_false Bool.false_ne_true (pattern_lt_of_size? h).not_gt

theorem isFinite_iff (x : Float) : x.isFinite = true ↔ pattern x < infinityBits := by
  change x.toModel.unpack.isFinite = true ↔ _
  rcases form_cases x with h | h | ⟨exponent, h⟩ | ⟨mantissa, exponent, hpos, h⟩
  · rw [unpack_of_pattern_gt h]
    exact iff_of_false Bool.false_ne_true h.not_gt
  · rw [unpack_of_pattern_eq h]
    exact iff_of_false Bool.false_ne_true h.not_lt
  · rw [unpack_of_size?_zero h]
    exact iff_of_true rfl (pattern_lt_of_size? h)
  · rw [unpack_of_size? h hpos]
    exact iff_of_true rfl (pattern_lt_of_size? h)

/-- A finite double is a number and has a size. -/
theorem exists_size?_of_isFinite (h : x.isFinite = true) :
    ¬ x.isNaN = true ∧ ∃ mantissa exponent, size? x = some (mantissa, exponent) := by
  have hlt := (isFinite_iff x).mp h
  rw [isNaN_iff]
  exact ⟨hlt.not_gt, exists_size? hlt⟩

end Unpack

section Pack

/-- Whether a sign is the negative one. -/
def isMinus (s : Sign) : Bool := s == .negative

theorem isMinus_sign (x : Float) : isMinus (sign x) = isNegative x := by
  unfold sign
  cases isNegative x <;> rfl

/-- A double is its sign and its pattern, the sign as core has it. -/
theorem ext_sign {x y : Float} (hsign : sign x = sign y) (hpattern : pattern x = pattern y) :
    x = y := by
  refine ext_pattern ?_ hpattern
  rw [← isMinus_sign, hsign, isMinus_sign]

theorem sign_eq_positive_iff {x : Float} : sign x = .positive ↔ isNegative x = false := by
  unfold sign
  cases isNegative x <;> simp

theorem sign_eq_negative_iff {x : Float} : sign x = .negative ↔ isNegative x = true := by
  unfold sign
  cases isNegative x <;> simp

variable {x : Float} {s : Sign} {bits row mantissa : ℕ}

theorem sign_eq_and_pattern_eq (h : x.toBits.toNat = s.toBitVec.toNat * signBit + bits)
    (hlt : bits < signBit) : sign x = s ∧ pattern x = bits := by
  unfold sign isNegative pattern
  cases s with
  | negative =>
    rw [h]
    change (if decide (signBit ≤ 1 * signBit + bits) = true then _ else _) = _ ∧
      (1 * signBit + bits) % signBit = _
    rw [if_pos (decide_eq_true (by omega)), one_mul, Nat.add_mod_left, Nat.mod_eq_of_lt hlt]
    exact ⟨rfl, rfl⟩
  | positive =>
    rw [h]
    change (if decide (signBit ≤ 0 * signBit + bits) = true then _ else _) = _ ∧
      (0 * signBit + bits) % signBit = _
    rw [if_neg (by simpa using hlt), Nat.zero_mul, Nat.zero_add, Nat.mod_eq_of_lt hlt]
    exact ⟨rfl, rfl⟩

/-- The double that core packs an unpacked one into. -/
def packed (u : Float.Model.UnpackedFloat) : Float := .ofModel (.pack u)

theorem packed_toBits (u : Float.Model.UnpackedFloat) :
    (packed u).toBits.toNat = (u.pack Format.binary64).toNat := rfl

theorem packed_zero (s : Sign) : sign (packed (.zero s)) = s ∧ pattern (packed (.zero s)) = 0 := by
  apply sign_eq_and_pattern_eq _ (by decide)
  rw [packed_toBits]
  exact (packComponents_toNat s 0 0).trans (by simp)

/-- A place in a row is packed into its pattern, or into an infinity. -/
theorem packed_grid (hplace : IsPlace row mantissa) (hlt : mantissa < 2 * mantissaFloor)
    (hpos : 0 < mantissa) (s : Sign) :
    sign (packed (.finite s mantissa (row + leastExponent) hpos)) = s ∧
      pattern (packed (.finite s mantissa (row + leastExponent) hpos))
        = min infinityBits (row * mantissaFloor + mantissa) := by
  have hbiased : ((row : ℤ) + leastExponent + Format.binary64.exponentBias
      + Format.binary64.mantissaBitsWithoutImplicit).toNat = row + 1 := by
    unfold leastExponent
    change ((row : ℤ) + -1074 + 1023 + 52).toNat = row + 1
    omega
  apply sign_eq_and_pattern_eq _ (lt_of_le_of_lt (min_le_left _ _) (by decide))
  rw [packed_toBits, UnpackedFloat.pack]
  simp only [hbiased]
  unfold IsPlace infinityBits at *
  by_cases hlast : 2046 ≤ row
  · rw [if_pos (by omega)]
    refine (packComponents_toNat s (-1) 0).trans ?_
    rw [add_assoc, min_eq_left (by unfold mantissaFloor at *; omega)]
    rfl
  have hmin : min 0x7ff0000000000000 (row * mantissaFloor + mantissa)
      = row * mantissaFloor + mantissa := min_eq_right (by unfold mantissaFloor at *; omega)
  rw [if_neg (by omega), hmin]
  by_cases hnormal : mantissaFloor ≤ mantissa
  · have hlog : mantissa.log2 = 52 := by
      rw [Nat.log2_eq_iff hpos.ne']
      unfold mantissaFloor at *
      omega
    rw [if_pos (by rw [hlog]; rfl)]
    refine (packComponents_toNat s (BitVec.ofNat 11 (row + 1)) (BitVec.ofNat 52 mantissa)).trans ?_
    rw [BitVec.toNat_ofNat, BitVec.toNat_ofNat]
    unfold mantissaFloor at *
    omega
  · obtain rfl : row = 0 := by omega
    have hlog : mantissa.log2 < 52 := by
      rw [Nat.log2_lt hpos.ne']
      unfold mantissaFloor at *
      omega
    rw [if_neg (by change ¬ mantissa.log2 + 1 = 53; omega)]
    refine (packComponents_toNat s 0#11 (BitVec.ofNat 52 mantissa)).trans ?_
    rw [BitVec.toNat_ofNat, BitVec.toNat_ofNat]
    unfold mantissaFloor at *
    omega

theorem packed_of_size? {exponent : ℤ} (h : size? x = some (mantissa, exponent))
    (hpos : 0 < mantissa) (s : Sign) :
    sign (packed (.finite s mantissa exponent hpos)) = s ∧
      pattern (packed (.finite s mantissa exponent hpos)) = pattern x := by
  have hlt := pattern_lt_of_size? h
  obtain ⟨row, rfl, hpattern, hplace, hend⟩ := size?_grid h
  rw [hpattern] at hlt ⊢
  rw [← min_eq_right hlt.le]
  exact packed_grid hplace hend hpos s

theorem toBits_ofBits {n : ℕ} (hlt : n < 2 ^ 64) (h : n % signBit ≤ infinityBits) :
    (Float.ofBits (UInt64.ofNat n)).toBits.toNat = n := by
  have hword : (UInt64.ofNat n).toBitVec.toNat = n := UInt64.toNat_ofNat_of_lt' hlt
  have hnan : @isNaNBits Format.binary64 (UInt64.ofNat n).toBitVec = false := by
    rw [isNaNBits, decide_eq_false_iff_not]
    rintro ⟨hexponent, hmantissa⟩
    rw [← BitVec.toNat_inj, unpackExponent_toNat, hword] at hexponent
    rw [ne_eq, ← BitVec.toNat_inj, unpackMantissa_toNat, hword] at hmantissa
    change _ = 2047 at hexponent
    change ¬ _ = 0 at hmantissa
    unfold infinityBits signBit mantissaFloor at *
    omega
  change ((unpack Format.binary64 (UInt64.ofNat n).toBitVec).pack Format.binary64).toNat = n
  rw [pack_unpack, hnan, if_neg Bool.false_ne_true, hword]

/-- Every sign and every pattern up to the infinity make a double. -/
theorem ofBits_parts (negative : Bool) (h : bits ≤ infinityBits) :
    isNegative (Float.ofBits (UInt64.ofNat ((if negative then signBit else 0) + bits))) = negative ∧
      pattern (Float.ofBits (UInt64.ofNat ((if negative then signBit else 0) + bits))) = bits := by
  have hlt : bits < signBit := lt_of_le_of_lt h (by decide)
  have hbits := toBits_ofBits (n := (if negative then signBit else 0) + bits)
    (by unfold signBit at *; split_ifs <;> omega)
    (by unfold signBit infinityBits at *; split_ifs <;> omega)
  cases negative with
  | false =>
    obtain ⟨hsign, hpattern⟩ := sign_eq_and_pattern_eq (s := .positive)
      (hbits.trans (by simp [Sign.toBitVec])) hlt
    exact ⟨sign_eq_positive_iff.mp hsign, hpattern⟩
  | true =>
    obtain ⟨hsign, hpattern⟩ := sign_eq_and_pattern_eq (s := .negative)
      (hbits.trans (by simp [Sign.toBitVec])) hlt
    exact ⟨sign_eq_negative_iff.mp hsign, hpattern⟩

end Pack

end Soundstage.Binary64
