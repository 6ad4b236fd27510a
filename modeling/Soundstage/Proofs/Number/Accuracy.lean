import Mathlib
import Soundstage.Proofs.Number.Rounds

/-!
# Core's rounding

Core rounds a mantissa that has been shifted bit by bit, with two bits for what was shifted out of
it. `Stands` says which numbers such a mantissa stands for. Shifting keeps this and rounding then
gives the nearest integer, so that `rounds_roundWithAccuracy` finds the nearest double.
-/

open Float.Model Float.Model.UnpackedFloat

namespace Soundstage.Binary64

/-- The least number that an extended mantissa can stand for. -/
def least (em : ExtendedMantissa) : ℚ := em.mantissa + if em.roundBit then 1 / 2 else 0

/-- An extended mantissa stands for a number if it has its whole part, the first bit behind it, and
a bit that is set if anything follows. -/
structure Stands (em : ExtendedMantissa) (q : ℚ) : Prop where
  le : least em ≤ q
  lt : q < least em + 1 / 2
  eq_iff : q = least em ↔ em.stickyBit = false

namespace Stands

variable {em : ExtendedMantissa} {q : ℚ}

theorem mantissa_le (h : Stands em q) : em.mantissa ≤ q := by
  have hle := h.le
  unfold least at hle
  split_ifs at hle <;> linarith

theorem lt_mantissa (h : Stands em q) : q < em.mantissa + 1 := by
  have hlt := h.lt
  unfold least at hlt
  split_ifs at hlt <;> linarith

theorem shiftRightOne (h : Stands em q) : Stands em.shiftRightOne (q / 2) := by
  have hsplit : (em.mantissa : ℚ) = 2 * (em.mantissa / 2 : ℕ) + (em.mantissa % 2 : ℕ) := by
    exact_mod_cast (Nat.div_add_mod em.mantissa 2).symm
  have hbit : (if em.shiftRightOne.roundBit then 1 / 2 else 0 : ℚ) = (em.mantissa % 2 : ℕ) / 2 := by
    rcases Nat.mod_two_eq_zero_or_one em.mantissa with hmod | hmod <;>
      simp [ExtendedMantissa.shiftRightOne, hmod]
  have hle := h.mantissa_le
  have hlt := h.lt_mantissa
  have hleast : least em.shiftRightOne = em.mantissa / 2 := by
    rw [least, hbit, hsplit]
    change ((em.mantissa / 2 : ℕ) : ℚ) + _ = _
    ring
  refine ⟨?_, ?_, ?_⟩
  · rw [hleast]
    linarith
  · rw [hleast]
    linarith
  · have heq := h.eq_iff
    have hge := h.le
    have hround : (em.shiftRightOne.stickyBit = false) ↔
        em.roundBit = false ∧ em.stickyBit = false := by
      simp [ExtendedMantissa.shiftRightOne]
    rw [hleast, hround]
    constructor
    · intro hhalf
      have hq : q = em.mantissa := by linarith
      have hround : em.roundBit = false := by
        by_contra hset
        rw [least, if_pos (by simpa using hset)] at hge
        linarith
      exact ⟨hround, heq.mp (by rw [hq, least, hround]; simp)⟩
    · rintro ⟨hround, hsticky⟩
      rw [heq.mpr hsticky, least, hround]
      simp

theorem shiftRight (h : Stands em q) (n : ℕ) : Stands (em >>> n) (q / 2 ^ n) := by
  induction n with
  | zero =>
    rw [pow_zero, div_one]
    exact h
  | succ n ih =>
    rw [pow_succ, ← div_div]
    exact ih.shiftRightOne

/-- Rounding gives the nearest integer. -/
theorem isRounded (h : Stands em q) : IsRounded q em.roundedMantissa := by
  obtain ⟨mantissa, roundBit, stickyBit⟩ := em
  obtain ⟨hle, hlt, heq⟩ := h
  cases roundBit <;> cases stickyBit <;>
    simp only [least, Bool.false_eq_true, if_false, if_true, iff_true, add_zero,
      ExtendedMantissa.roundedMantissa, ExtendedMantissa.accuracy,
      Accuracy.roundToNearestEven] at hle hlt heq ⊢
  · rw [heq]
    constructor <;> norm_num
  · have hhalf : |q - mantissa| < 1 / 2 := abs_lt.mpr ⟨by linarith, by linarith⟩
    exact ⟨hhalf.le, fun h => absurd h hhalf.ne⟩
  · rcases Nat.mod_two_eq_zero_or_one mantissa with hmod | hmod <;> rw [hmod, heq]
    · refine ⟨?_, fun _ => hmod⟩
      rw [add_zero, add_sub_cancel_left]
      norm_num
    · refine ⟨?_, fun _ => by omega⟩
      push_cast
      rw [add_sub_add_left_eq_sub]
      norm_num
  · have hhalf : |q - (mantissa + 1 : ℕ)| < 1 / 2 := by
      have hne := lt_of_le_of_ne hle fun h => Bool.noConfusion (heq.mp h.symm)
      push_cast
      exact abs_lt.mpr ⟨by linarith, by linarith⟩
    exact ⟨hhalf.le, fun h => absurd h hhalf.ne⟩

end Stands

theorem stands_exact (mantissa : ℕ) :
    Stands (.ofMantissaAndAccuracy mantissa .exact) mantissa := by
  constructor <;> simp [least, ExtendedMantissa.ofMantissaAndAccuracy]

/-- Whole part and accuracy of a quotient of natural numbers. -/
theorem stands_fraction (num : ℕ) {den : ℕ} (h : 0 < den) :
    Stands (.ofMantissaAndAccuracy (num / den) (accuracyOfFraction (num % den) den))
      (num / den : ℚ) := by
  have hden : (0 : ℚ) < den := by exact_mod_cast h
  have hlt : ((num % den : ℕ) : ℚ) / den < 1 := by
    rw [div_lt_one hden]
    exact_mod_cast Nat.mod_lt num h
  have hnonneg : (0 : ℚ) ≤ (num % den : ℕ) / den := by positivity
  rw [div_eq_add_mod_div num h]
  unfold accuracyOfFraction
  split_ifs with hzero
  · rw [hzero]
    simpa using stands_exact (num / den)
  have hpos : (0 : ℚ) < (num % den : ℕ) / den := by
    have : 0 < num % den := Nat.pos_of_ne_zero hzero
    positivity
  have hcast {a b : ℕ} : (a : ℚ) / b * 2 = (2 * a : ℕ) / b := by
    push_cast
    ring
  rcases lt_trichotomy (2 * (num % den)) den with hhalf | hhalf | hhalf
  · rw [Nat.compare_eq_lt.mpr hhalf]
    have hbelow : ((num % den : ℕ) : ℚ) / den * 2 < 1 := by
      rw [hcast, div_lt_one hden]
      exact_mod_cast hhalf
    refine ⟨?_, ?_, iff_of_false ?_ nofun⟩ <;>
      simp only [least, ExtendedMantissa.ofMantissaAndAccuracy, Bool.false_eq_true, if_false] <;>
      linarith
  · rw [Nat.compare_eq_eq.mpr hhalf]
    have hequal : ((num % den : ℕ) : ℚ) / den * 2 = 1 := by
      rw [hcast, hhalf, div_self hden.ne']
    refine ⟨?_, ?_, iff_of_true ?_ rfl⟩ <;>
      simp only [least, ExtendedMantissa.ofMantissaAndAccuracy, if_true] <;> linarith
  · rw [Nat.compare_eq_gt.mpr hhalf]
    have habove : 1 < ((num % den : ℕ) : ℚ) / den * 2 := by
      rw [hcast, one_lt_div hden]
      exact_mod_cast hhalf
    refine ⟨?_, ?_, iff_of_false ?_ nofun⟩ <;>
      simp only [least, ExtendedMantissa.ofMantissaAndAccuracy, if_true] <;> linarith

section Round

variable {s : Sign} {row place mantissa : ℕ} {exponent target : ℤ} {accuracy : Accuracy} {q : ℚ}

theorem ofMantissaAndAccuracy_mantissa :
    (ExtendedMantissa.ofMantissaAndAccuracy mantissa accuracy).mantissa = mantissa := by
  obtain _ | (_ | _ | _) := accuracy <;> rfl

theorem targetExponent_eq (total : ℤ) :
    Format.binary64.targetExponent total = max (total - 53) leastExponent := rfl

theorem shiftToExponent_eq (h : exponent ≤ target) :
    shiftToExponent mantissa exponent accuracy target
      = (ExtendedMantissa.ofMantissaAndAccuracy mantissa accuracy >>> (target - exponent).toNat,
        target) := by
  unfold shiftToExponent
  dsimp only
  rw [Int.toNat_of_nonneg (sub_nonneg.mpr h), add_sub_cancel]

theorem shiftToExponent_of_ge (h : target ≤ exponent) :
    shiftToExponent mantissa exponent accuracy target
      = (.ofMantissaAndAccuracy mantissa accuracy, exponent) := by
  unfold shiftToExponent
  dsimp only
  rw [Int.toNat_of_nonpos (sub_nonpos.mpr h), Nat.cast_zero, add_zero]
  rfl

/-- What core does with a mantissa that has been rounded: if it has grown a digit, it is shifted
once more. -/
def settle (s : Sign) (mantissa : ℕ) (exponent : ℤ) : Float.Model.UnpackedFloat :=
  let shifted := shiftToTargetExponent Format.binary64 mantissa exponent .exact
  if h : shifted.1.mantissa = 0 then .zero s
  else .finite s shifted.1.mantissa shifted.2 (Nat.pos_of_ne_zero h)

theorem roundWithAccuracy_eq : roundWithAccuracy Format.binary64 s mantissa exponent accuracy
    = settle s (shiftToTargetExponent Format.binary64 mantissa exponent accuracy).1.roundedMantissa
      (shiftToTargetExponent Format.binary64 mantissa exponent accuracy).2 := rfl

theorem settle_of_grown (s : Sign) (row : ℕ) :
    settle s (2 * mantissaFloor) (row + leastExponent)
      = .finite s mantissaFloor ((row + 1 : ℕ) + leastExponent) (by decide) := by
  have hshift : shiftToTargetExponent Format.binary64 (2 * mantissaFloor) (row + leastExponent)
      .exact = (⟨mantissaFloor, false, false⟩, (row + 1 : ℕ) + leastExponent) := by
    have hlog : (2 * mantissaFloor).log2 = 53 := by decide
    rw [shiftToTargetExponent, targetExponent_eq, totalExponent, hlog,
      shiftToExponent_eq (by omega)]
    have hone : (max (((53 : ℕ) : ℤ) + 1 + (row + leastExponent) - 53) leastExponent
        - (row + leastExponent)).toNat = 1 := by omega
    rw [hone, Prod.mk.injEq]
    exact ⟨rfl, by push_cast; omega⟩
  simp only [settle, hshift]
  rfl

theorem settle_of_lt (s : Sign) (row : ℕ) (h : place < 2 * mantissaFloor) :
    settle s place (row + leastExponent)
      = if h : place = 0 then .zero s
        else .finite s place (row + leastExponent) (Nat.pos_of_ne_zero h) := by
  have hshift : shiftToTargetExponent Format.binary64 place (row + leastExponent) .exact
      = (⟨place, false, false⟩, row + leastExponent) := by
    have hlog : place.log2 < 53 := by
      rcases Nat.eq_zero_or_pos place with rfl | hpos
      · decide
      · rw [Nat.log2_lt hpos.ne']
        exact h
    rw [shiftToTargetExponent, targetExponent_eq, totalExponent, shiftToExponent_of_ge (by omega)]
    rfl
  simp only [settle, hshift]

theorem packed_settle (h : IsPlace row place) (s : Sign) :
    sign (packed (settle s place (row + leastExponent))) = s ∧
      pattern (packed (settle s place (row + leastExponent)))
        = min infinityBits (row * mantissaFloor + place) := by
  rcases h.1.eq_or_lt with rfl | hlt
  · have hplace : IsPlace (row + 1) mantissaFloor := ⟨by decide, .inr le_rfl⟩
    have hsum : row * mantissaFloor + 2 * mantissaFloor
        = (row + 1) * mantissaFloor + mantissaFloor := by ring
    rw [settle_of_grown, hsum]
    exact packed_grid hplace (by decide) (by decide) s
  rw [settle_of_lt s row hlt]
  split_ifs with hzero
  · obtain rfl : row = 0 := by
      refine h.2.resolve_right fun hfloor => ?_
      rw [hzero] at hfloor
      exact absurd hfloor (by decide)
    rw [hzero, Nat.zero_mul, Nat.zero_add, Nat.min_zero]
    exact packed_zero s
  · exact packed_grid h hlt (Nat.pos_of_ne_zero hzero) s

/-- Core shifts a number that has digits enough into the row of the grid that it belongs to. -/
theorem exists_target_row (hwhole : mantissa ≤ q) (hrest : q < mantissa + 1)
    (he : exponent ≤ Format.binary64.targetExponent (totalExponent mantissa exponent)) :
    ∃ n row : ℕ, Format.binary64.targetExponent (totalExponent mantissa exponent)
        = row + leastExponent ∧ row + leastExponent = n + exponent ∧
      (row = 0 ∨ (mantissaFloor : ℚ) ≤ q / 2 ^ n) ∧ q / 2 ^ n < 2 * mantissaFloor := by
  obtain ⟨n, hn⟩ := Int.eq_ofNat_of_zero_le (sub_nonneg.mpr he)
  rw [targetExponent_eq, totalExponent] at hn he
  obtain ⟨row, hrow⟩ : ∃ row : ℕ,
      max (mantissa.log2 + 1 + exponent - 53) leastExponent = row + leastExponent :=
    ⟨(max (mantissa.log2 + 1 + exponent - 53) leastExponent - leastExponent).toNat, by omega⟩
  refine ⟨n, row, hrow, by omega, ?_, ?_⟩
  · refine or_iff_not_imp_left.mpr fun hpos => ?_
    have hlog : (mantissa.log2 : ℤ) = n + 52 := by omega
    have hmantissa : mantissa ≠ 0 := by
      rintro rfl
      rw [Nat.log2_zero] at hlog
      omega
    have hfloor : (mantissaFloor : ℚ) = 2 ^ (52 : ℤ) := by norm_num [mantissaFloor]
    rw [le_div_iff₀ (by positivity), hfloor, ← zpow_natCast, ← zpow_add₀ two_ne_zero, add_comm,
      ← hlog]
    refine le_trans ?_ hwhole
    exact_mod_cast Nat.log2_self_le hmantissa
  · have hlog : (mantissa.log2 : ℤ) + 1 ≤ n + 53 := by omega
    have htop : (2 : ℚ) * mantissaFloor = 2 ^ (53 : ℤ) := by norm_num [mantissaFloor]
    rw [div_lt_iff₀ (by positivity), htop, ← zpow_natCast, ← zpow_add₀ two_ne_zero, add_comm]
    refine hrest.trans_le (le_trans ?_ (zpow_le_zpow_right₀ one_le_two hlog))
    exact_mod_cast @Nat.lt_log2_self mantissa

/-- Core rounds to the nearest pattern, or to the infinity in place of all patterns behind it. -/
theorem packed_roundWithAccuracy (h : Stands (.ofMantissaAndAccuracy mantissa accuracy) q)
    (he : exponent ≤ Format.binary64.targetExponent (totalExponent mantissa exponent)) (s : Sign) :
    ∃ bits, IsNearest (q * 2 ^ exponent) bits ∧
      sign (packed (roundWithAccuracy Format.binary64 s mantissa exponent accuracy)) = s ∧
      pattern (packed (roundWithAccuracy Format.binary64 s mantissa exponent accuracy))
        = min infinityBits bits := by
  have hwhole := h.mantissa_le
  have hrest := h.lt_mantissa
  rw [ofMantissaAndAccuracy_mantissa] at hwhole hrest
  obtain ⟨n, row, htarget, hexp, hlow, hhigh⟩ := exists_target_row hwhole hrest he
  have hshift : shiftToTargetExponent Format.binary64 mantissa exponent accuracy
      = (ExtendedMantissa.ofMantissaAndAccuracy mantissa accuracy >>> n, row + leastExponent) := by
    have hn : (row + leastExponent - exponent).toNat = n := by omega
    rw [shiftToTargetExponent, shiftToExponent_eq he, htarget, hn]
  have hrounded := (h.shiftRight n).isRounded
  have hvalue : q / 2 ^ n * gap row = q * 2 ^ exponent := by
    rw [gap, hexp, zpow_add₀ two_ne_zero, zpow_natCast]
    field_simp
  have hnearest := isNearest_grid hrounded hlow hhigh
  rw [hvalue] at hnearest
  refine ⟨_, hnearest, ?_⟩
  rw [roundWithAccuracy_eq, hshift]
  exact packed_settle (isPlace_of_isRounded hrounded hlow hhigh) s

theorem rounds_roundWithAccuracy (h : Stands (.ofMantissaAndAccuracy mantissa accuracy) q)
    (he : exponent ≤ Format.binary64.targetExponent (totalExponent mantissa exponent)) (s : Sign) :
    Rounds (isMinus s) (q * 2 ^ exponent)
      (packed (roundWithAccuracy Format.binary64 s mantissa exponent accuracy)) := by
  obtain ⟨bits, hnearest, hsign, hpattern⟩ := packed_roundWithAccuracy h he s
  exact rounds_of_isNearest (by rw [← isMinus_sign, hsign]) hnearest hpattern

/-- Decreasing the exponent of a number leaves its value as it is. -/
theorem decreaseExponent_eq (mantissa : ℕ) (exponent target : ℤ) :
    ((decreaseExponent mantissa exponent target).1 : ℚ)
      * 2 ^ (decreaseExponent mantissa exponent target).2 = mantissa * 2 ^ exponent := by
  unfold decreaseExponent
  dsimp only
  rw [Nat.shiftLeft_eq, zpow_sub₀ two_ne_zero, zpow_natCast]
  push_cast
  field_simp

theorem decreaseExponent_le (mantissa : ℕ) (exponent target : ℤ) :
    (decreaseExponent mantissa exponent target).2 ≤ target := by
  unfold decreaseExponent
  dsimp only
  omega

theorem log2_shiftLeft (hpos : 0 < mantissa) (k : ℕ) :
    (mantissa <<< k).log2 = mantissa.log2 + k := by
  induction k with
  | zero => rfl
  | succ k ih =>
    have hne : mantissa <<< k ≠ 0 := by
      rw [Nat.shiftLeft_eq]
      positivity
    rw [Nat.shiftLeft_succ, Nat.log2_two_mul hne, ih, add_assoc]

theorem totalExponent_decreaseExponent (hpos : 0 < mantissa) (exponent target : ℤ) :
    totalExponent (decreaseExponent mantissa exponent target).1
      (decreaseExponent mantissa exponent target).2 = totalExponent mantissa exponent := by
  unfold decreaseExponent totalExponent
  dsimp only
  rw [log2_shiftLeft hpos]
  push_cast
  ring

/-- Rounding a number of any exponent. -/
theorem rounds_round (s : Sign) (hpos : 0 < mantissa) (exponent : ℤ) :
    Rounds (isMinus s) (mantissa * 2 ^ exponent)
      (packed (round Format.binary64 s mantissa exponent)) := by
  set target := Format.binary64.targetExponent (totalExponent mantissa exponent) with htarget
  rw [← decreaseExponent_eq mantissa exponent target]
  refine rounds_roundWithAccuracy (stands_exact _) ?_ s
  rw [totalExponent_decreaseExponent hpos]
  exact decreaseExponent_le _ _ _

/-- Core's last step of sums and differences, where nothing is the positive zero. -/
theorem rounds_normalize (n exponent : ℤ) : Rounds (decide (n < 0)) (|(n : ℚ)| * 2 ^ exponent)
    (packed (UnpackedFloat.normalize Format.binary64 n exponent .positive)) := by
  have hcast : ((n.natAbs : ℕ) : ℚ) = |(n : ℚ)| := by rw [Nat.cast_natAbs, Int.cast_abs]
  unfold UnpackedFloat.normalize
  rw [← hcast]
  rcases lt_trichotomy n 0 with h | rfl | h
  · have habs : (-n).toNat = n.natAbs := by omega
    rw [Int.compare_eq_lt.mpr h, decide_eq_true h, habs]
    exact rounds_round .negative (Int.natAbs_pos.mpr h.ne) exponent
  · obtain ⟨hsign, hpattern⟩ := packed_zero .positive
    rw [Int.compare_eq_eq.mpr rfl, Int.natAbs_zero, Nat.cast_zero, zero_mul, ← size_zero]
    exact rounds_of_isNearest (sign_eq_positive_iff.mp hsign) (IsNearest.of_size 0) hpattern
  · have habs : n.toNat = n.natAbs := by omega
    rw [Int.compare_eq_gt.mpr h, decide_eq_false h.not_gt, habs]
    exact rounds_round .positive (Int.natAbs_pos.mpr h.ne') exponent

end Round

end Soundstage.Binary64
