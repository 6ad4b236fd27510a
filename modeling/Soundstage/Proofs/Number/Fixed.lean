import Mathlib
import Soundstage.Proofs.Number.Value
import Soundstage.Proofs.Number.Written

/-!
# Doubles with a fixed number of places

A double is written with a given number of places as its sign and the nearest count of units of the
last place, or as the name of an infinity or of the undefined number. `fixed_of_isFinite` says which
count is written, and `forall_mem_fixed` which characters can occur in what is written.
-/

namespace Soundstage.Style

open Binary64 Numeral

variable {x : Float} {places units : ℕ}

/-- The digits of a count, with zeros in front of them if they do not reach the point. -/
def paddedDigits (places units : ℕ) : List Char :=
  List.replicate (places + 1 - (Nat.toDigits 10 units).length) '0' ++ Nat.toDigits 10 units

theorem areDigits_paddedDigits (places units : ℕ) : AreDigits (paddedDigits places units) :=
  (areDigits_replicate _).append (areDigits_toDigits units)

theorem lt_length_paddedDigits (places units : ℕ) :
    places < (paddedDigits places units).length := by
  rw [paddedDigits, List.length_append, List.length_replicate]
  omega

theorem digitsFrom_paddedDigits (places units : ℕ) :
    digitsFrom 0 (paddedDigits places units) = units := by
  rw [paddedDigits, digitsFrom_zeros_append, digitsFrom_eq, Nat.ofDigitChars_ten_toDigits]

theorem toList_placesText (places units : ℕ) : (placesText places units).toList =
    if places = 0 then paddedDigits places units
    else (paddedDigits places units).take ((paddedDigits places units).length - places)
      ++ '.' :: (paddedDigits places units).drop ((paddedDigits places units).length - places) := by
  unfold placesText
  dsimp only
  rw [← paddedDigits]
  split_ifs
  · exact String.toList_ofList
  · rw [String.toList_append, String.toList_append, String.toList_ofList, List.append_assoc]
    simp

/-- A count of units is written as the number that it stands for. -/
theorem writesUnsigned_placesText (places units : ℕ) :
    WritesUnsigned (placesText places units).toList units (-(places : ℤ)) := by
  have hlength := lt_length_paddedDigits places units
  have hdigits := areDigits_paddedDigits places units
  rw [toList_placesText]
  split_ifs with hzero
  · refine ⟨paddedDigits places units, [], hdigits, by simp [AreDigits], ?_, .inr ⟨rfl, rfl⟩,
      ?_, ?_⟩
    · rw [List.append_nil]
      exact List.ne_nil_of_length_pos (Nat.zero_lt_of_lt hlength)
    · rw [List.append_nil, digitsFrom_paddedDigits]
    · rw [hzero]
      rfl
  · refine ⟨_, _, fun c hc => hdigits c (List.mem_of_mem_take hc),
      fun c hc => hdigits c (List.mem_of_mem_drop hc), ?_, .inl rfl, ?_, ?_⟩
    · rw [List.take_append_drop]
      exact List.ne_nil_of_length_pos (Nat.zero_lt_of_lt hlength)
    · rw [List.take_append_drop, digitsFrom_paddedDigits]
    · rw [List.length_drop]
      omega

/-- What is written of a finite double is its sign and the nearest count of units. -/
theorem fixed_of_isFinite (places : ℕ) (h : x.isFinite = true) : ∃ units : ℕ,
    fixed places x = signText x ++ placesText places units ∧
      |size (pattern x) * 10 ^ places - units| ≤ 1 / 2 := by
  obtain ⟨hdefined, mantissa, exponent, hsize⟩ := exists_size?_of_isFinite h
  have hden := quotient_den_pos mantissa exponent
  refine ⟨roundDiv .toEven ((quotient mantissa exponent).1 * Nat.pow 10 places)
    (quotient mantissa exponent).2, ?_, ?_⟩
  · rw [fixed, if_neg hdefined, units?, hsize]
    rfl
  · have hround := abs_sub_roundDiv_le .toEven
      ((quotient mantissa exponent).1 * Nat.pow 10 places) hden
    have hvalue : (((quotient mantissa exponent).1 * Nat.pow 10 places : ℕ) : ℚ)
        / (quotient mantissa exponent).2 = size (pattern x) * 10 ^ places := by
      rw [size_pattern hsize, ← quotient_eq, Nat.pow_eq]
      push_cast
      ring
    rwa [hvalue] at hround

/-- The characters of signs and of the names of numbers that are not finite. -/
def nameChars : List Char := ['-', 'N', 'a', 'i', 'n', 'f']

/-- The characters that a double with a fixed number of places is written with. -/
def IsFixedChar (c : Char) : Prop := IsUnsignedChar c ∨ c ∈ nameChars

theorem forall_mem_fixed (places : ℕ) (x : Float) :
    ∀ c ∈ (fixed places x).toList, IsFixedChar c := by
  have hnan : "NaN".toList ⊆ nameChars := by
    rw [show "NaN".toList = ['N', 'a', 'N'] by simp]
    decide
  have hinf : "inf".toList ⊆ nameChars := by
    rw [show "inf".toList = ['i', 'n', 'f'] by simp]
    decide
  have hsign : (signText x).toList ⊆ nameChars := by
    unfold signText
    split_ifs
    · rw [show "-".toList = ['-'] by simp]
      decide
    · simp
  intro c hc
  unfold fixed at hc
  split_ifs at hc
  · exact .inr (hnan hc)
  · rw [String.toList_append, List.mem_append] at hc
    rcases hc with hc | hc
    · exact .inr (hsign hc)
    · split at hc
      · exact .inr (hinf hc)
      · exact .inl ((writesUnsigned_placesText _ _).forall_mem c hc)

end Soundstage.Style
