import Mathlib
import Soundstage.Number.Binary64

/-!
# Sizes of bit patterns

A double without its sign is a number, its bit pattern, and its size grows with that number. Here
`Binary64.size` gives the size of each pattern and goes on in the same way behind the infinity, so
that rounding can be described without a bound. A pattern is a row of sizes with one gap and a place
in that row, as `exists_grid` says; all that is proved about doubles goes by rows and places.
-/

namespace Soundstage.Binary64

/-- The size of a bit pattern without its sign. -/
def size (bits : ℕ) : ℚ :=
  if bits / mantissaFloor = 0 then bits * 2 ^ leastExponent
  else (mantissaFloor + bits % mantissaFloor : ℕ) * 2 ^ ((bits / mantissaFloor : ℕ) - 1075 : ℤ)

theorem mantissaFloor_eq : mantissaFloor = 2 ^ 52 := rfl

/-- The gap between the sizes of a row. -/
def gap (row : ℕ) : ℚ := 2 ^ (row + leastExponent : ℤ)

theorem gap_pos (row : ℕ) : 0 < gap row := by
  unfold gap
  positivity

theorem gap_succ (row : ℕ) : gap (row + 1) = 2 * gap row := by
  unfold gap
  rw [← zpow_one_add₀ two_ne_zero]
  congr 1
  push_cast
  ring

/-- In row zero all places up to the end of the row are taken, in the others only the upper half. -/
def IsPlace (row place : ℕ) : Prop := place ≤ 2 * mantissaFloor ∧ (row = 0 ∨ mantissaFloor ≤ place)

/-- The end of a row is the middle of the next one. -/
theorem size_grid {row place : ℕ} (h : IsPlace row place) :
    size (row * mantissaFloor + place) = place * gap row := by
  obtain ⟨hle, hlow⟩ := h
  have hM : mantissaFloor = 4503599627370496 := rfl
  by_cases hsmall : place < mantissaFloor
  · obtain rfl : row = 0 := by omega
    have hfield : (0 * mantissaFloor + place) / mantissaFloor = 0 := by
      rw [Nat.div_eq_zero_iff]
      omega
    rw [size, if_pos hfield, gap]
    simp
  obtain hmid | hend : place < 2 * mantissaFloor ∨ place = 2 * mantissaFloor := by omega
  · have hfield : (row * mantissaFloor + place) / mantissaFloor = row + 1 := by
      rw [hM] at *
      omega
    have hrest : mantissaFloor + (row * mantissaFloor + place) % mantissaFloor = place := by
      rw [hM] at *
      omega
    rw [size, if_neg (by omega), hrest, hfield, gap, leastExponent]
    congr 2
    push_cast
    ring
  · have hfield : (row * mantissaFloor + place) / mantissaFloor = row + 2 := by
      rw [hM] at *
      omega
    have hrest : (row * mantissaFloor + place) % mantissaFloor = 0 := by
      rw [hM] at *
      omega
    rw [size, if_neg (by omega), hrest, hfield, hend, gap, leastExponent]
    have hexp : ((row + 2 : ℕ) : ℤ) - 1075 = 1 + (row + -1074) := by
      push_cast
      ring
    rw [hexp, zpow_one_add₀ two_ne_zero]
    push_cast
    ring

theorem grid_mod_two (row place : ℕ) : (row * mantissaFloor + place) % 2 = place % 2 := by
  have hM : mantissaFloor = 2 * 2251799813685248 := rfl
  rw [hM]
  omega

/-- Each pattern is a place in a row, below its end. -/
theorem exists_grid (bits : ℕ) : ∃ row place, bits = row * mantissaFloor + place ∧
    IsPlace row place ∧ place < 2 * mantissaFloor := by
  have hM : mantissaFloor = 4503599627370496 := rfl
  refine ⟨bits / mantissaFloor - 1, bits - (bits / mantissaFloor - 1) * mantissaFloor, ?_, ?_⟩
  · rw [hM]
    omega
  · rw [IsPlace, hM]
    omega

theorem size_succ {row place : ℕ} (h : IsPlace row place) (hlt : place < 2 * mantissaFloor) :
    size (row * mantissaFloor + place + 1) = size (row * mantissaFloor + place) + gap row := by
  have hnext : IsPlace row (place + 1) := by
    unfold IsPlace at *
    omega
  rw [add_assoc, size_grid hnext, size_grid h]
  push_cast
  ring

theorem size_strictMono : StrictMono size := by
  apply strictMono_nat_of_lt_succ
  intro bits
  obtain ⟨row, place, rfl, hplace, hlt⟩ := exists_grid bits
  rw [size_succ hplace hlt]
  linarith [gap_pos row]

theorem size_zero : size 0 = 0 := by simp [size]

theorem size_nonneg (bits : ℕ) : 0 ≤ size bits := by
  rw [← size_zero]
  exact size_strictMono.monotone (Nat.zero_le bits)

end Soundstage.Binary64
