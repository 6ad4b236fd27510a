import Mathlib
import Soundstage.Number.Shortest
import Soundstage.Proofs.Number.Decimal
import Soundstage.Proofs.Number.Quotient

/-!
# Rounding intervals

`RoundingInterval.around` gives the numbers that round to a pattern as an interval over a common
denominator, and `contains_around_iff` says that it holds exactly the decimals whose nearest pattern
this is. The numbers of one pattern have no gaps between them, as `IsNearest.between` says.
-/

namespace Soundstage

namespace Binary64

theorem IsNearest.between {a b c : ℚ} {bits : ℕ} (ha : IsNearest a bits) (hb : IsNearest b bits)
    (hac : a ≤ c) (hcb : c ≤ b) : IsNearest c bits where
  le := hcb.trans hb.le
  ge previous hprevious := (ha.ge previous hprevious).trans hac
  even_of_eq h := hb.even_of_eq (le_antisymm hb.le (h ▸ hcb))
  even_of_eq_previous previous hprevious h :=
    ha.even_of_eq_previous previous hprevious
      (le_antisymm (h ▸ hac) (ha.ge previous hprevious))

/-- A pattern is the nearest one between the middles around it, which belong to it if it is even. -/
theorem isNearest_succ_iff {v : ℚ} {previous : ℕ} : IsNearest v (previous + 1) ↔
    if (previous + 1) % 2 = 0 then middle previous ≤ v ∧ v ≤ middle (previous + 1)
    else middle previous < v ∧ v < middle (previous + 1) := by
  split_ifs with heven
  · constructor
    · exact fun h => ⟨h.ge previous rfl, h.le⟩
    · rintro ⟨hge, hle⟩
      refine ⟨hle, ?_, fun _ => heven, fun _ _ _ => heven⟩
      rintro _ hprevious
      rwa [← Nat.succ.inj hprevious]
  · constructor
    · intro h
      refine ⟨lt_of_le_of_ne (h.ge previous rfl) fun heq => ?_, lt_of_le_of_ne h.le fun heq => ?_⟩
      · exact heven (h.even_of_eq_previous previous rfl heq.symm)
      · exact heven (h.even_of_eq heq)
    · rintro ⟨hge, hle⟩
      refine ⟨hle.le, ?_, fun h => absurd h hle.ne, ?_⟩ <;> intro previous' hprevious <;>
        obtain rfl := Nat.succ.inj hprevious
      · exact hge.le
      · exact fun h => absurd h hge.ne'

theorem isNearest_of_between {v : ℚ} {previous : ℕ} (hge : middle previous < v)
    (hle : v < middle (previous + 1)) : IsNearest v (previous + 1) := by
  rw [isNearest_succ_iff]
  split_ifs
  · exact ⟨hge.le, hle.le⟩
  · exact ⟨hge, hle⟩

/-- How far below a place of a row the middle before it lies, in quarters of the gap: below a power
of two the gap is half as wide. -/
def quartersBelow (row place : ℕ) : ℕ := if place = mantissaFloor ∧ 0 < row then 1 else 2

theorem middle_before {row place previous : ℕ} (h : IsPlace row place)
    (hlt : place < 2 * mantissaFloor) (hprevious : row * mantissaFloor + place = previous + 1) :
    middle previous = (place - quartersBelow row place / 4) * gap row := by
  unfold quartersBelow
  split_ifs with hnarrow
  · obtain ⟨rfl, hrow⟩ := hnarrow
    obtain ⟨row, rfl⟩ := Nat.exists_eq_add_of_lt hrow
    have hbefore : previous = row * mantissaFloor + (2 * mantissaFloor - 1) := by
      unfold mantissaFloor at *
      omega
    have hplace : IsPlace row (2 * mantissaFloor - 1) := ⟨by decide, .inr (by decide)⟩
    rw [hbefore, middle_grid hplace (by decide), zero_add, gap_succ, mantissaFloor]
    push_cast
    ring
  · obtain ⟨place, rfl⟩ : ∃ place', place = place' + 1 := by
      refine ⟨place - 1, ?_⟩
      unfold IsPlace at h
      have : 0 < mantissaFloor := by decide
      rcases Nat.eq_zero_or_pos row with rfl | hrow <;> omega
    have hplace : IsPlace row place := by
      unfold IsPlace at *
      omega
    obtain rfl : previous = row * mantissaFloor + place := by omega
    rw [middle_grid hplace (by omega)]
    push_cast
    ring

end Binary64

namespace RoundingInterval

open Binary64

theorem contains_iff {i : RoundingInterval} (hden : 0 < i.den) (d : Decimal) :
    i.contains d = true ↔
      if i.closed = true then (i.low / i.den : ℚ) ≤ d.value ∧ d.value ≤ i.high / i.den
      else (i.low / i.den : ℚ) < d.value ∧ d.value < i.high / i.den := by
  have hden' : (0 : ℚ) < i.den := by exact_mod_cast hden
  have hscale : (0 : ℚ) < (Nat.pow 10 (-d.exponent).toNat : ℕ) := by
    exact_mod_cast Nat.pow_pos (by decide)
  rw [Decimal.value_eq_div, div_le_div_iff₀ hden' hscale, div_le_div_iff₀ hscale hden',
    div_lt_div_iff₀ hden' hscale, div_lt_div_iff₀ hscale hden']
  unfold contains
  dsimp only
  split_ifs <;> rw [decide_eq_true_eq] <;> exact_mod_cast Iff.rfl

theorem around_den_pos (mantissa : ℕ) (exponent : ℤ) : 0 < (around mantissa exponent).den :=
  quotient_den_pos 1 (exponent - 2)

/-- The ends and the value of an interval are counts of one unit, a quarter of the gap. -/
theorem unit_eq (row count mantissa : ℕ) :
    ((count * (quotient 1 (row + leastExponent - 2)).1 : ℕ) : ℚ)
      / (around mantissa (row + leastExponent)).den = count / 4 * gap row := by
  have hunit := quotient_eq 1 (row + leastExponent - 2)
  have hgap : (2 : ℚ) ^ ((row : ℤ) + leastExponent - 2) = gap row / 4 := by
    rw [zpow_sub₀ two_ne_zero, gap]
    norm_num
  rw [hgap, Nat.cast_one, one_mul] at hunit
  change _ / ((quotient 1 (row + leastExponent - 2)).2 : ℚ) = _
  rw [Nat.cast_mul, mul_div_assoc, hunit]
  ring

theorem around_value (row place : ℕ) :
    ((around place (row + leastExponent)).value : ℚ) / (around place (row + leastExponent)).den
      = place * gap row := by
  refine (unit_eq row (4 * place) place).trans ?_
  push_cast
  ring

theorem around_high (row place : ℕ) :
    ((around place (row + leastExponent)).high : ℚ) / (around place (row + leastExponent)).den
      = (place + 1 / 2) * gap row := by
  refine (unit_eq row (4 * place + 2) place).trans ?_
  push_cast
  ring

theorem around_low {row place : ℕ} (hpos : 0 < place) :
    ((around place (row + leastExponent)).low : ℚ) / (around place (row + leastExponent)).den
      = (place - quartersBelow row place / 4) * gap row := by
  have hcount : (around place (row + leastExponent)).low
      = (4 * place - quartersBelow row place) * (quotient 1 (row + leastExponent - 2)).1 := by
    have hrow : leastExponent < row + leastExponent ↔ 0 < row := by omega
    simp only [around, quartersBelow, hrow]
  have hle : quartersBelow row place ≤ 4 * place := by
    unfold quartersBelow
    split_ifs <;> omega
  rw [hcount, unit_eq, Nat.cast_sub hle]
  push_cast
  ring

/-- The interval around a place of a row holds the decimals whose nearest pattern is that place. -/
theorem contains_around_iff {row place : ℕ} (h : IsPlace row place)
    (hlt : place < 2 * mantissaFloor) (hpos : 0 < place) (d : Decimal) :
    (around place (row + leastExponent)).contains d = true ↔
      IsNearest d.value (row * mantissaFloor + place) := by
  obtain ⟨previous, hprevious⟩ : ∃ previous, row * mantissaFloor + place = previous + 1 :=
    ⟨row * mantissaFloor + place - 1, by omega⟩
  have hclosed : (around place (row + leastExponent)).closed = true ↔ (previous + 1) % 2 = 0 := by
    rw [← hprevious, grid_mod_two]
    exact decide_eq_true_iff
  rw [contains_iff (around_den_pos _ _), around_low hpos, around_high, hprevious,
    isNearest_succ_iff, ← hprevious, middle_before h hlt hprevious, middle_grid h hlt, hprevious]
  simp only [hclosed]

end RoundingInterval

end Soundstage
