import Mathlib
import Soundstage.Number.Style
import Soundstage.Proofs.Number.Numeral
import Soundstage.Proofs.Number.Plain
import Soundstage.Proofs.Number.Shortest

/-!
# Written doubles read back

In the plain style a finite double is written as a sign, digits and perhaps a point, never with an
exponent, and `exists_writes_text` says that what is written is rounded to that double again.
-/

namespace Soundstage

open Binary64 Numeral

theorem Numeral.digitsFrom_eq (n : ℕ) (ds : List Char) :
    digitsFrom n ds = Nat.ofDigitChars 10 ds n := rfl

theorem Numeral.areDigits_toDigits (n : ℕ) : AreDigits (Nat.toDigits 10 n) := by
  intro c hc
  have h := Nat.isDigit_of_mem_toDigits (by decide) (by decide) hc
  rw [isDigit_iff]
  simp only [Char.isDigit, Bool.and_eq_true, decide_eq_true_eq] at h
  exact h

theorem Numeral.areDigits_replicate (n : ℕ) : AreDigits (List.replicate n '0') := by
  intro c hc
  rw [(List.mem_replicate.mp hc).2]
  rfl

theorem Numeral.AreDigits.append {s t : List Char} (hs : AreDigits s) (ht : AreDigits t) :
    AreDigits (s ++ t) :=
  fun c hc => (List.mem_append.mp hc).elim (hs c) (ht c)

theorem Numeral.digitsFrom_zeros_append (k : ℕ) (ds : List Char) :
    digitsFrom 0 (List.replicate k '0' ++ ds) = digitsFrom 0 ds := by
  rw [digitsFrom_append, digitsFrom_eq, digitsFrom_eq 0 (List.replicate k '0'),
    Nat.ofDigitChars_replicate_zero, Nat.mul_zero]
  rfl

theorem Numeral.digitsFrom_zero_zeros_append (k : ℕ) (ds : List Char) :
    digitsFrom 0 (['0'] ++ (List.replicate k '0' ++ ds)) = digitsFrom 0 ds := by
  rw [← List.append_assoc, ← List.replicate_one, List.replicate_append_replicate,
    digitsFrom_zeros_append]

theorem Numeral.digitsFrom_append_zeros (ds : List Char) (k : ℕ) :
    digitsFrom 0 (ds ++ List.replicate k '0') = 10 ^ k * digitsFrom 0 ds := by
  rw [digitsFrom_append, digitsFrom_eq, Nat.ofDigitChars_replicate_zero]

namespace Style

/-- Digits with a point among, before or behind them write the number that the place of the point
tells. -/
theorem writesUnsigned_positionalText {ds : List Char} (hds : AreDigits ds) (hne : ds ≠ [])
    (point : ℤ) :
    ∃ digits scale, WritesUnsigned (plain.positionalText ds point).toList digits scale ∧
      Decimal.value ⟨digits, scale⟩ = Decimal.value ⟨digitsFrom 0 ds, point - ds.length⟩ := by
  unfold positionalText
  split_ifs with hbefore hbehind
  · refine ⟨_, _, ⟨['0'], List.replicate (-point).toNat '0' ++ ds, areDigits_replicate 1,
      (areDigits_replicate _).append hds, List.cons_ne_nil _ _, .inl ?_, rfl, rfl⟩, ?_⟩
    · rw [String.toList_append, String.toList_ofList, String.toList_ofList]
      rfl
    · have hscale : -((List.replicate (-point).toNat '0' ++ ds).length : ℤ)
          = point - ds.length := by
        rw [List.length_append, List.length_replicate]
        omega
      rw [digitsFrom_zero_zeros_append, hscale]
  · refine ⟨_, _, ⟨ds ++ List.replicate (point.toNat - ds.length) '0', [],
      hds.append (areDigits_replicate _), by simp [AreDigits], by simp [hne], .inr ⟨rfl, ?_⟩,
      rfl, rfl⟩, ?_⟩
    · rw [String.toList_append, String.toList_ofList]
      exact List.append_nil _
    · obtain ⟨k, hk⟩ : ∃ k : ℕ, point - ds.length = k := ⟨(point - ds.length).toNat, by omega⟩
      have hcount : point.toNat - ds.length = k := by omega
      rw [List.append_nil, digitsFrom_append_zeros, hcount, hk, Decimal.value, Decimal.value]
      push_cast
      rw [List.length_nil, Nat.cast_zero, neg_zero, zpow_zero, zpow_natCast]
      ring
  · refine ⟨_, _, ⟨ds.take point.toNat, ds.drop point.toNat,
      fun c hc => hds c (List.mem_of_mem_take hc), fun c hc => hds c (List.mem_of_mem_drop hc),
      by rwa [List.take_append_drop], .inl ?_, rfl, rfl⟩, ?_⟩
    · rw [String.toList_append, String.toList_append, String.toList_ofList, String.toList_ofList,
        String.toList_ofList, List.append_assoc]
      rfl
    · have hscale : -((ds.drop point.toNat).length : ℤ) = point - ds.length := by
        rw [List.length_drop]
        omega
      rw [List.take_append_drop, hscale]

/-- A decimal is written as digits and a point that stand for it. -/
theorem writesUnsigned_decimalText (d : Decimal) : ∃ digits scale,
    WritesUnsigned (plain.decimalText d).toList digits scale ∧
      Decimal.value ⟨digits, scale⟩ = d.value := by
  unfold decimalText
  split_ifs with hzero
  · refine ⟨0, 0, ⟨['0'], [], areDigits_replicate 1, by simp [AreDigits], by simp,
      .inr ⟨rfl, rfl⟩, rfl, rfl⟩, ?_⟩
    rw [Decimal.value, Decimal.value, hzero, Nat.cast_zero, zero_mul, zero_mul]
  · have hdigits : digitsFrom 0 (Nat.toDigits 10 d.digits) = d.digits := by
      rw [digitsFrom_eq, Nat.ofDigitChars_ten_toDigits]
    obtain ⟨digits, scale, hwrites, hvalue⟩ := writesUnsigned_positionalText
      (areDigits_toDigits d.digits) Nat.toDigits_ne_nil
      ((Nat.toDigits 10 d.digits).length + d.exponent)
    rw [hdigits, add_sub_cancel_left] at hvalue
    exact ⟨digits, scale, hwrites, hvalue⟩

theorem signText_signText (x : Float) : SignText (isNegative x) (signText x).toList := by
  unfold signText
  cases isNegative x with
  | true => rfl
  | false => exact .inl rfl

/-- What a finite double is written as is rounded to that double. -/
theorem exists_writes_text {x : Float} (h : x.isFinite = true) : ∃ n : Numeral,
    n.Writes (plain.text x).toList ∧ Rounds n.negative n.size x := by
  obtain ⟨hdefined, mantissa, exponent, hsize⟩ := exists_size?_of_isFinite h
  obtain ⟨digits, scale, hwrites, hvalue⟩ :=
    writesUnsigned_decimalText (shortest plain.halves mantissa exponent)
  refine ⟨⟨isNegative x, digits, scale⟩, ⟨_, _, ?_, signText_signText x, hwrites⟩, ?_⟩
  · rw [text, if_neg hdefined, hsize, String.toList_append]
  · have hnearest := isNearest_shortest plain.halves hsize
    rw [← hvalue] at hnearest
    exact rounds_of_isNearest rfl hnearest (min_eq_right ((isFinite_iff x).mp h).le).symm

end Style

end Soundstage
