import Mathlib
import Soundstage.Json.Record
import Soundstage.Proofs.Json.Compact
import Soundstage.Proofs.Json.Numeral
import Soundstage.Proofs.Number.Order
import Soundstage.Proofs.Number.Written

/-!
# Saved numbers

A finite double and a count are each saved as a number that is taken apart into its digits again.
What is read from a number is finite, and is the saved double itself if its digits fit into 53 bits
and its power of ten is small; in general the reader may miss the double by its last place.
-/

namespace Soundstage.Json

open Binary64 Numeral

namespace Literal

/-- A number that can be written: digits before the point, with no zero in front of others, and at
least one digit in an exponent. -/
structure IsSound (n : Literal) : Prop where
  whole : AreDigits n.whole
  whole_ne_nil : n.whole ≠ []
  leading : n.whole.head? = some '0' → n.whole.length = 1
  fraction : AreDigits n.fraction
  exponent : ∀ negative digits, n.exponent = some (negative, digits) →
    AreDigits digits ∧ digits ≠ []

/-- The point and the digits after it. -/
def fractionText (fraction : List Char) : List Char :=
  if fraction = [] then [] else '.' :: fraction

/-- An exponent with its sign. -/
def exponentText : Option (Bool × List Char) → List Char
  | none => []
  | some (negative, digits) => 'e' :: (if negative then '-' else '+') :: digits

/-- A number without its sign. -/
def unsignedText (n : Literal) : List Char :=
  n.whole ++ (fractionText n.fraction ++ exponentText n.exponent)

/-- A number as it is written. -/
def text (n : Literal) : List Char := (if n.negative then ['-'] else []) ++ n.unsignedText

theorem writesFraction_fractionText {fraction : List Char} (h : AreDigits fraction) :
    WritesFraction (fractionText fraction) fraction := by
  refine ⟨h, ?_⟩
  unfold fractionText
  split_ifs with hnil
  · exact .inl ⟨rfl, hnil⟩
  · exact .inr ⟨rfl, hnil⟩

theorem writesMarked_exponentText {exponent : Option (Bool × List Char)}
    (h : ∀ negative digits, exponent = some (negative, digits) → AreDigits digits ∧ digits ≠ []) :
    WritesMarked (exponentText exponent) exponent := by
  match exponent with
  | none => rfl
  | some (negative, digits) =>
    obtain ⟨hdigits, hne⟩ := h negative digits rfl
    cases negative with
    | true => exact ⟨'e', ['-'], rfl, .inl rfl, rfl, hdigits, hne⟩
    | false => exact ⟨'e', ['+'], rfl, .inl rfl, .inr rfl, hdigits, hne⟩

/-- The text of a number writes the number. -/
theorem IsSound.writes {n : Literal} (h : n.IsSound) : n.Writes n.text :=
  ⟨fractionText n.fraction, exponentText n.exponent, rfl,
    ⟨h.whole, h.whole_ne_nil, h.leading⟩, writesFraction_fractionText h.fraction,
    writesMarked_exponentText h.exponent⟩

/-- What is written is taken apart again. -/
theorem IsSound.ofText?_text {n : Literal} (h : n.IsSound) : ofText? n.text = some n :=
  ofText?_eq_some_iff.mpr h.writes

theorem IsSound.isNumber_text {n : Literal} (h : n.IsSound) : IsNumber n.text :=
  ⟨h.writes.isNumeric, n, h.ofText?_text⟩

/-- The power of ten that an exponent writes. -/
def exponentValue : Option (Bool × List Char) → ℤ
  | none => 0
  | some (negative, digits) => if negative then -(digitsFrom 0 digits) else digitsFrom 0 digits

/-- The number without its sign, as its digits and a power of ten. -/
def decimal (n : Literal) : Decimal :=
  ⟨digitsFrom 0 (n.whole ++ n.fraction), exponentValue n.exponent - n.fraction.length⟩

end Literal

theorem head?_toDigits {n : ℕ} (h : n ≠ 0) : (Nat.toDigits 10 n).head? ≠ some '0' := by
  induction n using Nat.strongRecOn with
  | ind n ih =>
    rcases Nat.lt_or_ge n 10 with hlt | hge
    · rw [Nat.toDigits_of_lt_base hlt]
      simpa using h
    · rw [Nat.toDigits_of_base_le (by decide) hge,
        List.head?_append_of_ne_nil _ Nat.toDigits_ne_nil]
      exact ih (n / 10) (by omega) (by omega)

/-- The text of a saved number that is not negative, as a literal of the given size. -/
def IsSaved (text : List Char) (v : ℚ) : Prop :=
  ∃ n : Literal, n.IsSound ∧ n.negative = false ∧ text = n.unsignedText ∧ n.decimal.value = v

section Layout

variable {ds : List Char}

theorem isSaved_before (hds : AreDigits ds) (hne : ds ≠ []) {point : ℤ} (h : point ≤ 0) :
    IsSaved ('0' :: '.' :: (List.replicate (-point).toNat '0' ++ ds))
      (Decimal.value ⟨digitsFrom 0 ds, point - ds.length⟩) := by
  refine ⟨⟨false, ['0'], List.replicate (-point).toNat '0' ++ ds, none⟩,
    ⟨areDigits_replicate 1, List.cons_ne_nil _ _, fun _ => rfl,
      (areDigits_replicate _).append hds, by simp⟩, rfl, ?_, ?_⟩
  · simp [Literal.unsignedText, Literal.fractionText, Literal.exponentText, hne]
  · have hpower : (0 : ℤ) - (List.replicate (-point).toNat '0' ++ ds).length
        = point - ds.length := by
      rw [List.length_append, List.length_replicate]
      omega
    rw [Literal.decimal, digitsFrom_zero_zeros_append]
    exact congrArg (fun e => Decimal.value ⟨digitsFrom 0 ds, e⟩) hpower

theorem isSaved_behind (hds : AreDigits ds) (hne : ds ≠ []) (hlead : ds.head? ≠ some '0')
    {point : ℤ} (h : ds.length ≤ point) :
    IsSaved (ds ++ List.replicate (point.toNat - ds.length) '0' ++ ['.', '0'])
      (Decimal.value ⟨digitsFrom 0 ds, point - ds.length⟩) := by
  refine ⟨⟨false, ds ++ List.replicate (point.toNat - ds.length) '0', ['0'], none⟩,
    ⟨hds.append (areDigits_replicate _), by simp [hne], ?_, areDigits_replicate 1, by simp⟩, rfl,
    by simp [Literal.unsignedText, Literal.fractionText, Literal.exponentText], ?_⟩
  · intro hzero
    rw [List.head?_append_of_ne_nil _ hne] at hzero
    exact absurd hzero hlead
  · obtain ⟨k, hk⟩ : ∃ k : ℕ, point - ds.length = k := ⟨(point - ds.length).toNat, by omega⟩
    have hcount : point.toNat - ds.length = k := by omega
    have hdigits : digitsFrom 0 (ds ++ List.replicate k '0' ++ ['0'])
        = 10 ^ (k + 1) * digitsFrom 0 ds := by
      rw [← List.replicate_one, List.append_assoc, List.replicate_append_replicate,
        digitsFrom_append_zeros]
    rw [Literal.decimal, hcount, hdigits, hk, Decimal.value, Decimal.value, zpow_natCast]
    simp only [Literal.exponentValue, List.length_singleton, Nat.cast_mul, Nat.cast_pow,
      Nat.cast_ofNat, Nat.cast_one, zero_sub, zpow_neg_one]
    ring

theorem isSaved_among (hds : AreDigits ds) (hlead : ds.head? ≠ some '0') {point : ℤ}
    (hpos : 0 < point) (h : point < ds.length) :
    IsSaved (ds.take point.toNat ++ '.' :: ds.drop point.toNat)
      (Decimal.value ⟨digitsFrom 0 ds, point - ds.length⟩) := by
  have htake : ds.take point.toNat ≠ [] := by
    rw [← List.length_pos_iff, List.length_take]
    omega
  have hdrop : ds.drop point.toNat ≠ [] := by
    rw [← List.length_pos_iff, List.length_drop]
    omega
  refine ⟨⟨false, ds.take point.toNat, ds.drop point.toNat, none⟩,
    ⟨fun c hc => hds c (List.mem_of_mem_take hc), htake, ?_,
      fun c hc => hds c (List.mem_of_mem_drop hc), by simp⟩, rfl, ?_, ?_⟩
  · intro hzero
    rw [List.head?_take, if_neg (by omega)] at hzero
    exact absurd hzero hlead
  · simp [Literal.unsignedText, Literal.fractionText, Literal.exponentText, hdrop]
  · have hpower : (0 : ℤ) - (ds.drop point.toNat).length = point - ds.length := by
      rw [List.length_drop]
      omega
    rw [Literal.decimal, List.take_append_drop]
    exact congrArg (fun e => Decimal.value ⟨digitsFrom 0 ds, e⟩) hpower

theorem isSaved_positionalText (hds : AreDigits ds) (hne : ds ≠ [])
    (hlead : ds.head? ≠ some '0') (point : ℤ) :
    IsSaved (Style.saved.positionalText ds point).toList
      (Decimal.value ⟨digitsFrom 0 ds, point - ds.length⟩) := by
  unfold Style.positionalText
  split_ifs with hbefore hbehind
  · simpa using isSaved_before hds hne hbefore
  · simpa [Style.saved] using isSaved_behind hds hne hlead hbehind
  · simpa using isSaved_among hds hlead (by omega) (by omega)

theorem isSaved_exponentText (hds : AreDigits ds) (hne : ds ≠ []) (power : ℤ) :
    IsSaved (Style.saved.exponentText ds power).toList
      (Decimal.value ⟨digitsFrom 0 ds, power + 1 - ds.length⟩) := by
  obtain ⟨d, rest, rfl⟩ := List.exists_cons_of_ne_nil hne
  refine ⟨⟨false, [d], rest, some (decide (power < 0), Nat.toDigits 10 power.natAbs)⟩,
    ⟨fun c hc => hds c (List.mem_cons.mpr (.inl (List.mem_singleton.mp hc))), by simp,
      fun _ => rfl, fun c hc => hds c (List.mem_cons_of_mem _ hc), ?_⟩, rfl, ?_, ?_⟩
  · rintro negative digits hexponent
    obtain ⟨-, rfl⟩ := Prod.mk.inj (Option.some.inj hexponent)
    exact ⟨areDigits_toDigits _, Nat.toDigits_ne_nil⟩
  · by_cases hneg : power < 0 <;> by_cases hrest : rest = [] <;>
      simp [Style.exponentText, Style.saved, Literal.unsignedText, Literal.fractionText,
        Literal.exponentText, hneg, hrest]
  · have hvalue : Literal.exponentValue (some (decide (power < 0), Nat.toDigits 10 power.natAbs))
        = power := by
      simp only [Literal.exponentValue, digitsFrom_eq, Nat.ofDigitChars_ten_toDigits,
        decide_eq_true_eq]
      split_ifs <;> omega
    have hpower : power - rest.length = power + 1 - (d :: rest).length := by
      rw [List.length_cons]
      omega
    rw [Literal.decimal, hvalue, hpower]
    rfl

end Layout

/-- A decimal is saved as a number of its size. -/
theorem isSaved_decimalText (d : Decimal) : IsSaved (Style.saved.decimalText d).toList d.value := by
  unfold Style.decimalText
  split_ifs with hzero
  · refine ⟨⟨false, ['0'], ['0'], none⟩, ⟨areDigits_replicate 1, by simp, fun _ => rfl,
      areDigits_replicate 1, by simp⟩, rfl, rfl, ?_⟩
    simp [Literal.decimal, digitsFrom, Decimal.value, hzero]
  · have hdigits : digitsFrom 0 (Nat.toDigits 10 d.digits) = d.digits := by
      rw [digitsFrom_eq, Nat.ofDigitChars_ten_toDigits]
    extract_lets digits point
    split_ifs
    · have h := isSaved_positionalText (areDigits_toDigits d.digits) Nat.toDigits_ne_nil
        (head?_toDigits hzero) point
      rwa [hdigits, add_sub_cancel_left] at h
    · have h := isSaved_exponentText (areDigits_toDigits d.digits) Nat.toDigits_ne_nil (point - 1)
      rwa [hdigits, sub_add_cancel, add_sub_cancel_left] at h

/-- A finite double is saved as a sound number with the double's sign, and the double is the one
nearest to that number. -/
theorem exists_literal {x : Float} (h : x.isFinite = true) : ∃ n : Literal, n.IsSound ∧
    (Style.saved.text x).toList = n.text ∧ Rounds n.negative n.decimal.value x := by
  obtain ⟨hdefined, mantissa, exponent, hsize⟩ := exists_size?_of_isFinite h
  obtain ⟨n, hsound, hnegative, htext, hvalue⟩ :=
    isSaved_decimalText (shortest Style.saved.halves mantissa exponent)
  refine ⟨{ n with negative := isNegative x }, { hsound with }, ?_, ?_⟩
  · rw [Style.text, if_neg hdefined, hsize, String.toList_append]
    simp only [htext, Style.signText]
    cases isNegative x <;> rfl
  · have hnearest := isNearest_shortest Style.saved.halves hsize
    rw [← hvalue] at hnearest
    exact rounds_of_isNearest rfl hnearest (min_eq_right ((isFinite_iff x).mp h).le).symm

/-! ## Counts -/

/-- A count as a literal. -/
def Literal.ofCount (n : ℕ) : Literal := ⟨false, Nat.toDigits 10 n, [], none⟩

theorem Literal.isSound_ofCount (n : ℕ) : (Literal.ofCount n).IsSound where
  whole := areDigits_toDigits n
  whole_ne_nil := Nat.toDigits_ne_nil
  leading hzero := by
    rcases Nat.eq_zero_or_pos n with rfl | hpos
    · rfl
    · exact absurd hzero (head?_toDigits hpos.ne')
  fraction := by simp [Literal.ofCount, AreDigits]
  exponent := by simp [Literal.ofCount]

theorem Literal.text_ofCount (n : ℕ) : (Literal.ofCount n).text = n.repr.toList := by
  simp [Literal.ofCount, Literal.text, Literal.unsignedText, Literal.fractionText,
    Literal.exponentText, Nat.toList_repr]

theorem Literal.count?_ofCount {n bound : ℕ} (h : n < bound) :
    (Literal.ofCount n).count? bound = some n := by
  simp [Literal.ofCount, Literal.count?, digitsFrom_eq, Nat.ofDigitChars_ten_toDigits, h]

theorem Tree.isWritten_ofNat (n : ℕ) : (Tree.ofNat n).IsWritten := by
  rw [Tree.ofNat, ← Literal.text_ofCount]
  exact .number (Literal.isSound_ofCount n).isNumber_text

/-- A count below the bound is read back. -/
theorem Tree.count?_ofNat {n bound : ℕ} (h : n < bound) :
    Tree.count? bound (.ofNat n) = some n := by
  rw [Tree.ofNat, ← Literal.text_ofCount, Tree.count?, (Literal.isSound_ofCount n).ofText?_text,
    Option.bind_some, Literal.count?_ofCount h]

theorem Tree.lt_of_count? {tree : Tree} {n bound : ℕ} (h : Tree.count? bound tree = some n) :
    n < bound := by
  unfold Tree.count? at h
  split at h
  · obtain ⟨n, -, hn⟩ := Option.bind_eq_some_iff.mp h
    unfold Literal.count? at hn
    extract_lets value at hn
    split_ifs at hn with hcheck
    simp only [Bool.and_eq_true, decide_eq_true_eq] at hcheck
    rw [← Option.some.inj hn]
    exact hcheck.2
  · exact absurd h (by simp)

end Soundstage.Json
