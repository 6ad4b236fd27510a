import Mathlib
import Soundstage.Json.Token
import Soundstage.Proofs.Number.Scientific

/-!
# The grammar of numbers in JSON

A number in JSON has digits before its point, no needless zero in front of them, and digits behind
the point if there is one. `Literal.ofText?_eq_some_iff` says that a text is taken apart into a
number exactly if the grammar writes the number so.
-/

namespace Soundstage.Json.Literal

open Numeral (AreDigits SignText WritesExponent isDigit exists_splitSign splitSign
  splitSign_append_digits)

/-- Digits that do not begin with a needless zero. -/
structure IsWholePart (whole : List Char) : Prop where
  digits : AreDigits whole
  ne_nil : whole ≠ []
  leading : whole.head? = some '0' → whole.length = 1

/-- A point with digits behind it, or nothing in place of both. -/
def WritesFraction (text fraction : List Char) : Prop :=
  AreDigits fraction ∧ (text = [] ∧ fraction = [] ∨ text = '.' :: fraction ∧ fraction ≠ [])

/-- An exponent, or nothing in its place. -/
def WritesMarked (text : List Char) : Option (Bool × List Char) → Prop
  | none => text = []
  | some (negative, digits) => WritesExponent text negative digits

/-- A number is written as a minus sign if it is negative, its digits before the point, those behind
the point, and its exponent. -/
def Writes (text : List Char) (n : Literal) : Prop :=
  ∃ fraction exponent,
    text = (if n.negative then ['-'] else []) ++ (n.whole ++ (fraction ++ exponent)) ∧
    IsWholePart n.whole ∧ WritesFraction fraction n.fraction ∧ WritesMarked exponent n.exponent

section Parts

variable {text fraction rest : List Char} {exponent : Option (Bool × List Char)}

theorem exponent?_eq_some_iff : exponent? text = some exponent ↔ WritesMarked text exponent := by
  cases text with
  | nil =>
    constructor
    · intro h
      cases h
      rfl
    · intro h
      cases exponent with
      | none => rfl
      | some parts =>
        obtain ⟨mark, sign, htext, -⟩ := h
        cases htext
  | cons mark rest =>
    constructor
    · intro h
      obtain ⟨sign, hrest, hsign⟩ := exists_splitSign rest
      unfold exponent? at h
      dsimp only at h
      generalize splitSign rest = parts at h hrest hsign
      obtain ⟨negative, digits⟩ := parts
      split at h
      · next hcheck =>
        obtain rfl := Option.some.inj h
        obtain ⟨⟨hmark, hne⟩, hall⟩ :
            ((mark = 'e' ∨ mark = 'E') ∧ digits ≠ []) ∧ AreDigits digits := by
          simpa [AreDigits] using hcheck
        exact ⟨mark, sign, by rw [hrest], hmark, hsign, hall, hne⟩
      · cases h
    · intro h
      cases exponent with
      | none => cases h
      | some parts =>
        obtain ⟨negative, digits⟩ := parts
        obtain ⟨mark', sign, htext, hmark, hsign, hall, hne⟩ := h
        obtain ⟨rfl, rfl⟩ := List.cons.inj htext
        have hcheck : ((decide (mark = 'e') || decide (mark = 'E')) && !digits.isEmpty
            && digits.all isDigit) = true := by
          simpa [hmark, hne, AreDigits] using hall
        unfold exponent?
        dsimp only
        rw [splitSign_append_digits hsign hall]
        exact if_pos hcheck

theorem WritesMarked.head? (h : WritesMarked text exponent) :
    ∀ c ∈ text.head?, c = 'e' ∨ c = 'E' := by
  intro c hc
  match exponent with
  | none =>
    obtain rfl : text = [] := h
    cases hc
  | some (negative, digits) =>
    obtain ⟨mark, sign, rfl, hmark, -⟩ := h
    obtain rfl : mark = c := Option.some.inj hc
    exact hmark

theorem exists_writesFraction (h : fraction? text = some (fraction, rest)) :
    ∃ front, text = front ++ rest ∧ WritesFraction front fraction := by
  unfold fraction? at h
  split at h
  · next after =>
    dsimp only at h
    split at h
    · cases h
    · next hne =>
      obtain ⟨rfl, rfl⟩ := Prod.mk.inj (Option.some.inj h)
      refine ⟨'.' :: after.takeWhile isDigit, ?_, fun c hc => List.mem_takeWhile_imp hc,
        .inr ⟨rfl, by simpa using hne⟩⟩
      rw [List.cons_append, List.takeWhile_append_dropWhile]
  · obtain ⟨rfl, rfl⟩ := Prod.mk.inj (Option.some.inj h)
    exact ⟨[], rfl, fun _ hc => absurd hc List.not_mem_nil, .inl ⟨rfl, rfl⟩⟩

/-- Behind its whole part a number goes on with a point or a mark, or ends. -/
theorem WritesFraction.head?_append {front : List Char} (h : WritesFraction front fraction)
    (hrest : ∀ c ∈ rest.head?, c = 'e' ∨ c = 'E') :
    ∀ c ∈ (front ++ rest).head?, isDigit c = false := by
  intro c hc
  obtain ⟨-, ⟨rfl, -⟩ | ⟨rfl, -⟩⟩ := h
  · obtain rfl | rfl := hrest c hc <;> rfl
  · obtain rfl : '.' = c := Option.some.inj hc
    rfl

theorem fraction?_append {front : List Char} (h : WritesFraction front fraction)
    (hrest : ∀ c ∈ rest.head?, c = 'e' ∨ c = 'E') :
    fraction? (front ++ rest) = some (fraction, rest) := by
  obtain ⟨hdigits, ⟨rfl, rfl⟩ | ⟨rfl, hne⟩⟩ := h
  · unfold fraction?
    split
    · next after heq =>
      rw [List.nil_append] at heq
      exact absurd (hrest '.' (by rw [heq]; rfl)) (by decide)
    · rfl
  · have hstop : ∀ c ∈ rest.head?, isDigit c = false := by
      intro c hc
      obtain rfl | rfl := hrest c hc <;> rfl
    unfold fraction?
    simp [Text.takeWhile_append_of_forall hdigits hstop,
      Text.dropWhile_append_of_forall hdigits hstop, hne]

end Parts

variable {text : List Char} {n : Literal}

/-- The minus sign of a number is seen from its first character. -/
theorem Writes.head?_iff (h : n.Writes text) : text.head? = some '-' ↔ n.negative = true := by
  obtain ⟨fraction, exponent, rfl, hwhole, -⟩ := h
  obtain ⟨d, whole, hd⟩ := List.exists_cons_of_ne_nil hwhole.ne_nil
  have hne : d ≠ '-' := by
    rintro rfl
    exact absurd (hwhole.digits '-' (by simp [hd])) (by decide)
  cases n.negative <;> simp [hd, hne]

/-- A text is taken apart into a number exactly if it writes that number. -/
theorem ofText?_eq_some_iff : ofText? text = some n ↔ n.Writes text := by
  constructor
  · intro h
    unfold ofText? at h
    dsimp only at h
    generalize hunsigned : (if text.head? = some '-' then text.drop 1 else text)
      = unsigned at h
    have hsplit := List.takeWhile_append_dropWhile (p := isDigit) (l := unsigned)
    have hdigits : AreDigits (unsigned.takeWhile isDigit) := fun c hc => List.mem_takeWhile_imp hc
    split at h
    · cases h
    · next hcheck =>
      simp only [Option.bind_eq_bind, Option.bind_eq_some_iff, Option.pure_def, Option.some.injEq,
        Prod.exists] at h
      obtain ⟨fraction, rest, hfraction, exponent, hexponent, rfl⟩ := h
      obtain ⟨front, hfront, hwrites⟩ := exists_writesFraction hfraction
      have hwhole : unsigned.takeWhile isDigit ≠ [] ∧
          ((unsigned.takeWhile isDigit).head? = some '0' →
            (unsigned.takeWhile isDigit).length = 1) := by
        simpa using hcheck
      refine ⟨front, rest, ?_, ⟨hdigits, hwhole.1, hwhole.2⟩, hwrites,
        exponent?_eq_some_iff.mp hexponent⟩
      rw [← hfront, hsplit, ← hunsigned]
      by_cases hsign : text.head? = some '-'
      · obtain ⟨others, rfl⟩ := List.head?_eq_some_iff.mp hsign
        rfl
      · simp [hsign]
  · intro h
    have hhead := h.head?_iff
    obtain ⟨fraction, exponent, htext, hwhole, hfraction, hexponent⟩ := h
    have hunsigned : (if n.negative = true then text.drop 1 else text)
        = n.whole ++ (fraction ++ exponent) := by
      rw [htext]
      cases n.negative <;> rfl
    have hstop := hfraction.head?_append hexponent.head?
    have hcheck : (n.whole.isEmpty || (n.whole.head? = some '0' && n.whole.length ≠ 1))
        = false := by
      simpa [hwhole.ne_nil] using hwhole.leading
    simp only [ofText?, hhead, hunsigned, Text.takeWhile_append_of_forall hwhole.digits hstop,
      Text.dropWhile_append_of_forall hwhole.digits hstop, hcheck,
      fraction?_append hfraction hexponent.head?, exponent?_eq_some_iff.mpr hexponent,
      Bool.false_eq_true, if_false, Option.pure_def, Option.bind_eq_bind, Option.bind_some,
      Bool.decide_eq_true]

theorem isNumeric_of_isDigit {c : Char} (h : isDigit c = true) :
    Token.isNumeric (some c) = true := by
  simp [Token.isNumeric, h]

theorem WritesFraction.isNumeric {fraction : List Char} (h : WritesFraction text fraction) :
    ∀ c ∈ text, Token.isNumeric (some c) = true := by
  obtain ⟨hdigits, ⟨rfl, -⟩ | ⟨rfl, -⟩⟩ := h
  · exact fun c hc => absurd hc List.not_mem_nil
  · intro c hc
    obtain rfl | hc := List.mem_cons.mp hc
    · rfl
    · exact isNumeric_of_isDigit (hdigits c hc)

theorem isNumeric_of_signText {negative : Bool} {sign : List Char} (h : SignText negative sign) :
    ∀ c ∈ sign, Token.isNumeric (some c) = true := by
  intro c hc
  obtain rfl | rfl := h.eq_of_mem hc <;> rfl

theorem WritesMarked.isNumeric {exponent : Option (Bool × List Char)}
    (h : WritesMarked text exponent) : ∀ c ∈ text, Token.isNumeric (some c) = true := by
  intro c hc
  match exponent with
  | none =>
    obtain rfl : text = [] := h
    cases hc
  | some (negative, digits) =>
    obtain ⟨mark, sign, rfl, hmark, hsign, hdigits, -⟩ := h
    obtain rfl | hc := List.mem_cons.mp hc
    · obtain rfl | rfl := hmark <;> rfl
    · obtain hc | hc := List.mem_append.mp hc
      · exact isNumeric_of_signText hsign c hc
      · exact isNumeric_of_isDigit (hdigits c hc)

/-- A number has no other characters than those by which its end is found. -/
theorem Writes.isNumeric (h : n.Writes text) : ∀ c ∈ text, Token.isNumeric (some c) = true := by
  obtain ⟨fraction, exponent, rfl, hwhole, hfraction, hexponent⟩ := h
  intro c hc
  obtain hc | hc := List.mem_append.mp hc
  · split_ifs at hc
    · obtain rfl := List.mem_singleton.mp hc
      rfl
    · exact absurd hc List.not_mem_nil
  · obtain hc | hc := List.mem_append.mp hc
    · exact isNumeric_of_isDigit (hwhole.digits c hc)
    · obtain hc | hc := List.mem_append.mp hc
      · exact hfraction.isNumeric c hc
      · exact hexponent.isNumeric c hc

end Soundstage.Json.Literal
