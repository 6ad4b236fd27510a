import Mathlib
import Soundstage.Number.Numeral
import Soundstage.Proofs.Text.Word

/-!
# The grammar of plain numerals

`Numeral.Writes` says how a number of a script is written, without a reader. `ofPlain?_eq_some_iff`
says that the reader takes these texts and no others.
-/

namespace Soundstage.Numeral

/-- Decimal digits only. -/
def AreDigits (s : List Char) : Prop := ∀ c ∈ s, isDigit c = true

/-- How the sign of a number is written: a plus sign may be left out. -/
def SignText (negative : Bool) (s : List Char) : Prop :=
  if negative then s = ['-'] else s = [] ∨ s = ['+']

/-- Digits and perhaps a point with more digits, at least one digit in all. -/
def WritesUnsigned (text : List Char) (digits : ℕ) (scale : ℤ) : Prop :=
  ∃ whole fraction : List Char, AreDigits whole ∧ AreDigits fraction ∧ whole ++ fraction ≠ []
    ∧ (text = whole ++ '.' :: fraction ∨ (fraction = [] ∧ text = whole))
    ∧ digits = digitsFrom 0 (whole ++ fraction) ∧ scale = -(fraction.length : ℤ)

/-- A number is written as a sign, digits, and perhaps a point with more digits. -/
def Writes (text : List Char) (n : Numeral) : Prop :=
  ∃ sign unsigned, text = sign ++ unsigned ∧ SignText n.negative sign ∧
    WritesUnsigned unsigned n.digits n.scale

/-- A character of a numeral behind its sign. -/
def IsUnsignedChar (c : Char) : Prop := isDigit c = true ∨ c = '.'

theorem isDigit_iff {c : Char} : isDigit c = true ↔ 48 ≤ c.toNat ∧ c.toNat ≤ 57 := by
  simp only [isDigit, Bool.and_eq_true, decide_eq_true_eq]
  exact Iff.rfl

theorem isBlank_of_isDigit {c : Char} (h : isDigit c = true) : isBlank c = false := by
  rw [isDigit_iff] at h
  simp only [isBlank, Bool.or_eq_false_iff, Bool.and_eq_false_iff, beq_eq_false_iff_ne,
    decide_eq_false_iff_not]
  omega

theorem digitsFrom_append (n : ℕ) (s t : List Char) :
    digitsFrom n (s ++ t) = digitsFrom (digitsFrom n s) t := List.foldl_append

section Unsigned

variable {text rest : List Char} {digits : ℕ} {scale : ℤ}

theorem WritesUnsigned.forall_mem (h : WritesUnsigned text digits scale) :
    ∀ c ∈ text, IsUnsignedChar c := by
  obtain ⟨whole, fraction, hwhole, hfraction, -, rfl | ⟨-, rfl⟩, -⟩ := h
  · intro c hc
    rcases List.mem_append.mp hc with hc | hc
    · exact .inl (hwhole c hc)
    · rcases List.mem_cons.mp hc with rfl | hc
      · exact .inr rfl
      · exact .inl (hfraction c hc)
  · exact fun c hc => .inl (hwhole c hc)

theorem WritesUnsigned.ne_nil (h : WritesUnsigned text digits scale) : text ≠ [] := by
  obtain ⟨whole, fraction, -, -, hne, rfl | ⟨rfl, rfl⟩, -⟩ := h
  · exact List.append_ne_nil_of_right_ne_nil _ (List.cons_ne_nil _ _)
  · simpa using hne

/-- What is read as digits and a point is written so, and stands in front of what is left. -/
theorem exists_writesUnsigned (h : unsigned? text = some (digits, scale, rest)) :
    ∃ unsigned, text = unsigned ++ rest ∧ WritesUnsigned unsigned digits scale := by
  have hsplit := List.takeWhile_append_dropWhile (p := isDigit) (l := text)
  have hwhole : AreDigits (text.takeWhile isDigit) := fun c hc => List.mem_takeWhile_imp hc
  unfold unsigned? at h
  dsimp only at h
  generalize text.takeWhile isDigit = whole at h hsplit hwhole
  generalize text.dropWhile isDigit = behind at h hsplit
  split at h
  · next after =>
    have hafter := List.takeWhile_append_dropWhile (p := isDigit) (l := after)
    have hfraction : AreDigits (after.takeWhile isDigit) := fun c hc => List.mem_takeWhile_imp hc
    generalize after.takeWhile isDigit = fraction at h hafter hfraction
    split at h
    · exact absurd h (by simp)
    · next hsome =>
      simp only [Option.some.injEq, Prod.mk.injEq] at h
      obtain ⟨hdigits, hscale, hrest⟩ := h
      rw [hrest] at hafter
      refine ⟨whole ++ '.' :: fraction, ?_, whole, fraction, hwhole, hfraction, ?_, .inl rfl, ?_,
        hscale.symm⟩
      · rw [List.append_assoc, List.cons_append, hafter, hsplit]
      · simpa using hsome
      · rw [digitsFrom_append, hdigits]
  · split at h
    · exact absurd h (by simp)
    · next hsome =>
      simp only [Option.some.injEq, Prod.mk.injEq] at h
      obtain ⟨hdigits, hscale, rfl⟩ := h
      refine ⟨whole, hsplit.symm, whole, [], hwhole, by simp [AreDigits], ?_, .inr ⟨rfl, rfl⟩, ?_,
        ?_⟩
      · simpa using hsome
      · rw [List.append_nil, hdigits]
      · rw [← hscale]
        rfl

/-- What is written as digits and a point is read so, up to the first other character. -/
theorem unsigned?_append (h : WritesUnsigned text digits scale)
    (hrest : ∀ c ∈ rest.head?, ¬ IsUnsignedChar c) :
    unsigned? (text ++ rest) = some (digits, scale, rest) := by
  have hstop : ∀ c ∈ rest.head?, isDigit c = false :=
    fun c hc => Bool.eq_false_iff.mpr fun hdigit => hrest c hc (.inl hdigit)
  obtain ⟨whole, fraction, hwhole, hfraction, hne, htext, rfl, rfl⟩ := h
  rcases htext with rfl | ⟨rfl, rfl⟩
  · have hpoint : ∀ c ∈ ('.' :: (fraction ++ rest)).head?, isDigit c = false := by
      intro c hc
      obtain rfl : '.' = c := Option.some.inj hc
      rfl
    rw [List.append_assoc, List.cons_append, unsigned?,
      Text.takeWhile_append_of_forall hwhole hpoint, Text.dropWhile_append_of_forall hwhole hpoint]
    change (if (whole.isEmpty && ((fraction ++ rest).takeWhile isDigit).isEmpty) = true then none
      else some (_, _, (fraction ++ rest).dropWhile isDigit)) = _
    rw [Text.takeWhile_append_of_forall hfraction hstop,
      Text.dropWhile_append_of_forall hfraction hstop, if_neg (by simpa using hne),
      digitsFrom_append]
  · rw [List.append_nil] at hne
    rw [unsigned?, Text.takeWhile_append_of_forall hwhole hstop,
      Text.dropWhile_append_of_forall hwhole hstop]
    dsimp only
    split
    · next after => exact absurd (.inr rfl) (hrest '.' rfl)
    · rw [if_neg (by simpa using hne), List.append_nil]
      rfl

end Unsigned

/-- A text is a sign and what follows it. -/
theorem exists_splitSign (text : List Char) : ∃ sign, text = sign ++ (splitSign text).2 ∧
    SignText (splitSign text).1 sign := by
  unfold splitSign
  split
  · exact ⟨['-'], rfl, rfl⟩
  · exact ⟨['+'], rfl, .inr rfl⟩
  · exact ⟨[], rfl, .inl rfl⟩

theorem splitSign_append {negative : Bool} {sign rest : List Char} (hsign : SignText negative sign)
    (hrest : ∀ c ∈ rest.head?, IsUnsignedChar c) : splitSign (sign ++ rest) = (negative, rest) := by
  cases negative with
  | true =>
    obtain rfl : sign = ['-'] := hsign
    rfl
  | false =>
    obtain rfl | rfl : sign = [] ∨ sign = ['+'] := hsign
    · rw [List.nil_append, splitSign.eq_def]
      split
      · exact absurd (hrest '-' rfl) (by unfold IsUnsignedChar; decide)
      · exact absurd (hrest '+' rfl) (by unfold IsUnsignedChar; decide)
      · rfl
    · rfl

/-- A text is read as a number exactly if it writes that number. -/
theorem ofPlain?_eq_some_iff {text : List Char} {n : Numeral} :
    ofPlain? text = some n ↔ n.Writes text := by
  constructor
  · intro h
    obtain ⟨sign, htext, hsign⟩ := exists_splitSign text
    unfold ofPlain? at h
    dsimp only at h
    split at h
    · next hunsigned =>
      obtain rfl := Option.some.inj h
      obtain ⟨unsigned, hsplit, hwrites⟩ := exists_writesUnsigned hunsigned
      rw [List.append_nil] at hsplit
      exact ⟨sign, _, htext, hsign, hsplit ▸ hwrites⟩
    · exact absurd h (by simp)
  · rintro ⟨sign, rest, rfl, hsign, hrest⟩
    have hhead : ∀ c ∈ rest.head?, IsUnsignedChar c :=
      fun c hc => hrest.forall_mem c (List.mem_of_mem_head? hc)
    have hread : unsigned? (rest ++ []) = some (n.digits, n.scale, []) :=
      unsigned?_append hrest nofun
    rw [List.append_nil] at hread
    rw [ofPlain?, splitSign_append hsign hhead]
    dsimp only
    rw [hread]

theorem AreDigits.isSolid {digits : List Char} (h : AreDigits digits) : Text.IsSolid digits :=
  fun c hc => isBlank_of_isDigit (h c hc)

/-- A sign is written with no other characters than these. -/
theorem SignText.eq_of_mem {negative : Bool} {sign : List Char} (h : SignText negative sign)
    {c : Char} (hc : c ∈ sign) : c = '-' ∨ c = '+' := by
  cases negative with
  | true =>
    obtain rfl : sign = ['-'] := h
    exact .inl (List.mem_singleton.mp hc)
  | false =>
    obtain rfl | rfl : sign = [] ∨ sign = ['+'] := h
    · exact absurd hc List.not_mem_nil
    · exact .inr (List.mem_singleton.mp hc)

theorem SignText.isSolid {negative : Bool} {sign : List Char} (h : SignText negative sign) :
    Text.IsSolid sign := by
  intro c hc
  obtain rfl | rfl := h.eq_of_mem hc <;> rfl

theorem WritesUnsigned.isSolid {text : List Char} {digits : ℕ} {scale : ℤ}
    (h : WritesUnsigned text digits scale) : Text.IsSolid text := by
  intro c hc
  obtain hdigit | rfl := h.forall_mem c hc
  · exact isBlank_of_isDigit hdigit
  · rfl

theorem Writes.isSolid {text : List Char} {n : Numeral} (h : n.Writes text) :
    Text.IsSolid text := by
  obtain ⟨sign, rest, rfl, hsign, hrest⟩ := h
  exact hsign.isSolid.append hrest.isSolid

theorem Writes.ne_nil {text : List Char} {n : Numeral} (h : n.Writes text) : text ≠ [] := by
  obtain ⟨sign, rest, rfl, -, hrest⟩ := h
  exact List.append_ne_nil_of_right_ne_nil _ hrest.ne_nil

end Soundstage.Numeral
