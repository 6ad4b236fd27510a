import Mathlib
import Soundstage.Number.Scalar
import Soundstage.Proofs.Number.Numeral
import Soundstage.Proofs.Number.Plain
import Soundstage.Proofs.Number.Written
import Soundstage.Proofs.Text.LineEnd
import Soundstage.Proofs.Text.Padding

/-!
# The grammar of reported numerals

A number that a tool reports may have an exponent behind its digits. `Numeral.WritesScientific` says
how such a number is written, without a reader, and `readFloat?_isLength_iff` that the lengths that
are read are those that texts of this grammar are rounded to: what is read from the names of
infinity and of the undefined number is no length.
-/

namespace Soundstage.Numeral

open Binary64

/-- An exponent with its mark: digits with a sign, where a plus sign may be left out. -/
def WritesExponent (text : List Char) (negative : Bool) (digits : List Char) : Prop :=
  ∃ mark sign, text = mark :: (sign ++ digits) ∧ (mark = 'e' ∨ mark = 'E') ∧
    SignText negative sign ∧ AreDigits digits ∧ digits ≠ []

/-- An exponent and the power of ten that it stands for, which is zero where none is written. -/
def WritesPower (text : List Char) (power : ℤ) : Prop :=
  (text = [] ∧ power = 0) ∨ ∃ negative digits, WritesExponent text negative digits ∧
    power = if negative then -(digitsFrom 0 digits : ℤ) else digitsFrom 0 digits

/-- A number is written as a sign, digits, perhaps a point with more digits, and perhaps an
exponent. -/
def WritesScientific (text : List Char) (n : Numeral) : Prop :=
  ∃ sign unsigned exponent scale power, text = sign ++ (unsigned ++ exponent) ∧
    SignText n.negative sign ∧ WritesUnsigned unsigned n.digits scale ∧
    WritesPower exponent power ∧ n.scale = scale + power

section Exponent

variable {text digits : List Char} {negative : Bool} {power : ℤ}

theorem splitSign_append_digits {sign : List Char} (hsign : SignText negative sign)
    (hdigits : AreDigits digits) : splitSign (sign ++ digits) = (negative, digits) :=
  splitSign_append hsign fun c hc => .inl (hdigits c (List.mem_of_mem_head? hc))

theorem exponent?_eq_some_iff : exponent? text = some power ↔ WritesPower text power := by
  cases text with
  | nil =>
    constructor
    · intro h
      exact .inl ⟨rfl, (Option.some.inj h).symm⟩
    · rintro (⟨-, rfl⟩ | ⟨negative, digits, ⟨mark, sign, htext, -⟩, -⟩)
      · rfl
      · cases htext
  | cons mark rest =>
    constructor
    · intro h
      obtain ⟨sign, hrest, hsign⟩ := exists_splitSign rest
      unfold exponent? at h
      dsimp only at h
      generalize splitSign rest = parts at h hrest hsign
      obtain ⟨negative, digits⟩ := parts
      split at h
      · next hmark =>
        dsimp only at h
        split at h
        · cases h
        · next hcheck =>
          obtain ⟨hne, hall⟩ : digits ≠ [] ∧ AreDigits digits := by
            simpa [AreDigits] using hcheck
          exact .inr ⟨negative, digits,
            ⟨mark, sign, by rw [hrest], by simpa using hmark, hsign, hall, hne⟩,
            (Option.some.inj h).symm⟩
      · cases h
    · rintro (⟨htext, -⟩ | ⟨negative, digits, ⟨mark', sign, htext, hmark, hsign, hall, hne⟩, rfl⟩)
      · cases htext
      · obtain ⟨rfl, rfl⟩ := List.cons.inj htext
        have hcheck : ¬ (digits.isEmpty || !digits.all isDigit) = true := by
          simpa [AreDigits, hne] using hall
        have hletter : (decide (mark = 'e') || decide (mark = 'E')) = true := by
          simpa using hmark
        unfold exponent?
        dsimp only
        rw [if_pos hletter, splitSign_append_digits hsign hall]
        exact if_neg hcheck

theorem WritesPower.head? (h : WritesPower text power) :
    ∀ c ∈ text.head?, ¬ IsUnsignedChar c := by
  obtain ⟨rfl, -⟩ | ⟨negative, digits, ⟨mark, sign, rfl, hmark, -⟩, -⟩ := h
  · simp
  · intro c hc
    obtain rfl : mark = c := Option.some.inj hc
    obtain rfl | rfl := hmark <;> unfold IsUnsignedChar <;> decide

end Exponent

section Scientific

variable {text : List Char} {n : Numeral} {x : Float}

theorem WritesUnsigned.head?_append {unsigned : List Char} {digits : ℕ} {scale : ℤ}
    (h : WritesUnsigned unsigned digits scale) (rest : List Char) :
    ∀ c ∈ (unsigned ++ rest).head?, IsUnsignedChar c := by
  obtain ⟨first, others, rfl⟩ := List.exists_cons_of_ne_nil h.ne_nil
  intro c hc
  obtain rfl : first = c := Option.some.inj hc
  exact h.forall_mem first List.mem_cons_self

/-- A text is read as a number exactly if it writes that number. -/
theorem ofScientific?_eq_some_iff : ofScientific? text = some n ↔ n.WritesScientific text := by
  constructor
  · intro h
    obtain ⟨sign, htext, hsign⟩ := exists_splitSign text
    unfold ofScientific? at h
    dsimp only at h
    split at h
    · next digits scale rest hunsigned =>
      obtain ⟨power, hpower, rfl⟩ := Option.map_eq_some_iff.mp h
      obtain ⟨unsigned, hsplit, hwrites⟩ := exists_writesUnsigned hunsigned
      exact ⟨sign, unsigned, rest, scale, power, by rw [← hsplit, ← htext], hsign, hwrites,
        exponent?_eq_some_iff.mp hpower, rfl⟩
    · cases h
  · rintro ⟨sign, unsigned, exponent, scale, power, rfl, hsign, hunsigned, hpower, hscale⟩
    rw [ofScientific?, splitSign_append hsign (hunsigned.head?_append exponent)]
    dsimp only
    rw [unsigned?_append hunsigned hpower.head?]
    dsimp only
    rw [exponent?_eq_some_iff.mpr hpower, Option.map_some, ← hscale]

/-- A numeral is not spelled like a name. -/
theorem IsUnsignedChar.toLower_eq {c : Char} (h : IsUnsignedChar c) : c.toLower = c := by
  refine Char.toLower_eq_of_not_isUpper fun hupper => ?_
  have hle : 65 ≤ c.toNat := by
    simp only [Char.isUpper, decide_eq_true_eq] at hupper
    exact hupper.1
  obtain hdigit | rfl := h
  · have hrange := isDigit_iff.mp hdigit
    omega
  · exact absurd hle (by decide)

theorem not_isFinite_infinity (negative : Bool) : ¬ (infinity negative).isFinite = true := by
  rw [(rounds_infinity (le_refl _)).isFinite_iff]
  exact lt_irrefl _

theorem not_isFinite_undefined : ¬ (infinity false - infinity false).isFinite = true := by
  decide

/-- A numeral is not read as a name. -/
theorem WritesScientific.readFloat?_eq (h : n.WritesScientific text) :
    readFloat? text = some n.toFloat := by
  have hread := ofScientific?_eq_some_iff.mpr h
  obtain ⟨sign, unsigned, exponent, scale, power, rfl, hsign, hunsigned, -⟩ := h
  have hhead := hunsigned.head?_append exponent
  have hname : ∀ name : String, (∃ c ∈ name.toList.head?, ¬ IsUnsignedChar c) →
      String.ofList ((unsigned ++ exponent).map Char.toLower) ≠ name := by
    rintro _ ⟨letter, hletter, hno⟩ rfl
    rw [String.toList_ofList, List.head?_map] at hletter
    obtain ⟨first, hfirst, rfl⟩ := Option.map_eq_some_iff.mp hletter
    rw [(hhead first hfirst).toLower_eq] at hno
    exact hno (hhead first hfirst)
  have hinf := hname "inf" ⟨'i', rfl, by unfold IsUnsignedChar; decide⟩
  have hinfinity := hname "infinity" ⟨'i', rfl, by unfold IsUnsignedChar; decide⟩
  have hnan := hname "nan" ⟨'n', rfl, by unfold IsUnsignedChar; decide⟩
  unfold readFloat?
  rw [splitSign_append hsign hhead, hread]
  simp only [hinf, hinfinity, hnan, decide_false, Bool.or_self, Bool.false_eq_true, if_false,
    Option.map_some]

/-- The lengths that texts are read as are the ones that the numbers they write are rounded to. -/
theorem readFloat?_isLength_iff : (readFloat? text = some x ∧ Scalar.IsLength x) ↔
    ∃ n : Numeral, n.WritesScientific text ∧ Rounds n.negative n.size x ∧ Scalar.IsLength x := by
  constructor
  · rintro ⟨h, hlength⟩
    unfold readFloat? at h
    dsimp only at h
    split_ifs at h with hinfinity hnan
    · obtain rfl := Option.some.inj h
      exact absurd hlength.1 (not_isFinite_infinity _)
    · obtain rfl := Option.some.inj h
      exact absurd hlength.1 not_isFinite_undefined
    · obtain ⟨n, hn, rfl⟩ := Option.map_eq_some_iff.mp h
      exact ⟨n, ofScientific?_eq_some_iff.mp hn, n.rounds_toFloat, hlength⟩
  · rintro ⟨n, hwrites, hrounds, hlength⟩
    rw [hwrites.readFloat?_eq, n.rounds_toFloat.unique n.size_nonneg hrounds]
    exact ⟨rfl, hlength⟩

/-- A plain number is one without an exponent. -/
theorem Writes.scientific (h : n.Writes text) : n.WritesScientific text := by
  obtain ⟨sign, unsigned, rfl, hsign, hunsigned⟩ := h
  exact ⟨sign, unsigned, [], n.scale, 0, by rw [List.append_nil], hsign, hunsigned, .inl ⟨rfl, rfl⟩,
    (add_zero _).symm⟩

theorem WritesPower.isSolid {power : ℤ} (h : WritesPower text power) : Text.IsSolid text := by
  obtain ⟨rfl, -⟩ | ⟨negative, digits, ⟨mark, sign, rfl, hmark, hsign, hdigits, -⟩, -⟩ := h
  · exact fun c hc => absurd hc List.not_mem_nil
  · have hsolid : Text.IsSolid [mark] := by
      intro c hc
      obtain rfl := List.mem_singleton.mp hc
      obtain rfl | rfl := hmark <;> rfl
    exact hsolid.append (hsign.isSolid.append hdigits.isSolid)

theorem WritesScientific.isSolid (h : n.WritesScientific text) : Text.IsSolid text := by
  obtain ⟨sign, unsigned, exponent, scale, power, rfl, hsign, hunsigned, hpower, -⟩ := h
  exact hsign.isSolid.append (hunsigned.isSolid.append hpower.isSolid)

theorem WritesScientific.ne_nil (h : n.WritesScientific text) : text ≠ [] := by
  obtain ⟨sign, unsigned, exponent, scale, power, rfl, hsign, hunsigned, -⟩ := h
  simp [hunsigned.ne_nil]

/-- Between blanks, the text writes a number that is rounded to the given double. -/
def WritesDouble (text : List Char) (x : Float) : Prop :=
  ∃ lead numeral trail, text = lead ++ (numeral ++ trail) ∧ Text.AreBlanks lead ∧
    Text.AreBlanks trail ∧ ∃ n : Numeral, n.WritesScientific numeral ∧ Rounds n.negative n.size x

/-- The lengths that are read from texts between blanks. -/
theorem readFloat?_trim_iff : (readFloat? (Text.trim text) = some x ∧ Scalar.IsLength x) ↔
    WritesDouble text x ∧ Scalar.IsLength x := by
  rw [readFloat?_isLength_iff]
  constructor
  · rintro ⟨n, hwrites, hrounds, hlength⟩
    obtain ⟨lead, hstart, hlead, -⟩ := Text.exists_trimStart text
    obtain ⟨trail, hend, htrail⟩ := Text.exists_trimEnd (Text.trimStart text)
    refine ⟨⟨lead, Text.trim text, trail, ?_, hlead, htrail, n, hwrites, hrounds⟩, hlength⟩
    rw [Text.trim, ← hend, ← hstart]
  · rintro ⟨⟨lead, numeral, trail, rfl, hlead, htrail, n, hwrites, hrounds⟩, hlength⟩
    have hnumeral := Text.isLineEnd_of_isSolid hwrites.isSolid hwrites.ne_nil
    rw [Text.trim_pad hlead htrail, hnumeral.trim_eq]
    exact ⟨n, hwrites, hrounds, hlength⟩

/-- What a finite double is written as in the plain style writes that double. -/
theorem writesDouble_text (h : x.isFinite = true) : WritesDouble (Style.plain.text x).toList x := by
  obtain ⟨n, hwrites, hrounds⟩ := Style.exists_writes_text h
  exact ⟨[], (Style.plain.text x).toList, [], by simp, Text.areBlanks_nil, Text.areBlanks_nil, n,
    hwrites.scientific, hrounds⟩

end Scientific

end Soundstage.Numeral
