/-!
# Hexadecimal digits

Digits are written in lower case and read in either case.
-/

namespace Soundstage.Hexadecimal

/-- The digit of a number below sixteen. -/
def digit (n : Nat) : Char :=
  if n < 10 then Char.ofNat (48 + n) else Char.ofNat (87 + n)

/-- A number with the given count of digits; higher digits are left out. -/
def fixed (count n : Nat) : List Char :=
  (List.range count).map fun i => digit (n / Nat.pow 16 (count - 1 - i) % 16)

/-- A number without leading zeros. -/
def text (n : Nat) : List Char := Nat.toDigits 16 n

/-- The value of a digit. -/
def value? (c : Char) : Option Nat :=
  if '0' ≤ c ∧ c ≤ '9' then some (c.toNat - 48)
  else if 'a' ≤ c ∧ c ≤ 'f' then some (c.toNat - 87)
  else if 'A' ≤ c ∧ c ≤ 'F' then some (c.toNat - 55)
  else none

end Soundstage.Hexadecimal
