/-!
# Text — decimal numerals

A numeral is an optional plus sign and at least one ASCII digit; leading zeros are
allowed. Reading it fails when the value does not fit below a bound.
-/

namespace KeyBuckets.Text.Numeral

/-- The digits of a numeral, without the plus sign that may stand before them. -/
def digitsOf : List Char → List Char
  | '+' :: cs => cs
  | cs => cs

/-- The value of a numeral, if the text is one and its value is below `bound`. -/
def read? (bound : Nat) (cs : List Char) : Option Nat :=
  let ds := digitsOf cs
  if ds ≠ [] ∧ ds.all Char.isDigit ∧ Nat.ofDigitChars 10 ds 0 < bound then
    some (Nat.ofDigitChars 10 ds 0)
  else
    none

theorem repr_ne_nil (n : Nat) : n.repr.toList ≠ [] := by
  rw [Nat.toList_repr]
  exact Nat.toDigits_ne_nil

theorem isDigit_of_mem_repr {n : Nat} {c : Char} (h : c ∈ n.repr.toList) : c.isDigit = true := by
  rw [Nat.toList_repr] at h
  exact Nat.isDigit_of_mem_toDigits (by decide) (by decide) h

end KeyBuckets.Text.Numeral
