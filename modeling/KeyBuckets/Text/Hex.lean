/-!
# Text — hexadecimal digits
-/

namespace KeyBuckets.Text

/-- The value of an ASCII hexadecimal digit of either case. -/
def hexValue? (c : Char) : Option Nat :=
  if '0' ≤ c ∧ c ≤ '9' then some (c.toNat - 48)
  else if 'A' ≤ c ∧ c ≤ 'F' then some (c.toNat - 55)
  else if 'a' ≤ c ∧ c ≤ 'f' then some (c.toNat - 87)
  else none

def isHexDigit (c : Char) : Bool :=
  (hexValue? c).isSome

/-- The digits are three runs of code points. -/
theorem cases_of_hexValue? {c : Char} {n : Nat} (h : hexValue? c = some n) :
    (48 ≤ c.toNat ∧ c.toNat ≤ 57 ∧ n = c.toNat - 48)
      ∨ (65 ≤ c.toNat ∧ c.toNat ≤ 70 ∧ n = c.toNat - 55)
      ∨ (97 ≤ c.toNat ∧ c.toNat ≤ 102 ∧ n = c.toNat - 87) := by
  unfold hexValue? at h
  split at h
  · next hdigit =>
    injection h with h
    exact .inl ⟨hdigit.1, hdigit.2, h.symm⟩
  · split at h
    · next hdigit =>
      injection h with h
      exact .inr (.inl ⟨hdigit.1, hdigit.2, h.symm⟩)
    · split at h
      · next hdigit =>
        injection h with h
        exact .inr (.inr ⟨hdigit.1, hdigit.2, h.symm⟩)
      · cases h

theorem hexValue?_lt {c : Char} {n : Nat} (h : hexValue? c = some n) : n < 16 := by
  rcases cases_of_hexValue? h with hdigit | hdigit | hdigit <;> omega

theorem toNat_lt_of_hexValue? {c : Char} {n : Nat} (h : hexValue? c = some n) : c.toNat < 128 := by
  rcases cases_of_hexValue? h with hdigit | hdigit | hdigit <;> omega

end KeyBuckets.Text
