/-!
# Text — UTF-8 with repairs

Octets are read as UTF-8, and whatever is not UTF-8 is repaired and never refused:
each longest stretch of octets that starts a character but cannot be completed, and
each octet that starts none, is read as one replacement character.

The reader is a machine that looks at one octet at a time. Its state is the
character in progress, if there is one, with the range that the next octet has to
be in: the ranges after `E0`, `ED`, `F0` and `F4` are the narrower ones that keep
out overlong forms, surrogates and numbers above `10FFFF`. An octet outside the
range ends the unfinished character and is then looked at afresh, which is what
makes the replaced stretches the longest ones.
-/

namespace KeyBuckets.Text.Utf8

/-- What stands for octets that are not UTF-8. -/
def replacement : Char := '\uFFFD'

/-- A character in progress. -/
structure Pending where
  /-- How many octets have to follow after the next one. -/
  after : Nat
  /-- The least next octet that continues the character. -/
  low : Nat
  /-- The greatest next octet that continues the character. -/
  high : Nat
  /-- The bits of the character read so far. -/
  value : Nat
  deriving DecidableEq

/-- The first octet of a character: what it yields, and what it leaves in progress. -/
def start (octet : UInt8) : List Char × Option Pending :=
  let n := octet.toNat
  if n < 0x80 then ([Char.ofNat n], none)
  else if n < 0xC2 then ([replacement], none)
  else if n < 0xE0 then ([], some ⟨0, 0x80, 0xBF, n - 0xC0⟩)
  else if n < 0xF0 then
    ([], some ⟨1, if n = 0xE0 then 0xA0 else 0x80, if n = 0xED then 0x9F else 0xBF, n - 0xE0⟩)
  else if n < 0xF5 then
    ([], some ⟨2, if n = 0xF0 then 0x90 else 0x80, if n = 0xF4 then 0x8F else 0xBF, n - 0xF0⟩)
  else ([replacement], none)

/-- One octet: the characters it settles, and what it leaves in progress. -/
def step (state : Option Pending) (octet : UInt8) : List Char × Option Pending :=
  match state with
  | none => start octet
  | some p =>
    if p.low ≤ octet.toNat ∧ octet.toNat ≤ p.high then
      let value := p.value * 64 + (octet.toNat - 0x80)
      match p.after with
      | 0 => ([Char.ofNat value], none)
      | k + 1 => ([], some ⟨k, 0x80, 0xBF, value⟩)
    else
      (replacement :: (start octet).1, (start octet).2)

/-- The characters that the rest of the octets yield. A character still in progress
at the end is replaced. -/
def decodeFrom : Option Pending → List UInt8 → List Char
  | none, [] => []
  | some _, [] => [replacement]
  | state, octet :: rest => (step state octet).1 ++ decodeFrom (step state octet).2 rest

/-- Octets read as UTF-8, with replacement characters for what is not UTF-8. -/
def decode (octets : List UInt8) : List Char :=
  decodeFrom none octets

/-- An ASCII octet ends whatever is in progress, as the end of the octets does, and nothing
reaches across it. -/
theorem step_of_ascii {state : Option Pending} {octet : UInt8} (h : octet.toNat < 0x80)
    (hstate : ∀ p ∈ state, 0x80 ≤ p.low) :
    step state octet = (decodeFrom state [] ++ [Char.ofNat octet.toNat], none) := by
  cases state with
  | none => simp [step, start, h, decodeFrom]
  | some p =>
    have hp := hstate p rfl
    have hout : ¬ (p.low ≤ octet.toNat ∧ octet.toNat ≤ p.high) := by omega
    simp [step, hout, start, h, decodeFrom]

end KeyBuckets.Text.Utf8
