import KeyBuckets.Text.Pieces

/-!
# Text — white space and words

White space is the Unicode property `White_Space`, not the ASCII class: a no-break
space or an ideographic space separates words too, while a zero-width space does
not.
-/

namespace KeyBuckets.Text

/-- The code points with the Unicode property `White_Space`, as first and last of
each unbroken stretch. -/
def blankStretches : List (Nat × Nat) :=
  [(0x09, 0x0D), (0x20, 0x20), (0x85, 0x85), (0xA0, 0xA0), (0x1680, 0x1680), (0x2000, 0x200A),
   (0x2028, 0x2029), (0x202F, 0x202F), (0x205F, 0x205F), (0x3000, 0x3000)]

def isBlank (c : Char) : Bool :=
  blankStretches.any fun (first, last) => first ≤ c.toNat && c.toNat ≤ last

/-- The words of a text: its longest stretches without white space. -/
def words (cs : List Char) : List (List Char) :=
  (pieces isBlank cs).filter (· ≠ [])

/-- A word holds no white space and is not empty, so a text of that kind is one word. -/
theorem words_of_forall_not_blank {xs : List Char} (hne : xs ≠ [])
    (h : ∀ c ∈ xs, isBlank c = false) : words xs = [xs] := by
  simp [words, pieces_of_forall_not isBlank h, hne]

/-- A blank separates the words on its left from those on its right. -/
theorem words_append_cons (xs ys : List Char) {c : Char} (hc : isBlank c = true) :
    words (xs ++ c :: ys) = words xs ++ words ys := by
  simp [words, pieces_append_cons isBlank xs ys hc]

theorem not_blank_of_isDigit {c : Char} (h : c.isDigit = true) : isBlank c = false := by
  have hrange : 48 ≤ c.toNat ∧ c.toNat ≤ 57 := Char.isDigit_iff_toNat.mp h
  simp [isBlank, blankStretches]
  omega

end KeyBuckets.Text
