import KeyBuckets.Fingerprint

/-!
# Canonical form — which digits it has, and which one it starts with

The canonical form of a fingerprint starts with the digit that the fingerprint itself starts
with, unless the mark of hexadecimal numbers stands before it: the mark starts with a zero,
and the canonical form is without it. All its digits are upper-case ones, as no character has
a capital form with a small letter in it.

* **`IsForm`**, **`isForm_of_canonical`** — what canonical forms look like.
* **`leadingValue?_canonical`** — the digit in front.
-/

namespace KeyBuckets.Text

/-! ## Capital forms and small letters -/

/-- The character is none of the small letters of ASCII. -/
def NotSmall (c : Char) : Prop :=
  c.toNat < 97 ∨ 122 < c.toNat

instance (c : Char) : Decidable (NotSmall c) :=
  inferInstanceAs (Decidable (_ ∨ _))

/-- ASCII characters can be looked at one by one. -/
theorem of_forall_ascii {P : Char → Prop} (h : ∀ n < 128, P (Char.ofNat n)) {c : Char}
    (hc : c.toNat < 128) : P c := by
  have hn := h c.toNat hc
  rwa [Char.ofNat_toNat] at hn

theorem notSmall_ofNat {n : Nat} (h : n < 97 ∨ 122 < n) : NotSmall (Char.ofNat n) := by
  unfold Char.ofNat
  by_cases hvalid : n.isValidChar
  · rw [dif_pos hvalid]
    exact h
  · rw [dif_neg hvalid]
    exact .inl (by decide)

theorem notSmall_of_mem_capitalForm {c d : Char} (h : d ∈ capitalForm c) : NotSmall d := by
  unfold capitalForm at h
  split at h
  · next hascii =>
    rw [List.mem_singleton.mp h]
    exact of_forall_ascii (P := fun c => NotSmall c.toUpper) (by decide) hascii
  · next hascii =>
    split at h
    · next form hform =>
      have hall : ∀ pair ∈ longCapitals, ∀ n ∈ pair.2, NotSmall (Char.ofNat n) := by decide
      obtain ⟨before, after, htable, -⟩ := List.lookup_eq_some_iff.mp hform
      obtain ⟨n, hn, rfl⟩ := List.mem_map.mp h
      exact hall (c.toNat, form) (by rw [htable]; simp) n hn
    · split at h
      · next run hrun =>
        -- the runs lead beyond the small letters, but for two of one character
        have hall : ∀ run ∈ caseRuns, 122 < run.capital
            ∨ run.last = run.first ∧ run.capital < 97 := by decide +kernel
        have hcovers : run.covers c.toNat = true := by simpa using List.find?_some hrun
        rw [List.mem_singleton.mp h]
        refine notSmall_ofNat ?_
        unfold CaseRun.covers at hcovers
        simp only [Bool.and_eq_true, decide_eq_true_eq] at hcovers
        rcases hall run (List.mem_of_find?_eq_some hrun) with hbeyond | ⟨hsingle, hbefore⟩
        · exact .inr (by omega)
        · exact .inl (by omega)
      · rw [List.mem_singleton.mp h]
        exact .inr (by omega)

theorem notSmall_of_mem_upperCase {cs : List Char} {d : Char} (h : d ∈ upperCase cs) :
    NotSmall d := by
  obtain ⟨c, -, hd⟩ := List.mem_flatMap.mp h
  exact notSmall_of_mem_capitalForm hd

/-- ASCII characters are put in upper case one by one. -/
theorem upperCase_of_ascii {cs : List Char} (h : ∀ c ∈ cs, c.toNat < 0x80) :
    upperCase cs = cs.map Char.toUpper := by
  induction cs with
  | nil => rfl
  | cons c cs ih =>
    obtain ⟨hc, hcs⟩ := List.forall_mem_cons.mp h
    rw [upperCase_cons, capitalForm_ascii hc, ih hcs, List.map_cons, List.singleton_append]

end KeyBuckets.Text

namespace KeyBuckets.Fingerprint

open Text

/-- The mark of hexadecimal numbers stands before a text. -/
def Marked (text : String) : Prop :=
  withoutMark text.toList ≠ text.toList

instance (text : String) : Decidable (Marked text) :=
  inferInstanceAs (Decidable (withoutMark text.toList ≠ text.toList))

/-! ## Digits and upper case -/

theorem hexValue?_toUpper {c : Char} {n : Nat} (h : hexValue? c = some n) :
    hexValue? c.toUpper = some n := by
  have hsame := of_forall_ascii (P := fun c => hexValue? c.toUpper = hexValue? c) (by decide)
    (toNat_lt_of_hexValue? h)
  exact hsame.trans h

/-! ## The digit in front -/

theorem canonicalChars_eq_ok {cs ds : List Char} (h : canonicalChars cs = .ok ds) :
    ds = upperCase (withoutMark cs) ∧ (∀ d ∈ ds, isHexDigit d = true)
      ∧ (ds.length = 40 ∨ ds.length = 64) := by
  unfold canonicalChars at h
  split at h
  · cases h
  · dsimp only at h
    split at h
    · cases h
    · next hdigits =>
      split at h
      · next hlength =>
        cases h
        exact ⟨rfl, by simpa using hdigits, hlength⟩
      · cases h

theorem canonical_eq_ok {text form : String} (h : canonical text = .ok form) :
    canonicalChars text.toList = .ok form.toList := by
  unfold canonical at h
  split at h
  · next ds hds =>
    cases h
    rw [hds, String.toList_ofList]
  · cases h

/-- A digit of canonical forms. -/
def IsFormDigit (c : Char) : Prop :=
  ('0' ≤ c ∧ c ≤ '9') ∨ ('A' ≤ c ∧ c ≤ 'F')

instance (c : Char) : Decidable (IsFormDigit c) :=
  inferInstanceAs (Decidable (_ ∨ _))

/-- A text that can be a canonical form: 40 or 64 upper-case hexadecimal digits. -/
structure IsForm (text : String) : Prop where
  digits : ∀ c ∈ text.toList, IsFormDigit c
  length : text.length = 40 ∨ text.length = 64

theorem IsFormDigit.toUpper_eq {c : Char} (h : IsFormDigit c) : c.toUpper = c := by
  unfold Char.toUpper
  refine dif_neg fun hsmall => ?_
  have hfirst : 'a' ≤ c := hsmall.1
  rcases h with ⟨-, hlast⟩ | ⟨-, hlast⟩ <;> exact absurd (Char.le_trans hfirst hlast) (by decide)

theorem toNat_lt_of_isFormDigit_toUpper {c : Char} (h : IsFormDigit c.toUpper) :
    c.toNat < 0x80 := by
  unfold Char.toUpper at h
  split at h
  · next hsmall =>
    have hlast : c.val ≤ 'z'.val := hsmall.2
    exact Nat.lt_of_le_of_lt hlast (by decide)
  · rcases h with ⟨-, hlast⟩ | ⟨-, hlast⟩
    · exact Nat.lt_of_le_of_lt hlast (by decide)
    · exact Nat.lt_of_le_of_lt hlast (by decide)

theorem IsForm.toList_ne_nil {form : String} (h : IsForm form) : form.toList ≠ [] := by
  intro hempty
  have hlength := h.length
  rw [← String.length_toList, hempty, List.length_nil] at hlength
  omega

/-- A form in letters of either case is put in upper case. -/
theorem IsForm.upperCase_eq {form : String} {text : List Char} (hform : IsForm form)
    (htext : text.map Char.toUpper = form.toList) : upperCase text = form.toList := by
  rw [← htext]
  refine upperCase_of_ascii fun c hc => toNat_lt_of_isFormDigit_toUpper (hform.digits _ ?_)
  rw [← htext]
  exact List.mem_map_of_mem hc

theorem isForm_replicate {c : Char} {n : Nat} (hdigit : IsFormDigit c) (hlength : n = 40 ∨ n = 64) :
    IsForm (String.ofList (List.replicate n c)) where
  digits := by
    rw [String.toList_ofList]
    intro d hd
    rwa [List.eq_of_mem_replicate hd]
  length := by rwa [String.length_ofList, List.length_replicate]

theorem isFormDigit_of_isHexDigit {c : Char} (hdigit : isHexDigit c = true)
    (hcapital : NotSmall c) : IsFormDigit c := by
  obtain ⟨value, hvalue⟩ := Option.isSome_iff_exists.mp hdigit
  unfold NotSmall at hcapital
  rcases cases_of_hexValue? hvalue with ⟨hlow, hhigh, -⟩ | ⟨hlow, hhigh, -⟩ | ⟨hlow, hhigh, -⟩
  · exact .inl ⟨hlow, hhigh⟩
  · exact .inr ⟨hlow, hhigh⟩
  · omega

/-- **Canonical forms are forms.** -/
theorem isForm_of_canonical {text form : String} (h : canonical text = .ok form) : IsForm form := by
  obtain ⟨hform, hdigits, hlength⟩ := canonicalChars_eq_ok (canonical_eq_ok h)
  refine ⟨fun c hc => ?_, by rwa [String.length_toList] at hlength⟩
  rw [hform] at hc
  exact isFormDigit_of_isHexDigit (hdigits c (hform ▸ hc)) (notSmall_of_mem_upperCase hc)

theorem canonical_eq_error {text : String} {e : Error} (h : canonical text = .error e) :
    ∃ fault, e = .invalidFingerprint text fault := by
  unfold canonical at h
  split at h
  · cases h
  · next fault _ =>
    cases h
    exact ⟨fault, rfl⟩

theorem leadingValue?_of_canonical {text form : String} (h : canonical text = .ok form) :
    ∃ value, leadingValue? form = some value := by
  obtain ⟨-, hdigits, hlength⟩ := canonicalChars_eq_ok (canonical_eq_ok h)
  unfold leadingValue?
  cases hform : form.toList with
  | nil =>
    rw [hform] at hlength
    simp at hlength
  | cons d ds =>
    rw [hform] at hdigits
    have hd := hdigits d List.mem_cons_self
    exact Option.isSome_iff_exists.mp hd

theorem leadingValue?_of_marked {text : String} (h : Marked text) :
    leadingValue? text = some 0 := by
  unfold Marked withoutMark at h
  unfold leadingValue?
  split at h
  · next heq => rw [heq]; rfl
  · next heq => rw [heq]; rfl
  · exact absurd rfl h

/-- Without a mark the first digit is the first digit of the canonical form. -/
theorem leadingValue?_canonical {text form : String} {value : Nat} (h : canonical text = .ok form)
    (hmark : ¬ Marked text) (hvalue : leadingValue? text = some value) :
    leadingValue? form = some value := by
  obtain ⟨hform, -, -⟩ := canonicalChars_eq_ok (canonical_eq_ok h)
  rw [Decidable.not_not.mp hmark] at hform
  unfold leadingValue? at hvalue ⊢
  rw [hform]
  cases htext : text.toList with
  | nil =>
    rw [htext] at hvalue
    cases hvalue
  | cons c cs =>
    rw [htext] at hvalue
    -- a digit is ASCII, so its capital form is one character and the first of the form
    have hc : hexValue? c = some value := hvalue
    rw [upperCase_cons, capitalForm_ascii (toNat_lt_of_hexValue? hc)]
    exact hexValue?_toUpper hc

end KeyBuckets.Fingerprint
