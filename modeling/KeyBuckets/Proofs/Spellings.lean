import KeyBuckets.Proofs.CanonicalForm
import Mathlib.Data.List.Basic

/-!
# Spellings — the texts that have a canonical form

A fingerprint is spelled by its 40 or 64 digits, in letters of either case, with the mark of
hexadecimal numbers before them or without it. A text of ASCII characters is accepted if and only
if it is a spelling. Of all other characters one has a capital form of digits: the ligature of two
small letters f, which comes to two digits. A text with ligatures is no spelling, and it is accepted
if what it comes to is long enough.

* **`canonical_eq_ok_iff`** — which texts are accepted, and what they come to.
* **`accepted_texts`** — the accepted texts that are spellings are those without a ligature.
* **`spellings_of_form`** — a canonical form, all spellings of it, and no other ASCII text.
-/

namespace KeyBuckets.Fingerprint

open Text

/-! ## Digits and the ligature -/

/-- A hexadecimal digit, in a letter of either case. -/
def IsDigit (c : Char) : Prop :=
  IsFormDigit c ∨ ('a' ≤ c ∧ c ≤ 'f')

instance (c : Char) : Decidable (IsDigit c) :=
  inferInstanceAs (Decidable (_ ∨ _))

/-- The ligature of two small letters f. -/
def ligature : Char := '\uFB00'

theorem isHexDigit_iff {c : Char} : isHexDigit c = true ↔ IsDigit c := by
  unfold isHexDigit hexValue? IsDigit IsFormDigit
  grind

theorem IsDigit.toNat_lt {c : Char} (h : IsDigit c) : c.toNat < 128 := by
  obtain ⟨value, hvalue⟩ := Option.isSome_iff_exists.mp (isHexDigit_iff.mpr h)
  exact toNat_lt_of_hexValue? hvalue

theorem IsDigit.toUpper {c : Char} (h : IsDigit c) : IsDigit c.toUpper := by
  obtain ⟨value, hvalue⟩ := Option.isSome_iff_exists.mp (isHexDigit_iff.mpr h)
  exact isHexDigit_iff.mp (Option.isSome_iff_exists.mpr ⟨value, hexValue?_toUpper hvalue⟩)

theorem isDigit_of_toUpper {c : Char} (hascii : c.toNat < 128) (h : IsDigit c.toUpper) :
    IsDigit c :=
  of_forall_ascii (P := fun c => IsDigit c.toUpper → IsDigit c) (by decide) hascii h

theorem not_isDigit_ofNat {n : Nat} (h : 128 ≤ n) : ¬ IsDigit (Char.ofNat n) := by
  intro hdigit
  have hlt := hdigit.toNat_lt
  unfold Char.ofNat at hdigit hlt
  by_cases hvalid : n.isValidChar
  · rw [dif_pos hvalid] at hlt
    exact absurd hlt (Nat.not_lt.mpr h)
  · rw [dif_neg hvalid] at hdigit
    exact absurd hdigit (by decide)

/-- **No other character has a capital form of digits.** -/
theorem isDigit_or_ligature {c : Char} (h : ∀ d ∈ capitalForm c, IsDigit d) :
    IsDigit c ∨ c = ligature := by
  unfold capitalForm at h
  split at h
  · next hascii => exact .inl (isDigit_of_toUpper hascii (h _ List.mem_cons_self))
  · next hascii =>
    split at h
    · next form hform =>
      have hall : ∀ pair ∈ longCapitals, (∀ n ∈ pair.2, IsDigit (Char.ofNat n)) →
          pair.1 = ligature.toNat := by decide
      obtain ⟨before, after, htable, -⟩ := List.lookup_eq_some_iff.mp hform
      have hdigits : ∀ n ∈ form, IsDigit (Char.ofNat n) := by simpa using h
      exact .inr (Char.toNat_inj.mp (hall (c.toNat, form) (by rw [htable]; simp) hdigits))
    · split at h
      · next run hrun =>
        -- the runs lead beyond ASCII, but for two of one character
        have hall : ∀ run ∈ caseRuns, 128 ≤ run.capital
            ∨ run.last = run.first ∧ ¬ IsDigit (Char.ofNat run.capital) := by decide +kernel
        have hcovers : run.covers c.toNat = true := by simpa using List.find?_some hrun
        have hdigit := h _ List.mem_cons_self
        unfold CaseRun.covers at hcovers
        simp only [Bool.and_eq_true, decide_eq_true_eq] at hcovers
        rcases hall run (List.mem_of_find?_eq_some hrun) with hbeyond | ⟨hsingle, hnone⟩
        · exact absurd hdigit (not_isDigit_ofNat (by omega))
        · have hfirst : c.toNat - run.first = 0 := by omega
          rw [hfirst, Nat.add_zero] at hdigit
          exact absurd hdigit hnone
      · exact absurd (h c List.mem_cons_self).toNat_lt (by omega)

/-- What a digit or a ligature comes to in upper case. -/
def capitals (c : Char) : List Char :=
  if c = ligature then ['F', 'F'] else [c.toUpper]

theorem capitalForm_eq_capitals {c : Char} (h : IsDigit c ∨ c = ligature) :
    capitalForm c = capitals c := by
  rcases h with hdigit | rfl
  · have hne : c ≠ ligature := by
      rintro rfl
      exact absurd hdigit (by decide)
    unfold capitals
    rw [if_neg hne, capitalForm_ascii hdigit.toNat_lt]
  · decide

theorem isDigit_of_mem_capitals {c d : Char} (h : IsDigit c ∨ c = ligature)
    (hd : d ∈ capitals c) : IsDigit d := by
  unfold capitals at hd
  split at hd
  · obtain rfl : d = 'F' := by simpa using hd
    decide
  · next hne =>
    rw [List.mem_singleton.mp hd]
    exact (h.resolve_right hne).toUpper

theorem upperCase_eq_capitals {body : List Char} (h : ∀ c ∈ body, IsDigit c ∨ c = ligature) :
    upperCase body = body.flatMap capitals :=
  List.flatMap_congr fun c hc => capitalForm_eq_capitals (h c hc)

theorem forall_isDigit_upperCase {body : List Char} :
    (∀ d ∈ upperCase body, IsDigit d) ↔ ∀ c ∈ body, IsDigit c ∨ c = ligature := by
  constructor
  · intro h c hc
    exact isDigit_or_ligature fun d hd => h d (List.mem_flatMap.mpr ⟨c, hc, hd⟩)
  · intro h d hd
    rw [upperCase_eq_capitals h] at hd
    obtain ⟨c, hc, hd⟩ := List.mem_flatMap.mp hd
    exact isDigit_of_mem_capitals (h c hc) hd

/-- Without ligatures there is one capital for each digit. -/
theorem flatMap_capitals {body : List Char} (h : ligature ∉ body) :
    body.flatMap capitals = body.map Char.toUpper := by
  induction body with
  | nil => rfl
  | cons c body ih =>
    obtain ⟨hc, hbody⟩ := not_or.mp (mt List.mem_cons.mpr h)
    unfold capitals at ih ⊢
    rw [List.flatMap_cons, if_neg (Ne.symm hc), ih hbody, List.map_cons, List.singleton_append]

/-! ## Marks -/

/-- What may stand before the digits. -/
def marks : List String := ["", "0x", "0X"]

theorem exists_mark (text : String) :
    ∃ mark ∈ marks, text.toList = mark.toList ++ withoutMark text.toList := by
  unfold withoutMark
  split
  · next heq => exact ⟨"0x", by decide, heq⟩
  · next heq => exact ⟨"0X", by decide, heq⟩
  · exact ⟨"", by decide, rfl⟩

theorem withoutMark_of_digits {body : List Char} (h : ∀ c ∈ body, IsDigit c ∨ c = ligature) :
    withoutMark body = body := by
  unfold withoutMark
  split
  · exact absurd (h 'x' (by simp)) (by decide)
  · exact absurd (h 'X' (by simp)) (by decide)
  · rfl

theorem withoutMark_append {mark : String} {body : List Char} (hmark : mark ∈ marks)
    (hbody : ∀ c ∈ body, IsDigit c ∨ c = ligature) : withoutMark (mark.toList ++ body) = body := by
  simp only [marks, List.mem_cons, List.not_mem_nil, or_false] at hmark
  rcases hmark with rfl | rfl | rfl
  · exact withoutMark_of_digits hbody
  · rfl
  · rfl

/-! ## Accepted texts -/

theorem canonicalChars_eq_ok_iff {cs ds : List Char} :
    canonicalChars cs = .ok ds ↔ ds = upperCase (withoutMark cs) ∧ (∀ d ∈ ds, IsDigit d)
      ∧ (ds.length = 40 ∨ ds.length = 64) := by
  simp only [← isHexDigit_iff]
  constructor
  · exact canonicalChars_eq_ok
  · rintro ⟨rfl, hdigits, hlength⟩
    have hne : cs ≠ [] := by
      rintro rfl
      simp [withoutMark] at hlength
    unfold canonicalChars
    rw [if_neg hne]
    dsimp only
    rw [if_neg (not_not_intro (List.all_eq_true.mpr hdigits)), if_pos hlength]

theorem canonical_eq_ok_iff_chars {text form : String} :
    canonical text = .ok form ↔ canonicalChars text.toList = .ok form.toList := by
  constructor
  · exact canonical_eq_ok
  · intro h
    unfold canonical
    rw [h]
    exact congrArg Except.ok String.ofList_toList

/-- **Which texts are accepted, and what they come to.** After the mark there are digits and
ligatures only, and enough of them. -/
theorem canonical_eq_ok_iff {text form : String} :
    canonical text = .ok form ↔ ∃ mark ∈ marks, ∃ body : String, text = mark ++ body
      ∧ (∀ c ∈ body.toList, IsDigit c ∨ c = ligature)
      ∧ form.toList = body.toList.flatMap capitals ∧ (form.length = 40 ∨ form.length = 64) := by
  rw [canonical_eq_ok_iff_chars, canonicalChars_eq_ok_iff, String.length_toList]
  constructor
  · rintro ⟨hform, hdigits, hlength⟩
    obtain ⟨mark, hmark, htext⟩ := exists_mark text
    rw [hform] at hdigits
    have hbody := forall_isDigit_upperCase.mp hdigits
    refine ⟨mark, hmark, String.ofList (withoutMark text.toList), ?_, ?_, ?_, hlength⟩
    · rw [← String.toList_inj, String.toList_append, String.toList_ofList]
      exact htext
    · rwa [String.toList_ofList]
    · rw [String.toList_ofList, hform, upperCase_eq_capitals hbody]
  · rintro ⟨mark, hmark, body, rfl, hbody, hform, hlength⟩
    have hupper : form.toList = upperCase body.toList := by
      rw [hform, upperCase_eq_capitals hbody]
    rw [String.toList_append, withoutMark_append hmark hbody]
    refine ⟨hupper, ?_, hlength⟩
    rw [hupper]
    exact forall_isDigit_upperCase.mpr hbody

/-! ## Spellings -/

/-- A text that spells a fingerprint by its digits. -/
structure Spells (text digits : String) : Prop where
  marked : ∃ mark ∈ marks, text = mark ++ digits
  hexadecimal : ∀ c ∈ digits.toList, IsDigit c
  length : digits.length = 40 ∨ digits.length = 64

/-- Two texts that differ in the case of ASCII letters only. -/
def SameButCase (text text' : String) : Prop :=
  text.toList.map Char.toUpper = text'.toList.map Char.toUpper

/-- A text that spells a form: digit by digit, in capital letters. -/
def Plain (text form : String) : Prop :=
  ∃ digits, Spells text digits ∧ form.toList = digits.toList.map Char.toUpper
    ∧ form.length = digits.length

theorem not_mem_of_forall_isDigit {cs : List Char} (h : ∀ c ∈ cs, IsDigit c) : ligature ∉ cs :=
  fun hmem => absurd (h ligature hmem) (by decide)

theorem not_mem_mark {mark : String} (h : mark ∈ marks) : ligature ∉ mark.toList := by
  have hall : ∀ mark ∈ marks, ligature ∉ mark.toList := by decide
  exact hall mark h

theorem length_eq_of_map_toUpper {form digits : String}
    (h : form.toList = digits.toList.map Char.toUpper) : form.length = digits.length := by
  rw [← String.length_toList, h, List.length_map, String.length_toList]

/-- Every spelling is accepted. -/
theorem Spells.canonical_eq {text digits form : String} (h : Spells text digits)
    (hform : form.toList = digits.toList.map Char.toUpper) : canonical text = .ok form := by
  obtain ⟨mark, hmark, htext⟩ := h.marked
  refine canonical_eq_ok_iff.mpr ⟨mark, hmark, digits, htext, fun c hc => .inl (h.hexadecimal c hc),
    ?_, ?_⟩
  · rw [flatMap_capitals (not_mem_of_forall_isDigit h.hexadecimal), hform]
  · rw [length_eq_of_map_toUpper hform]
    exact h.length

/-- An accepted text without ligatures is a spelling. -/
theorem exists_spells {text form : String} (h : canonical text = .ok form)
    (hplain : ligature ∉ text.toList) :
    ∃ digits, Spells text digits ∧ form.toList = digits.toList.map Char.toUpper := by
  obtain ⟨mark, hmark, body, rfl, hbody, hform, hlength⟩ := canonical_eq_ok_iff.mp h
  have hnone : ligature ∉ body.toList := by
    rw [String.toList_append] at hplain
    exact fun hmem => hplain (List.mem_append_right _ hmem)
  rw [flatMap_capitals hnone] at hform
  refine ⟨body, ⟨⟨mark, hmark, rfl⟩, fun c hc => ?_, ?_⟩, hform⟩
  · exact (hbody c hc).resolve_right fun heq => hnone (heq ▸ hc)
  · rwa [length_eq_of_map_toUpper hform] at hlength

theorem Plain.not_mem {text form : String} (h : Plain text form) : ligature ∉ text.toList := by
  obtain ⟨digits, hspells, -, -⟩ := h
  obtain ⟨mark, hmark, rfl⟩ := hspells.marked
  rw [String.toList_append, List.mem_append, not_or]
  exact ⟨not_mem_mark hmark, not_mem_of_forall_isDigit hspells.hexadecimal⟩

/-- **Which texts are accepted, and which of them are spellings.** After a mark there are digits and
ligatures only, and enough of them. The accepted texts without ligatures spell the form that they
come to, digit by digit, and no text with a ligature does. -/
theorem accepted_texts (text form : String) :
    (canonical text = .ok form ↔ ∃ mark ∈ marks, ∃ body : String, text = mark ++ body
        ∧ (∀ c ∈ body.toList, IsDigit c ∨ c = ligature)
        ∧ form.toList = body.toList.flatMap capitals ∧ (form.length = 40 ∨ form.length = 64))
      ∧ (canonical text = .ok form → (Plain text form ↔ ligature ∉ text.toList)) := by
  refine ⟨canonical_eq_ok_iff, fun haccepted => ⟨Plain.not_mem, fun hnone => ?_⟩⟩
  obtain ⟨digits, hspells, hform⟩ := exists_spells haccepted hnone
  exact ⟨digits, hspells, hform, length_eq_of_map_toUpper hform⟩

/-- A text with a mark spells its form. -/
theorem accepted_texts_marked :
    let text := "0x" ++ String.ofList (List.replicate 64 'a')
    let form := String.ofList (List.replicate 64 'A')
    canonical text = .ok form ∧ ligature ∉ text.toList ∧ Plain text form := by
  intro text form
  have haccepted : canonical text = .ok form := by decide +kernel
  have hnone : ligature ∉ text.toList := by decide +kernel
  exact ⟨haccepted, hnone, ((accepted_texts text form).2 haccepted).mpr hnone⟩

/-- Twenty ligatures are accepted, and come to forty digits. -/
theorem twenty_ligatures_accepted :
    let text := String.ofList (List.replicate 20 ligature)
    let form := String.ofList (List.replicate 40 'F')
    canonical text = .ok form ∧ ¬ Plain text form := by
  intro text form
  refine ⟨by decide +kernel, fun hplain => ?_⟩
  have hligature : ligature ∈ text.toList := by decide +kernel
  exact hplain.not_mem hligature

/-! ## A form and its spellings -/

theorem IsForm.map_toUpper {form : String} (h : IsForm form) :
    form.toList.map Char.toUpper = form.toList :=
  (List.map_congr_left fun c hc => (h.digits c hc).toUpper_eq).trans (List.map_id _)

/-- A character is a digit if its capital is one of a form. -/
theorem isDigit_of_isFormDigit_toUpper {c : Char} (h : IsFormDigit c.toUpper) : IsDigit c :=
  isDigit_of_toUpper (toNat_lt_of_isFormDigit_toUpper h) (.inl h)

/-- All variants of a form spell it, with any mark. -/
theorem IsForm.spells {form variant mark : String} (h : IsForm form)
    (hvariant : SameButCase variant form) (hmark : mark ∈ marks) :
    Spells (mark ++ variant) variant ∧ form.toList = variant.toList.map Char.toUpper := by
  have hupper : form.toList = variant.toList.map Char.toUpper := by
    rw [hvariant, h.map_toUpper]
  refine ⟨⟨⟨mark, hmark, rfl⟩, fun c hc => isDigit_of_isFormDigit_toUpper (h.digits _ ?_), ?_⟩,
    hupper⟩
  · rw [hupper]
    exact List.mem_map_of_mem hc
  · rw [← length_eq_of_map_toUpper hupper]
    exact h.length

theorem not_mem_ligature_of_ascii {text : String} (h : ∀ c ∈ text.toList, c.toNat < 128) :
    ligature ∉ text.toList :=
  fun hmem => absurd (h ligature hmem) (by decide)

theorem canonical_eq_notHexadecimal {text : String}
    (h : ∃ c ∈ withoutMark text.toList, ¬ (IsDigit c ∨ c = ligature)) :
    canonical text = .error (.invalidFingerprint text .notHexadecimal) := by
  obtain ⟨c, hc, hother⟩ := h
  have hne : text.toList ≠ [] := by
    intro hempty
    rw [hempty] at hc
    cases hc
  have hdigits : ¬ (upperCase (withoutMark text.toList)).all isHexDigit = true := by
    intro hall
    simp only [List.all_eq_true, isHexDigit_iff] at hall
    exact hother (forall_isDigit_upperCase.mp hall c hc)
  unfold canonical canonicalChars
  rw [if_neg hne]
  dsimp only
  rw [if_pos hdigits]

/-- After one mark a second one stands among the digits. -/
theorem canonical_doubled_mark {mark mark' : String} (hmark : mark ∈ ["0x", "0X"])
    (hmark' : mark' ∈ ["0x", "0X"]) (rest : String) :
    canonical (mark ++ (mark' ++ rest))
      = .error (.invalidFingerprint (mark ++ (mark' ++ rest)) .notHexadecimal) := by
  have hdropped : withoutMark (mark ++ (mark' ++ rest)).toList = mark'.toList ++ rest.toList := by
    rw [String.toList_append, String.toList_append]
    simp only [List.mem_cons, List.not_mem_nil, or_false] at hmark
    rcases hmark with rfl | rfl <;> rfl
  obtain ⟨c, hc, hother⟩ : ∃ c ∈ mark'.toList, ¬ (IsDigit c ∨ c = ligature) := by
    simp only [List.mem_cons, List.not_mem_nil, or_false] at hmark'
    rcases hmark' with rfl | rfl
    · exact ⟨'x', by simp, by decide⟩
    · exact ⟨'X', by simp, by decide⟩
  refine canonical_eq_notHexadecimal ⟨c, ?_, hother⟩
  rw [hdropped]
  exact List.mem_append_left _ hc

/-- A spelling comes to its digits in capital letters. -/
theorem Spells.toList_eq {text digits form : String} (h : Spells text digits)
    (haccepted : canonical text = .ok form) : form.toList = digits.toList.map Char.toUpper := by
  have hcapitals : (String.ofList (digits.toList.map Char.toUpper)).toList
      = digits.toList.map Char.toUpper := String.toList_ofList
  have hsame := haccepted.symm.trans (h.canonical_eq hcapitals)
  rw [Except.ok.inj hsame, hcapitals]

/-- **A canonical form and its spellings.** What an accepted text comes to is a form, which is
accepted as it is and in letters of either case, with a mark or without one. The accepted texts of
ASCII characters are the spellings, which have one mark at most, and two of them come to the same
form if and only if their digits differ in case only. -/
theorem spellings_of_form :
    (∀ text form, canonical text = .ok form → IsForm form ∧ canonical form = .ok form
        ∧ ∀ variant, SameButCase variant form → ∀ mark ∈ marks,
          canonical (mark ++ variant) = .ok form)
      ∧ (∀ text : String, (∀ c ∈ text.toList, c.toNat < 128) →
          ((∃ form, canonical text = .ok form) ↔ ∃ digits, Spells text digits))
      ∧ (∀ mark ∈ ["0x", "0X"], ∀ mark' ∈ ["0x", "0X"], ∀ rest,
          canonical (mark ++ (mark' ++ rest))
            = .error (.invalidFingerprint (mark ++ (mark' ++ rest)) .notHexadecimal))
      ∧ ∀ text text' form form' : String, (∀ c ∈ text.toList, c.toNat < 128) →
          (∀ c ∈ text'.toList, c.toNat < 128) → canonical text = .ok form →
          canonical text' = .ok form' →
          (form = form' ↔ ∃ digits digits', Spells text digits ∧ Spells text' digits'
            ∧ SameButCase digits digits') := by
  refine ⟨fun text form haccepted => ?_, fun text hascii => ⟨?_, ?_⟩, ?_, ?_⟩
  · have hform := isForm_of_canonical haccepted
    have hvariants : ∀ variant, SameButCase variant form → ∀ mark ∈ marks,
        canonical (mark ++ variant) = .ok form := by
      intro variant hvariant mark hmark
      obtain ⟨hspells, hupper⟩ := hform.spells hvariant hmark
      exact hspells.canonical_eq hupper
    have hself := hvariants form rfl "" (by decide)
    rw [String.empty_append] at hself
    exact ⟨hform, hself, hvariants⟩
  · rintro ⟨form, haccepted⟩
    obtain ⟨digits, hspells, -⟩ := exists_spells haccepted (not_mem_ligature_of_ascii hascii)
    exact ⟨digits, hspells⟩
  · rintro ⟨digits, hspells⟩
    exact ⟨String.ofList (digits.toList.map Char.toUpper),
      hspells.canonical_eq String.toList_ofList⟩
  · exact fun mark hmark mark' hmark' => canonical_doubled_mark hmark hmark'
  · intro text text' form form' hascii hascii' haccepted haccepted'
    constructor
    · rintro rfl
      obtain ⟨digits, hspells, hform⟩ :=
        exists_spells haccepted (not_mem_ligature_of_ascii hascii)
      obtain ⟨digits', hspells', hform'⟩ :=
        exists_spells haccepted' (not_mem_ligature_of_ascii hascii')
      exact ⟨digits, digits', hspells, hspells', hform.symm.trans hform'⟩
    · rintro ⟨digits, digits', hspells, hspells', hsame⟩
      rw [← String.toList_inj, hspells.toList_eq haccepted, hspells'.toList_eq haccepted']
      exact hsame

end KeyBuckets.Fingerprint
