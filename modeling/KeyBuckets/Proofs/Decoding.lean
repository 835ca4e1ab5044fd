import KeyBuckets.Text.Utf8
import Mathlib.Algebra.Group.Nat.Defs
import Mathlib.Data.List.Basic

/-!
# Decoding — the text that octets are read as

Octets that are not UTF-8 are repaired: where no character stands, the longest stretch that begins
one is replaced. What octets are read as is stated here without a reader, over the octets that each
character is written with.

* **`Reads`**, **`reads_iff`** — octets and the text they are read as.
* **`Pending.Follows`** — a character in progress stands for the octets that were read of it: the
  characters that start with them are those of a range of numbers.
* **`decode_append_ascii`**, **`decode_eq_append_cons_iff`** — an ASCII octet cuts the octets, and
  an ASCII character the text, at the same place.
-/

namespace KeyBuckets.Text.Utf8

open String (utf8EncodeChar)

/-! ## Characters in octets -/

/-- Some character starts with these octets. -/
def Begins (part : List UInt8) : Prop :=
  ∃ c, part <+: utf8EncodeChar c

/-- The octets do not start with a character. -/
def Broken (octets : List UInt8) : Prop :=
  ∀ c, ¬ utf8EncodeChar c <+: octets

/-- The stretch of octets that is replaced where no character stands: the longest one that begins a
character, or a single octet. -/
structure MaximalSubpart (part octets : List UInt8) : Prop where
  isPrefix : part <+: octets
  begins : Begins part ∨ part.length = 1
  longest : ∀ longer, longer <+: octets → Begins longer → longer.length ≤ part.length

/-- Octets and the text they are read as. A character is read where it stands, and where none does a
maximal subpart is replaced. -/
inductive Reads : List UInt8 → List Char → Prop where
  | nil : Reads [] []
  | char {c : Char} {rest : List UInt8} {text : List Char} (hrest : Reads rest text) :
      Reads (utf8EncodeChar c ++ rest) (c :: text)
  | replaced {part rest : List UInt8} {text : List Char} (hne : part ≠ [])
      (hbroken : Broken (part ++ rest)) (hpart : MaximalSubpart part (part ++ rest))
      (hrest : Reads rest text) : Reads (part ++ rest) (replacement :: text)

theorem toNat_valid (c : Char) : c.toNat < 0xD800 ∨ 0xE000 ≤ c.toNat ∧ c.toNat < 0x110000 := by
  rcases c.valid with hlow | ⟨hlow, hhigh⟩
  · exact .inl hlow
  · exact .inr ⟨hlow, hhigh⟩

theorem toNat_ofNat {n : Nat} (h : n < 0xD800 ∨ 0xE000 ≤ n ∧ n < 0x110000) :
    (Char.ofNat n).toNat = n := by
  have hvalid : n.isValidChar := h.imp id fun h => ⟨by omega, h.2⟩
  unfold Char.ofNat
  rw [dif_pos hvalid]
  rfl

/-- How a character is written, by its number. -/
theorem utf8EncodeChar_cases (c : Char) :
    (c.toNat < 0x80 ∧ utf8EncodeChar c = [.ofNat c.toNat])
      ∨ (0x80 ≤ c.toNat ∧ c.toNat < 0x800
        ∧ utf8EncodeChar c = [.ofNat (c.toNat / 64 + 0xC0), .ofNat (c.toNat % 64 + 0x80)])
      ∨ (0x800 ≤ c.toNat ∧ c.toNat < 0x10000
        ∧ utf8EncodeChar c = [.ofNat (c.toNat / 4096 + 0xE0), .ofNat (c.toNat / 64 % 64 + 0x80),
          .ofNat (c.toNat % 64 + 0x80)])
      ∨ (0x10000 ≤ c.toNat ∧ c.toNat < 0x110000
        ∧ utf8EncodeChar c = [.ofNat (c.toNat / 262144 + 0xF0), .ofNat (c.toNat / 4096 % 64 + 0x80),
          .ofNat (c.toNat / 64 % 64 + 0x80), .ofNat (c.toNat % 64 + 0x80)]) := by
  have hvalid := toNat_valid c
  have hnat : c.val.toNat = c.toNat := rfl
  unfold utf8EncodeChar
  rw [hnat]
  generalize c.toNat = n at hvalid ⊢
  dsimp only
  split
  · exact .inl ⟨by omega, rfl⟩
  · split
    · refine .inr (.inl ⟨by omega, by omega, ?_⟩)
      rw [Nat.mod_eq_of_lt (by omega : n / 64 < 32)]
    · split
      · refine .inr (.inr (.inl ⟨by omega, by omega, ?_⟩))
        rw [Nat.mod_eq_of_lt (by omega : n / 4096 < 16)]
      · refine .inr (.inr (.inr ⟨by omega, by omega, ?_⟩))
        rw [Nat.mod_eq_of_lt (by omega : n / 262144 < 8)]

theorem getElem?_utf8EncodeChar {c : Char} {place after : Nat} (hplace : 0 < place)
    (h : (utf8EncodeChar c).length = place + after + 1) :
    (utf8EncodeChar c)[place]? = some (.ofNat (c.toNat / 64 ^ after % 64 + 0x80)) := by
  rcases utf8EncodeChar_cases c with ⟨-, hc⟩ | ⟨-, -, hc⟩ | ⟨-, -, hc⟩ | ⟨-, -, hc⟩ <;>
    rw [hc] at h ⊢ <;> simp only [List.length_cons, List.length_nil] at h
  · omega
  · obtain ⟨rfl, rfl⟩ : place = 1 ∧ after = 0 := by omega
    simp
  · obtain ⟨rfl, rfl⟩ | ⟨rfl, rfl⟩ : (place = 1 ∧ after = 1) ∨ (place = 2 ∧ after = 0) := by omega
    all_goals simp
  · obtain ⟨rfl, rfl⟩ | ⟨rfl, rfl⟩ | ⟨rfl, rfl⟩ :
      (place = 1 ∧ after = 2) ∨ (place = 2 ∧ after = 1) ∨ (place = 3 ∧ after = 0) := by omega
    all_goals simp

theorem concat_isPrefix_iff {part octets : List UInt8} {octet : UInt8} :
    part ++ [octet] <+: octets ↔ part <+: octets ∧ octets[part.length]? = some octet := by
  constructor
  · rintro ⟨more, rfl⟩
    simp
  · rintro ⟨⟨more, rfl⟩, hoctet⟩
    rw [List.getElem?_append_right (Nat.le_refl _), Nat.sub_self] at hoctet
    obtain ⟨more, rfl⟩ := List.head?_eq_some_iff.mp (List.head?_eq_getElem?.trans hoctet)
    exact ⟨more, by simp⟩

/-! ## Characters in progress -/

namespace Pending

/-- The least number of a character that can come of this. -/
def least (p : Pending) : Nat :=
  (p.value * 64 + (p.low - 0x80)) * 64 ^ p.after

/-- What the numbers of characters that can come of this are below. -/
def bound (p : Pending) : Nat :=
  (p.value * 64 + (p.high - 0x80) + 1) * 64 ^ p.after

/-- The octet goes on with the character. -/
def Takes (p : Pending) (octet : UInt8) : Prop :=
  p.low ≤ octet.toNat ∧ octet.toNat ≤ p.high

/-- The bits of the character with those of one more octet. -/
def valueWith (p : Pending) (octet : UInt8) : Nat :=
  p.value * 64 + (octet.toNat - 0x80)

/-- A character is in progress after these octets: they are none, and the characters that start with
them are those of a range of numbers. -/
structure Follows (p : Pending) (part : List UInt8) : Prop where
  low : 0x80 ≤ p.low
  low_le_high : p.low ≤ p.high
  high : p.high ≤ 0xBF
  valid : p.bound ≤ 0xD800 ∨ 0xE000 ≤ p.least ∧ p.bound ≤ 0x110000
  ne_nil : part ≠ []
  broken : Broken part
  length_eq : ∀ c, part <+: utf8EncodeChar c → (utf8EncodeChar c).length = part.length + p.after + 1
  isPrefix_iff : ∀ c, part <+: utf8EncodeChar c ↔ p.least ≤ c.toNat ∧ c.toNat < p.bound

variable {p : Pending} {part : List UInt8} {octet : UInt8}

/-- The characters that start with the octets so far and one more. -/
theorem Follows.concat_isPrefix_iff (h : p.Follows part) (octet : UInt8) (c : Char) :
    part ++ [octet] <+: utf8EncodeChar c ↔ p.Takes octet
      ∧ p.valueWith octet * 64 ^ p.after ≤ c.toNat
      ∧ c.toNat < (p.valueWith octet + 1) * 64 ^ p.after := by
  have hpow : 0 < 64 ^ p.after := Nat.pow_pos (by decide)
  have hplace : 0 < part.length := List.length_pos_of_ne_nil h.ne_nil
  have hnext : part ++ [octet] <+: utf8EncodeChar c
      ↔ part <+: utf8EncodeChar c ∧ c.toNat / 64 ^ p.after % 64 + 0x80 = octet.toNat := by
    rw [Utf8.concat_isPrefix_iff]
    refine and_congr_right fun hpart => ?_
    rw [getElem?_utf8EncodeChar hplace (h.length_eq c hpart), Option.some.injEq, ← UInt8.toNat_inj,
      UInt8.toNat_ofNat', Nat.mod_eq_of_lt (by omega)]
  rw [hnext, h.isPrefix_iff c]
  unfold least bound
  rw [← Nat.le_div_iff_mul_le hpow, ← Nat.div_lt_iff_lt_mul hpow, ← Nat.le_div_iff_mul_le hpow,
    ← Nat.div_lt_iff_lt_mul hpow]
  generalize c.toNat / 64 ^ p.after = q
  obtain ⟨hlow, hle, hhigh⟩ := And.intro h.low (And.intro h.low_le_high h.high)
  unfold Takes valueWith
  omega

theorem Follows.least_lt_bound (h : p.Follows part) : p.least < p.bound := by
  refine Nat.mul_lt_mul_of_pos_right ?_ (Nat.pow_pos (by decide))
  have hle := h.low_le_high
  omega

theorem Follows.begins (h : p.Follows part) : Begins part := by
  have hlt := h.least_lt_bound
  refine ⟨Char.ofNat p.least, (h.isPrefix_iff _).mpr ?_⟩
  rw [toNat_ofNat (by have hvalid := h.valid; omega)]
  exact ⟨Nat.le_refl _, hlt⟩

theorem Follows.not_begins (h : p.Follows part) (hout : ¬ p.Takes octet) :
    ¬ Begins (part ++ [octet]) :=
  fun ⟨c, hpre⟩ => hout ((h.concat_isPrefix_iff octet c).mp hpre).1

/-- The numbers that are left after one more octet are among those that were there before. -/
theorem range_valueWith (htakes : p.Takes octet) :
    p.least ≤ p.valueWith octet * 64 ^ p.after
      ∧ (p.valueWith octet + 1) * 64 ^ p.after ≤ p.bound := by
  obtain ⟨hlow, hhigh⟩ := htakes
  unfold least bound valueWith
  exact ⟨Nat.mul_le_mul_right _ (by omega), Nat.mul_le_mul_right _ (by omega)⟩

/-- The last octet of a character. -/
theorem Follows.complete (h : p.Follows part) (hafter : p.after = 0) (htakes : p.Takes octet) :
    utf8EncodeChar (Char.ofNat (p.valueWith octet)) = part ++ [octet] := by
  have hrange := range_valueWith htakes
  have hvalid := h.valid
  have hpre : part ++ [octet] <+: utf8EncodeChar (Char.ofNat (p.valueWith octet)) := by
    rw [h.concat_isPrefix_iff, hafter]
    rw [hafter] at hrange
    rw [toNat_ofNat (by omega)]
    exact ⟨htakes, by omega, by omega⟩
  have hlength := h.length_eq _ ((List.prefix_append _ _).trans hpre)
  refine (hpre.eq_of_length ?_).symm
  rw [hlength, hafter, List.length_append, List.length_singleton]

/-- An octet of a character that is not its last. -/
theorem Follows.next {k : Nat} (h : p.Follows part) (hafter : p.after = k + 1)
    (htakes : p.Takes octet) :
    Follows ⟨k, 0x80, 0xBF, p.valueWith octet⟩ (part ++ [octet]) := by
  have hleast : least ⟨k, 0x80, 0xBF, p.valueWith octet⟩ = p.valueWith octet * 64 ^ p.after := by
    simp only [least, hafter, Nat.sub_self, Nat.add_zero]
    rw [Nat.pow_succ', Nat.mul_assoc]
  have hbound :
      bound ⟨k, 0x80, 0xBF, p.valueWith octet⟩ = (p.valueWith octet + 1) * 64 ^ p.after := by
    have hvalue : p.valueWith octet * 64 + (0xBF - 0x80) + 1 = (p.valueWith octet + 1) * 64 := by
      omega
    simp only [bound, hafter]
    rw [hvalue, Nat.pow_succ', Nat.mul_assoc]
  have hlength : ∀ c, part ++ [octet] <+: utf8EncodeChar c →
      (utf8EncodeChar c).length = (part ++ [octet]).length + k + 1 := by
    intro c hpre
    rw [h.length_eq c ((List.prefix_append _ _).trans hpre), hafter, List.length_append,
      List.length_singleton]
    omega
  refine ⟨Nat.le_refl _, Nat.le_of_ble_eq_true rfl, Nat.le_refl _, ?_, by simp, ?_, hlength, ?_⟩
  · have hrange := range_valueWith htakes
    have hvalid := h.valid
    rw [hleast, hbound]
    omega
  · intro c hpre
    rcases List.prefix_concat_iff.mp hpre with heq | hpart
    · have hwhole := hlength c (heq ▸ List.prefix_refl _)
      rw [heq] at hwhole
      omega
    · exact h.broken c hpart
  · intro c
    rw [h.concat_isPrefix_iff, hleast, hbound]
    exact and_iff_right htakes

end Pending

/-! ## First octets -/

theorem length_utf8EncodeChar_cases (c : Char) :
    (c.toNat < 0x80 ∧ (utf8EncodeChar c).length = 1)
      ∨ (0x80 ≤ c.toNat ∧ c.toNat < 0x800 ∧ (utf8EncodeChar c).length = 2)
      ∨ (0x800 ≤ c.toNat ∧ c.toNat < 0x10000 ∧ (utf8EncodeChar c).length = 3)
      ∨ (0x10000 ≤ c.toNat ∧ (utf8EncodeChar c).length = 4) := by
  rcases utf8EncodeChar_cases c with ⟨h, hc⟩ | ⟨h, h', hc⟩ | ⟨h, h', hc⟩ | ⟨h, h', hc⟩ <;>
    simp [hc, h] <;> omega

theorem singleton_isPrefix_iff {octet : UInt8} {c : Char} :
    [octet] <+: utf8EncodeChar c ↔
      (c.toNat < 0x80 ∧ octet.toNat = c.toNat)
      ∨ (0x80 ≤ c.toNat ∧ c.toNat < 0x800 ∧ octet.toNat = c.toNat / 64 + 0xC0)
      ∨ (0x800 ≤ c.toNat ∧ c.toNat < 0x10000 ∧ octet.toNat = c.toNat / 4096 + 0xE0)
      ∨ (0x10000 ≤ c.toNat ∧ octet.toNat = c.toNat / 262144 + 0xF0) := by
  rcases utf8EncodeChar_cases c with ⟨_, hc⟩ | ⟨_, _, hc⟩ | ⟨_, _, hc⟩ | ⟨_, _, hc⟩ <;>
    rw [hc, List.cons_prefix_cons, ← UInt8.toNat_inj, UInt8.toNat_ofNat'] <;> simp <;> omega

theorem broken_singleton {octet : UInt8} (h : ∀ c, utf8EncodeChar c ≠ [octet]) :
    Broken [octet] := by
  intro c hpre
  rcases List.prefix_cons_iff.mp hpre with hnil | ⟨more, hcons, hmore⟩
  · exact String.utf8EncodeChar_ne_nil hnil
  · rw [List.prefix_nil.mp hmore] at hcons
    exact h c hcons

/-- The first octet of a character of several, by the numbers of the characters that start with
it. -/
theorem Pending.Follows.of_first {p : Pending} {octet : UInt8} (hlow : 0x80 ≤ p.low)
    (hle : p.low ≤ p.high) (hhigh : p.high ≤ 0xBF)
    (hvalid : p.bound ≤ 0xD800 ∨ 0xE000 ≤ p.least ∧ p.bound ≤ 0x110000)
    (hlength : ∀ c, [octet] <+: utf8EncodeChar c → (utf8EncodeChar c).length = p.after + 2)
    (hrange : ∀ c, [octet] <+: utf8EncodeChar c ↔ p.least ≤ c.toNat ∧ c.toNat < p.bound) :
    p.Follows [octet] := by
  refine ⟨hlow, hle, hhigh, hvalid, List.cons_ne_nil _ _, fun c hpre => ?_, fun c hc => ?_,
    hrange⟩
  · refine broken_singleton (fun c hc => ?_) c hpre
    have hwhole := hlength c (hc ▸ List.prefix_refl _)
    rw [hc, List.length_singleton] at hwhole
    omega
  · rw [hlength c hc, List.length_singleton]
    omega

theorem utf8EncodeChar_ascii {c : Char} (h : c.toNat < 0x80) :
    utf8EncodeChar c = [.ofNat c.toNat] := by
  rcases utf8EncodeChar_cases c with ⟨_, hc⟩ | ⟨_, _⟩ | ⟨_, _⟩ | ⟨_, _⟩
  · exact hc
  all_goals omega

theorem utf8EncodeChar_ofNat_ascii {octet : UInt8} (h : octet.toNat < 0x80) :
    utf8EncodeChar (Char.ofNat octet.toNat) = [octet] := by
  have hnat := toNat_ofNat (n := octet.toNat) (by omega)
  rw [utf8EncodeChar_ascii (by omega), hnat, UInt8.ofNat_toNat]

theorem ite_eq_cases (n m a b : Nat) :
    (n = m ∧ (if n = m then a else b) = a) ∨ (n ≠ m ∧ (if n = m then a else b) = b) := by
  by_cases h : n = m <;> simp [h]

/-- What the first octet of a character, or an octet that starts none, does. -/
theorem start_cases (octet : UInt8) :
    (octet.toNat < 0x80 ∧ start octet = ([Char.ofNat octet.toNat], none))
    ∨ (start octet = ([replacement], none) ∧ ¬ Begins [octet])
    ∨ ∃ p, start octet = ([], some p) ∧ p.Follows [octet] := by
  have hE0 := ite_eq_cases octet.toNat 0xE0 0xA0 0x80
  have hED := ite_eq_cases octet.toNat 0xED 0x9F 0xBF
  have hF0 := ite_eq_cases octet.toNat 0xF0 0x90 0x80
  have hF4 := ite_eq_cases octet.toNat 0xF4 0x8F 0xBF
  unfold start
  dsimp only
  split
  · exact .inl ⟨by omega, rfl⟩
  split
  · refine .inr (.inl ⟨rfl, fun ⟨c, hpre⟩ => ?_⟩)
    have hfirst := singleton_isPrefix_iff.mp hpre
    omega
  -- the first octets of two, of three and of four
  iterate 3
    split
    · refine .inr (.inr ⟨_, rfl, .of_first ?_ ?_ ?_ ?_ (fun c => ?_) (fun c => ?_)⟩) <;>
        simp only [singleton_isPrefix_iff, Pending.least, Pending.bound]
      case refine_5 => have hlength := length_utf8EncodeChar_cases c; omega
      case refine_6 => have hvalid := toNat_valid c; omega
      all_goals omega
  · refine .inr (.inl ⟨rfl, fun ⟨c, hpre⟩ => ?_⟩)
    have hfirst := singleton_isPrefix_iff.mp hpre
    have hvalid := toNat_valid c
    omega

/-! ## What octets are read as -/

theorem Begins.of_isPrefix {part longer : List UInt8} (h : Begins longer)
    (hpart : part <+: longer) : Begins part :=
  h.imp fun _ hlonger => hpart.trans hlonger

/-- Octets are replaced up to the first one that does not go on with a character. -/
theorem Reads.replaced_of_end {part rest : List UInt8} {text : List Char} (hne : part ≠ [])
    (hbegins : Begins part ∨ part.length = 1) (hbroken : Broken part)
    (hend : ∀ octet more, rest = octet :: more → ¬ Begins (part ++ [octet]))
    (hrest : Reads rest text) : Reads (part ++ rest) (replacement :: text) := by
  have hlongest : ∀ longer, longer <+: part ++ rest → Begins longer →
      longer.length ≤ part.length := by
    intro longer hlonger hbegun
    by_contra hlength
    obtain ⟨tail, rfl⟩ := List.prefix_of_prefix_length_le (List.prefix_append part rest) hlonger
      (by omega)
    obtain ⟨octet, tail, rfl⟩ : ∃ octet more, tail = octet :: more :=
      List.exists_cons_of_ne_nil fun hnil => by simp [hnil] at hlength
    obtain ⟨more, rfl⟩ := (List.prefix_append_right_inj part).mp hlonger
    exact hend octet _ rfl (hbegun.of_isPrefix ⟨tail, by simp⟩)
  refine .replaced hne (fun c hc => ?_) ⟨List.prefix_append _ _, hbegins, hlongest⟩ hrest
  exact hbroken c (List.prefix_of_prefix_length_le hc (List.prefix_append _ _)
    (hlongest _ hc ⟨c, List.prefix_refl _⟩))

theorem decodeFrom_cons (state : Option Pending) (octet : UInt8) (rest : List UInt8) :
    decodeFrom state (octet :: rest)
      = (step state octet).1 ++ decodeFrom (step state octet).2 rest := by
  cases state <;> rfl

theorem step_of_not_takes {p : Pending} {octet : UInt8} (hout : ¬ p.Takes octet) :
    step (some p) octet = (replacement :: (start octet).1, (start octet).2) :=
  if_neg hout

theorem step_of_takes_last {p : Pending} {octet : UInt8} (htakes : p.Takes octet)
    (hafter : p.after = 0) :
    step (some p) octet = ([Char.ofNat (p.valueWith octet)], none) := by
  refine (if_pos htakes).trans ?_
  rw [hafter]
  rfl

theorem step_of_takes {p : Pending} {octet : UInt8} {k : Nat} (htakes : p.Takes octet)
    (hafter : p.after = k + 1) :
    step (some p) octet = ([], some ⟨k, 0x80, 0xBF, p.valueWith octet⟩) := by
  refine (if_pos htakes).trans ?_
  rw [hafter]
  rfl

/-- The reader reads what the octets are read as, with those of the character in progress. -/
theorem reads_decodeFrom (octets : List UInt8) :
    Reads octets (decodeFrom none octets)
      ∧ ∀ p part, p.Follows part → Reads (part ++ octets) (decodeFrom (some p) octets) := by
  induction octets with
  | nil =>
    exact ⟨.nil, fun p part h =>
      .replaced_of_end h.ne_nil (.inl h.begins) h.broken nofun .nil⟩
  | cons octet rest ih =>
    obtain ⟨hnone, hsome⟩ := ih
    have hfresh : Reads (octet :: rest) (decodeFrom none (octet :: rest)) := by
      rw [decodeFrom_cons]
      show Reads _ ((start octet).1 ++ decodeFrom (start octet).2 rest)
      rcases start_cases octet with ⟨hascii, hstart⟩ | ⟨hstart, hout⟩ | ⟨p, hstart, hfollows⟩
      · rw [hstart]
        have hread := hnone.char (c := Char.ofNat octet.toNat)
        rwa [utf8EncodeChar_ofNat_ascii hascii] at hread
      · rw [hstart]
        show Reads ([octet] ++ rest) _
        refine .replaced_of_end (List.cons_ne_nil _ _) (.inr rfl) ?_ ?_ hnone
        · exact broken_singleton fun c hc => hout ⟨c, hc ▸ List.prefix_refl _⟩
        · exact fun next more _ hbegins => hout (hbegins.of_isPrefix (List.prefix_append _ _))
      · rw [hstart]
        exact hsome p [octet] hfollows
    refine ⟨hfresh, fun p part h => ?_⟩
    by_cases htakes : p.Takes octet
    · rw [decodeFrom_cons]
      rcases hafter : p.after with _ | k
      · rw [step_of_takes_last htakes hafter]
        have hread := hnone.char (c := Char.ofNat (p.valueWith octet))
        rwa [h.complete hafter htakes, List.append_assoc] at hread
      · rw [step_of_takes htakes hafter]
        have hread := hsome _ _ (h.next hafter htakes)
        rwa [List.append_assoc] at hread
    · rw [decodeFrom_cons, step_of_not_takes htakes]
      refine .replaced_of_end h.ne_nil (.inl h.begins) h.broken ?_ hfresh
      rintro _ _ ⟨⟩
      exact h.not_begins htakes

theorem utf8EncodeChar_append_inj {c c' : Char} {rest rest' : List UInt8}
    (h : utf8EncodeChar c ++ rest = utf8EncodeChar c' ++ rest') : c = c' ∧ rest = rest' := by
  have hfirst : ∀ (d : Char) (more : List UInt8),
      ((utf8EncodeChar d ++ more).toByteArray).utf8DecodeChar? 0 = some d := by
    intro d more
    rw [List.toByteArray_append]
    refine ByteArray.utf8DecodeChar?_append_eq_some ?_ _
    simpa [List.utf8Encode] using List.utf8DecodeChar?_utf8Encode_singleton (c := d)
  have hsame := hfirst c rest
  rw [h, hfirst c' rest'] at hsame
  obtain rfl := Option.some.inj hsame
  exact ⟨rfl, List.append_cancel_left h⟩

theorem MaximalSubpart.length_le {part part' octets : List UInt8} (h : MaximalSubpart part octets)
    (h' : MaximalSubpart part' octets) (hne : part' ≠ []) : part.length ≤ part'.length := by
  rcases h.begins with hbegins | hsingle
  · exact h'.longest part h.isPrefix hbegins
  · rw [hsingle]
    exact List.length_pos_of_ne_nil hne

theorem Reads.unique {octets : List UInt8} {text text' : List Char} (h : Reads octets text)
    (h' : Reads octets text') : text = text' := by
  induction h generalizing text' with
  | nil =>
    generalize hoctets : [] = octets at h'
    cases h' with
    | nil => rfl
    | char => exact absurd (List.append_eq_nil_iff.mp hoctets.symm).1 String.utf8EncodeChar_ne_nil
    | replaced hne => exact absurd (List.append_eq_nil_iff.mp hoctets.symm).1 hne
  | @char c rest text _ ih =>
    generalize hoctets : utf8EncodeChar c ++ rest = octets at h'
    cases h' with
    | nil => exact absurd (List.append_eq_nil_iff.mp hoctets).1 String.utf8EncodeChar_ne_nil
    | char hrest =>
      obtain ⟨rfl, rfl⟩ := utf8EncodeChar_append_inj hoctets
      rw [ih hrest]
    | replaced _ hbroken => exact absurd ⟨_, hoctets⟩ (hbroken c)
  | @replaced part rest text hne hbroken hpart _ ih =>
    generalize hoctets : part ++ rest = octets at h' hbroken hpart
    cases h' with
    | nil => exact absurd (List.append_eq_nil_iff.mp hoctets).1 hne
    | @char c rest' => exact absurd (List.prefix_append _ _) (hbroken c)
    | replaced hne' _ hpart' hrest =>
      obtain ⟨rfl, rfl⟩ := List.append_inj hoctets
        (Nat.le_antisymm (hpart.length_le hpart' hne') (hpart'.length_le hpart hne))
      rw [ih hrest]

/-- **There is one text that octets are read as**, and it is what the reader gives. -/
theorem reads_iff {octets : List UInt8} {text : List Char} :
    Reads octets text ↔ decode octets = text := by
  have hread := (reads_decodeFrom octets).1
  constructor
  · exact fun h => hread.unique h
  · rintro rfl
    exact hread

/-! ## ASCII -/

theorem Broken.of_isPrefix {part octets : List UInt8} (h : Broken octets)
    (hpart : part <+: octets) : Broken part :=
  fun c hc => h c (hc.trans hpart)

theorem MaximalSubpart.of_isPrefix {part shorter octets : List UInt8}
    (h : MaximalSubpart part octets) (hpart : part <+: shorter) (hshorter : shorter <+: octets) :
    MaximalSubpart part shorter :=
  ⟨hpart, h.begins, fun longer hlonger => h.longest longer (hlonger.trans hshorter)⟩

theorem low_of_mem_step {state : Option Pending} {octet : UInt8} :
    ∀ p ∈ (step state octet).2, 0x80 ≤ p.low := by
  have hfresh : ∀ p ∈ (start octet).2, 0x80 ≤ p.low := by
    intro p hp
    rcases start_cases octet with ⟨-, hstart⟩ | ⟨hstart, -⟩ | ⟨q, hstart, hfollows⟩ <;>
      rw [hstart] at hp
    · cases hp
    · cases hp
    · obtain rfl := Option.some.inj hp
      exact hfollows.low
  rcases state with _ | q
  · exact hfresh
  · by_cases htakes : q.Takes octet
    · rcases hafter : q.after with _ | k
      · rw [step_of_takes_last htakes hafter]
        exact nofun
      · rw [step_of_takes htakes hafter]
        rintro p ⟨⟩
        exact Nat.le_refl _
    · rw [step_of_not_takes htakes]
      exact hfresh

theorem decodeFrom_append_ascii {octet : UInt8} (h : octet.toNat < 0x80) (xs ys : List UInt8)
    {state : Option Pending} (hstate : ∀ p ∈ state, 0x80 ≤ p.low) :
    decodeFrom state (xs ++ octet :: ys)
      = decodeFrom state xs ++ Char.ofNat octet.toNat :: decode ys := by
  induction xs generalizing state with
  | nil =>
    rw [List.nil_append, decodeFrom_cons, step_of_ascii h hstate, List.append_assoc]
    rfl
  | cons x xs ih =>
    rw [List.cons_append, decodeFrom_cons, decodeFrom_cons, ih low_of_mem_step, List.append_assoc]

/-- **An ASCII octet is a clean cut**: the octets before it and after it are read apart, whatever
they are. -/
theorem decode_append_ascii {octet : UInt8} (h : octet.toNat < 0x80) (xs ys : List UInt8) :
    decode (xs ++ octet :: ys) = decode xs ++ Char.ofNat octet.toNat :: decode ys :=
  decodeFrom_append_ascii h xs ys nofun

theorem Reads.exists_of_ascii {octets : List UInt8} {xs ys : List Char} {c : Char}
    (hc : c.toNat < 0x80) (h : Reads octets (xs ++ c :: ys)) :
    ∃ before after, octets = before ++ .ofNat c.toNat :: after ∧ Reads before xs
      ∧ Reads after ys := by
  generalize htext : xs ++ c :: ys = text at h
  induction h generalizing xs with
  | nil => exact absurd htext (by simp)
  | @char d rest text hrest ih =>
    cases xs with
    | nil =>
      obtain ⟨rfl, rfl⟩ := List.cons.inj htext
      exact ⟨[], rest, by rw [utf8EncodeChar_ascii hc]; rfl, .nil, hrest⟩
    | cons x xs =>
      obtain ⟨rfl, htail⟩ := List.cons.inj htext
      obtain ⟨before, after, rfl, hbefore, hafter⟩ := ih htail
      exact ⟨_, after, (List.append_assoc _ _ _).symm, .char hbefore, hafter⟩
  | @replaced part rest text hne hbroken hpart hrest ih =>
    cases xs with
    | nil =>
      obtain ⟨rfl, -⟩ := List.cons.inj htext
      exact absurd hc (by decide)
    | cons x xs =>
      obtain ⟨rfl, htail⟩ := List.cons.inj htext
      obtain ⟨before, after, rfl, hbefore, hafter⟩ := ih htail
      have hpre : part ++ before <+: part ++ (before ++ .ofNat c.toNat :: after) :=
        (List.prefix_append_right_inj part).mpr (List.prefix_append _ _)
      exact ⟨_, after, (List.append_assoc _ _ _).symm, .replaced hne (hbroken.of_isPrefix hpre)
        (hpart.of_isPrefix (List.prefix_append _ _) hpre) hbefore, hafter⟩

/-- **An ASCII character was read from its own octet.** -/
theorem decode_eq_append_cons_iff {octets : List UInt8} {xs ys : List Char} {c : Char}
    (hc : c.toNat < 0x80) :
    decode octets = xs ++ c :: ys ↔ ∃ before after, octets = before ++ .ofNat c.toNat :: after
      ∧ decode before = xs ∧ decode after = ys := by
  constructor
  · intro h
    obtain ⟨before, after, rfl, hbefore, hafter⟩ := (reads_iff.mpr h).exists_of_ascii hc
    exact ⟨before, after, rfl, reads_iff.mp hbefore, reads_iff.mp hafter⟩
  · rintro ⟨before, after, rfl, rfl, rfl⟩
    have hoctet : (UInt8.ofNat c.toNat).toNat = c.toNat := by
      rw [UInt8.toNat_ofNat', Nat.mod_eq_of_lt (by omega)]
    rw [decode_append_ascii (by omega), hoctet, Char.ofNat_toNat]

/-- All characters of a text are ASCII. -/
def IsAscii (text : List Char) : Prop :=
  ∀ c ∈ text, c.toNat < 0x80

instance (text : List Char) : Decidable (IsAscii text) :=
  decidable_of_iff (text.all fun c => c.toNat < 0x80) (by simp [IsAscii])

/-- The octets of an ASCII text. -/
def ascii (text : List Char) : List UInt8 :=
  text.map fun c => .ofNat c.toNat

theorem decode_eq_nil_iff {octets : List UInt8} : decode octets = [] ↔ octets = [] := by
  constructor
  · intro h
    cases reads_iff.mpr h
    rfl
  · rintro rfl
    rfl

theorem decode_eq_ascii_append_iff {octets : List UInt8} {text more : List Char}
    (htext : IsAscii text) :
    decode octets = text ++ more ↔ ∃ rest, octets = ascii text ++ rest ∧ decode rest = more := by
  induction text generalizing octets with
  | nil => exact ⟨fun h => ⟨octets, rfl, h⟩, fun ⟨_, hoctets, h⟩ => hoctets ▸ h⟩
  | cons c text ih =>
    obtain ⟨hc, htext⟩ := List.forall_mem_cons.mp htext
    have hcut := @decode_eq_append_cons_iff octets [] (text ++ more) c hc
    rw [List.nil_append] at hcut
    rw [List.cons_append, hcut]
    constructor
    · rintro ⟨before, after, rfl, hbefore, hafter⟩
      obtain rfl := decode_eq_nil_iff.mp hbefore
      obtain ⟨rest, rfl, hrest⟩ := (ih htext).mp hafter
      exact ⟨rest, rfl, hrest⟩
    · rintro ⟨rest, rfl, hrest⟩
      exact ⟨[], ascii text ++ rest, rfl, rfl, (ih htext).mpr ⟨rest, rfl, hrest⟩⟩

theorem isPrefix_decode_iff {octets : List UInt8} {text : List Char}
    (htext : IsAscii text) : text <+: decode octets ↔ ascii text <+: octets := by
  constructor
  · rintro ⟨more, hmore⟩
    obtain ⟨rest, rfl, -⟩ := (decode_eq_ascii_append_iff htext).mp hmore.symm
    exact List.prefix_append _ _
  · rintro ⟨rest, rfl⟩
    rw [(decode_eq_ascii_append_iff htext).mpr ⟨rest, rfl, rfl⟩]
    exact List.prefix_append _ _

theorem decode_eq_ascii_iff {octets : List UInt8} {text : List Char}
    (htext : IsAscii text) : decode octets = text ↔ octets = ascii text := by
  have h := @decode_eq_ascii_append_iff octets text [] htext
  simpa [decode_eq_nil_iff] using h

end KeyBuckets.Text.Utf8
