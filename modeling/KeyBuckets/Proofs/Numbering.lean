import KeyBuckets.Proofs.CanonicalForm
import KeyBuckets.Proofs.Handover
import KeyBuckets.Proofs.MissingFiles
import KeyBuckets.Proofs.Requests
import Mathlib.Data.List.DropRight
import Mathlib.Data.List.Nodup

/-!
# Numbering — homes are told apart by their numbers

The homes of a plan are its stem with a number right after it. A number is written in one way only,
without zeros in front, and nothing stands between it and the stem, so that a home tells its number:
two homes are never the same, whatever the stem ends in. The number has no slash in it, and so it is
the last name of the home in which two of them differ.

* **`Numeral.Written`**, **`Numeral.written_iff`** — how a number is written.
* **`Bucket.numberOf?`**, **`Bucket.numberOf?_eq_some_iff`** — the number is read off a home.
* **`Bucket.Apart`**, **`Bucket.apart_homes`** — where two homes differ.
* **`Plan.StandsFor`**, **`Plan.standsFor_bucket`** — the keyring of each bucket.
* **`Plan.homes_numbered`** — the homes of a plan, its keyrings and what they are asked for.
-/

namespace KeyBuckets

open Machine Text

namespace Text.Numeral

/-! ## How numbers are written -/

/-- The digits that a number is written with. A zero in front stands alone. -/
structure Written (ds : List Char) (n : Nat) : Prop where
  ne_nil : ds ≠ []
  digits : ∀ d ∈ ds, d.isDigit = true
  unpadded : ds.head? = some '0' → ds = ['0']
  value : Nat.ofDigitChars 10 ds 0 = n

theorem digitChar_of_isDigit {d : Char} (h : d.isDigit = true) :
    d.toNat - '0'.toNat < 10 ∧ Nat.digitChar (d.toNat - '0'.toNat) = d := by
  have hascii : d.toNat < 128 := by
    simp only [Char.isDigit, Bool.and_eq_true, decide_eq_true_eq] at h
    have hle : d.toNat ≤ 57 := h.2
    omega
  exact of_forall_ascii (P := fun d => d.isDigit = true →
    d.toNat - '0'.toNat < 10 ∧ Nat.digitChar (d.toNat - '0'.toNat) = d) (by decide) hascii h

/-- Only zero is written with a zero in front. -/
theorem head?_toDigits_ne_zero {n : Nat} (h : 0 < n) :
    (Nat.toDigits 10 n).head? ≠ some '0' := by
  induction n using Nat.strongRecOn with
  | ind n ih =>
    by_cases hn : n < 10
    · have hall : ∀ n < 10, 0 < n → Nat.digitChar n ≠ '0' := by decide
      rw [Nat.toDigits_of_lt_base hn]
      exact fun heq => hall n hn h (Option.some.inj heq)
    · -- the digits in front are those of a tenth
      rw [Nat.toDigits_of_base_le (by decide) (by omega),
        List.head?_append_of_ne_nil _ Nat.toDigits_ne_nil]
      exact ih (n / 10) (by omega) (by omega)

/-- A number is written again with the digits that it is read from. -/
theorem toDigits_ofDigitChars {ds : List Char} (hne : ds ≠ [])
    (hdigits : ∀ d ∈ ds, d.isDigit = true) (hunpadded : ds.head? = some '0' → ds = ['0']) :
    Nat.toDigits 10 (Nat.ofDigitChars 10 ds 0) = ds := by
  induction ds using List.reverseRecOn with
  | nil => exact absurd rfl hne
  | append_singleton front d ih =>
    obtain ⟨hlt, hchar⟩ := digitChar_of_isDigit (hdigits d (by simp))
    rw [Nat.ofDigitChars_append, Nat.ofDigitChars_cons, Nat.ofDigitChars_nil]
    by_cases hfront : front = []
    · subst hfront
      rw [Nat.ofDigitChars_nil, Nat.mul_zero, Nat.zero_add, Nat.toDigits_of_lt_base hlt, hchar]
      rfl
    · -- there is no zero in front of two digits or more
      have hzero : front.head? ≠ some '0' := by
        intro hhead
        have hsingle := hunpadded (by rw [List.head?_append_of_ne_nil _ hfront, hhead])
        have hlength := congrArg List.length hsingle
        have hpos := List.length_pos_of_ne_nil hfront
        simp only [List.length_append, List.length_singleton] at hlength
        omega
      have hback := ih hfront (fun c hc => hdigits c (by simp [hc])) fun hhead => absurd hhead hzero
      have hpos : 0 < Nat.ofDigitChars 10 front 0 := by
        refine Nat.pos_of_ne_zero fun hvalue => hzero ?_
        rw [← hback, hvalue]
        rfl
      rw [← Nat.toDigits_append_toDigits (by decide) hpos hlt, hback,
        Nat.toDigits_of_lt_base hlt, hchar]

/-- **A number is written in one way.** -/
theorem written_iff {ds : List Char} {n : Nat} : Written ds n ↔ ds = n.repr.toList := by
  constructor
  · rintro ⟨hne, hdigits, hunpadded, rfl⟩
    rw [Nat.toList_repr, toDigits_ofDigitChars hne hdigits hunpadded]
  · rintro rfl
    refine ⟨repr_ne_nil n, fun _ hd => isDigit_of_mem_repr hd, fun hhead => ?_, ?_⟩
    · rw [Nat.toList_repr] at hhead ⊢
      cases n with
      | zero => rfl
      | succ n => exact absurd hhead (head?_toDigits_ne_zero (Nat.succ_pos n))
    · rw [Nat.toList_repr, Nat.ofDigitChars_ten_toDigits]

instance (ds : List Char) (n : Nat) : Decidable (Written ds n) :=
  decidable_of_iff _ written_iff.symm

end Text.Numeral

namespace Bucket

/-! ## The number of a home -/

/-- The number of the bucket whose home is at a path, if the path is a home with this stem. -/
def numberOf? (stem path : String) : Option Nat :=
  (stem.toList.isPrefixOf? path.toList).bind fun ds =>
    if Numeral.Written ds (Nat.ofDigitChars 10 ds 0) then some (Nat.ofDigitChars 10 ds 0) else none

variable {stem path : String} {i j n : Nat}

/-- **A home tells its number**, and no other path has one. -/
theorem numberOf?_eq_some_iff : numberOf? stem path = some n ↔ path = home stem n := by
  unfold numberOf? home
  rw [Option.bind_eq_some_iff]
  constructor
  · rintro ⟨ds, hds, hnumber⟩
    split at hnumber
    · next hwritten =>
      obtain rfl := Option.some.inj hnumber
      have hpath := List.isPrefixOf?_eq_some_iff_append_eq.mp hds
      rw [← String.toList_inj, String.toList_append, ← Numeral.written_iff.mp hwritten, hpath]
    · cases hnumber
  · rintro rfl
    have hwritten := Numeral.written_iff.mpr (rfl : n.repr.toList = n.repr.toList)
    refine ⟨n.repr.toList, ?_, ?_⟩
    · rw [List.isPrefixOf?_eq_some_iff_append_eq, String.toList_append]
    · rw [hwritten.value, if_pos hwritten]

/-! ## Where two homes differ -/

/-- What is in a path up to its last slash and with it. -/
def folderOf (path : String) : String :=
  String.ofList (path.toList.rdropWhile (· ≠ '/'))

/-- What is in a path after its last slash. -/
def lastNameOf (path : String) : String :=
  String.ofList (path.toList.rtakeWhile (· ≠ '/'))

theorem folderOf_append_lastNameOf (path : String) : folderOf path ++ lastNameOf path = path := by
  rw [← String.toList_inj, folderOf, lastNameOf, String.toList_append, String.toList_ofList,
    String.toList_ofList, List.rdropWhile_append_rtakeWhile]

/-- What is put at the end of a path comes after its last slash. -/
theorem folderOf_append {suffix : String} (h : '/' ∉ suffix.toList) (path : String) :
    folderOf (path ++ suffix) = folderOf path
      ∧ lastNameOf (path ++ suffix) = lastNameOf path ++ suffix := by
  have hsuffix : ∀ c ∈ suffix.toList.reverse, decide (c ≠ '/') = true := by
    intro c hc
    refine decide_eq_true fun hslash => h ?_
    rw [← hslash]
    exact List.mem_reverse.mp hc
  constructor
  · unfold folderOf List.rdropWhile
    rw [String.toList_append, List.reverse_append, List.dropWhile_append_of_pos hsuffix]
  · unfold lastNameOf List.rtakeWhile
    rw [String.toList_append, List.reverse_append, List.takeWhile_append_of_pos hsuffix,
      List.reverse_append, List.reverse_reverse, String.ofList_append, String.ofList_toList]

/-- Two paths that are the same up to the last slash of a stem, and have other names after it. -/
structure Apart (stem path path' : String) : Prop where
  folder : path = folderOf stem ++ lastNameOf path ∧ path' = folderOf stem ++ lastNameOf path'
  name : lastNameOf path ≠ lastNameOf path'
  components : (componentsOf path).dropLast = (componentsOf path').dropLast
  last : (componentsOf path).getLast? ≠ (componentsOf path').getLast?

theorem apart_homes (hij : i ≠ j) : Apart stem (home stem i) (home stem j) := by
  obtain ⟨names, base, hcomponents⟩ := exists_componentsOf_home stem
  have hcut : ∀ n, folderOf (home stem n) = folderOf stem
      ∧ lastNameOf (home stem n) = home (lastNameOf stem) n :=
    fun n => folderOf_append (slash_not_mem_repr n) stem
  have hfolder : ∀ n, home stem n = folderOf stem ++ lastNameOf (home stem n) := by
    intro n
    rw [← (hcut n).1, folderOf_append_lastNameOf]
  refine ⟨⟨hfolder i, hfolder j⟩, fun hname => ?_, ?_, fun hlast => ?_⟩
  · rw [(hcut i).2, (hcut j).2] at hname
    exact hij (home_injective _ hname)
  · rw [hcomponents, hcomponents, List.dropLast_concat, List.dropLast_concat]
  · rw [hcomponents, hcomponents, List.getLast?_concat, List.getLast?_concat] at hlast
    exact hij (home_injective base (Option.some.inj hlast))

end Bucket

namespace Plan

open Keyring

/-! ## The homes of a plan -/

variable {plan : Plan} {i : Fin plan.count.value} {material : List UInt8}

theorem length_buckets (plan : Plan) : plan.buckets.length = plan.count.value := by
  unfold buckets
  rw [List.length_map, length_homes]

theorem getElem?_buckets (plan : Plan) (i : Fin plan.count.value) :
    plan.buckets[i.val]? = some (plan.bucket i) := by
  unfold buckets
  rw [List.getElem?_map, getElem?_homes]
  rfl

theorem nodup_buckets (plan : Plan) : plan.buckets.Nodup := by
  refine List.Nodup.of_map (·.home) ?_
  rw [map_home_buckets]
  exact .map (Bucket.home_injective plan.stem) List.nodup_range

/-! ## The keyrings of a plan -/

theorem importing_mem_callsOf_iff {occurrence : Occurrence (List UInt8) plan.count} :
    plan.importing i material ∈ plan.callsOf occurrence
      ↔ occurrence = .request (.bucket i) (.importKeys material) := by
  have hexports : ∀ half fingerprint,
      plan.importing i material ∉ plan.exportCalls half fingerprint := by
    intro half fingerprint hmem
    unfold exportCalls at hmem
    obtain ⟨form, -, hform⟩ := Option.map_eq_some_iff.mp (Option.mem_toList.mp hmem)
    exact exporting_ne_importing half form i material hform
  constructor
  · intro hmem
    unfold callsOf at hmem
    split at hmem
    · exact absurd hmem (hexports .publicHalf _)
    · exact absurd hmem (hexports .secretHalf _)
    · have hcall := List.mem_singleton.mp hmem
      obtain rfl := importing_injective hcall
      obtain rfl := congrArg Invocation.input hcall
      rfl
    · cases hmem
  · rintro rfl
    exact List.mem_singleton_self _

/-- A keyring is the one that stands for bucket `i`: it is entry `i` of the keyrings and no other,
its home is home `i`, and it imports what bucket `i` is asked to import, and nothing else. -/
structure StandsFor (plan : Plan) (rings : List Keyring) (i : Fin plan.count.value)
    (ring : Keyring) : Prop where
  entry : ∀ j : Nat, rings[j]? = some ring ↔ j = i.val
  home : plan.homes[i.val]? = some ring.home
  vault : plan.distribution.bucket i = ring.vault
  imports : ∀ occurrence material, ring.invocation importCommand material ∈ plan.callsOf occurrence
    ↔ occurrence = .request (.bucket i) (.importKeys material)

theorem standsFor_bucket (plan : Plan) (i : Fin plan.count.value) :
    plan.StandsFor plan.buckets i (plan.bucket i) where
  entry j := by
    constructor
    · intro hj
      have hlt : j < plan.buckets.length := (List.getElem?_eq_some_iff.mp hj).1
      exact (List.getElem?_inj hlt plan.nodup_buckets).mp
        (hj.trans (getElem?_buckets plan i).symm)
    · rintro rfl
      exact getElem?_buckets plan i
  home := getElem?_homes plan i
  vault := rfl
  imports _ _ := importing_mem_callsOf_iff

/-- The keyrings of a prepared plan are those at its homes. -/
theorem eq_buckets_of_prepare {machine prepared : Machine} {rings : List Keyring}
    (h : plan.prepare machine = (.ok rings, prepared)) : rings = plan.buckets := by
  rcases furnished_or_unfurnished machine.working machine.tree plan.homes with
    ⟨tree, hhomes⟩ | ⟨e, hhomes⟩
  · rw [prepare_of_furnished hhomes] at h
    exact (Except.ok.inj (Prod.mk.inj h).1).symm
  · obtain ⟨tree, hprepare⟩ := prepare_of_unfurnished hhomes
    cases hprepare.symm.trans h

/-- **Homes never collide.** A home tells its number, whatever its stem is. So a plan has as many
homes as buckets, and any two of them differ in their last names. Each bucket has a keyring of its
own, and what a run asks of the buckets goes to these. -/
theorem homes_numbered :
    (∀ stem, Function.Injective (Bucket.home stem)
      ∧ ∀ path n, Bucket.numberOf? stem path = some n ↔ path = Bucket.home stem n)
      ∧ ∀ plan : Plan, plan.homes.length = plan.count.value
        ∧ (∀ i : Fin plan.count.value, ∃ digits, Numeral.Written digits i.val
            ∧ plan.homes[i.val]? = some (plan.stem ++ String.ofList digits))
        ∧ (∀ (i j : Nat) (home home' : String), i ≠ j →
            plan.homes[i]? = some home → plan.homes[j]? = some home' →
            home ≠ home' ∧ Bucket.Apart plan.stem home home')
        ∧ ∀ machine,
          (∀ rings prepared, plan.prepare machine = (.ok rings, prepared) →
            rings.length = plan.count.value ∧ ∀ i, ∃ ring, plan.StandsFor rings i ring)
          ∧ ∃ commands, commands <+: [listPublicCommand, listSecretCommand]
            ∧ (plan.tried machine).map Attempt.invocation
              = (commands.map fun command => plan.source.invocation command [])
                ++ (plan.carryOut machine).1.trace.flatMap plan.callsOf := by
  refine ⟨fun stem => ⟨Bucket.home_injective stem, fun path n => Bucket.numberOf?_eq_some_iff⟩,
    fun plan => ⟨length_homes plan, fun i => ?_, fun i j home home' hij hi hj => ?_,
      fun machine => ⟨fun rings prepared hprepare => ?_, tried_eq_calls plan machine⟩⟩⟩
  · refine ⟨i.val.repr.toList, Numeral.written_iff.mpr rfl, ?_⟩
    rw [String.ofList_toList]
    exact getElem?_homes plan i
  · have hhome : ∀ n path, plan.homes[n]? = some path → path = Bucket.home plan.stem n := by
      intro n path hn
      have hlt : n < plan.count.value := length_homes plan ▸ (List.getElem?_eq_some_iff.mp hn).1
      exact Option.some.inj (hn.symm.trans (getElem?_homes plan ⟨n, hlt⟩))
    obtain rfl := hhome i home hi
    obtain rfl := hhome j home' hj
    exact ⟨fun h => hij (Bucket.home_injective plan.stem h), Bucket.apart_homes hij⟩
  · obtain rfl := eq_buckets_of_prepare hprepare
    exact ⟨length_buckets plan, fun i => ⟨plan.bucket i, standsFor_bucket plan i⟩⟩

/-- With a stem that ends in a digit, the homes of buckets 1 and 11 are still apart. -/
theorem homes_numbered_twelve :
    let plan : Plan := { inputHome := "/home", stem := "/srv/p1", count := ⟨12, by decide⟩ }
    let machine : Machine :=
      { tree := { entries := [(["srv"], .directory 0o755)], inDirectory := by decide } }
    plan.homes[1]? = some "/srv/p11" ∧ plan.homes[11]? = some "/srv/p111"
      ∧ Bucket.Apart "/srv/p1" "/srv/p11" "/srv/p111"
      ∧ Bucket.numberOf? "/srv/p1" "/srv/p111" = some 11
      ∧ plan.prepare machine = (.ok plan.buckets, (plan.prepare machine).2)
      ∧ plan.buckets.length = 12
      ∧ ∃ ring, plan.StandsFor plan.buckets ⟨11, by decide⟩ ring := by
  intro plan machine
  obtain ⟨hnumbers, hplans⟩ := homes_numbered
  obtain ⟨-, -, hapart, hmachines⟩ := hplans plan
  have hfirst : plan.homes[1]? = some "/srv/p11" := by decide +kernel
  have hlast : plan.homes[11]? = some "/srv/p111" := by decide +kernel
  have hprepare : plan.prepare machine = (.ok plan.buckets, (plan.prepare machine).2) :=
    Prod.ext (by decide +kernel) rfl
  obtain ⟨hlength, hrings⟩ := (hmachines machine).1 _ _ hprepare
  exact ⟨hfirst, hlast, (hapart 1 11 _ _ (by decide) hfirst hlast).2,
    ((hnumbers "/srv/p1").2 "/srv/p111" 11).mpr (by decide +kernel), hprepare, hlength, hrings _⟩

end Plan

end KeyBuckets
