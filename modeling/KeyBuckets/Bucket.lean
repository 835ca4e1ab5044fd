import KeyBuckets.Fingerprint

/-!
# Buckets — which one a key belongs to, and where its home is

The first digit of a fingerprint chooses the bucket, modulo the number of buckets.
Fingerprints are evenly spread, so with a divisor of sixteen the buckets come out
about equal in size, and with more than sixteen the last ones stay empty.
-/

namespace KeyBuckets

/-- A number of buckets that keys can be spread over: at least one. -/
structure BucketCount where
  value : Nat
  pos : 0 < value
  deriving DecidableEq

namespace BucketCount

def ofNat? (n : Nat) : Except Error BucketCount :=
  if pos : 0 < n then .ok ⟨n, pos⟩ else .error (.invalidBucketCount n)

@[simp] theorem ofNat?_value (count : BucketCount) : ofNat? count.value = .ok count := by
  simp [ofNat?, count.pos]

end BucketCount

namespace Bucket

/-- The bucket that a fingerprint chooses. -/
def assign (count : BucketCount) (fingerprint : String) : Except Error (Fin count.value) :=
  match Fingerprint.leadingValue? fingerprint with
  | some value => .ok ⟨value % count.value, Nat.mod_lt value count.pos⟩
  | none => .error (.invalidFingerprint fingerprint .noLeadingDigit)

/-- The bucket that a fingerprint chooses, if it chooses one. -/
def choice? (count : BucketCount) (fingerprint : String) : Option (Fin count.value) :=
  (assign count fingerprint).toOption

def index (fingerprint : String) (n : Nat) : Except Error Nat :=
  match BucketCount.ofNat? n with
  | .error e => .error e
  | .ok count => (assign count fingerprint).map (·.val)

/-- The home directory of a bucket: its number, right after the text that all homes
start with. -/
def home (stem : String) (number : Nat) : String :=
  stem ++ number.repr

theorem home_injective (stem : String) : Function.Injective (home stem) := by
  intro i j h
  have hnumbers : stem.toList ++ i.repr.toList = stem.toList ++ j.repr.toList := by
    rw [← String.toList_append, ← String.toList_append]
    exact congrArg String.toList h
  have hrepr : i.repr.toList = j.repr.toList := List.append_cancel_left hnumbers
  rw [Nat.toList_repr, Nat.toList_repr] at hrepr
  simpa using congrArg (fun ds => Nat.ofDigitChars 10 ds 0) hrepr

/-! ## What a fingerprint chooses -/

/-- A fingerprint chooses the value of its first digit, modulo the number of buckets. -/
theorem assign_of_leadingValue {count : BucketCount} {fingerprint : String} {value : Nat}
    {i : Fin count.value} (hvalue : Fingerprint.leadingValue? fingerprint = some value)
    (hi : i.val = value % count.value) : assign count fingerprint = .ok i := by
  unfold assign
  rw [hvalue]
  show Except.ok _ = _
  congr 1
  exact Fin.ext hi.symm

/-- A fingerprint that does not start with a digit chooses no bucket. -/
theorem assign_of_no_leadingValue {count : BucketCount} {fingerprint : String}
    (hvalue : Fingerprint.leadingValue? fingerprint = none) :
    assign count fingerprint = .error (.invalidFingerprint fingerprint .noLeadingDigit) := by
  unfold assign
  rw [hvalue]

theorem choice?_eq_some_iff {count : BucketCount} {fingerprint : String} {i : Fin count.value} :
    choice? count fingerprint = some i
      ↔ ∃ value, Fingerprint.leadingValue? fingerprint = some value
          ∧ i.val = value % count.value := by
  cases hvalue : Fingerprint.leadingValue? fingerprint with
  | none => simp [choice?, assign_of_no_leadingValue hvalue, Except.toOption]
  | some value =>
    let chosen : Fin count.value := ⟨value % count.value, Nat.mod_lt value count.pos⟩
    have hassign : assign count fingerprint = .ok chosen := assign_of_leadingValue hvalue rfl
    simp [choice?, hassign, Except.toOption, Fin.ext_iff, chosen, eq_comm]

theorem choice?_eq_none_iff {count : BucketCount} {fingerprint : String} :
    choice? count fingerprint = none ↔ Fingerprint.leadingValue? fingerprint = none := by
  constructor
  · intro hnone
    cases hvalue : Fingerprint.leadingValue? fingerprint with
    | none => rfl
    | some value =>
      let chosen : Fin count.value := ⟨value % count.value, Nat.mod_lt value count.pos⟩
      have hsome : choice? count fingerprint = some chosen :=
        choice?_eq_some_iff.mpr ⟨value, hvalue, rfl⟩
      rw [hnone] at hsome
      exact absurd hsome (by simp)
  · intro hvalue
    simp [choice?, assign_of_no_leadingValue hvalue, Except.toOption]

end Bucket

end KeyBuckets
