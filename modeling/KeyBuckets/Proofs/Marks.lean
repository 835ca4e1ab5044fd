import KeyBuckets.Key

/-!
# Marks — the first key with a fingerprint, marked

Imports and listings look for the first key with a fingerprint and note that its secret half
is there. Done one after the other, such notes amount to one pass over the keys that marks
the first key with each of some fingerprints: `markFirsts`.
-/

namespace KeyBuckets.Key

def fingerprints (keys : List Key) : List String :=
  keys.map (·.fingerprint)

/-- The key, which also has its secret half if `secret` holds. -/
def mark (secret : Bool) (key : Key) : Key :=
  { key with hasSecret := key.hasSecret || secret }

/-- The keys, where the first one with each fingerprint that satisfies `p` is marked. -/
def markFirsts (p : String → Bool) : List Key → List Key
  | [] => []
  | k :: ks => k.mark (p k.fingerprint) :: markFirsts (fun f => p f && f ≠ k.fingerprint) ks

@[simp] theorem fingerprint_mark (secret : Bool) (key : Key) :
    (key.mark secret).fingerprint = key.fingerprint := rfl

@[simp] theorem mark_false (key : Key) : key.mark false = key := by
  unfold mark
  rw [Bool.or_false]

theorem mark_mark (first second : Bool) (key : Key) :
    (key.mark first).mark second = key.mark (first || second) := by
  unfold mark
  simp only [Bool.or_assoc]

theorem fingerprints_cons (k : Key) (ks : List Key) :
    fingerprints (k :: ks) = k.fingerprint :: fingerprints ks := rfl

@[simp] theorem fingerprints_append (xs ys : List Key) :
    fingerprints (xs ++ ys) = fingerprints xs ++ fingerprints ys :=
  List.map_append

@[simp] theorem fingerprints_markFirsts (p : String → Bool) (keys : List Key) :
    fingerprints (markFirsts p keys) = fingerprints keys := by
  induction keys generalizing p with
  | nil => rfl
  | cons k ks ih => exact congrArg (k.fingerprint :: ·) (ih _)

theorem userIds_markFirsts (p : String → Bool) (keys : List Key) :
    (markFirsts p keys).map (·.userId) = keys.map (·.userId) := by
  induction keys generalizing p with
  | nil => rfl
  | cons k ks ih => exact congrArg (k.userId :: ·) (ih _)

theorem markFirsts_congr {p q : String → Bool} {keys : List Key}
    (h : ∀ f ∈ fingerprints keys, p f = q f) : markFirsts p keys = markFirsts q keys := by
  induction keys generalizing p q with
  | nil => rfl
  | cons k ks ih =>
    have hhead : p k.fingerprint = q k.fingerprint := h _ List.mem_cons_self
    have htail : ∀ f ∈ fingerprints ks,
        (p f && f ≠ k.fingerprint) = (q f && f ≠ k.fingerprint) :=
      fun f hf => by rw [h f (List.mem_cons_of_mem _ hf)]
    unfold markFirsts
    rw [hhead, ih htail]

theorem markFirsts_false (keys : List Key) : markFirsts (fun _ => false) keys = keys := by
  induction keys with
  | nil => rfl
  | cons k ks ih =>
    unfold markFirsts
    simp only [Bool.false_and, mark_false, ih]

theorem markFirsts_eq_self {p : String → Bool} {keys : List Key}
    (h : ∀ f ∈ fingerprints keys, p f = false) : markFirsts p keys = keys :=
  (markFirsts_congr h).trans (markFirsts_false keys)

theorem markFirsts_append (p : String → Bool) (xs ys : List Key) :
    markFirsts p (xs ++ ys)
      = markFirsts p xs ++ markFirsts (fun f => p f && f ∉ fingerprints xs) ys := by
  -- what is marked among `ys` shrinks with each key of `xs`, so `p` varies
  induction xs generalizing p with
  | nil =>
    show markFirsts p ys = _
    refine markFirsts_congr fun f _ => ?_
    simp [fingerprints]
  | cons x xs ih =>
    rw [List.cons_append, markFirsts, ih, markFirsts, List.cons_append]
    congr 2
    refine markFirsts_congr fun f _ => ?_
    simp [fingerprints, Bool.and_assoc]

/-- Two passes mark what one pass for either reason marks. -/
theorem markFirsts_markFirsts (p q : String → Bool) (keys : List Key) :
    markFirsts p (markFirsts q keys) = markFirsts (fun f => q f || p f) keys := by
  induction keys generalizing p q with
  | nil => rfl
  | cons k ks ih =>
    rw [markFirsts, markFirsts, markFirsts, ih, mark_mark, fingerprint_mark]
    congr 1
    refine markFirsts_congr fun f _ => ?_
    exact (Bool.and_or_distrib_right _ _ _).symm

/-- The first key with a fingerprint is the one that is marked. -/
theorem find?_markFirsts (p : String → Bool) (keys : List Key) (f : String) :
    (markFirsts p keys).find? (·.fingerprint = f)
      = (keys.find? (·.fingerprint = f)).map (mark (p f)) := by
  induction keys generalizing p with
  | nil => rfl
  | cons k ks ih =>
    rw [markFirsts, List.find?_cons, List.find?_cons, fingerprint_mark]
    by_cases hk : k.fingerprint = f
    · simp [hk]
    · simp [hk, ih, Ne.symm hk]

end KeyBuckets.Key
