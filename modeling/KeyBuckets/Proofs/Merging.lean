import KeyBuckets.Proofs.Contents
import Mathlib.Data.List.Induction
import Mathlib.Data.Finset.SDiff

/-!
# Merging — a listing of public keys, completed by one of secret keys

Secret keys are taken into the listing one after the other, and each is looked for among the public
keys and the secret keys taken in before it. All of them together mark the first public key with
each of their fingerprints, and add the first secret key with each fingerprint that no public key
has.

* **`strangers`** — the secret keys that are added.
* **`markSecrets_eq`** — a merge as one pass over the public keys, and the strangers.
* **`Merged`**, **`merged_markSecrets`** — the merged listing, entry by entry.
-/

namespace KeyBuckets.Key

open Memory (newcomers newcomers_append newcomers_singleton)

/-! ## Taking in one key -/

theorem adoptSecret_of_mem {key : Key} {keys : List Key}
    (h : key.fingerprint ∈ fingerprints keys) :
    adoptSecret key keys = markFirsts (· = key.fingerprint) keys := by
  induction keys with
  | nil => cases h
  | cons k ks ih =>
    rw [adoptSecret, markFirsts]
    by_cases hk : k.fingerprint = key.fingerprint
    · -- the search ends here, and no later key is marked
      rw [if_pos hk, markFirsts_eq_self fun f _ => by simp [hk]]
      simp [hk, withSecret, mark]
    · have hks : key.fingerprint ∈ fingerprints ks :=
        (List.mem_cons.mp h).resolve_left (Ne.symm hk)
      rw [if_neg hk, ih hks]
      congr 1
      · simp [hk]
      · refine markFirsts_congr fun f _ => ?_
        by_cases hf : f = key.fingerprint
        · simp [hf, Ne.symm hk]
        · simp [hf]

theorem adoptSecret_of_not_mem {key : Key} {keys : List Key}
    (h : key.fingerprint ∉ fingerprints keys) :
    adoptSecret key keys = keys ++ [key.withSecret] := by
  induction keys with
  | nil => rfl
  | cons k ks ih =>
    obtain ⟨hk, hks⟩ := not_or.mp (mt List.mem_cons.mpr h)
    rw [adoptSecret, if_neg (Ne.symm hk), ih hks, List.cons_append]

/-- Keys that have their secret halves already stay as they are. -/
theorem markFirsts_of_hasSecret (p : String → Bool) {keys : List Key}
    (h : ∀ key ∈ keys, key.hasSecret = true) : markFirsts p keys = keys := by
  induction keys generalizing p with
  | nil => rfl
  | cons k ks ih =>
    obtain ⟨hk, hks⟩ := List.forall_mem_cons.mp h
    rw [markFirsts, ih _ hks]
    congr 1
    unfold mark
    rw [hk, Bool.true_or, ← hk]

/-! ## The keys that are added -/

/-- The first secret key with each fingerprint that no public key has, marked. -/
def strangers (publicKeys secretKeys : List Key) : List Key :=
  (newcomers (fingerprints publicKeys) (fingerprints secretKeys)).filterMap fun f =>
    (secretKeys.find? (·.fingerprint = f)).map withSecret

theorem exists_find?_of_mem {keys : List Key} {f : String} (h : f ∈ fingerprints keys) :
    ∃ key, keys.find? (·.fingerprint = f) = some key ∧ key.fingerprint = f := by
  obtain ⟨other, hother, hf⟩ := List.mem_map.mp h
  have hfound : (keys.find? (·.fingerprint = f)).isSome = true :=
    List.find?_isSome.mpr ⟨other, hother, by simpa using hf⟩
  obtain ⟨key, hkey⟩ := Option.isSome_iff_exists.mp hfound
  exact ⟨key, hkey, by simpa using List.find?_some hkey⟩

theorem find?_eq_none_of_not_mem {keys : List Key} {f : String} (h : f ∉ fingerprints keys) :
    keys.find? (·.fingerprint = f) = none := by
  rw [List.find?_eq_none]
  intro key hkey hf
  exact h (List.mem_map.mpr ⟨key, hkey, by simpa using hf⟩)

theorem mem_newcomers {held offered : List String} {f : String} :
    f ∈ newcomers held offered ↔ f ∈ offered ∧ f ∉ held := by
  simp [newcomers]

theorem mem_append_newcomers {held offered : List String} {f : String} :
    f ∈ held ++ newcomers held offered ↔ f ∈ held ++ offered := by
  simp only [List.mem_append, mem_newcomers]
  tauto

theorem nodup_newcomers (held offered : List String) : (newcomers held offered).Nodup := by
  induction offered using List.reverseRecOn with
  | nil => exact List.nodup_nil
  | append_singleton offered f ih =>
    rw [newcomers_append, newcomers_singleton]
    split
    · rwa [List.append_nil]
    · next hnew =>
      refine ih.append (List.nodup_singleton f) ?_
      rw [List.disjoint_singleton]
      exact fun hmem => hnew (List.mem_append_right _ hmem)

theorem length_newcomers (held offered : List String) :
    (newcomers held offered).length = (offered.toFinset \ held.toFinset).card := by
  rw [← List.toFinset_card_of_nodup (nodup_newcomers held offered)]
  congr 1
  ext f
  simp [mem_newcomers]

theorem fingerprints_strangers (publicKeys secretKeys : List Key) :
    fingerprints (strangers publicKeys secretKeys)
      = newcomers (fingerprints publicKeys) (fingerprints secretKeys) := by
  unfold strangers
  show List.map Key.fingerprint _ = _
  rw [List.map_filterMap]
  refine (List.filterMap_congr fun f hf => ?_).trans List.filterMap_some
  obtain ⟨key, hkey, rfl⟩ := exists_find?_of_mem (mem_newcomers.mp hf).1
  rw [hkey]
  rfl

theorem strangers_eq_nil {publicKeys secretKeys : List Key}
    (h : ∀ f ∈ fingerprints secretKeys, f ∈ fingerprints publicKeys) :
    strangers publicKeys secretKeys = [] := by
  have hnone : newcomers (fingerprints publicKeys) (fingerprints secretKeys) = [] := by
    rw [List.eq_nil_iff_forall_not_mem]
    intro f hf
    obtain ⟨hoffered, hnew⟩ := mem_newcomers.mp hf
    exact hnew (h f hoffered)
  unfold strangers
  rw [hnone, List.filterMap_nil]

theorem hasSecret_of_mem_strangers {publicKeys secretKeys : List Key} :
    ∀ key ∈ strangers publicKeys secretKeys, key.hasSecret = true := by
  intro key hkey
  obtain ⟨f, -, hf⟩ := List.mem_filterMap.mp hkey
  obtain ⟨first, -, rfl⟩ := Option.map_eq_some_iff.mp hf
  rfl

/-- One more secret key is a stranger if its fingerprint has not been seen at all. -/
theorem strangers_concat (publicKeys secretKeys : List Key) (key : Key) :
    strangers publicKeys (secretKeys ++ [key])
      = strangers publicKeys secretKeys
        ++ if key.fingerprint ∈ fingerprints publicKeys ++ fingerprints secretKeys then []
          else [key.withSecret] := by
  unfold strangers
  rw [fingerprints_append, newcomers_append, List.filterMap_append]
  congr 1
  · -- the first key with a fingerprint seen before is still the first
    refine List.filterMap_congr fun f hf => ?_
    obtain ⟨first, hfirst, -⟩ := exists_find?_of_mem (mem_newcomers.mp hf).1
    rw [List.find?_append, hfirst, Option.some_or]
  · have hsingle : fingerprints [key] = [key.fingerprint] := rfl
    rw [hsingle, newcomers_singleton]
    simp only [mem_append_newcomers]
    split
    · rfl
    · next hnew =>
      have hnone : secretKeys.find? (·.fingerprint = key.fingerprint) = none :=
        find?_eq_none_of_not_mem fun hmem => hnew (List.mem_append_right _ hmem)
      simp [List.find?_append, hnone]

/-! ## A merge as one pass -/

theorem fingerprints_merged (p : String → Bool) (publicKeys secretKeys : List Key) :
    fingerprints (markFirsts p publicKeys ++ strangers publicKeys secretKeys)
      = fingerprints publicKeys
        ++ newcomers (fingerprints publicKeys) (fingerprints secretKeys) := by
  rw [fingerprints_append, fingerprints_markFirsts, fingerprints_strangers]

/-- Marks do not reach the strangers. -/
theorem markFirsts_merged (p q : String → Bool) (publicKeys secretKeys : List Key) :
    markFirsts q (markFirsts p publicKeys ++ strangers publicKeys secretKeys)
      = markFirsts (fun f => p f || q f) publicKeys ++ strangers publicKeys secretKeys := by
  rw [markFirsts_append, markFirsts_markFirsts, markFirsts_of_hasSecret _ hasSecret_of_mem_strangers]

/-- **What a merge comes to**: one pass over the public keys, and the strangers. -/
theorem markSecrets_eq (publicKeys secretKeys : List Key) :
    markSecrets publicKeys secretKeys
      = markFirsts (· ∈ fingerprints secretKeys) publicKeys
        ++ strangers publicKeys secretKeys := by
  -- the keys that were taken in before the last one are marked or strangers
  induction secretKeys using List.reverseRecOn with
  | nil =>
    rw [markFirsts_eq_self fun f _ => by simp [fingerprints]]
    exact (List.append_nil publicKeys).symm
  | append_singleton secretKeys key ih =>
    have hlast : markSecrets publicKeys (secretKeys ++ [key])
        = adoptSecret key (markSecrets publicKeys secretKeys) := List.foldl_concat ..
    have hmem : key.fingerprint ∈ fingerprints (markFirsts (· ∈ fingerprints secretKeys) publicKeys
          ++ strangers publicKeys secretKeys)
        ↔ key.fingerprint ∈ fingerprints publicKeys ++ fingerprints secretKeys := by
      rw [fingerprints_merged, mem_append_newcomers]
    rw [hlast, ih, strangers_concat]
    by_cases hseen : key.fingerprint ∈ fingerprints publicKeys ++ fingerprints secretKeys
    · rw [adoptSecret_of_mem (hmem.mpr hseen), markFirsts_merged, if_pos hseen, List.append_nil]
      congr 1
      refine markFirsts_congr fun f _ => ?_
      simp [fingerprints]
    · rw [adoptSecret_of_not_mem (mt hmem.mp hseen), if_neg hseen, ← List.append_assoc]
      congr 2
      refine markFirsts_congr fun f hf => ?_
      have hother : f ≠ key.fingerprint := by
        rintro rfl
        exact hseen (List.mem_append_left _ hf)
      simp [fingerprints, hother]

/-! ## A merge, entry by entry -/

theorem markFirsts_eq_mapIdx (p : String → Bool) (keys : List Key) :
    markFirsts p keys = keys.mapIdx fun i key =>
      key.mark (p key.fingerprint && key.fingerprint ∉ fingerprints (keys.take i)) := by
  induction keys generalizing p with
  | nil => rfl
  | cons k ks ih =>
    rw [markFirsts, ih, List.mapIdx_cons]
    congr 1
    · simp [fingerprints]
    · simp [fingerprints, Bool.and_assoc]

theorem length_markFirsts (p : String → Bool) (keys : List Key) :
    (markFirsts p keys).length = keys.length := by
  rw [markFirsts_eq_mapIdx, List.length_mapIdx]

theorem length_strangers (publicKeys secretKeys : List Key) :
    (strangers publicKeys secretKeys).length
      = ((fingerprints secretKeys).toFinset \ (fingerprints publicKeys).toFinset).card := by
  rw [← length_newcomers, ← fingerprints_strangers]
  exact (List.length_map _).symm

/-- What a listing of public keys is completed to by a listing of secret keys. -/
structure Merged (publicKeys secretKeys merged : List Key) : Prop where
  /-- As many keys are added as there are fingerprints that only secret keys have. -/
  length : merged.length = publicKeys.length
    + ((fingerprints secretKeys).toFinset \ (fingerprints publicKeys).toFinset).card
  /-- The public keys come first, and the first one with the fingerprint of a secret key has its
  secret half. -/
  known : merged.take publicKeys.length = publicKeys.mapIdx fun i key =>
    { key with
      hasSecret := key.hasSecret || (key.fingerprint ∉ fingerprints (publicKeys.take i)
        && key.fingerprint ∈ fingerprints secretKeys) }
  added : merged.drop publicKeys.length = strangers publicKeys secretKeys
  /-- A fingerprint is there twice only if two public keys have it. -/
  nodup : (fingerprints merged).Nodup ↔ (fingerprints publicKeys).Nodup
  /-- The same secret keys have nothing to add. -/
  again : markSecrets merged secretKeys = merged

theorem nodup_markSecrets (publicKeys secretKeys : List Key) :
    (fingerprints (markSecrets publicKeys secretKeys)).Nodup ↔ (fingerprints publicKeys).Nodup := by
  rw [markSecrets_eq, fingerprints_merged, List.nodup_append']
  have hdisjoint : (fingerprints publicKeys).Disjoint
      (newcomers (fingerprints publicKeys) (fingerprints secretKeys)) :=
    fun f hf hnew => (mem_newcomers.mp hnew).2 hf
  exact ⟨And.left, fun hnodup => ⟨hnodup, nodup_newcomers _ _, hdisjoint⟩⟩

theorem markSecrets_markSecrets (publicKeys secretKeys : List Key) :
    markSecrets (markSecrets publicKeys secretKeys) secretKeys
      = markSecrets publicKeys secretKeys := by
  have hknown : ∀ f ∈ fingerprints secretKeys,
      f ∈ fingerprints (markSecrets publicKeys secretKeys) := by
    intro f hf
    rw [markSecrets_eq, fingerprints_merged, mem_append_newcomers]
    exact List.mem_append_right _ hf
  rw [markSecrets_eq (markSecrets publicKeys secretKeys), strangers_eq_nil hknown, List.append_nil,
    markSecrets_eq, markFirsts_merged]
  simp only [Bool.or_self]

/-- **How two listings are merged.** -/
theorem merged_markSecrets (publicKeys secretKeys : List Key) :
    Merged publicKeys secretKeys (markSecrets publicKeys secretKeys) where
  length := by
    rw [markSecrets_eq, List.length_append, length_markFirsts, length_strangers]
  known := by
    rw [markSecrets_eq, List.take_left' (length_markFirsts _ _), markFirsts_eq_mapIdx]
    simp only [mark, Bool.and_comm]
  added := by
    rw [markSecrets_eq, List.drop_left' (length_markFirsts _ _)]
  nodup := nodup_markSecrets publicKeys secretKeys
  again := markSecrets_markSecrets publicKeys secretKeys

/-- The first of two public keys with one fingerprint is marked, and a stranger is added once. -/
example : markSecrets [⟨"A", "a", false⟩, ⟨"A", "b", false⟩]
      [⟨"B", "x", false⟩, ⟨"A", "b", true⟩, ⟨"B", "y", true⟩]
    = [⟨"A", "a", true⟩, ⟨"A", "b", false⟩, ⟨"B", "x", true⟩] := by decide +kernel

end KeyBuckets.Key
