import KeyBuckets.Trace

/-!
# Parts — vaults with states of their own

The source and every bucket of a distribution each have a state that no other vault
sees. Such a distribution runs on all these states together, and a request to one
vault changes that vault's part and nothing else.
-/

namespace KeyBuckets

structure Parts (Source Bucket : Type) (count : BucketCount) where
  source : Source
  buckets : Vector Bucket count.value

namespace Parts

variable {Source Bucket α : Type} {count : BucketCount}

def mapSource (f : Source → Source) (parts : Parts Source Bucket count) :
    Parts Source Bucket count :=
  { parts with source := f parts.source }

def mapBucket (i : Fin count.value) (f : Bucket → Bucket) (parts : Parts Source Bucket count) :
    Parts Source Bucket count :=
  { parts with buckets := parts.buckets.set i (f parts.buckets[i]) }

def atSource (act : StateM Source α) : StateM (Parts Source Bucket count) α := fun parts =>
  ((act parts.source).1, parts.mapSource fun source => (act source).2)

def atBucket (i : Fin count.value) (act : StateM Bucket α) :
    StateM (Parts Source Bucket count) α := fun parts =>
  ((act parts.buckets[i]).1, parts.mapBucket i fun bucket => (act bucket).2)

/-- Replacing the part of a bucket changes that bucket, and no other. -/
theorem get_mapBucket (i j : Fin count.value) (f : Bucket → Bucket)
    (parts : Parts Source Bucket count) :
    (parts.mapBucket i f).buckets.get j
      = if i = j then f (parts.buckets.get i) else parts.buckets.get j := by
  show (parts.buckets.set i (f parts.buckets[i]))[j]
    = if i = j then f parts.buckets[i] else parts.buckets[j]
  simp [Vector.getElem_set, Fin.ext_iff]

theorem mapBucket_congr {i : Fin count.value} {f g : Bucket → Bucket}
    {parts : Parts Source Bucket count}
    (h : f (parts.buckets.get i) = g (parts.buckets.get i)) :
    parts.mapBucket i f = parts.mapBucket i g := by
  have hsame : f parts.buckets[i] = g parts.buckets[i] := h
  unfold mapBucket
  rw [hsame]

theorem mapBucket_eq_self {i : Fin count.value} {f : Bucket → Bucket}
    {parts : Parts Source Bucket count} (h : f (parts.buckets.get i) = parts.buckets.get i) :
    parts.mapBucket i f = parts := by
  have hsame : f parts.buckets[i] = parts.buckets[i] := h
  unfold mapBucket
  rw [hsame]
  simp

theorem mapBucket_mapBucket (i : Fin count.value) (f g : Bucket → Bucket)
    (parts : Parts Source Bucket count) :
    (parts.mapBucket i f).mapBucket i g = parts.mapBucket i fun bucket => g (f bucket) := by
  simp [mapBucket]

@[simp] theorem mapBucket_source (i : Fin count.value) (f : Bucket → Bucket)
    (parts : Parts Source Bucket count) : (parts.mapBucket i f).source = parts.source := rfl

@[simp] theorem mapSource_buckets (f : Source → Source) (parts : Parts Source Bucket count) :
    (parts.mapSource f).buckets = parts.buckets := rfl

@[simp] theorem atSource_fst (act : StateM Source α) (parts : Parts Source Bucket count) :
    (atSource act parts).1 = (act parts.source).1 := rfl

@[simp] theorem atBucket_fst (i : Fin count.value) (act : StateM Bucket α)
    (parts : Parts Source Bucket count) :
    (atBucket i act parts).1 = (act (parts.buckets.get i)).1 := rfl

end Parts

/-- The distribution of a source over buckets, each with a state of its own. -/
def Distribution.ofParts {Source Bucket Material : Type} {count : BucketCount}
    (source : Vault (StateM Source) Material)
    (bucket : Fin count.value → Vault (StateM Bucket) Material) (includeSecret : Bool) :
    Distribution (StateM (Parts Source Bucket count)) Material count where
  source := source.mapM Parts.atSource
  bucket i := (bucket i).mapM (Parts.atBucket i)
  includeSecret

end KeyBuckets
