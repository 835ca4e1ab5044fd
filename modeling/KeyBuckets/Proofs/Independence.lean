import KeyBuckets.Proofs.Overflows
import Mathlib.Algebra.BigOperators.Group.Finset.Piecewise
import Mathlib.Data.Fintype.Basic

/-!
# Independence — no bucket sees what happens to another

A bucket is told apart from the rest of a run by the keys that choose it. What a run does to
it is what a run over those keys alone does to it, request by request and report by report.
The two runs are compared step by step, by a simulation that forgets all other buckets.

* **`Alike`** — the states that a bucket cannot tell apart.
* **`Block.transport`** — a key does the same in alike states of the bucket that it chooses.
* **`Block.frame`** — a key leaves every bucket alone that it does not choose.
* **`Blocks.share`** — a run over all keys and a run over the keys of one bucket.
* **`buckets_independent`** — the same for whole runs, with the totals added up.
-/

namespace KeyBuckets

/-! ## Sources that answer the same at all times -/

namespace Vault

variable {m : Type → Type} {σ Material : Type}

/-- The states that listing and exporting lead to. -/
inductive Reads (vault : Vault (StateM σ) Material) (start : σ) : σ → Prop where
  | start : Reads vault start start
  | list {s : σ} (hs : Reads vault start s) : Reads vault start (vault.list s).2
  | exportHalf {s : σ} (half : Half) (fingerprint : String) (hs : Reads vault start s) :
      Reads vault start (vault.exportHalf half fingerprint s).2

/-- From `start` on, the answer to an export depends on the half and the fingerprint, and on
nothing else. -/
def SteadyExports (vault : Vault (StateM σ) Material) (start : σ) : Prop :=
  ∀ half fingerprint s t, Reads vault start s → Reads vault start t →
    (vault.exportHalf half fingerprint s).1 = (vault.exportHalf half fingerprint t).1

def withKeys [Monad m] (vault : Vault m Material) (keys : List Key) : Vault m Material :=
  { vault with list := pure (.ok keys) }

end Vault

theorem Memory.Shelf.eq_of_reads {start shelf : Memory.Shelf}
    (h : Memory.Shelf.vault.Reads start shelf) : shelf = start := by
  induction h with
  | start => rfl
  | list _ ih => exact ih
  | exportHalf half _ _ ih => cases half <;> exact ih

theorem Memory.Shelf.steadyExports (shelf : Memory.Shelf) :
    Memory.Shelf.vault.SteadyExports shelf := by
  intro half fingerprint s t hs ht
  rw [Memory.Shelf.eq_of_reads hs, Memory.Shelf.eq_of_reads ht]

/-! ## What concerns a bucket -/

def Event.fingerprint? : Event → Option String
  | .moving fingerprint _ | .secretSkipped fingerprint _ | .settled fingerprint _ =>
    some fingerprint
  | .started _ | .finished _ => none

def Key.chooses {count : BucketCount} (i : Fin count.value) (key : Key) : Bool :=
  Bucket.choice? count key.fingerprint = some i

theorem Key.chooses_iff {count : BucketCount} {i : Fin count.value} {key : Key} :
    key.chooses i = true ↔ Bucket.choice? count key.fingerprint = some i := by
  unfold chooses
  exact decide_eq_true_iff

/-- Whether a report is about a key that chooses a bucket. -/
def Event.concerns {count : BucketCount} (i : Fin count.value) (event : Event) : Bool :=
  event.fingerprint?.bind (Bucket.choice? count) = some i

/-- Whether an occurrence is a request to a bucket, an export of a key that chooses it, or a
report on such a key. -/
def Occurrence.concerns {Material : Type} {count : BucketCount} (i : Fin count.value) :
    Occurrence Material count → Bool
  | .event e => e.concerns i
  | .request .source (.exportPublic fingerprint) | .request .source (.exportSecret fingerprint) =>
    Bucket.choice? count fingerprint = some i
  | .request .source _ => false
  | .request (.bucket j) _ => j = i

def requestsTo {Material : Type} {count : BucketCount} (place : Place count)
    (trace : List (Occurrence Material count)) : List (Vault.Request Material) :=
  trace.filterMap fun
    | .event _ => none
    | .request there request => if there = place then some request else none

namespace Distribution

variable {Source Target Material : Type} {count : BucketCount}
  {source : Vault (StateM Source) Material} {bucket : Fin count.value → Vault (StateM Target) Material}
  {includeSecret : Bool} {start : Source} {key : Key} {i j : Fin count.value}
  {s s' t : Parts Source Target count}

/-! ## States that a bucket cannot tell apart -/

/-- Both sources are somewhere on the way from `start`, and the bucket is in the same state. -/
structure Alike (source : Vault (StateM Source) Material) (start : Source) (i : Fin count.value)
    (s t : Parts Source Target count) : Prop where
  left : source.Reads start s.source
  right : source.Reads start t.source
  bucket : t.buckets.get i = s.buckets.get i

theorem Alike.symm (h : Alike source start i s t) : Alike source start i t s :=
  ⟨h.right, h.left, h.bucket.symm⟩

theorem export_ofParts (half : Half) (fingerprint : String) :
    (ofParts source bucket includeSecret).source.exportHalf half fingerprint
      = Parts.atSource (source.exportHalf half fingerprint) := by
  cases half <;> rfl

theorem import_ofParts (material : Material) :
    ((ofParts source bucket includeSecret).bucket j).importKeys material
      = Parts.atBucket j ((bucket j).importKeys material) := rfl

/-- An export leaves all buckets alone, so whoever looks at bucket `i` sees nothing of it. -/
theorem export_frame {half : Half} {fingerprint : String} {answer : Except Error Material}
    (hst : Alike source start i s t)
    (h : (ofParts source bucket includeSecret).source.exportHalf half fingerprint s = (answer, s')) :
    Alike source start i s' t := by
  rw [export_ofParts] at h
  obtain ⟨-, rfl⟩ := Prod.mk.inj h
  exact ⟨.exportHalf half fingerprint hst.left, hst.right, hst.bucket⟩

/-- An export has the same answer on both sides, as the source answers steadily. -/
theorem export_transport (hsteady : source.SteadyExports start) {half : Half}
    {fingerprint : String} {answer : Except Error Material} (hst : Alike source start i s t)
    (h : (ofParts source bucket includeSecret).source.exportHalf half fingerprint s = (answer, s')) :
    ∃ t', (ofParts source bucket includeSecret).source.exportHalf half fingerprint t = (answer, t')
      ∧ Alike source start i s' t' := by
  -- the answers are the same as the source is steady, although its states may differ
  have hframe := export_frame hst h
  rw [export_ofParts] at h ⊢
  refine ⟨t.mapSource fun u => (source.exportHalf half fingerprint u).2, Prod.ext ?_ rfl,
    ⟨hframe.left, .exportHalf half fingerprint hst.right, hframe.bucket⟩⟩
  rw [Parts.atSource_fst, hsteady half fingerprint _ _ hst.right hst.left, ← Parts.atSource_fst, h]

/-- An import into another bucket leaves bucket `i` alone. -/
theorem import_frame {material : Material} {answer : Except Error ImportCounts}
    (hst : Alike source start i s t) (hj : j ≠ i)
    (h : ((ofParts source bucket includeSecret).bucket j).importKeys material s = (answer, s')) :
    Alike source start i s' t := by
  rw [import_ofParts] at h
  obtain ⟨-, rfl⟩ := Prod.mk.inj h
  refine ⟨hst.left, hst.right, ?_⟩
  rw [hst.bucket]
  exact ((Parts.get_mapBucket j i _ s).trans (if_neg hj)).symm

/-- An import into bucket `i` has the same answer on both sides, as they have this bucket in common.
-/
theorem import_transport {material : Material} {answer : Except Error ImportCounts}
    (hst : Alike source start i s t)
    (h : ((ofParts source bucket includeSecret).bucket i).importKeys material s = (answer, s')) :
    ∃ t', ((ofParts source bucket includeSecret).bucket i).importKeys material t = (answer, t')
      ∧ Alike source start i s' t' := by
  rw [import_ofParts] at h ⊢
  obtain ⟨hanswer, rfl⟩ := Prod.mk.inj h
  refine ⟨(Parts.atBucket i ((bucket i).importKeys material) t).2, Prod.ext ?_ rfl,
    ⟨hst.left, hst.right, ?_⟩⟩
  · rw [Parts.atBucket_fst, hst.bucket]
    exact hanswer
  · show (t.mapBucket i _).buckets.get i = (s.mapBucket i _).buckets.get i
    rw [Parts.get_mapBucket, Parts.get_mapBucket, if_pos rfl, if_pos rfl, hst.bucket]

/-- One half of a key on its way to another bucket. -/
theorem Passage.frame {half : Half} {arrival : Arrival} {passed : List (Occurrence Material count)}
    (hst : Alike source start i s t) (hj : j ≠ i)
    (h : Passage (ofParts source bucket includeSecret) half key j s arrival passed s') :
    Alike source start i s' t := by
  cases h with
  | exportFailed hexport => exact export_frame hst hexport
  | importFailed hexport himport => exact import_frame (export_frame hst hexport) hj himport
  | answered hexport himport => exact import_frame (export_frame hst hexport) hj himport

/-- One half of a key on its way to bucket `i`. -/
theorem Passage.transport (hsteady : source.SteadyExports start) {half : Half} {arrival : Arrival}
    {passed : List (Occurrence Material count)} (hst : Alike source start i s t)
    (h : Passage (ofParts source bucket includeSecret) half key i s arrival passed s') :
    ∃ t', Passage (ofParts source bucket includeSecret) half key i t arrival passed t'
      ∧ Alike source start i s' t' := by
  cases h with
  | exportFailed hexport =>
    obtain ⟨t', hexport', hst'⟩ := export_transport hsteady hst hexport
    exact ⟨t', .exportFailed hexport', hst'⟩
  | importFailed hexport himport =>
    obtain ⟨t₁, hexport', hst₁⟩ := export_transport hsteady hst hexport
    obtain ⟨t', himport', hst'⟩ := import_transport hst₁ himport
    exact ⟨t', .importFailed hexport' himport', hst'⟩
  | answered hexport himport =>
    obtain ⟨t₁, hexport', hst₁⟩ := export_transport hsteady hst hexport
    obtain ⟨t', himport', hst'⟩ := import_transport hst₁ himport
    exact ⟨t', .answered hexport' himport', hst'⟩

/-- A key that chooses bucket `i` goes the same way on both sides. -/
theorem Block.transport (hsteady : source.SteadyExports start) {outcome : Outcome}
    {block : List (Occurrence Material count)} (hchooses : key.chooses i = true)
    (hst : Alike source start i s t)
    (h : Block (ofParts source bucket includeSecret) key s outcome block s') :
    ∃ t', Block (ofParts source bucket includeSecret) key t outcome block t'
      ∧ Alike source start i s' t' := by
  have hi := Key.chooses_iff.mp hchooses
  cases h with
  | unassigned hvalue =>
    -- a key without a bucket does not choose this one
    rw [Bucket.choice?_eq_none_iff_firstDigit.mpr hvalue] at hi
    exact absurd hi (by simp)
  | publicOnly hvalue hj hpublic houtcome hstays =>
    rw [Bucket.choice?_eq_some_iff_firstDigit.mpr ⟨_, hvalue, hj⟩] at hi
    cases hi
    obtain ⟨t', hpublic', hst'⟩ := hpublic.transport hsteady hst
    exact ⟨t', .publicOnly hvalue hj hpublic' houtcome hstays, hst'⟩
  | bothHalves hvalue hj hpublic houtcome hfollows hsecret =>
    rw [Bucket.choice?_eq_some_iff_firstDigit.mpr ⟨_, hvalue, hj⟩] at hi
    cases hi
    obtain ⟨t₁, hpublic', hst₁⟩ := hpublic.transport hsteady hst
    obtain ⟨t', hsecret', hst'⟩ := hsecret.transport hsteady hst₁
    exact ⟨t', .bothHalves hvalue hj hpublic' houtcome hfollows hsecret', hst'⟩

/-- A key that does not choose bucket `i` leaves it alone. One case for each constructor. -/
theorem Block.frame {outcome : Outcome} {block : List (Occurrence Material count)}
    (hchooses : key.chooses i = false) (hst : Alike source start i s t)
    (h : Block (ofParts source bucket includeSecret) key s outcome block s') :
    Alike source start i s' t := by
  cases hchoice : Bucket.choice? count key.fingerprint with
  | none =>
    obtain ⟨rfl, -, -⟩ := h.of_choice_none hchoice
    exact hst
  | some j =>
    have hne : j ≠ i := by
      rintro rfl
      rw [Key.chooses_iff.mpr hchoice] at hchooses
      exact absurd hchooses (by simp)
    obtain ⟨arrival, half, s₁, hpublic, -, hrest⟩ := h.of_choice hchoice
    have hst₁ : Alike source start i s₁ t := hpublic.frame hst hne
    rcases hrest with ⟨-, rfl, -⟩ | ⟨-, secret, other, hsecret, -⟩
    · exact hst₁
    · exact hsecret.frame hst₁ hne

/-! ## What a key does hangs on no listing -/

/-- Of the source a passage needs the exports only. -/
theorem Passage.of_exports {source' : Vault (StateM Source) Material}
    (hsame : source'.exportHalf = source.exportHalf) {half : Half} {arrival : Arrival}
    {passed : List (Occurrence Material count)}
    (h : Passage (ofParts source bucket includeSecret) half key i s arrival passed s') :
    Passage (ofParts source' bucket includeSecret) half key i s arrival passed s' := by
  have hexports : ∀ fingerprint,
      (ofParts source' bucket includeSecret).source.exportHalf half fingerprint
        = (ofParts source bucket includeSecret).source.exportHalf half fingerprint := by
    intro fingerprint
    rw [export_ofParts, export_ofParts, hsame]
  cases h with
  | exportFailed hexport => exact .exportFailed (hexports _ ▸ hexport)
  | importFailed hexport himport => exact .importFailed (hexports _ ▸ hexport) himport
  | answered hexport himport => exact .answered (hexports _ ▸ hexport) himport

/-- Another listing makes no difference to the exports. -/
theorem exportHalf_withKeys (source : Vault (StateM Source) Material) (keys : List Key) :
    (source.withKeys keys).exportHalf = source.exportHalf := by
  funext half
  cases half <;> rfl

theorem Passage.withKeys (keys : List Key) {half : Half} {arrival : Arrival}
    {passed : List (Occurrence Material count)}
    (h : Passage (ofParts source bucket includeSecret) half key i s arrival passed s') :
    Passage (ofParts (source.withKeys keys) bucket includeSecret) half key i s arrival passed s' :=
  h.of_exports (exportHalf_withKeys source keys)

theorem Block.withKeys (keys : List Key) {outcome : Outcome}
    {block : List (Occurrence Material count)}
    (h : Block (ofParts source bucket includeSecret) key s outcome block s') :
    Block (ofParts (source.withKeys keys) bucket includeSecret) key s outcome block s' := by
  cases h with
  | unassigned hvalue hreason => exact .unassigned hvalue hreason
  | publicOnly hvalue hi hpublic houtcome hstays =>
    exact .publicOnly hvalue hi (hpublic.withKeys keys) houtcome hstays
  | bothHalves hvalue hi hpublic houtcome hfollows hsecret =>
    exact .bothHalves hvalue hi (hpublic.withKeys keys) houtcome hfollows (hsecret.withKeys keys)

/-- Once the source is listed, its listing is not asked for again. -/
theorem Blocks.withKeys (keys : List Key) {settled : List (Key × Outcome)}
    {blocks : List (Occurrence Material count)}
    (h : Blocks (ofParts source bucket includeSecret) s settled blocks s') :
    Blocks (ofParts (source.withKeys keys) bucket includeSecret) s settled blocks s' := by
  induction h with
  | nil => exact .nil
  | cons hblock _ ih => exact .cons (hblock.withKeys keys) ih

/-! ## What can happen for a key -/

theorem Passage.forall_mem {σ : Type} {d : Distribution (StateM σ) Material count} {u u' : σ}
    {half : Half} {arrival : Arrival} {passed : List (Occurrence Material count)}
    {p : Occurrence Material count → Prop} (h : Passage d half key i u arrival passed u')
    (hexport : p (.request .source (.export key.fingerprint half)))
    (himport : ∀ material, p (.request (.bucket i) (.importKeys material))) : ∀ o ∈ passed, p o := by
  cases h with
  | exportFailed => simpa using hexport
  | importFailed => simpa using ⟨hexport, himport _⟩
  | answered => simpa using ⟨hexport, himport _⟩

/-- Whatever happens for a key is a report on it, an export of one of its halves, or an import
into the bucket that it chooses. -/
theorem Block.forall_mem {σ : Type} {d : Distribution (StateM σ) Material count} {u u' : σ}
    {outcome : Outcome} {block : List (Occurrence Material count)}
    {p : Occurrence Material count → Prop} (h : Block d key u outcome block u')
    (hevent : ∀ e : Event, e.fingerprint? = some key.fingerprint → p (.event e))
    (hexport : ∀ half, p (.request .source (.export key.fingerprint half)))
    (himport : ∀ i material, Bucket.choice? count key.fingerprint = some i →
      p (.request (.bucket i) (.importKeys material))) : ∀ o ∈ block, p o := by
  intro o ho
  cases hchoice : Bucket.choice? count key.fingerprint with
  | none =>
    obtain ⟨-, -, rfl⟩ := h.of_choice_none hchoice
    rw [List.mem_singleton.mp ho]
    exact hevent _ rfl
  | some j =>
    have hpassed : ∀ {half arrival passed v v'}, Passage d half key j v arrival passed v' →
        ∀ o ∈ passed, p o :=
      fun hpassage => hpassage.forall_mem (hexport _) fun material => himport j material hchoice
    obtain ⟨arrival, half, u₁, hpublic, -, hrest⟩ := h.of_choice hchoice
    rcases hrest with ⟨-, -, rfl⟩ | ⟨-, secret, other, hsecret, rfl⟩
    · simp only [List.cons_append, List.mem_cons, List.mem_append, List.not_mem_nil, or_false] at ho
      rcases ho with rfl | ho | rfl
      · exact hevent _ rfl
      · exact hpassed hpublic o ho
      · exact hevent _ rfl
    · simp only [List.cons_append, List.mem_cons, List.mem_append, List.not_mem_nil, or_false] at ho
      rcases ho with rfl | ((ho | ho) | ho) | rfl
      · exact hevent _ rfl
      · exact hpassed hpublic o ho
      · exact hpassed hsecret o ho
      · -- a report on a secret half that was skipped, if there is one
        obtain ⟨reason, -, rfl⟩ := Option.map_eq_some_iff.mp (Option.mem_toList.mp ho)
        exact hevent _ rfl
      · exact hevent _ rfl

/-! ## All that happens for a key concerns its bucket -/

theorem concerns_export {half : Half} :
    (Occurrence.request .source (.export key.fingerprint half) :
      Occurrence Material count).concerns i = key.chooses i := by
  cases half <;> rfl

theorem concerns_import {material : Material}
    (hchoice : Bucket.choice? count key.fingerprint = some j) :
    (Occurrence.request (.bucket j) (.importKeys material) :
      Occurrence Material count).concerns i = key.chooses i := by
  unfold Key.chooses
  rw [hchoice]
  simp [Occurrence.concerns]

theorem concerns_event {e : Event} (he : e.fingerprint? = some key.fingerprint) :
    (Occurrence.event e : Occurrence Material count).concerns i = key.chooses i := by
  show decide (e.fingerprint?.bind (Bucket.choice? count) = some i) = _
  rw [he]
  rfl

/-- All that happens for a key concerns the bucket that it chooses, and no other. -/
theorem Block.concerns {σ : Type} {d : Distribution (StateM σ) Material count} {u u' : σ}
    {outcome : Outcome} {block : List (Occurrence Material count)}
    (h : Block d key u outcome block u') : ∀ o ∈ block, o.concerns i = key.chooses i :=
  h.forall_mem (fun _ => concerns_event) (fun _ => concerns_export) fun _ _ => concerns_import

/-! ## A run, cut down to one bucket -/

def share (i : Fin count.value) (settled : List (Key × Outcome)) : List (Key × Outcome) :=
  settled.filter fun pair => pair.1.chooses i

/-- The keys in the share of bucket `i` are those that choose it. -/
theorem map_fst_share (settled : List (Key × Outcome)) :
    (share i settled).map Prod.fst = (settled.map Prod.fst).filter (·.chooses i) := by
  rw [share, List.filter_map]
  rfl

/-- The keys that choose a bucket, settled alone, do to it what they do in the whole run, and
their trace is the part of the whole trace that concerns it. -/
theorem Blocks.share (hsteady : source.SteadyExports start) (keys : List Key)
    {settled : List (Key × Outcome)} {blocks : List (Occurrence Material count)}
    (h : Blocks (ofParts source bucket includeSecret) s settled blocks s')
    (hst : Alike source start i s t) :
    ∃ t', Blocks (ofParts (source.withKeys keys) bucket includeSecret) t
        (Distribution.share i settled) (blocks.filter (·.concerns i)) t'
      ∧ Alike source start i s' t' := by
  obtain ⟨t', hshare, hst'⟩ := h.filter (fun _ hblock => hblock.concerns)
    (fun hchooses hst hblock => hblock.transport hsteady hchooses hst)
    (fun hchooses hst hblock => hblock.frame hchooses hst) hst
  exact ⟨t', hshare.withKeys keys, hst'⟩

/-! ## Sums that fit, cut down to one bucket -/

/-- The counters that are added for a key are the same on both sides. -/
theorem Weighs.transport (hsteady : source.SteadyExports start) {keys : List Key}
    {counts : ImportCounts} {part : List (Occurrence Material count)}
    (hchooses : key.chooses i = true) (hst : Alike source start i s t)
    (h : Weighs (ofParts (source.withKeys keys) bucket includeSecret) key s counts part s') :
    ∃ part' t', Weighs (ofParts source bucket includeSecret) key t counts part' t' := by
  have hi := Key.chooses_iff.mp hchooses
  have hsame := (exportHalf_withKeys source keys).symm
  cases h with
  | intro hvalue hj hpublic houtcome hfollows hsecret =>
    rw [Bucket.choice?_eq_some_iff_firstDigit.mpr ⟨_, hvalue, hj⟩] at hi
    cases hi
    obtain ⟨t₁, hpublic', hst₁⟩ := (hpublic.of_exports hsame).transport hsteady hst
    obtain ⟨t', hsecret', -⟩ := (hsecret.of_exports hsame).transport hsteady hst₁
    exact ⟨_, t', .intro hvalue hj hpublic' houtcome hfollows hsecret'⟩

/-- Counters that are added in a run over the keys of one bucket are added in the whole run. -/
theorem allWeighed_share (hsteady : source.SteadyExports start) (keys₀ : List Key)
    {fits : ImportCounts → Prop} {keys : List Key} (hst : Alike source start i s t)
    (h : (ofParts source bucket includeSecret).AllWeighed fits s keys) :
    (ofParts (source.withKeys keys₀) bucket includeSecret).AllWeighed fits t
      (keys.filter (·.chooses i)) := by
  induction keys generalizing s t with
  | nil => trivial
  | cons key keys ih =>
    obtain ⟨outcome, block, s₁, hblock⟩ :=
      exists_block (ofParts source bucket includeSecret) key s
    have hlater := h.2 _ _ _ hblock
    cases hchooses : key.chooses i with
    | true =>
      rw [List.filter_cons_of_pos hchooses]
      obtain ⟨t₁, hblock', hst₁⟩ := hblock.transport hsteady hchooses hst
      refine allWeighed_cons (hblock'.withKeys keys₀) (fun counts part u hweighs => ?_)
        (ih hst₁ hlater)
      obtain ⟨part', u', hweighs'⟩ := hweighs.transport hsteady hchooses hst.symm
      exact h.1 counts part' u' hweighs'
    | false =>
      rw [List.filter_cons_of_neg (by simp [hchooses])]
      exact ih (hblock.frame hchooses hst) hlater

/-! ## Requests and reports of a bucket -/

/-- What is read off the trace of a run is read off its blocks, where the listing and the reports
that name no key say nothing. -/
theorem filterMap_ofBlocks {σ β : Type} {f : Occurrence Material count → Option β}
    {settled : List (Key × Outcome)} {blocks : List (Occurrence Material count)} {final : σ}
    (hlist : f (.request .source .list) = none)
    (hends : ∀ e : Event, e.fingerprint? = none → f (.event e) = none) :
    (Record.ofBlocks settled blocks final).trace.filterMap f = blocks.filterMap f := by
  have hstarted := hends (.started settled.length) rfl
  have hfinished := hends (.finished (Totals.ofOutcomes (settled.map Prod.snd))) rfl
  show List.filterMap f ([_, _] ++ blocks ++ [_]) = _
  simp [hlist, hstarted, hfinished]

theorem requestsTo_ofBlocks {σ : Type} (settled : List (Key × Outcome))
    (blocks : List (Occurrence Material count)) (final : σ) :
    requestsTo (.bucket i) (Record.ofBlocks settled blocks final).trace
      = requestsTo (.bucket i) blocks :=
  filterMap_ofBlocks (if_neg (by simp)) fun _ _ => rfl

/-- What is read off a trace is read off any part of it outside of which nothing is read. -/
theorem filterMap_filter_of_none {β : Type} {f : Occurrence Material count → Option β}
    {p : Occurrence Material count → Bool} {trace : List (Occurrence Material count)}
    (h : ∀ o ∈ trace, p o = false → f o = none) : (trace.filter p).filterMap f = trace.filterMap f := by
  rw [List.filterMap_filter]
  refine List.filterMap_congr fun o ho => ?_
  cases hp : p o with
  | true => rfl
  | false => exact (h o ho hp).symm

/-- What concerns bucket `i` has all requests to it. -/
theorem requestsTo_filter (trace : List (Occurrence Material count)) :
    requestsTo (.bucket i) (trace.filter (·.concerns i)) = requestsTo (.bucket i) trace := by
  refine filterMap_filter_of_none fun o _ hp => ?_
  cases o with
  | event e => rfl
  | request place request =>
    cases place with
    | source => exact if_neg (by simp)
    | bucket j => exact if_neg (by simpa [Occurrence.concerns] using hp)

theorem eventsOf_ofBlocks {σ : Type} (settled : List (Key × Outcome))
    (blocks : List (Occurrence Material count)) (final : σ) :
    (eventsOf (Record.ofBlocks settled blocks final).trace).filter (·.concerns i)
      = (eventsOf blocks).filter (·.concerns i) := by
  unfold eventsOf
  rw [List.filter_filterMap, List.filter_filterMap]
  exact filterMap_ofBlocks rfl fun e he => by simp [Occurrence.event?, Event.concerns, he]

/-- And all reports on it. -/
theorem eventsOf_filter (trace : List (Occurrence Material count)) :
    (eventsOf (trace.filter (·.concerns i))).filter (·.concerns i)
      = (eventsOf trace).filter (·.concerns i) := by
  unfold eventsOf
  rw [List.filter_filterMap, List.filter_filterMap]
  refine filterMap_filter_of_none fun o _ hp => ?_
  cases o with
  | request place request => rfl
  | event e => exact Option.filter_some_neg (by simpa [Occurrence.concerns] using hp)

/-! ## Totals, bucket by bucket -/

/-- Settled keys are counted with the bucket that they choose, or with none. -/
theorem countP_eq_sum_share (p : Outcome → Bool) (settled : List (Key × Outcome)) :
    settled.countP (fun pair => p pair.2)
      = ∑ i : Fin count.value, (share i settled).countP (fun pair => p pair.2)
        + settled.countP fun pair =>
            Bucket.choice? count pair.1.fingerprint = none && p pair.2 := by
  induction settled with
  | nil => simp [share]
  | cons pair settled ih =>
    -- one more pair adds to the count of one bucket, or of none
    have hshare : ∀ i : Fin count.value, (share i (pair :: settled)).countP (fun pair => p pair.2)
        = (share i settled).countP (fun pair => p pair.2)
          + if Bucket.choice? count pair.1.fingerprint = some i then (if p pair.2 then 1 else 0)
            else 0 := by
      intro i
      unfold share
      rw [List.filter_cons]
      by_cases hi : Bucket.choice? count pair.1.fingerprint = some i
      · rw [if_pos (Key.chooses_iff.mpr hi), if_pos hi, List.countP_cons]
      · rw [if_neg (mt Key.chooses_iff.mp hi), if_neg hi, Nat.add_zero]
    rw [List.countP_cons, List.countP_cons, ih]
    simp only [hshare]
    rw [Finset.sum_add_distrib]
    cases hchoice : Bucket.choice? count pair.1.fingerprint with
    | none =>
      -- no bucket: the pair is counted by the last summand
      simp only [reduceCtorEq, if_false, Finset.sum_const_zero, decide_true, Bool.true_and]
      omega
    | some j =>
      simp only [Option.some.injEq, reduceCtorEq, decide_false, Bool.false_and]
      rw [Finset.sum_ite_eq, if_pos (Finset.mem_univ j)]
      simp only [if_false]
      omega

/-- A key that chooses no bucket does not arrive. -/
theorem Blocks.isSuccess_of_no_choice {σ : Type} {d : Distribution (StateM σ) Material count}
    {u u' : σ} {settled : List (Key × Outcome)} {blocks : List (Occurrence Material count)}
    (h : Blocks d u settled blocks u') :
    ∀ pair ∈ settled, Bucket.choice? count pair.1.fingerprint = none → pair.2.isSuccess = false := by
  induction h with
  | nil => simp
  | cons hblock _ ih =>
    refine List.forall_mem_cons.mpr ⟨fun hnone => ?_, ih⟩
    obtain ⟨-, hunassigned, -⟩ := hblock.of_choice_none hnone
    rw [hunassigned]
    rfl

/-- The totals of a run are the sums of the totals of the buckets, and each key that chooses
no bucket is one more failure. -/
theorem Blocks.totals {σ : Type} {d : Distribution (StateM σ) Material count}
    {u u' : σ} {settled : List (Key × Outcome)} {blocks : List (Occurrence Material count)}
    (h : Blocks d u settled blocks u') :
    (Totals.ofOutcomes (settled.map Prod.snd)).moved
        = ∑ i : Fin count.value, (Totals.ofOutcomes ((Distribution.share i settled).map Prod.snd)).moved
      ∧ (Totals.ofOutcomes (settled.map Prod.snd)).failed
        = ∑ i : Fin count.value, (Totals.ofOutcomes ((Distribution.share i settled).map Prod.snd)).failed
          + (settled.map Prod.fst).countP fun key =>
              Bucket.choice? count key.fingerprint = none := by
  simp only [Totals.ofOutcomes_eq, List.countP_map]
  constructor
  · rw [show ((·.isSuccess) ∘ Prod.snd : Key × Outcome → Bool) = fun pair => pair.2.isSuccess from rfl,
      countP_eq_sum_share]
    -- a key without a bucket is not moved
    rw [Nat.add_eq_left, List.countP_eq_zero]
    intro pair hpair
    by_cases hnone : Bucket.choice? count pair.1.fingerprint = none
    · simp [h.isSuccess_of_no_choice pair hpair hnone]
    · simp [hnone]
  · rw [show ((! ·.isSuccess) ∘ Prod.snd : Key × Outcome → Bool) = fun pair => ! pair.2.isSuccess from rfl,
      countP_eq_sum_share fun outcome => ! outcome.isSuccess]
    congr 1
    refine List.countP_congr fun pair hpair => ?_
    by_cases hnone : Bucket.choice? count pair.1.fingerprint = none
    · simp [h.isSuccess_of_no_choice pair hpair hnone]
    · simp [hnone]

theorem Blocks.eq_of_nil {σ : Type} {d : Distribution (StateM σ) Material count} {u u' : σ}
    {blocks : List (Occurrence Material count)} (h : Blocks d u [] blocks u') :
    blocks = [] ∧ u' = u := by
  cases h
  exact ⟨rfl, rfl⟩

/-! ## Whole runs -/

/-- A run over some keys beside a run for each bucket. -/
structure FallsApart (keys : List Key) (parts : Parts Source Target count)
    (whole : Record (Parts Source Target count) Material count)
    (alone : Fin count.value → Record (Parts Source Target count) Material count) : Prop where
  /-- A bucket ends in the same state. -/
  final : ∀ i, (alone i).final.buckets.get i = whole.final.buckets.get i
  /-- A bucket gets the same requests, in the same order. -/
  requests : ∀ i, requestsTo (.bucket i) (alone i).trace = requestsTo (.bucket i) whole.trace
  /-- The keys of a bucket get the same reports, in the same order. -/
  reports : ∀ i, (eventsOf (alone i).trace).filter (·.concerns i)
    = (eventsOf whole.trace).filter (·.concerns i)
  totals : ∃ (sum : Totals) (shares : Fin count.value → Totals),
    whole.result = .ok sum ∧ (∀ i, (alone i).result = .ok (shares i))
      ∧ sum.moved = ∑ i, (shares i).moved
      ∧ sum.failed = ∑ i, (shares i).failed
          + keys.countP fun key => Bucket.choice? count key.fingerprint = none
  /-- A bucket that no key chooses is left alone. -/
  idle : ∀ i, (∀ key ∈ keys, key.chooses i = false) →
    requestsTo (.bucket i) whole.trace = [] ∧ whole.final.buckets.get i = parts.buckets.get i
  /-- There are no more than sixteen first digits. -/
  beyond : ∀ i : Fin count.value, 16 ≤ i.val → ∀ key ∈ keys, key.chooses i = false

/-- A digit has sixteen values, so no key chooses a bucket beyond them. -/
theorem chooses_of_sixteen_le (hi : 16 ≤ i.val) (key : Key) : key.chooses i = false := by
  rw [Bool.eq_false_iff, Ne, Key.chooses_iff, Bucket.choice?_eq_some_iff]
  rintro ⟨value, hvalue, hmod⟩
  obtain ⟨c, -, hc⟩ := Option.bind_eq_some_iff.mp hvalue
  have hlt : value < 16 := Text.hexValue?_lt hc
  have hle : value % count.value ≤ value := Nat.mod_le value count.value
  omega

/-- A run over all keys that is not stopped by the check for overflows, and the runs over the keys of
each bucket: these are not stopped either, and the check changes none of them. -/
theorem withstands_share {keys : List Key} {parts : Parts Source Target count}
    (hsteady : source.SteadyExports parts.source) (hlist : (source.list parts.source).1 = .ok keys)
    (h : (ofParts source bucket includeSecret).Unstopped parts) (i : Fin count.value) :
    (ofParts (source.withKeys (keys.filter (·.chooses i))) bucket includeSecret).Withstands
      parts := by
  have hlisted : (ofParts source bucket includeSecret).source.list parts
      = (.ok keys, parts.mapSource fun u => (source.list u).2) := Prod.ext hlist rfl
  have hst : Alike source parts.source i (parts.mapSource fun u => (source.list u).2) parts :=
    ⟨.list .start, .start, rfl⟩
  refine (unstopped_iff.mpr fun keys' s₁ hshare => ?_).withstands
  cases hshare
  exact allWeighed_share hsteady _ hst (unstopped_iff.mp h _ _ hlisted)

/-- **The buckets are independent.** A run over all keys does to each bucket what a run over
the keys of that bucket does to it. With the check for overflows this holds of every run that the
check does not stop: then it changes none of these runs. -/
theorem buckets_independent (source : Vault (StateM Source) Material)
    (bucket : Fin count.value → Vault (StateM Target) Material) (includeSecret : Bool)
    (parts : Parts Source Target count) (keys : List Key)
    (hsteady : source.SteadyExports parts.source)
    (hlist : (source.list parts.source).1 = .ok keys) :
    FallsApart keys parts ((ofParts source bucket includeSecret).record parts) (fun i =>
        (ofParts (source.withKeys (keys.filter (·.chooses i))) bucket includeSecret).record parts)
      ∧ ((ofParts source bucket includeSecret).Unstopped parts →
        (ofParts source bucket includeSecret).Withstands parts ∧ ∀ i : Fin count.value,
          (ofParts (source.withKeys (keys.filter (·.chooses i))) bucket includeSecret).Withstands
            parts) := by
  refine ⟨?_, fun h => ⟨h.withstands, withstands_share hsteady hlist h⟩⟩
  have hlisted : (ofParts source bucket includeSecret).source.list parts
      = (.ok keys, parts.mapSource fun u => (source.list u).2) := Prod.ext hlist rfl
  obtain ⟨settled, blocks, s', hkeys, hblocks, hwhole⟩ := exists_blocks_record hlisted
  -- the whole run, cut down to bucket `i`, is the run over the keys of bucket `i`
  have halone : ∀ i, ∃ t', t'.buckets.get i = s'.buckets.get i
      ∧ Blocks (ofParts (source.withKeys (keys.filter (·.chooses i))) bucket includeSecret) parts
          (Distribution.share i settled) (blocks.filter (·.concerns i)) t'
      ∧ (ofParts (source.withKeys (keys.filter (·.chooses i))) bucket includeSecret).record parts
        = .ofBlocks (Distribution.share i settled) (blocks.filter (·.concerns i)) t' := by
    intro i
    have hst : Alike source parts.source i (parts.mapSource fun u => (source.list u).2) parts :=
      ⟨.list .start, .start, rfl⟩
    obtain ⟨t', hshare, hst'⟩ := hblocks.share hsteady (keys.filter (·.chooses i)) hst
    refine ⟨t', hst'.bucket, hshare, hshare.record_eq ?_⟩
    rw [map_fst_share, hkeys]
    rfl
  choose t' hfinal hshare hrecord using halone
  refine ⟨fun i => ?_, fun i => ?_, fun i => ?_, ?_, fun i hidle => ?_, fun i hi key _ => ?_⟩
  · rw [hrecord, hwhole]
    exact hfinal i
  · rw [hrecord, hwhole, requestsTo_ofBlocks, requestsTo_ofBlocks, requestsTo_filter]
  · rw [hrecord, hwhole, eventsOf_ofBlocks, eventsOf_ofBlocks, eventsOf_filter]
  · obtain ⟨hmoved, hfailed⟩ := hblocks.totals
    rw [hkeys] at hfailed
    exact ⟨Totals.ofOutcomes (settled.map Prod.snd),
      fun i => Totals.ofOutcomes ((Distribution.share i settled).map Prod.snd),
      congrArg Record.result hwhole, fun i => congrArg Record.result (hrecord i), hmoved, hfailed⟩
  · -- nothing concerns a bucket with an empty share
    have hnobody : Distribution.share i settled = [] := by
      refine List.filter_eq_nil_iff.mpr fun pair hpair => ?_
      rw [hidle pair.1 (hkeys ▸ List.mem_map_of_mem hpair)]
      simp
    obtain ⟨hquiet, hstill⟩ := (hnobody ▸ hshare i).eq_of_nil
    constructor
    · rw [hwhole, requestsTo_ofBlocks, ← requestsTo_filter, hquiet]
      rfl
    · rw [hwhole, ← hstill]
      exact (hfinal i).symm
  · exact chooses_of_sixteen_le hi key

open Memory in
/-- Three keys over two buckets: one key for each bucket, and one for none. -/
theorem buckets_independent_three_keys :
    let source : Shelf := { keys := [⟨"0A", "a", true⟩, ⟨"1B", "b", false⟩, ⟨"X", "x", false⟩] }
    let two : BucketCount := ⟨2, by decide⟩
    let parts : Parts Shelf Shelf two := { source, buckets := Vector.replicate 2 {} }
    let whole := ofParts Shelf.vault (fun _ => Shelf.vault) true
    let alone (i : Fin two.value) :=
      ofParts (Shelf.vault.withKeys (source.keys.filter (·.chooses i))) (fun _ => Shelf.vault) true
    Shelf.vault.SteadyExports source ∧ (Shelf.vault.list source).1 = .ok source.keys
      ∧ FallsApart source.keys parts (whole.record parts) (fun i => (alone i).record parts)
      ∧ whole.Unstopped parts ∧ whole.Withstands parts ∧ ∀ i, (alone i).Withstands parts := by
  intro source two parts whole alone
  have hunstopped : whole.Unstopped parts := by
    unfold Unstopped
    decide +kernel
  obtain ⟨hparts, hchecked⟩ := buckets_independent Shelf.vault (fun _ => Shelf.vault) true parts
    source.keys (Shelf.steadyExports source) rfl
  exact ⟨Shelf.steadyExports source, rfl, hparts, hunstopped, hchecked hunstopped⟩

end Distribution

end KeyBuckets
