import KeyBuckets.Proofs.Accounts
import KeyBuckets.Proofs.Independence

/-!
# Stranded keys — one that cannot leave the source leaves no mark

A key is stranded if it chooses no bucket, or if its public half is not handed over. A run over
all keys is held here against a run over the keys that are not stranded. While a stranded key is
settled the second run waits, and in no bucket is there anything that tells the two apart.

* **`Vault.strands`** — whether a source keeps the keys with a fingerprint to itself.
* **`Twin`** — the states that no bucket can tell apart.
* **`Block.of_strands`** — a stranded key fails, and brings nothing to any bucket.
* **`Blocks.without`** — a run over all keys and a run without the stranded ones.
* **`stranded_keys_leave_no_mark`** — the same for whole runs, with the totals.
-/

namespace KeyBuckets

/-- Whether the keys with a fingerprint are stranded, given where the source starts. -/
def Vault.strands {σ Material : Type} (count : BucketCount) (source : Vault (StateM σ) Material)
    (start : σ) (fingerprint : String) : Bool :=
  (Bucket.choice? count fingerprint).isNone || !(source.exportPublic fingerprint start).1.isOk

/-! ## What is about some keys, and what is not -/

section Views

variable {Material : Type} {count : BucketCount}

/-- The fingerprint that an occurrence names. A request to a bucket names none. -/
def Occurrence.fingerprint? : Occurrence Material count → Option String
  | event e => e.fingerprint?
  | request .source (.exportPublic fingerprint) | request .source (.exportSecret fingerprint) =>
    some fingerprint
  | request .source _ | request (.bucket _) _ => none

/-- Whether an occurrence names none of some fingerprints. -/
def Occurrence.without (names : String → Bool) (occurrence : Occurrence Material count) : Bool :=
  occurrence.fingerprint?.all (!names ·)

/-- The requests to the buckets, in the order in which they are made. -/
def bucketRequests (trace : List (Occurrence Material count)) :
    List (Fin count.value × Vault.Request Material) :=
  trace.filterMap fun
    | .request (.bucket i) request => some (i, request)
    | _ => none

end Views

namespace Distribution

variable {Source Target Material : Type} {count : BucketCount}
  {source : Vault (StateM Source) Material} {bucket : Fin count.value → Vault (StateM Target) Material}
  {includeSecret : Bool} {start : Source} {key : Key} {i : Fin count.value}
  {s s' t : Parts Source Target count}

/-! ## States that no bucket can tell apart -/

/-- Both sources are somewhere on the way from `start`, and all buckets are in the same state. -/
def Twin (source : Vault (StateM Source) Material) (start : Source)
    (s t : Parts Source Target count) : Prop :=
  ∀ i, Alike source start i s t

theorem Twin.left (h : Twin source start s t) : source.Reads start s.source :=
  (h ⟨0, count.pos⟩).left

/-- A key does the same in twin states, whichever bucket it chooses. -/
theorem Block.twin (hsteady : source.SteadyExports start) {outcome : Outcome}
    {block : List (Occurrence Material count)} (hchooses : key.chooses i = true)
    (hst : Twin source start s t)
    (h : Block (ofParts source bucket includeSecret) key s outcome block s') :
    ∃ t', Block (ofParts source bucket includeSecret) key t outcome block t'
      ∧ Twin source start s' t' := by
  obtain ⟨t', hblock', hchosen⟩ := h.transport hsteady hchooses (hst i)
  refine ⟨t', hblock', fun j => ?_⟩
  by_cases hj : j = i
  · exact hj ▸ hchosen
  · -- neither run touches another bucket
    have hother : key.chooses j = false := by
      rw [Bool.eq_false_iff, Ne, Key.chooses_iff, Key.chooses_iff.mp hchooses]
      exact fun hi => hj (Option.some.inj hi).symm
    exact (hblock'.frame hother (h.frame hother (hst j)).symm).symm

/-! ## Stranded keys -/

/-- A public half that is not handed over gets no further than the request for it. -/
theorem Passage.of_refused (hsteady : source.SteadyExports start)
    (hs : source.Reads start s.source) {arrival : Arrival} {passed : List (Occurrence Material count)}
    (hrefused : (source.exportPublic key.fingerprint start).1.isOk = false)
    (h : Passage (ofParts source bucket includeSecret) .publicHalf key i s arrival passed s') :
    arrival.outcome.isSuccess = false
      ∧ passed = [.request .source (.exportPublic key.fingerprint)]
      ∧ ∀ t, Twin source start s t → Twin source start s' t := by
  have hanswer : (source.exportPublic key.fingerprint s.source).1
      = (source.exportPublic key.fingerprint start).1 :=
    hsteady .publicHalf key.fingerprint _ _ hs .start
  have hnever : ∀ {material s₁}, (ofParts source bucket includeSecret).source.exportHalf
      .publicHalf key.fingerprint s ≠ (.ok material, s₁) := by
    intro material s₁ hexport
    have hok : (source.exportPublic key.fingerprint s.source).1 = .ok material :=
      (Prod.mk.inj hexport).1
    rw [← hanswer, hok] at hrefused
    cases hrefused
  cases h with
  | exportFailed hexport => exact ⟨rfl, rfl, fun t hst j => export_frame (hst j) hexport⟩
  | importFailed hexport => exact absurd hexport hnever
  | answered hexport => exact absurd hexport hnever

/-- A stranded key fails, and whatever happens for it names it: nothing is brought to a bucket. -/
theorem Block.of_strands (hsteady : source.SteadyExports start)
    (hs : source.Reads start s.source) {outcome : Outcome} {block : List (Occurrence Material count)}
    (hstrands : source.strands count start key.fingerprint = true)
    (h : Block (ofParts source bucket includeSecret) key s outcome block s') :
    outcome.isSuccess = false ∧ (∀ o ∈ block, o.fingerprint? = some key.fingerprint)
      ∧ ∀ t, Twin source start s t → Twin source start s' t := by
  cases hchoice : Bucket.choice? count key.fingerprint with
  | none =>
    obtain ⟨rfl, rfl, rfl⟩ := h.of_choice_none hchoice
    exact ⟨rfl, by simp [Occurrence.fingerprint?, Event.fingerprint?], fun _ => id⟩
  | some i =>
    have hrefused : (source.exportPublic key.fingerprint start).1.isOk = false := by
      simpa [Vault.strands, hchoice] using hstrands
    obtain ⟨arrival, half, s₁, hpublic, rfl, hrest⟩ := h.of_choice hchoice
    obtain ⟨hfails, rfl, htwin⟩ := hpublic.of_refused hsteady hs hrefused
    rcases hrest with ⟨-, rfl, rfl⟩ | ⟨hfollows, -⟩
    · exact ⟨hfails, by simp [Occurrence.fingerprint?, Event.fingerprint?], htwin⟩
    · exact absurd (hfails.symm.trans hfollows.1) Bool.false_ne_true

theorem exists_chooses_of_not_strands
    (hstays : source.strands count start key.fingerprint = false) :
    ∃ i : Fin count.value, key.chooses i = true := by
  cases hchoice : Bucket.choice? count key.fingerprint with
  | none => simp [Vault.strands, hchoice] at hstays
  | some i => exact ⟨i, Key.chooses_iff.mpr hchoice⟩

/-- What happens for a key names a stranded key if and only if the key is one: a key that is not
stranded brings something to a bucket, and that names none. -/
theorem Block.without_eq (hsteady : source.SteadyExports start)
    (hs : source.Reads start s.source) {outcome : Outcome} {block : List (Occurrence Material count)}
    (h : Block (ofParts source bucket includeSecret) key s outcome block s') :
    ∀ o ∈ block, o.without (source.strands count start)
      = !source.strands count start key.fingerprint := by
  cases hstrands : source.strands count start key.fingerprint with
  | true =>
    obtain ⟨-, hnames, -⟩ := h.of_strands hsteady hs hstrands
    intro o ho
    simp [Occurrence.without, hnames o ho, hstrands]
  | false =>
    refine h.forall_mem (fun e he => ?_) (fun half => ?_) fun _ _ _ => rfl
    · simp [Occurrence.without, Occurrence.fingerprint?, he, hstrands]
    · cases half <;> simp [Occurrence.without, Occurrence.fingerprint?, Vault.Request.export, hstrands]

/-- The source stays on its way from `start` while a key is settled. -/
theorem Block.reads (hsteady : source.SteadyExports start) (hs : source.Reads start s.source)
    {outcome : Outcome} {block : List (Occurrence Material count)}
    (h : Block (ofParts source bucket includeSecret) key s outcome block s') :
    source.Reads start s'.source := by
  cases hchoice : Bucket.choice? count key.fingerprint with
  | none =>
    obtain ⟨rfl, -, -⟩ := h.of_choice_none hchoice
    exact hs
  | some i =>
    have hself : Alike source start i s s := ⟨hs, hs, rfl⟩
    obtain ⟨_, _, hst'⟩ := h.transport hsteady (Key.chooses_iff.mpr hchoice) hself
    exact hst'.left

theorem Blocks.fails_of_strands (hsteady : source.SteadyExports start)
    (hs : source.Reads start s.source) {settled : List (Key × Outcome)}
    {blocks : List (Occurrence Material count)}
    (h : Blocks (ofParts source bucket includeSecret) s settled blocks s') :
    ∀ pair ∈ settled, source.strands count start pair.1.fingerprint = true →
      pair.2.isSuccess = false := by
  induction h with
  | nil => simp
  | cons hblock _ ih =>
    refine List.forall_mem_cons.mpr ⟨fun hstrands => ?_, ih (hblock.reads hsteady hs)⟩
    exact (hblock.of_strands hsteady hs hstrands).1

/-! ## What is there still when names are left out -/

theorem bucketRequests_without (names : String → Bool) (trace : List (Occurrence Material count)) :
    bucketRequests (trace.filter (·.without names)) = bucketRequests trace := by
  refine filterMap_filter_of_none fun o _ hnamed => ?_
  cases o with
  | event e => rfl
  | request place request =>
    cases place with
    | source => rfl
    | bucket i => cases hnamed

theorem skipsOf_without {names : String → Bool} {trace : List (Occurrence Material count)}
    (h : ∀ skip ∈ skipsOf trace, names skip.1 = false) :
    skipsOf (trace.filter (·.without names)) = skipsOf trace := by
  unfold skipsOf eventsOf at h ⊢
  rw [List.filterMap_filterMap] at h ⊢
  rw [List.filterMap_filterMap]
  refine filterMap_filter_of_none fun o ho hnamed => ?_
  cases o with
  | request place request => rfl
  | event e =>
    cases e with
    | secretSkipped fingerprint reason =>
      have hname := h (fingerprint, reason) (List.mem_filterMap.mpr ⟨_, ho, rfl⟩)
      simp [Occurrence.without, Occurrence.fingerprint?, Event.fingerprint?, hname] at hnamed
    | started _ | moving _ _ | settled _ _ | finished _ => rfl

/-! ## A run, without the stranded keys -/

def without (names : String → Bool) (settled : List (Key × Outcome)) : List (Key × Outcome) :=
  settled.filter fun pair => !names pair.1.fingerprint

theorem map_fst_without (names : String → Bool) (settled : List (Key × Outcome)) :
    (without names settled).map Prod.fst
      = (settled.map Prod.fst).filter (!names ·.fingerprint) := by
  rw [without, List.filter_map]
  rfl

/-- The keys that are not stranded, settled alone, do to the buckets what they do in the whole
run, and their trace is the part of the whole trace that names no stranded key. -/
theorem Blocks.without (hsteady : source.SteadyExports start) (keys : List Key)
    {settled : List (Key × Outcome)} {blocks : List (Occurrence Material count)}
    (h : Blocks (ofParts source bucket includeSecret) s settled blocks s')
    (hst : Twin source start s t) :
    ∃ t', Blocks (ofParts (source.withKeys keys) bucket includeSecret) t
        (Distribution.without (source.strands count start) settled)
        (blocks.filter (·.without (source.strands count start))) t'
      ∧ Twin source start s' t' := by
  have hkept : ∀ {key s s' t outcome block}, (!source.strands count start key.fingerprint) = true →
      Twin source start s t → Block (ofParts source bucket includeSecret) key s outcome block s' →
        ∃ t', Block (ofParts source bucket includeSecret) key t outcome block t'
          ∧ Twin source start s' t' := by
    intro key s s' t outcome block hstays hst hblock
    obtain ⟨i, hchooses⟩ := exists_chooses_of_not_strands (by simpa using hstays)
    exact hblock.twin hsteady hchooses hst
  have hwaits : ∀ {key s s' t outcome block}, (!source.strands count start key.fingerprint) = false →
      Twin source start s t → Block (ofParts source bucket includeSecret) key s outcome block s' →
        Twin source start s' t := by
    intro key s s' t outcome block hstrands hst hblock
    obtain ⟨-, -, htwin⟩ := hblock.of_strands hsteady hst.left (by simpa using hstrands)
    exact htwin t hst
  obtain ⟨t', hothers, hst'⟩ := h.filter
    (fun hst hblock => hblock.without_eq hsteady hst.left) hkept hwaits hst
  exact ⟨t', hothers.withKeys keys, hst'⟩

/-! ## What is read off a whole run -/

theorem bucketRequests_ofBlocks {σ : Type} (settled : List (Key × Outcome))
    (blocks : List (Occurrence Material count)) (final : σ) :
    bucketRequests (Record.ofBlocks settled blocks final).trace = bucketRequests blocks :=
  filterMap_ofBlocks rfl fun _ _ => rfl

/-! ## Totals -/

/-- Leaving out keys that all fail leaves the keys that were moved, and takes as many failures
away as there are keys. -/
theorem totals_without {names : String → Bool} {settled : List (Key × Outcome)}
    (hfail : ∀ pair ∈ settled, names pair.1.fingerprint = true → pair.2.isSuccess = false) :
    (Totals.ofOutcomes ((without names settled).map Prod.snd)).moved
        = (Totals.ofOutcomes (settled.map Prod.snd)).moved
      ∧ (Totals.ofOutcomes (settled.map Prod.snd)).failed
        = (Totals.ofOutcomes ((without names settled).map Prod.snd)).failed
          + (settled.map Prod.fst).countP (names ·.fingerprint) := by
  simp only [Totals.ofOutcomes_eq, List.countP_map]
  constructor
  · rw [without, List.countP_filter]
    refine List.countP_congr fun pair hpair => ?_
    cases hnames : names pair.1.fingerprint with
    | false => simp
    | true => simp [hfail pair hpair hnames]
  · -- the failures are those of the others, and one for each key that is left out
    rw [without, List.countP_eq_countP_filter_add settled _ fun pair => !names pair.1.fingerprint]
    congr 1
    rw [List.countP_filter]
    refine List.countP_congr fun pair hpair => ?_
    cases hnames : names pair.1.fingerprint with
    | false => simp [hnames]
    | true => simp [hnames, hfail pair hpair hnames]

/-! ## Whole runs -/

/-- A run over some keys beside a run over those among them that do not have certain names. -/
structure SameWithout (names : String → Bool) (keys : List Key)
    (whole rest : Record (Parts Source Target count) Material count) : Prop where
  /-- All buckets end in the same state. -/
  final : ∀ i, rest.final.buckets.get i = whole.final.buckets.get i
  /-- The buckets get the same requests, in the same order. -/
  requests : bucketRequests rest.trace = bucketRequests whole.trace
  /-- The same secret halves are skipped, for the same reasons. -/
  skipped : skipsOf rest.trace = skipsOf whole.trace
  /-- The other keys have the same outcomes, in the same order. -/
  settled : outcomesOf rest.trace = (outcomesOf whole.trace).filter (!names ·.1)
  /-- As many keys are moved, and a key that is left out is one failure less. -/
  totals : ∃ sum fewer : Totals, whole.result = .ok sum ∧ rest.result = .ok fewer
    ∧ fewer.moved = sum.moved ∧ sum.failed = fewer.failed + keys.countP (names ·.fingerprint)

/-- **Stranded keys leave no mark.** A run over all keys does to the buckets what a run does over
the keys that are not stranded. -/
theorem stranded_keys_leave_no_mark (source : Vault (StateM Source) Material)
    (bucket : Fin count.value → Vault (StateM Target) Material) (includeSecret : Bool)
    (parts : Parts Source Target count) (keys : List Key)
    (hsteady : source.SteadyExports parts.source)
    (hlist : (source.list parts.source).1 = .ok keys) :
    SameWithout (source.strands count parts.source) keys
      ((ofParts source bucket includeSecret).record parts)
      ((ofParts (source.withKeys (keys.filter (!source.strands count parts.source ·.fingerprint)))
        bucket includeSecret).record parts) := by
  have hlisted : (ofParts source bucket includeSecret).source.list parts
      = (.ok keys, parts.mapSource fun u => (source.list u).2) := Prod.ext hlist rfl
  obtain ⟨settled, blocks, s', rfl, hblocks, hwhole⟩ := exists_blocks_record hlisted
  have hst : Twin source parts.source (parts.mapSource fun u => (source.list u).2) parts :=
    fun _ => ⟨.list .start, .start, rfl⟩
  obtain ⟨t', hblocks', hst'⟩ := hblocks.without hsteady _ hst
  have hrest := hblocks'.record_eq (s := parts) (by rw [map_fst_without]; rfl)
  have hfails := hblocks.fails_of_strands hsteady hst.left
  obtain ⟨hmoved, hfailed⟩ := totals_without hfails
  -- only keys that were moved have secret halves that are skipped
  have hskips : ∀ skip ∈ skipsOf blocks, source.strands count parts.source skip.1 = false := by
    intro skip hskip
    obtain ⟨pair, hpair, hname, hsuccess⟩ := hblocks.of_mem_skipsOf hskip
    rw [← hname]
    exact Bool.eq_false_iff.mpr fun hstrands =>
      Bool.false_ne_true ((hfails pair hpair hstrands).symm.trans hsuccess)
  rw [hwhole, hrest]
  refine ⟨fun i => (hst' i).bucket, ?_, ?_, ?_, ⟨_, _, rfl, rfl, hmoved, hfailed⟩⟩
  · rw [bucketRequests_ofBlocks, bucketRequests_ofBlocks, bucketRequests_without]
  · rw [skipsOf_ofBlocks, skipsOf_ofBlocks, skipsOf_without hskips]
  · rw [outcomesOf_ofBlocks, outcomesOf_ofBlocks, hblocks.outcomesOf_eq, hblocks'.outcomesOf_eq,
      List.filter_map]
    rfl

open Memory in
/-- Five keys over two buckets: three of them are stranded, and of the other two one leaves its
secret half behind. -/
theorem stranded_keys_leave_no_mark_five_keys :
    let source : Shelf :=
      { keys := [⟨"1B", "b", true⟩, ⟨"0A", "a", true⟩, ⟨"X", "x", false⟩, ⟨"3D", "d", true⟩,
          ⟨"1B", "b", false⟩]
        publicExports := [("1B", .error .permissionDenied)]
        secretExports := [("3D", .error .permissionDenied)] }
    let parts : Parts Shelf Shelf ⟨2, by decide⟩ := { source, buckets := Vector.replicate 2 {} }
    let whole := (ofParts Shelf.vault (fun _ => Shelf.vault) true).record parts
    let strands := Shelf.vault.strands ⟨2, by decide⟩ source
    Shelf.vault.SteadyExports source ∧ (Shelf.vault.list source).1 = .ok source.keys
      ∧ source.keys.map (strands ·.fingerprint) = [true, false, true, false, true]
      ∧ (skipsOf whole.trace).map Prod.fst = ["3D"]
      ∧ SameWithout strands source.keys whole
          ((ofParts (Shelf.vault.withKeys (source.keys.filter (!strands ·.fingerprint)))
            (fun _ => Shelf.vault) true).record parts) := by
  intro source parts whole strands
  exact ⟨Shelf.steadyExports source, rfl, by decide +kernel, by decide +kernel,
    stranded_keys_leave_no_mark Shelf.vault (fun _ => Shelf.vault) true parts source.keys
      (Shelf.steadyExports source) rfl⟩

end Distribution

end KeyBuckets
