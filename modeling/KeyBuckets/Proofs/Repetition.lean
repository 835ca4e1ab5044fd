import KeyBuckets.Proofs.Growth

/-!
# Repetition — a second run, right after the first

After a run each bucket holds all that a second run would bring to it, so the second run changes
nothing. It is the first run once more, request by request and report by report, apart from one
word: a key that was imported then is now unchanged.

* **`Outcome.again`** — what becomes of a key in the second run, given what became of it.
* **`Passage.again`**, **`Block.again`**, **`Blocks.again`** — one half of a key, one key, some keys,
  settled again where all that they bring is held.
* **`run_again`** — the same for whole runs.
-/

namespace KeyBuckets

/-- What becomes of a key in a second run: one that arrived is there already. -/
def Outcome.again : Outcome → Outcome
  | imported => unchanged
  | outcome => outcome

def Event.again : Event → Event
  | settled fingerprint outcome => settled fingerprint outcome.again
  | event => event

def Occurrence.again {Material : Type} {count : BucketCount} :
    Occurrence Material count → Occurrence Material count
  | event e => event e.again
  | request place r => request place r

@[simp] theorem Outcome.isSuccess_again (outcome : Outcome) :
    outcome.again.isSuccess = outcome.isSuccess := by
  cases outcome <;> rfl

theorem Outcome.again_of_isSuccess {outcome : Outcome} (h : outcome.isSuccess = true) :
    outcome.again = unchanged := by
  cases outcome with
  | imported | unchanged => rfl
  | rejected _ | unassigned _ | exportFailed _ | importFailed _ => cases h

theorem Outcome.again_of_not_isSuccess {outcome : Outcome} (h : outcome.isSuccess = false) :
    outcome.again = outcome := by
  cases outcome with
  | imported => cases h
  | unchanged | rejected _ | unassigned _ | exportFailed _ | importFailed _ => rfl

/-- Totals do not tell new keys from those that were there. -/
theorem Totals.ofOutcomes_again (outcomes : List Outcome) :
    ofOutcomes (outcomes.map Outcome.again) = ofOutcomes outcomes := by
  rw [ofOutcomes_eq, ofOutcomes_eq, List.countP_map, List.countP_map]
  congr 1
  · exact List.countP_congr fun outcome _ => by simp
  · exact List.countP_congr fun outcome _ => by simp

/-! ## What counters say of a key that is held -/

namespace Memory

/-- A block that is held is unchanged when it comes again. -/
theorem Block.outcome_of_held {block : Block} {keys : List Key} (h : block.Held keys) :
    Outcome.ofCounts (block.count keys {}) = .unchanged := by
  obtain ⟨key, hfind, -⟩ := h
  unfold Block.count
  rw [hfind]
  rfl

/-- Blocks that are held change nothing. -/
theorem Shelf.take_of_held {blocks : List Block} {shelf : Shelf}
    (h : ∀ block ∈ blocks, block.Held shelf.keys) : shelf.take blocks = shelf := by
  have hkeys : Block.addAll blocks shelf.keys = shelf.keys := by
    induction blocks with
    | nil => rfl
    | cons first blocks ih =>
      have hfirst := (h first List.mem_cons_self).addTo_eq_self
      show Block.addAll blocks (first.addTo shelf.keys) = _
      rw [hfirst]
      exact ih fun block hblock => h block (List.mem_cons_of_mem _ hblock)
  show { shelf with keys := Block.addAll blocks shelf.keys } = shelf
  rw [hkeys]

end Memory

namespace Distribution

open Memory

variable {count : BucketCount} {includeSecret : Bool} {key : Key} {i : Fin count.value}
  {s s' t : Parts Shelf Shelf count}

/-! ## One half of a key -/

/-- Which requests are made for one half of a key hangs on the source alone. -/
theorem Passage.passed_eq {half : Half} {arrival : Arrival} {passed : List (Occurrence String count)}
    (h : Passage (World.distribution includeSecret) half key i s arrival passed s') :
    passed = .request .source (.export key.fingerprint half) ::
      match s.source.exportHalf half key.fingerprint with
      | .error _ => []
      | .ok material => [.request (.bucket i) (.importKeys material)] := by
  cases h with
  | exportFailed hexport =>
    rw [exportHalf_shelves] at hexport
    rw [(Prod.mk.inj hexport).1]
  | importFailed hexport himport =>
    rw [exportHalf_shelves] at hexport
    rw [(Prod.mk.inj hexport).1]
  | answered hexport himport =>
    rw [exportHalf_shelves] at hexport
    rw [(Prod.mk.inj hexport).1]

theorem Passage.map_again {σ Material : Type} {d : Distribution (StateM σ) Material count} {u u' : σ}
    {half : Half} {arrival : Arrival} {passed : List (Occurrence Material count)}
    (h : Passage d half key i u arrival passed u') : passed.map Occurrence.again = passed := by
  cases h <;> rfl

theorem skipReason?_of_lets {f : String} {keys : List Key} :
    (Arrival.answered ((Memory.Block.ofHalf .secretHalf f).count keys {})).skipReason? = none :=
  if_pos (Memory.Block.secretAccepted_count (.ofHalf .secretHalf f) keys)

/-- One half of a key on its way to a bucket where it is held, if it is handed over at all: the
bucket stays as it is, and the report on the key is the same, or that it is unchanged. -/
theorem Passage.again {half : Half} {arrival : Arrival} {passed : List (Occurrence String count)}
    (hplain : s.source.Plain) (himports : (s.buckets.get i).imports = [])
    (hsource : t.source = s.source) (himports' : (t.buckets.get i).imports = [])
    (hheld : s.source.lets half key.fingerprint = true →
      (Memory.Block.ofHalf half key.fingerprint).Held (t.buckets.get i).keys)
    (h : Passage (World.distribution includeSecret) half key i s arrival passed s') :
    ∃ arrival', Passage (World.distribution includeSecret) half key i t arrival' passed t
      ∧ arrival'.outcome = arrival.outcome.again
      ∧ (half = .secretHalf → arrival'.skipReason? = arrival.skipReason?) := by
  obtain ⟨arrival', passed', t', h'⟩ :=
    exists_passage (World.distribution includeSecret) half key i t
  have hpassed : passed' = passed := by rw [h'.passed_eq, h.passed_eq, hsource]
  have hplain' : t.source.Plain := hsource ▸ hplain
  subst hpassed
  cases hlets : s.source.lets half key.fingerprint with
  | true =>
    obtain ⟨rfl, -⟩ := h.of_lets hplain himports hlets
    obtain ⟨rfl, ht'⟩ := h'.of_lets hplain' himports' (hsource ▸ hlets)
    have hstill : t' = t := by
      refine ht'.trans (Parts.mapBucket_eq_self (Shelf.take_of_held fun block hblock => ?_))
      rw [List.mem_singleton.mp hblock]
      exact hheld hlets
    subst hstill
    refine ⟨_, h', ?_, ?_⟩
    · -- both imports go well, and the second one finds the key
      have hsuccess := isSuccess_ofCounts_count (.ofHalf half key.fingerprint) (s.buckets.get i).keys
      show Outcome.ofCounts _ = (Outcome.ofCounts _).again
      rw [Memory.Block.outcome_of_held (hheld hlets), Outcome.again_of_isSuccess hsuccess]
    · rintro rfl
      rw [skipReason?_of_lets, skipReason?_of_lets]
  | false =>
    obtain ⟨rfl, -⟩ := h.of_not_lets hplain himports hlets
    obtain ⟨rfl, rfl⟩ := h'.of_not_lets hplain' himports' (hsource ▸ hlets)
    rw [hsource] at h'
    refine ⟨_, h', ?_, fun _ => rfl⟩
    rw [Outcome.again_of_not_isSuccess (s.source.isSuccess_refusal half key.fingerprint)]

/-! ## One key, and some keys -/

/-- A secret half follows again if it followed before. -/
theorem follows_again {σ Material : Type} {d : Distribution (StateM σ) Material count}
    {outcome : Outcome} : d.Follows key outcome.again ↔ d.Follows key outcome := by
  unfold Follows
  rw [Outcome.isSuccess_again]

/-- What a key delivers is held, so each half of it that is handed over is. -/
theorem held_of_lets {half : Half}
    (hheld : ∀ delivered ∈ s.source.deliveries includeSecret i [key],
      delivered.Held (t.buckets.get i).keys)
    (hchoice : Bucket.choice? count key.fingerprint = some i)
    (hpublic : s.source.lets .publicHalf key.fingerprint = true)
    (hfollow : half = .secretHalf → includeSecret = true ∧ key.hasSecret = true)
    (hlets : s.source.lets half key.fingerprint = true) :
    (Memory.Block.ofHalf half key.fingerprint).Held (t.buckets.get i).keys := by
  have hdelivered : (⟨s.source.letsFollow includeSecret key, key.fingerprint⟩ : Memory.Block)
      ∈ s.source.deliveries includeSecret i [key] := by
    simp [Shelf.deliveries, Shelf.delivery?, Key.chooses, hchoice, hpublic]
  cases half with
  | publicHalf => exact (hheld _ hdelivered).of_same rfl fun hfalse => Bool.noConfusion hfalse
  | secretHalf =>
    obtain ⟨hinclude, hsecret⟩ := hfollow rfl
    have hfollows : s.source.letsFollow includeSecret key = true := by
      simp [Shelf.letsFollow, hinclude, hsecret, hlets]
    exact (hheld _ hdelivered).of_same rfl fun _ => hfollows

/-- One key, taken again over buckets that hold what is delivered for it. -/
theorem Block.again {outcome : Outcome} {block : List (Occurrence String count)}
    (hplain : s.source.Plain) (himports : ∀ j, (s.buckets.get j).imports = [])
    (hsource : t.source = s.source) (himports' : ∀ j, (t.buckets.get j).imports = [])
    (hheld : ∀ j : Fin count.value, ∀ delivered ∈ s.source.deliveries includeSecret j [key],
      delivered.Held (t.buckets.get j).keys)
    (h : Block (World.distribution includeSecret) key s outcome block s') :
    Block (World.distribution includeSecret) key t outcome.again (block.map Occurrence.again) t := by
  cases h with
  | unassigned hvalue hreason => exact .unassigned hvalue hreason
  | @publicOnly _ value i arrival _ half hvalue hi hpublic houtcome hstays =>
    have hchoice := Bucket.choice?_eq_some_iff_firstDigit.mpr ⟨value, hvalue, hi⟩
    obtain ⟨arrival', hpublic', houtcome', -⟩ :=
      hpublic.again hplain (himports i) hsource (himports' i)
        fun hlets => held_of_lets (hheld i) hchoice hlets (fun hfalse => Half.noConfusion hfalse) hlets
    have hagain := Block.publicOnly hvalue hi hpublic' (houtcome ▸ houtcome'.symm)
      (mt follows_again.mp hstays)
    simpa [Occurrence.again, Event.again, hpublic.map_again] using hagain
  | @bothHalves s₁ _ value i arrival secret _ half other hvalue hi hpublic houtcome hfollows
      hsecret =>
    have hchoice := Bucket.choice?_eq_some_iff_firstDigit.mpr ⟨value, hvalue, hi⟩
    have hlets : s.source.lets .publicHalf key.fingerprint = true := by
      rw [← (hpublic.takes hplain (himports i)).2, ← houtcome]
      exact hfollows.1
    obtain ⟨arrival', hpublic', houtcome', -⟩ :=
      hpublic.again hplain (himports i) hsource (himports' i)
        fun _ => held_of_lets (hheld i) hchoice hlets (fun hfalse => Half.noConfusion hfalse) hlets
    -- the secret half left from a state that the public one had changed, the second time it does not
    obtain ⟨hsource₁, hgrows₁⟩ := hpublic.grows
    obtain ⟨secret', hsecret', -, hskip⟩ :=
      hsecret.again (t := t) (hsource₁ ▸ hplain) ((hgrows₁ i).unset (himports i))
        (hsource.trans hsource₁.symm) (himports' i) fun hlets' =>
          held_of_lets (hheld i) hchoice hlets (fun _ => hfollows.2) (hsource₁ ▸ hlets')
    have hreport : (skipReport key secret' : List (Occurrence String count)) = skipReport key secret := by
      unfold skipReport
      rw [hskip rfl]
    have hagain := Block.bothHalves hvalue hi hpublic' (houtcome ▸ houtcome'.symm)
      (follows_again.mpr hfollows) hsecret'
    rw [hreport] at hagain
    have hmap : (skipReport key secret : List (Occurrence String count)).map Occurrence.again
        = skipReport key secret := by
      unfold skipReport
      cases secret.skipReason? <;> rfl
    simpa [Occurrence.again, Event.again, hpublic.map_again, hsecret.map_again, hmap] using hagain

/-- Some keys, taken again. Induction on the keys, over buckets that hold what is delivered for all
of them. -/
theorem Blocks.again {settled : List (Key × Outcome)} {blocks : List (Occurrence String count)}
    (hplain : s.source.Plain) (himports : ∀ j, (s.buckets.get j).imports = [])
    (hsource : t.source = s.source) (himports' : ∀ j, (t.buckets.get j).imports = [])
    (hheld : ∀ j : Fin count.value,
      ∀ delivered ∈ s.source.deliveries includeSecret j (settled.map Prod.fst),
        delivered.Held (t.buckets.get j).keys)
    (h : Blocks (World.distribution includeSecret) s settled blocks s') :
    Blocks (World.distribution includeSecret) t
      (settled.map fun pair => (pair.1, pair.2.again)) (blocks.map Occurrence.again) t := by
  -- the second run stays in `t`, while the first one moves on from `s`
  induction h with
  | nil => exact .nil
  | @cons s s₁ s' key outcome settled block rest hblock hrest ih =>
    obtain ⟨hsource₁, hgrows₁⟩ := hblock.grows
    rw [List.map_append]
    refine .cons (hblock.again hplain himports hsource himports' fun j delivered hdelivered => ?_)
      (ih (hsource₁ ▸ hplain) (fun j => (hgrows₁ j).unset (himports j))
        (hsource.trans hsource₁.symm) fun j delivered hdelivered => ?_)
    · refine hheld j delivered ?_
      rw [List.map_cons, deliveries_cons]
      exact List.mem_append_left _ hdelivered
    · refine hheld j delivered ?_
      rw [hsource₁] at hdelivered
      rw [List.map_cons, deliveries_cons]
      exact List.mem_append_right _ hdelivered

end Distribution

namespace Memory

/-! ## Whole runs -/

variable {count : BucketCount}

theorem Shelf.Plain.list_eq {shelf : Shelf} (h : shelf.Plain) : shelf.list = .ok shelf.keys := by
  unfold Shelf.list
  rw [h.listed]

/-- **A second run changes nothing.** Right after a run over a plain source, another one leaves
the world as it is, ends with the same totals, and makes the same requests and reports, apart from
the keys that were imported in the first run: these are unchanged now. -/
theorem run_again (world : World count) (hplain : world.shelves.source.Plain)
    (himports : ∀ i, (world.shelves.buckets.get i).imports = []) :
    world.run.2.run.2 = world.run.2
      ∧ (∃ totals, world.run.1.result = .ok totals ∧ world.run.2.run.1.result = .ok totals)
      ∧ world.run.2.run.1.trace = world.run.1.trace.map Occurrence.again := by
  obtain ⟨settled, blocks, s', hkeys, hblocks⟩ := Distribution.exists_blocks
    (World.distribution world.includeSecret) world.shelves.source.keys world.shelves
  have hlist : world.shelves.source.list = .ok (settled.map Prod.fst) := hkeys ▸ hplain.list_eq
  obtain ⟨hsource, hbuckets, -⟩ := hblocks.delivers hplain himports
  -- the buckets hold all that was delivered in the first run
  have hheld : ∀ j : Fin count.value, ∀ delivered ∈ world.shelves.source.deliveries
      world.includeSecret j (settled.map Prod.fst), delivered.Held (s'.buckets.get j).keys := by
    intro j delivered hdelivered
    rw [hbuckets]
    exact Block.held_addAll hdelivered _
  have himports' : ∀ j, (s'.buckets.get j).imports = [] := by
    intro j
    rw [hbuckets]
    exact himports j
  have hrun := world.run_of_blocks hlist hblocks
  have hagain := hblocks.again hplain himports hsource himports' hheld
  have hlist' : s'.source.list
      = .ok ((settled.map fun pair => (pair.1, pair.2.again)).map Prod.fst) := by
    rw [hsource, hlist, List.map_map]
    rfl
  have hrun' := World.run_of_blocks { world with shelves := s' } hlist' hagain
  -- the second run counts as many keys that arrived, and as many that did not
  have htotals : Totals.ofOutcomes
        ((settled.map fun pair => (pair.1, pair.2.again)).map Prod.snd)
      = Totals.ofOutcomes (settled.map Prod.snd) := by
    rw [← Totals.ofOutcomes_again (settled.map Prod.snd), List.map_map, List.map_map]
    rfl
  rw [htotals, List.length_map] at hrun'
  rw [hrun]
  refine ⟨?_, ⟨_, rfl, ?_⟩, ?_⟩
  · rw [hrun']
  · rw [hrun']
  · rw [hrun']
    simp [Occurrence.again, Event.again]

/-- Two runs over five keys: one that its bucket holds without its secret half, listed twice; one
that is new; one whose public half is refused; one that chooses no bucket. -/
theorem run_again_five_keys :
    let source : Shelf :=
      { keys := [⟨"0A", "a", true⟩, ⟨"1B", "b", false⟩, ⟨"0A", "a", false⟩, ⟨"3D", "d", true⟩,
          ⟨"X", "x", false⟩]
        publicExports := [("3D", .error .permissionDenied)] }
    let world : World ⟨2, by decide⟩ := .ofShelves _ source [{ keys := [⟨"0A", "", false⟩] }, {}]
    source.Plain ∧ (∀ i, (world.shelves.buckets.get i).imports = [])
      ∧ .settled "1B" .imported ∈ eventsOf world.run.1.trace
      ∧ .settled "1B" .unchanged ∈ eventsOf world.run.2.run.1.trace
      ∧ world.run.2.run.2 = world.run.2
      ∧ (∃ totals, world.run.1.result = .ok totals ∧ world.run.2.run.1.result = .ok totals)
      ∧ world.run.2.run.1.trace = world.run.1.trace.map Occurrence.again := by
  intro source world
  have hplain : source.Plain := by
    refine ⟨rfl, by decide, fun f text h => ?_, fun f text h => ?_⟩
    · rw [List.lookup_cons] at h
      split at h <;> cases h
    · cases h
  have himports : ∀ i, (world.shelves.buckets.get i).imports = [] := by decide
  have hfirst : .settled "1B" .imported ∈ eventsOf world.run.1.trace := by decide +kernel
  have hsecond : .settled "1B" .unchanged ∈ eventsOf world.run.2.run.1.trace := by decide +kernel
  exact ⟨hplain, himports, hfirst, hsecond, run_again world hplain himports⟩

end Memory

end KeyBuckets
