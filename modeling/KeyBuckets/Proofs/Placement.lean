import KeyBuckets.Proofs.Growth
import Mathlib.Data.List.Induction

/-!
# Placement — which keys are in which bucket, after any history

Runs alternate with changes of the source, of the treatment of secret halves and of the answers
set for imports. Whatever the order, the buckets hold only keys that belong there, and each key
and each secret half in them goes back to a run that brought it. What one step does to a bucket
is read off its kind; the history follows by induction from its end.

* **`Shelf.Honest`**, **`Step.Allowed`** — the sources and the steps of a history.
* **`World.run_brings`** — what a run takes to a bucket, and what the source says of it.
* **`Placed`** — what holds of the buckets after a history.
* **`placed_of_allowed`** — it holds after each step.
-/

namespace KeyBuckets.Memory

open Key

variable {count : BucketCount}

/-! ## The fingerprints of keys that grow -/

/-- An import adds the fingerprint of its block, unless it is there. -/
theorem Block.fingerprints_addTo (block : Block) (keys : List Key) :
    fingerprints (block.addTo keys)
      = if block.fingerprint ∈ fingerprints keys then fingerprints keys
        else fingerprints keys ++ [block.fingerprint] := by
  rw [addTo_eq_markFirsts, fingerprints_markFirsts, fingerprints_append, fingerprints_bare,
    newcomers_singleton]
  split
  · rw [List.append_nil]
  · rfl

/-- A fingerprint that is there after some imports was there before, or one of them brought it. -/
theorem Block.mem_fingerprints_addAll {blocks : List Block} {keys : List Key} {f : String}
    (h : f ∈ fingerprints (addAll blocks keys)) :
    f ∈ fingerprints keys ∨ ∃ block ∈ blocks, block.fingerprint = f := by
  induction blocks generalizing keys with
  | nil => exact .inl h
  | cons first blocks ih =>
    rcases ih h with hfirst | ⟨block, hblock, hf⟩
    · rw [fingerprints_addTo] at hfirst
      split at hfirst
      · exact .inl hfirst
      · rcases List.mem_append.mp hfirst with hkeys | hnew
        · exact .inl hkeys
        · exact .inr ⟨first, List.mem_cons_self, (List.mem_singleton.mp hnew).symm⟩
    · exact .inr ⟨block, List.mem_cons_of_mem _ hblock, hf⟩

/-- Imports bring no fingerprint twice. -/
theorem Block.nodup_fingerprints_addAll {keys : List Key} (h : (fingerprints keys).Nodup)
    (blocks : List Block) : (fingerprints (addAll blocks keys)).Nodup := by
  induction blocks generalizing keys with
  | nil => exact h
  | cons first blocks ih =>
    refine ih ?_
    rw [fingerprints_addTo]
    split
    · exact h
    · next hnew => exact h.append (List.nodup_singleton _) (by simpa using hnew)

/-- A secret half was there before, or the block brings it. -/
theorem Block.hasSecret_of_mem_addTo {block : Block} {keys : List Key} {key : Key}
    (h : key ∈ block.addTo keys) (hsecret : key.hasSecret = true) :
    (∃ k ∈ keys, k.fingerprint = key.fingerprint ∧ k.hasSecret = true)
      ∨ (block.fingerprint = key.fingerprint ∧ block.secret = true) := by
  induction keys with
  | nil =>
    rw [List.mem_singleton.mp h] at hsecret ⊢
    exact .inr ⟨rfl, hsecret⟩
  | cons k ks ih =>
    unfold addTo at h
    split at h
    · next hk =>
      rcases List.mem_cons.mp h with rfl | hks
      · -- the key that the import met: what it has now, it had or was given
        rcases (Bool.or_eq_true _ _).mp hsecret with hhad | hgiven
        · exact .inl ⟨k, List.mem_cons_self, rfl, hhad⟩
        · exact .inr ⟨hk.symm, hgiven⟩
      · exact .inl ⟨key, List.mem_cons_of_mem _ hks, rfl, hsecret⟩
    · rcases List.mem_cons.mp h with rfl | hks
      · exact .inl ⟨key, List.mem_cons_self, rfl, hsecret⟩
      · rcases ih hks with ⟨k', hk', hsame⟩ | hblock
        · exact .inl ⟨k', List.mem_cons_of_mem _ hk', hsame⟩
        · exact .inr hblock

/-- And so with the secret halves. -/
theorem Block.hasSecret_of_mem_addAll {blocks : List Block} {keys : List Key} {key : Key}
    (h : key ∈ addAll blocks keys) (hsecret : key.hasSecret = true) :
    (∃ k ∈ keys, k.fingerprint = key.fingerprint ∧ k.hasSecret = true)
      ∨ ∃ block ∈ blocks, block.fingerprint = key.fingerprint ∧ block.secret = true := by
  induction blocks generalizing keys with
  | nil => exact .inl ⟨key, h, rfl, hsecret⟩
  | cons first blocks ih =>
    rcases ih h with ⟨k, hk, hf, hks⟩ | ⟨block, hblock, hbrings⟩
    · rcases hasSecret_of_mem_addTo hk hks with ⟨k', hk', hf', hks'⟩ | ⟨hf', hfirst⟩
      · exact .inl ⟨k', hk', hf'.trans hf, hks'⟩
      · exact .inr ⟨first, List.mem_cons_self, hf'.trans hf, hfirst⟩
    · exact .inr ⟨block, List.mem_cons_of_mem _ hblock, hbrings⟩

/-! ## Sources and steps -/

/-- Answers to exports that refuse, and hand over nothing. -/
def Refusals (answers : List (String × Except Error String)) : Prop :=
  ∀ f material, answers.lookup f ≠ some (.ok material)

theorem refusals_nil : Refusals [] := by
  intro f material h
  cases h

/-- A source that hands over each half of a key as it is, or refuses to. -/
structure Shelf.Honest (shelf : Shelf) : Prop where
  whole : ∀ key ∈ shelf.keys, ';' ∉ key.fingerprint.toList
  publicExports : Refusals shelf.publicExports
  secretExports : Refusals shelf.secretExports

/-- The changes of a source that leave it honest: keys come and go, exports are refused. -/
def Change.AllowedAtSource : Change → Prop
  | .addKey key => ';' ∉ key.fingerprint.toList
  | .keys held => ∀ key ∈ held, ';' ∉ key.fingerprint.toList
  | .publicExports answers | .secretExports answers => Refusals answers
  | .removeKeys _ | .listError _ | .imports _ => True

/-- The changes of a bucket that leave its keys to the runs. -/
def Change.AllowedAtBucket : Change → Prop
  | .addKey _ | .removeKeys _ | .keys _ => False
  | .publicExports _ | .secretExports _ | .listError _ | .imports _ => True

def Step.Allowed : Step count → Prop
  | .run | .includeSecret _ => True
  | .change .source c => c.AllowedAtSource
  | .change (.bucket _) c => c.AllowedAtBucket

/-- What is allowed at the source keeps it honest. -/
theorem Shelf.Honest.change {shelf : Shelf} (h : shelf.Honest) {c : Change}
    (hc : c.AllowedAtSource) : (shelf.change c).Honest := by
  cases c with
  | addKey key =>
    refine ⟨fun k hk => ?_, h.publicExports, h.secretExports⟩
    rcases List.mem_append.mp hk with hold | hnew
    · exact h.whole k hold
    · exact List.mem_singleton.mp hnew ▸ hc
  | removeKeys f =>
    exact ⟨fun k hk => h.whole k (List.mem_filter.mp hk).1, h.publicExports, h.secretExports⟩
  | keys held => exact ⟨hc, h.publicExports, h.secretExports⟩
  | listError e => exact ⟨h.whole, h.publicExports, h.secretExports⟩
  | publicExports answers => exact ⟨h.whole, hc, h.secretExports⟩
  | secretExports answers => exact ⟨h.whole, h.publicExports, hc⟩
  | imports answers => exact ⟨h.whole, h.publicExports, h.secretExports⟩

theorem Shelf.Honest.plain {shelf : Shelf} (h : shelf.Honest) {keys : List Key}
    (hlist : shelf.list = .ok keys) : shelf.Plain ∧ keys = shelf.keys := by
  unfold Shelf.list at hlist
  cases hlisted : shelf.listError with
  | some e =>
    rw [hlisted] at hlist
    cases hlist
  | none =>
    rw [hlisted] at hlist
    cases hlist
    exact ⟨⟨hlisted, h.whole, fun f text hf => absurd hf (h.publicExports f text), h.secretExports⟩,
      rfl⟩

def World.keysIn (world : World count) (i : Fin count.value) : List Key :=
  (world.shelves.buckets.get i).keys

/-- And so does every allowed step, as a run leaves the source alone. -/
theorem World.honest_step {world : World count} (h : world.shelves.source.Honest) {step : Step count}
    (hstep : step.Allowed) : (world.step step).shelves.source.Honest := by
  cases step with
  | run =>
    show world.run.2.shelves.source.Honest
    rw [world.run_grows.1]
    exact h
  | includeSecret value => exact h
  | change place c =>
    cases place with
    | source => exact h.change hstep
    | bucket i => exact h

theorem Change.keys_of_allowedAtBucket {c : Change} (hc : c.AllowedAtBucket) (shelf : Shelf) :
    (shelf.change c).keys = shelf.keys := by
  cases c with
  | addKey _ | removeKeys _ | keys _ => exact hc.elim
  | publicExports _ | secretExports _ | listError _ | imports _ => rfl

/-- Between runs no keys get into a bucket or out of it. -/
theorem World.keysIn_step {world : World count} {step : Step count} (hstep : step.Allowed)
    (hrun : step ≠ .run) (i : Fin count.value) : (world.step step).keysIn i = world.keysIn i := by
  cases step with
  | run => exact absurd rfl hrun
  | includeSecret value => rfl
  | change place c =>
    cases place with
    | source => rfl
    | bucket j =>
      show ((world.shelves.mapBucket j (·.change c)).buckets.get i).keys = _
      rw [Parts.get_mapBucket]
      split
      · next hji => rw [Change.keys_of_allowedAtBucket hstep, hji]; rfl
      · rfl

/-! ## What a run brings -/

/-- Whether a run now finds a fingerprint in the listing of the source. -/
def World.Lists (world : World count) (f : String) : Prop :=
  ∃ keys, world.shelves.source.list = .ok keys ∧ f ∈ fingerprints keys

/-- Whether secret halves are moved now, and the first key of the source with a fingerprint has
one. -/
def World.SharesSecret (world : World count) (f : String) : Prop :=
  world.includeSecret = true
    ∧ ∃ key, world.shelves.source.keys.find? (·.fingerprint = f) = some key ∧ key.hasSecret = true

/-- What a run now may take to a bucket. -/
structure World.Brings (world : World count) (i : Fin count.value) (block : Block) : Prop where
  chosen : Bucket.choice? count block.fingerprint = some i
  listed : world.Lists block.fingerprint
  secret : block.secret = true → world.SharesSecret block.fingerprint

theorem World.brings_of_sends {world : World count} (h : world.shelves.source.Honest)
    {keys : List Key} (hlist : world.shelves.source.list = .ok keys) {i : Fin count.value}
    {block : Block} (hsends : world.shelves.source.Sends world.includeSecret keys i block) :
    world.Brings i block := by
  obtain ⟨hplain, -⟩ := h.plain hlist
  obtain ⟨key, hkey, hchoice, hoffers⟩ := hsends
  have hlisted : world.Lists key.fingerprint := ⟨keys, hlist, List.mem_map_of_mem hkey⟩
  rcases hoffers with hpublic | ⟨hinclude, -, hsecret⟩
  · obtain ⟨-, rfl⟩ := hplain.of_offers hpublic
    exact ⟨hchoice, hlisted, fun hfalse => Bool.noConfusion hfalse⟩
  · obtain ⟨hlets, rfl⟩ := hplain.of_offers hsecret
    refine ⟨hchoice, hlisted, fun _ => ⟨hinclude, ?_⟩⟩
    -- the source looks at the first key with the fingerprint before it lets a secret half go
    exact (Option.any_eq_true _ _).mp ((Bool.and_eq_true _ _).mp hlets).2

/-- What a run adds to a bucket are blocks that it brings there, whatever the imports answered. -/
theorem World.run_brings {world : World count} (h : world.shelves.source.Honest)
    (i : Fin count.value) :
    ∃ blocks : List Block, (∀ block ∈ blocks, world.Brings i block)
      ∧ world.run.2.keysIn i = Block.addAll blocks (world.keysIn i) := by
  obtain ⟨blocks, hblocks, hkeys⟩ := (world.run_grows.2 i).keys
  refine ⟨blocks, fun block hblock => ?_, hkeys⟩
  obtain ⟨keys, hlist, hsends⟩ := hblocks block hblock
  exact World.brings_of_sends h hlist hsends

/-! ## Histories -/

theorem World.after_concat (start : World count) (steps : List (Step count)) (step : Step count) :
    start.after (steps ++ [step]) = (start.after steps).step step :=
  List.foldl_concat ..

/-- Some run of a history took place in a world that satisfies `p`. -/
def Ran (start : World count) (steps : List (Step count)) (p : World count → Prop) : Prop :=
  ∃ earlier later, steps = earlier ++ .run :: later ∧ p (start.after earlier)

/-- What ran before has run after one more step. -/
theorem Ran.concat {start : World count} {steps : List (Step count)} {p : World count → Prop}
    (h : Ran start steps p) (step : Step count) : Ran start (steps ++ [step]) p := by
  obtain ⟨earlier, later, rfl, hp⟩ := h
  exact ⟨earlier, later ++ [step], by simp, hp⟩

theorem ran_concat_run {start : World count} {steps : List (Step count)} {p : World count → Prop}
    (h : p (start.after steps)) : Ran start (steps ++ [.run]) p :=
  ⟨steps, [], rfl, h⟩

def World.HoldsSecret (world : World count) (i : Fin count.value) (f : String) : Prop :=
  ∃ key ∈ world.keysIn i, key.fingerprint = f ∧ key.hasSecret = true

/-- Whether a run now puts the secret half of a key into a bucket that did not have it, with secret
halves being moved and the first key of the source with the fingerprint having one. -/
structure World.PutsSecret (world : World count) (i : Fin count.value) (f : String) : Prop where
  shared : world.SharesSecret f
  before : ¬ world.HoldsSecret i f
  after : world.run.2.HoldsSecret i f

/-- What holds of the buckets after a history. -/
structure Placed (start : World count) (steps : List (Step count)) : Prop where
  /-- The first digit of a key is the number of its bucket, modulo the number of buckets. -/
  chosen : ∀ i, ∀ key ∈ (start.after steps).keysIn i, ∃ value,
    Fingerprint.leadingValue? key.fingerprint = some value ∧ i.val = value % count.value
  /-- No fingerprint is in two buckets. -/
  apart : ∀ i j, ∀ f ∈ fingerprints ((start.after steps).keysIn i),
    f ∈ fingerprints ((start.after steps).keysIn j) → i = j
  /-- No fingerprint is twice in a bucket. -/
  once : ∀ i, (fingerprints ((start.after steps).keysIn i)).Nodup
  /-- Each key was in the listing of some run. -/
  listed : ∀ i, ∀ key ∈ (start.after steps).keysIn i, Ran start steps (·.Lists key.fingerprint)
  /-- Each secret half was put there by a run. -/
  secret : ∀ i, ∀ key ∈ (start.after steps).keysIn i, key.hasSecret = true →
    Ran start steps (·.PutsSecret i key.fingerprint)

/-- A fingerprint chooses one bucket. -/
theorem eq_of_choices {f : String} {i j : Fin count.value}
    (hi : Bucket.choice? count f = some i) (hj : Bucket.choice? count f = some j) : i = j :=
  Option.some.inj (hi.symm.trans hj)

/-- In buckets without keys all keys are in their places. -/
theorem placed_nil {start : World count} (hempty : ∀ i, start.keysIn i = []) : Placed start [] := by
  have hnone : ∀ i key, key ∉ (start.after []).keysIn i := by
    intro i key hkey
    rw [show (start.after []).keysIn i = [] from hempty i] at hkey
    cases hkey
  refine ⟨fun i key hkey => absurd hkey (hnone i key), fun i j f hf _ => ?_, fun i => ?_,
    fun i key hkey => absurd hkey (hnone i key), fun i key hkey => absurd hkey (hnone i key)⟩
  · obtain ⟨key, hkey, -⟩ := List.mem_map.mp hf
    exact absurd hkey (hnone i key)
  · rw [show (start.after []).keysIn i = [] from hempty i]
    exact List.nodup_nil

/-- A step that leaves the keys of the buckets alone keeps them in their places. -/
theorem Placed.quiet {start : World count} {steps : List (Step count)} (h : Placed start steps)
    {step : Step count}
    (hsame : ∀ i, (start.after (steps ++ [step])).keysIn i = (start.after steps).keysIn i) :
    Placed start (steps ++ [step]) := by
  constructor
  · simpa only [hsame] using h.chosen
  · simpa only [hsame] using h.apart
  · simpa only [hsame] using h.once
  · intro i key hkey
    exact (h.listed i key (hsame i ▸ hkey)).concat step
  · intro i key hkey hsecret
    exact (h.secret i key (hsame i ▸ hkey) hsecret).concat step

/-- A run puts keys where they belong. -/
theorem Placed.run {start : World count} {steps : List (Step count)} (h : Placed start steps)
    (hhonest : (start.after steps).shelves.source.Honest) : Placed start (steps ++ [.run]) := by
  let world := start.after steps
  have hafter : start.after (steps ++ [.run]) = world.run.2 := World.after_concat start steps .run
  -- a key in a bucket was there before the run, or the run brought it
  have hcases : ∀ i, ∀ f ∈ fingerprints (world.run.2.keysIn i),
      f ∈ fingerprints (world.keysIn i) ∨ ∃ block, world.Brings i block ∧ block.fingerprint = f := by
    intro i f hf
    obtain ⟨blocks, hblocks, hkeys⟩ := World.run_brings hhonest i
    rw [hkeys] at hf
    rcases Block.mem_fingerprints_addAll hf with hold | ⟨block, hblock, hnew⟩
    · exact .inl hold
    · exact .inr ⟨block, hblocks block hblock, hnew⟩
  have hchoice : ∀ i, ∀ f ∈ fingerprints (world.run.2.keysIn i),
      Bucket.choice? count f = some i := by
    intro i f hf
    rcases hcases i f hf with hold | ⟨block, hbrings, rfl⟩
    · obtain ⟨key, hkey, rfl⟩ := List.mem_map.mp hold
      exact Bucket.choice?_eq_some_iff.mpr (h.chosen i key hkey)
    · exact hbrings.chosen
  constructor
  · intro i key hkey
    rw [hafter] at hkey
    exact Bucket.choice?_eq_some_iff.mp (hchoice i _ (List.mem_map_of_mem hkey))
  · intro i j f hi hj
    rw [hafter] at hi hj
    exact eq_of_choices (hchoice i f hi) (hchoice j f hj)
  · intro i
    rw [hafter]
    obtain ⟨blocks, -, hkeys⟩ := World.run_brings hhonest i
    rw [hkeys]
    exact Block.nodup_fingerprints_addAll (h.once i) blocks
  · intro i key hkey
    rw [hafter] at hkey
    rcases hcases i _ (List.mem_map_of_mem hkey) with hold | ⟨block, hbrings, hf⟩
    · obtain ⟨k, hk, hf⟩ := List.mem_map.mp hold
      exact hf ▸ (h.listed i k hk).concat .run
    · exact ran_concat_run (hf ▸ hbrings.listed)
  · intro i key hkey hsecret
    rw [hafter] at hkey
    by_cases hbefore : world.HoldsSecret i key.fingerprint
    · obtain ⟨k, hk, hf, hks⟩ := hbefore
      exact hf ▸ (h.secret i k hk hks).concat .run
    · -- the bucket had no secret half of this key, so this is the run that put it there
      obtain ⟨blocks, hblocks, hkeys⟩ := World.run_brings hhonest i
      rcases Block.hasSecret_of_mem_addAll (hkeys ▸ hkey) hsecret with hheld | ⟨block, hblock, hf, hb⟩
      · exact absurd hheld hbefore
      · have hshared := (hblocks block hblock).secret hb
        exact ran_concat_run ⟨hf ▸ hshared, hbefore, key, hkey, rfl, hsecret⟩

theorem World.honest_after {start : World count} (h : start.shelves.source.Honest)
    {steps : List (Step count)} (hsteps : ∀ step ∈ steps, step.Allowed) :
    (start.after steps).shelves.source.Honest := by
  induction steps using List.reverseRecOn with
  | nil => exact h
  | append_singleton steps step ih =>
    rw [World.after_concat]
    have hbefore := ih fun step hstep => hsteps step (List.mem_append_left _ hstep)
    exact World.honest_step hbefore (hsteps step (by simp))

/-- Keys are in their places after every history. Induction on the steps, the last one taken off. -/
theorem placed_after {start : World count} (hhonest : start.shelves.source.Honest)
    (hempty : ∀ i, start.keysIn i = []) {steps : List (Step count)}
    (hsteps : ∀ step ∈ steps, step.Allowed) : Placed start steps := by
  induction steps using List.reverseRecOn with
  | nil => exact placed_nil hempty
  | append_singleton steps step ih =>
    have hearlier : ∀ step ∈ steps, step.Allowed :=
      fun step hstep => hsteps step (List.mem_append_left _ hstep)
    have hstep : step.Allowed := hsteps step (by simp)
    by_cases hrun : step = .run
    · subst hrun
      exact (ih hearlier).run (World.honest_after hhonest hearlier)
    · refine (ih hearlier).quiet fun i => ?_
      rw [World.after_concat]
      exact World.keysIn_step hstep hrun i

/-- **Every key is in its place.** The buckets start without keys and the source is honest. Then,
after each step of a history of runs and allowed changes, the buckets hold only keys that belong
there, each once, and each key and each secret half in them goes back to a run. -/
theorem placed_of_allowed (start : World count) (hhonest : start.shelves.source.Honest)
    (hempty : ∀ i, start.keysIn i = []) (steps : List (Step count))
    (hsteps : ∀ step ∈ steps, step.Allowed) : ∀ done, done <+: steps → Placed start done := by
  intro done hdone
  exact placed_after hhonest hempty fun step hstep => hsteps step (hdone.subset hstep)

/-- Two runs over two buckets, with a key added and secret halves excluded in between. The answer to
the first import is set, so nothing is taken in, and the secret half brings its key along. -/
theorem placed_of_allowed_two_runs :
    let source : Shelf := { keys := [⟨"0A", "a", true⟩, ⟨"1B", "b", false⟩] }
    let start : World ⟨2, by decide⟩ :=
      .ofShelves _ source [{ imports := [some (.ok { imported := 1 })] }, {}]
    let steps : List (Step ⟨2, by decide⟩) :=
      [.run, .includeSecret false, .change .source (.addKey ⟨"3D", "d", true⟩), .run]
    start.shelves.source.Honest ∧ (∀ i, start.keysIn i = []) ∧ (∀ step ∈ steps, step.Allowed)
      ∧ (start.after steps).keysIn 0 = [⟨"0A", "", true⟩]
      ∧ (start.after steps).keysIn 1 = [⟨"1B", "", false⟩, ⟨"3D", "", false⟩]
      ∧ ∀ done, done <+: steps → Placed start done := by
  intro source start steps
  have hhonest : source.Honest := ⟨by decide, refusals_nil, refusals_nil⟩
  have hempty : ∀ i, start.keysIn i = [] := by decide
  have hsteps : ∀ step ∈ steps, step.Allowed := by
    simp [steps, Step.Allowed, Change.AllowedAtSource]
  exact ⟨hhonest, hempty, hsteps, by decide +kernel, by decide +kernel,
    placed_of_allowed start hhonest hempty steps hsteps⟩

end KeyBuckets.Memory
