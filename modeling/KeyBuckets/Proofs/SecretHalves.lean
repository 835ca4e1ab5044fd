import KeyBuckets.Proofs.Accounts
import KeyBuckets.Proofs.Growth

/-!
# Secret halves — none is lost without a word

All that a run knows of a secret half is what the counters of its import say. Here they are held
against the keys of the bucket: an import that counts a secret half brought one, of the key that
was asked for, and no later import takes it away again. So a secret half that was to be moved with
its key is in the bucket at the end, or a report says why it is not.

* **`Shelf.Sincere`** — a source that hands over secret halves of the key asked for only.
* **`Passage.held_of_accepted`** — counters that accept a secret half tell the truth.
* **`Blocks.accounts`** — what a run tells of some keys, beside what it leaves in the buckets.
* **`secret_held_or_skipped`** — the same for whole runs.
-/

namespace KeyBuckets

namespace Memory

open Text

/-! ## Sources that keep to the key asked for -/

/-- A source whose secret exports are about the key asked for: it hands over the secret half as it
is, or refuses to, or hands over any text in which each block has the fingerprint of the key. -/
structure Shelf.Sincere (shelf : Shelf) : Prop where
  whole : ∀ key ∈ shelf.keys, ';' ∉ key.fingerprint.toList
  secretExports : ∀ f material, shelf.secretExports.lookup f = some (.ok material) →
    ∀ piece ∈ pieces (· == ';') material.toList, ∀ block ∈ Block.read? piece, block.fingerprint = f

theorem Shelf.Sincere.fingerprint_of_offers {shelf : Shelf} (h : shelf.Sincere) {f : String}
    {block : Block} (hoffers : shelf.Offers .secretHalf f block) : block.fingerprint = f := by
  obtain ⟨material, hmaterial, hblock⟩ := hoffers
  have hexport : shelf.exportSecret f = .ok material := hmaterial
  unfold exportSecret at hexport
  cases hanswer : shelf.secretExports.lookup f with
  | some answer =>
    rw [hanswer] at hexport
    obtain ⟨piece, hpiece, hread⟩ := Block.mem_of_mem_readAll hblock
    exact h.secretExports f material (hanswer.trans (congrArg some hexport)) piece hpiece block hread
  | none =>
    rw [hanswer] at hexport
    cases hfind : shelf.keys.find? (·.fingerprint = f) with
    | none =>
      rw [hfind] at hexport
      cases hexport
    | some key =>
      -- no answer is set, so the material is the secret half of a listed key
      have hkey : key.fingerprint = f := by simpa using List.find?_some hfind
      have hwhole : ';' ∉ f.toList := hkey ▸ h.whole key (List.mem_of_find?_eq_some hfind)
      simp only [hfind] at hexport
      split at hexport
      · cases hexport
        have hone : blocksOf (Block.text ⟨true, f⟩) = [⟨true, f⟩] := blocksOf_text hwhole
        have hmem : block ∈ blocksOf (Block.text ⟨true, f⟩) := hblock
        rw [hone] at hmem
        rw [List.mem_singleton.mp hmem]
      · cases hexport

/-! ## What counters say of secret halves -/

/-- An import that goes well counts a secret half only if one of its blocks brings one. The converse
does not hold: so many blocks can bring one that their sum wraps. -/
theorem takeBlocks_accepted {ps : List (List Char)} {counts counts' : ImportCounts} {keys : List Key}
    (h : (takeBlocks ps counts keys).1 = .ok counts') (haccepted : counts'.secretAccepted = true) :
    counts.secretAccepted = true ∨ ∃ block ∈ Block.readAll ps, block.secret = true := by
  induction ps generalizing counts keys with
  | nil =>
    cases h
    exact .inl haccepted
  | cons cs rest ih =>
    unfold takeBlocks at h
    unfold Block.readAll
    cases hread : Block.read? cs with
    | none =>
      rw [hread] at h
      cases h
    | some block =>
      rw [hread] at h
      cases hsecret : block.secret with
      | true => exact .inr ⟨block, List.mem_cons_self, hsecret⟩
      | false =>
        rcases ih h with hbefore | ⟨later, hlater, hbrings⟩
        · exact .inl (Block.secretAccepted_count_of_public hsecret keys counts ▸ hbefore)
        · exact .inr ⟨later, List.mem_cons_of_mem _ hlater, hbrings⟩

theorem Shelf.importKeys_accepted {shelf : Shelf} (himports : shelf.imports = []) {material : String}
    {counts : ImportCounts} (h : (shelf.importKeys material).1 = .ok counts)
    (haccepted : counts.secretAccepted = true) :
    ∃ block ∈ blocksOf material, block.secret = true
      ∧ block.Held (shelf.importKeys material).2.keys := by
  rw [Shelf.importKeys_of_unset himports] at h ⊢
  rcases takeBlocks_accepted h haccepted with hbefore | ⟨block, hblock, hsecret⟩
  · -- no counter starts above zero
    cases hbefore
  refine ⟨block, hblock, hsecret, ?_⟩
  show block.Held (takeBlocks _ _ _).2
  rw [takeBlocks_snd]
  exact Block.held_addAll hblock shelf.keys

end Memory

namespace Distribution

open Memory

variable {count : BucketCount} {includeSecret : Bool} {key : Key} {i : Fin count.value}
  {s s' : Parts Shelf Shelf count}

/-- A secret half that goes unreported is in the bucket. -/
theorem Passage.held_of_accepted {secret : Arrival} {passed : List (Occurrence String count)}
    (hsincere : s.source.Sincere) (himports : (s.buckets.get i).imports = [])
    (h : Passage (World.distribution includeSecret) .secretHalf key i s secret passed s')
    (hskip : secret.skipReason? = none) :
    (⟨true, key.fingerprint⟩ : Memory.Block).Held (s'.buckets.get i).keys := by
  rcases h.shelves with ⟨e, -, rfl, -⟩ | ⟨material, hmaterial, rfl, rfl⟩
  · cases hskip
  · cases hanswer : ((s.buckets.get i).importKeys material).1 with
    | error e =>
      rw [hanswer] at hskip
      cases hskip
    | ok counts =>
      rw [hanswer] at hskip
      have haccepted : counts.secretAccepted = true := by
        by_contra hnot
        have hreason : (Arrival.answered counts).skipReason? = some _ := if_neg hnot
        exact Option.some_ne_none _ (hreason.symm.trans hskip)
      obtain ⟨⟨_, f⟩, hblock, rfl, hheld⟩ := Shelf.importKeys_accepted himports hanswer haccepted
      have hf : f = key.fingerprint := hsincere.fingerprint_of_offers ⟨material, hmaterial, hblock⟩
      rw [Parts.get_mapBucket, if_pos rfl, ← hf]
      exact hheld

/-! ## Accounts of keys -/

/-- Whether a key leaves its secret half in its bucket. -/
def SecretHeld (key : Key) (s : Parts Shelf Shelf count) : Prop :=
  ∃ i : Fin count.value, Bucket.choice? count key.fingerprint = some i
    ∧ (⟨true, key.fingerprint⟩ : Memory.Block).Held (s.buckets.get i).keys

theorem Block.account {outcome : Outcome} {block : List (Occurrence String count)}
    (hsincere : s.source.Sincere) (himports : ∀ j, (s.buckets.get j).imports = [])
    (h : Block (World.distribution true) key s outcome block s') :
    ∃ skipped, eventsOf block = Account.events count ⟨key, outcome, skipped⟩
      ∧ (key.hasSecret = true → outcome.isSuccess = true → skipped = none → SecretHeld key s') := by
  obtain ⟨skipped, hevents, hskipped⟩ := h.exists_account
  refine ⟨skipped, hevents, fun hkey hsuccess hskip => ?_⟩
  rcases hskipped with ⟨hstays, -⟩ | ⟨-, i, arrival, half, s₁, secret, other, hchoice, hpublic,
    hsecret, rfl⟩
  · exact absurd ⟨hsuccess, rfl, hkey⟩ hstays
  · obtain ⟨hsource₁, hgrows₁⟩ := hpublic.grows
    exact ⟨i, hchoice,
      hsecret.held_of_accepted (hsource₁ ▸ hsincere) ((hgrows₁ i).unset (himports i)) hskip⟩

theorem Blocks.accounts {settled : List (Key × Outcome)} {blocks : List (Occurrence String count)}
    (hsincere : s.source.Sincere) (himports : ∀ j, (s.buckets.get j).imports = [])
    (h : Blocks (World.distribution true) s settled blocks s') :
    ∃ accounts : List Account, accounts.map (fun account => (account.key, account.outcome)) = settled
      ∧ eventsOf blocks = accounts.flatMap (Account.events count)
      ∧ ∀ account ∈ accounts, account.key.hasSecret = true → account.outcome.isSuccess = true →
          account.skipped = none → SecretHeld account.key s' := by
  induction h with
  | nil => exact ⟨[], rfl, rfl, by simp⟩
  | @cons s s₁ s' key outcome settled block rest hblock hrest ih =>
    obtain ⟨hsource₁, hgrows₁⟩ := hblock.grows
    obtain ⟨skipped, hevents, hheld⟩ := hblock.account hsincere himports
    obtain ⟨accounts, rfl, hevents', hheld'⟩ :=
      ih (hsource₁ ▸ hsincere) fun j => (hgrows₁ j).unset (himports j)
    refine ⟨⟨key, outcome, skipped⟩ :: accounts, rfl, ?_, List.forall_mem_cons.mpr ⟨?_, hheld'⟩⟩
    · rw [eventsOf_append, hevents, hevents', List.flatMap_cons]
    · -- what this key left in its bucket outlives the keys that come after it
      intro hkey hsuccess hskip
      obtain ⟨i, hchoice, hthere⟩ := hheld hkey hsuccess hskip
      exact ⟨i, hchoice, (hrest.grows.2 i).held hthere⟩

end Distribution

namespace Memory

variable {count : BucketCount}

/-! ## Whole runs -/

/-- **No secret half is lost without a word.** Secret halves are moved from a sincere source. Then
the reports of a run are one account for each listed key, in the order of the listing, and for each
key that has a secret half and arrived, its account says that the secret half is skipped, or the
first key with its fingerprint has a secret half in the bucket that it chooses. -/
theorem secret_held_or_skipped (world : World count) (hinclude : world.includeSecret = true)
    (hsincere : world.shelves.source.Sincere)
    (himports : ∀ i, (world.shelves.buckets.get i).imports = []) {keys : List Key}
    (hlist : world.shelves.source.list = .ok keys) :
    ∃ accounts : List Account, accounts.map (·.key) = keys
      ∧ eventsOf world.run.1.trace
        = .started keys.length :: accounts.flatMap (Account.events count)
          ++ [.finished (Totals.ofOutcomes (accounts.map (·.outcome)))]
      ∧ ∀ account ∈ accounts, account.key.hasSecret = true → account.outcome.isSuccess = true →
          (∃ reason, .secretSkipped account.key.fingerprint reason ∈ account.events count)
            ∨ ∃ i key, Bucket.choice? count account.key.fingerprint = some i
              ∧ (world.run.2.shelves.buckets.get i).keys.find?
                  (·.fingerprint = account.key.fingerprint) = some key
              ∧ key.hasSecret = true := by
  obtain ⟨shelves, includeSecret⟩ := world
  cases hinclude
  obtain ⟨settled, blocks, s', rfl, hblocks⟩ := Distribution.exists_blocks
    (World.distribution true) keys shelves
  have hrun := World.run_of_blocks ⟨shelves, true⟩ hlist hblocks
  obtain ⟨accounts, rfl, hevents, hheld⟩ := hblocks.accounts hsincere himports
  rw [List.map_map] at hrun
  rw [hrun]
  refine ⟨accounts, ?_, ?_, fun account haccount hkey hsuccess => ?_⟩
  · rw [List.map_map]
    rfl
  · rw [eventsOf_append]
    show _ :: eventsOf blocks ++ _ = _
    rw [hevents, List.length_map, List.length_map, List.length_map]
    rfl
  · cases hskip : account.skipped with
    | some reason => exact .inl ⟨reason, by simp [Account.events, hskip]⟩
    | none =>
      obtain ⟨i, hchoice, key, hfind, hsecret⟩ := hheld account haccount hkey hsuccess hskip
      exact .inr ⟨i, key, hchoice, hfind, hsecret rfl⟩

/-- Three keys whose secret exports are set: one is handed over in two blocks, one with something
after it that is no block, and one in a block of the public half alone. -/
theorem secret_held_or_skipped_three_keys :
    let source : Shelf :=
      { keys := [⟨"0A", "a", true⟩, ⟨"1B", "b", true⟩, ⟨"2C", "c", true⟩]
        secretExports := [("0A", .ok "PUB:0A;SEC:0A"), ("1B", .ok "SEC:1B;?"), ("2C", .ok "PUB:2C")] }
    let world : World ⟨2, by decide⟩ := .ofShelves _ source [{ keys := [⟨"0A", "", false⟩] }, {}]
    world.includeSecret = true ∧ source.Sincere
      ∧ (∀ i, (world.shelves.buckets.get i).imports = [])
      ∧ (world.run.2.shelves.buckets.get 0).keys = [⟨"0A", "", true⟩, ⟨"2C", "", false⟩]
      ∧ ∃ accounts : List Account, accounts.map (·.key) = source.keys
        ∧ eventsOf world.run.1.trace
          = .started 3 :: accounts.flatMap (Account.events ⟨2, by decide⟩)
            ++ [.finished (Totals.ofOutcomes (accounts.map (·.outcome)))]
        ∧ ∀ account ∈ accounts, account.key.hasSecret = true → account.outcome.isSuccess = true →
            (∃ reason, .secretSkipped account.key.fingerprint reason
                ∈ account.events ⟨2, by decide⟩)
              ∨ ∃ i key, Bucket.choice? ⟨2, by decide⟩ account.key.fingerprint = some i
                ∧ (world.run.2.shelves.buckets.get i).keys.find?
                    (·.fingerprint = account.key.fingerprint) = some key
                ∧ key.hasSecret = true := by
  intro source world
  have hsincere : source.Sincere := by
    refine ⟨by decide, fun f material h => ?_⟩
    -- the answers that are set are three
    rw [List.lookup_cons, List.lookup_cons, List.lookup_cons] at h
    split at h
    · next hf => cases h; rw [beq_iff_eq.mp hf]; decide
    · split at h
      · next hf => cases h; rw [beq_iff_eq.mp hf]; decide
      · split at h
        · next hf => cases h; rw [beq_iff_eq.mp hf]; decide
        · cases h
  have himports : ∀ i, (world.shelves.buckets.get i).imports = [] := by decide
  have hkeys : (world.run.2.shelves.buckets.get 0).keys
      = [⟨"0A", "", true⟩, ⟨"2C", "", false⟩] := by decide +kernel
  have hlist : world.shelves.source.list = .ok source.keys := rfl
  exact ⟨rfl, hsincere, himports, hkeys,
    secret_held_or_skipped world rfl hsincere himports hlist⟩

end Memory

end KeyBuckets
