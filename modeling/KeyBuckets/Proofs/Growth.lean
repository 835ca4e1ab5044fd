import KeyBuckets.Proofs.Contents

/-!
# Growth — a run adds to the buckets, and takes nothing away

Nothing is assumed here about what the source exports and about what is set for the imports of
a bucket. Whatever that is, the keys of a bucket change in one way only: blocks of exported
material are taken in, one after the other. So what an import has brought about stays.

* **`Block.Held`** — the keys to which the import of a block adds nothing.
* **`Shelf.Grows`** — a shelf before and after some imports.
* **`Passage.grows`**, **`Block.grows`**, **`Blocks.grows`** — one half of a key, one key, some keys.
* **`World.run_grows`** — what a run adds to a bucket, and where that comes from.
-/

namespace KeyBuckets.Memory

open Text Key

/-! ## Keys that hold a block -/

/-- The first key with the fingerprint of the block is there, and has its secret half if the
block brings one. -/
def Block.Held (block : Block) (keys : List Key) : Prop :=
  ∃ key, keys.find? (·.fingerprint = block.fingerprint) = some key
    ∧ (block.secret = true → key.hasSecret = true)

/-- An import concerns the first key with its fingerprint, and no key with another one. -/
theorem Block.find?_addTo (block : Block) (keys : List Key) (f : String) :
    (block.addTo keys).find? (·.fingerprint = f)
      = if f = block.fingerprint then
          some (((keys.find? (·.fingerprint = f)).getD (bare f)).mark block.secret)
        else keys.find? (·.fingerprint = f) := by
  induction keys with
  | nil =>
    by_cases hf : f = block.fingerprint
    · simp [addTo, hf, bare, mark]
    · simp [addTo, hf, Ne.symm hf]
  | cons k ks ih =>
    by_cases hk : k.fingerprint = block.fingerprint
    · by_cases hf : f = block.fingerprint
      · simp [addTo, hk, hf, mark]
      · simp [addTo, hk, hf, Ne.symm hf]
    · by_cases hf : k.fingerprint = f
      · have hne : f ≠ block.fingerprint := by
          rintro rfl
          exact hk hf
        simp [addTo, hf, hne]
      · rw [addTo, if_neg hk, List.find?_cons_of_neg (by simpa using hf),
          List.find?_cons_of_neg (by simpa using hf), ih]

/-- A block that was taken in is held. -/
theorem Block.held_addTo (block : Block) (keys : List Key) : block.Held (block.addTo keys) := by
  refine ⟨_, (block.find?_addTo keys block.fingerprint).trans (if_pos rfl), fun hsecret => ?_⟩
  rw [hsecret]
  exact Bool.or_true _

/-- Later imports of other blocks, or of the same, change nothing about it. -/
theorem Block.Held.addTo {block : Block} {keys : List Key} (h : block.Held keys) (other : Block) :
    block.Held (other.addTo keys) := by
  obtain ⟨key, hfind, hsecret⟩ := h
  have hother := other.find?_addTo keys block.fingerprint
  by_cases hf : block.fingerprint = other.fingerprint
  · rw [if_pos hf, hfind, Option.getD_some] at hother
    refine ⟨_, hother, fun hblock => ?_⟩
    show (key.hasSecret || other.secret) = true
    rw [hsecret hblock, Bool.true_or]
  · rw [if_neg hf, hfind] at hother
    exact ⟨key, hother, hsecret⟩

theorem Block.Held.addTo_eq_self {block : Block} {keys : List Key} (h : block.Held keys) :
    block.addTo keys = keys := by
  obtain ⟨key, hfind, hsecret⟩ := h
  induction keys with
  | nil => cases hfind
  | cons k ks ih =>
    by_cases hk : k.fingerprint = block.fingerprint
    · rw [List.find?_cons_of_pos (by simpa using hk)] at hfind
      cases hfind
      rw [Block.addTo, if_pos hk]
      -- the first key is the one, and has all that the block brings
      have hsame : (key.hasSecret || block.secret) = key.hasSecret := by
        cases hblock : block.secret with
        | false => exact Bool.or_false _
        | true => rw [hsecret hblock, Bool.true_or]
      rw [hsame]
    · rw [List.find?_cons_of_neg (by simpa using hk)] at hfind
      rw [Block.addTo, if_neg hk, ih hfind]

/-- Who holds the secret half of a key holds the public one. -/
theorem Block.Held.of_same {block other : Block} {keys : List Key} (h : block.Held keys)
    (hf : other.fingerprint = block.fingerprint) (hs : other.secret = true → block.secret = true) :
    other.Held keys := by
  obtain ⟨key, hfind, hsecret⟩ := h
  exact ⟨key, hf ▸ hfind, fun hother => hsecret (hs hother)⟩

/-! ## Some blocks, taken in one after the other -/

/-- And it stays held, whatever else is taken in. -/
theorem Block.Held.addAll {block : Block} {keys : List Key} (h : block.Held keys)
    (blocks : List Block) : block.Held (Block.addAll blocks keys) := by
  induction blocks generalizing keys with
  | nil => exact h
  | cons other blocks ih => exact ih (h.addTo other)

theorem Block.held_addAll {block : Block} {blocks : List Block} (h : block ∈ blocks)
    (keys : List Key) : block.Held (addAll blocks keys) := by
  obtain ⟨before, later, rfl⟩ := List.mem_iff_append.mp h
  rw [addAll_append]
  exact (block.held_addTo _).addAll later

/-! ## The blocks of material -/

/-- The blocks that some pieces begin with. A piece that is no block ends them. -/
def Block.readAll : List (List Char) → List Block
  | [] => []
  | cs :: rest =>
    match Block.read? cs with
    | none => []
    | some block => block :: readAll rest

/-- The blocks that an import of some material takes in. -/
def blocksOf (material : String) : List Block :=
  Block.readAll (pieces (· == ';') material.toList)

/-- Blocks are taken in up to the first piece that is none. -/
theorem takeBlocks_snd (ps : List (List Char)) (counts : ImportCounts) (keys : List Key) :
    (takeBlocks ps counts keys).2 = Block.addAll (Block.readAll ps) keys := by
  induction ps generalizing counts keys with
  | nil => rfl
  | cons cs rest ih =>
    unfold takeBlocks Block.readAll
    cases Block.read? cs with
    | none => rfl
    | some block => exact ih _ _

theorem Block.mem_of_mem_readAll {ps : List (List Char)} {block : Block}
    (h : block ∈ readAll ps) : ∃ piece ∈ ps, read? piece = some block := by
  induction ps with
  | nil => cases h
  | cons cs rest ih =>
    unfold readAll at h
    cases hread : read? cs with
    | none =>
      rw [hread] at h
      cases h
    | some first =>
      rw [hread] at h
      rcases List.mem_cons.mp h with rfl | hrest
      · exact ⟨cs, List.mem_cons_self, hread⟩
      · obtain ⟨piece, hpiece, hblock⟩ := ih hrest
        exact ⟨piece, List.mem_cons_of_mem _ hpiece, hblock⟩

/-- The text of a block has that block and no other. -/
theorem blocksOf_text {block : Block} (h : ';' ∉ block.fingerprint.toList) :
    blocksOf block.text = [block] := by
  unfold blocksOf
  rw [Block.pieces_text h]
  simp only [Block.readAll, Block.read?_text]

theorem blocksOf_unreadable {material : String}
    (h : (pieces (· == ';') material.toList).head?.bind Block.read? = none) :
    blocksOf material = [] := by
  unfold blocksOf
  cases hpieces : pieces (· == ';') material.toList with
  | nil => rfl
  | cons piece rest =>
    rw [hpieces] at h
    have hread : Block.read? piece = none := h
    simp only [Block.readAll, hread]

/-- The import of one block counts a secret half if the block brings one. -/
theorem Block.secretAccepted_count (block : Block) (keys : List Key) :
    (block.count keys {}).secretAccepted = block.secret := by
  unfold Block.count ImportCounts.secretAccepted
  cases keys.find? (·.fingerprint = block.fingerprint) with
  | none => cases block.secret <;> rfl
  | some key => cases block.secret <;> cases hkey : key.hasSecret <;> simp [hkey]

/-- A public half adds to no counter of secret halves. -/
theorem Block.secretAccepted_count_of_public {block : Block} (hpublic : block.secret = false)
    (keys : List Key) (counts : ImportCounts) :
    (block.count keys counts).secretAccepted = counts.secretAccepted := by
  unfold Block.count ImportCounts.secretAccepted
  cases keys.find? (·.fingerprint = block.fingerprint) <;> simp [hpublic]

/-! ## Growing shelves -/

/-- From `before` to `after` by imports: blocks that satisfy `p` were taken in, and answers that
were set for imports may be used up. -/
structure Shelf.Grows (p : Block → Prop) (before after : Shelf) : Prop where
  keys : ∃ blocks : List Block, (∀ block ∈ blocks, p block)
    ∧ after.keys = Block.addAll blocks before.keys
  imports : after.imports <:+ before.imports

namespace Shelf.Grows

variable {p q : Block → Prop} {before middle after : Shelf}

theorem refl (p : Block → Prop) (shelf : Shelf) : Shelf.Grows p shelf shelf :=
  ⟨⟨[], by simp, rfl⟩, List.suffix_rfl⟩

theorem trans (first : Shelf.Grows p before middle) (last : Shelf.Grows p middle after) :
    Shelf.Grows p before after := by
  obtain ⟨xs, hxs, hmiddle⟩ := first.keys
  obtain ⟨ys, hys, hafter⟩ := last.keys
  refine ⟨⟨xs ++ ys, fun block hblock => ?_, ?_⟩, last.imports.trans first.imports⟩
  · exact (List.mem_append.mp hblock).elim (hxs block) (hys block)
  · rw [hafter, hmiddle, Block.addAll_append]

theorem mono (h : Shelf.Grows p before after) (hpq : ∀ block, p block → q block) :
    Shelf.Grows q before after := by
  obtain ⟨blocks, hblocks, hafter⟩ := h.keys
  exact ⟨⟨blocks, fun block hblock => hpq block (hblocks block hblock), hafter⟩, h.imports⟩

/-- A bucket that grows holds what it held. -/
theorem held {block : Block} (h : Shelf.Grows p before after) (hheld : block.Held before.keys) :
    block.Held after.keys := by
  obtain ⟨blocks, -, hafter⟩ := h.keys
  rw [hafter]
  exact hheld.addAll blocks

theorem unset (h : Shelf.Grows p before after) (himports : before.imports = []) :
    after.imports = [] :=
  List.suffix_nil.mp (himports ▸ h.imports)

end Shelf.Grows

/-- An import takes in the blocks of its material, or nothing if an answer is set for it. -/
theorem Shelf.importKeys_grows (shelf : Shelf) (material : String) :
    Shelf.Grows (· ∈ blocksOf material) shelf (shelf.importKeys material).2 := by
  have hrest : shelf.imports.tail <:+ shelf.imports := List.tail_suffix _
  unfold importKeys
  cases shelf.imports.head?.join with
  | some answer => exact ⟨⟨[], by simp, rfl⟩, hrest⟩
  | none => exact ⟨⟨blocksOf material, fun _ hblock => hblock, takeBlocks_snd _ _ _⟩, hrest⟩

/-! ## Where blocks come from -/

/-- Whether the material that a shelf exports for one half of a key holds a block. -/
def Shelf.Offers (shelf : Shelf) (half : Half) (f : String) (block : Block) : Prop :=
  ∃ material, shelf.exportHalf half f = .ok material ∧ block ∈ blocksOf material

/-- Whether a run over some keys may take a block to a bucket: it is in the material for one half
of a key that chooses the bucket. Secret halves go there only if they are to be moved and the key
has one. -/
def Shelf.Sends {count : BucketCount} (source : Shelf) (includeSecret : Bool) (keys : List Key)
    (i : Fin count.value) (block : Block) : Prop :=
  ∃ key ∈ keys, Bucket.choice? count key.fingerprint = some i
    ∧ (source.Offers .publicHalf key.fingerprint block
      ∨ (includeSecret = true ∧ key.hasSecret = true
        ∧ source.Offers .secretHalf key.fingerprint block))

theorem Shelf.Sends.mono {count : BucketCount} {source : Shelf} {includeSecret : Bool}
    {xs ys : List Key} {i : Fin count.value} {block : Block} (hkeys : ∀ key ∈ xs, key ∈ ys)
    (h : source.Sends includeSecret xs i block) : source.Sends includeSecret ys i block := by
  obtain ⟨key, hkey, hsends⟩ := h
  exact ⟨key, hkeys key hkey, hsends⟩

/-- A plain shelf offers the two halves of a key that it lets go, and nothing else. -/
theorem Shelf.Plain.of_offers {shelf : Shelf} (hplain : shelf.Plain) {half : Half} {f : String}
    {block : Block} (h : shelf.Offers half f block) :
    shelf.lets half f = true ∧ block = .ofHalf half f := by
  obtain ⟨material, hmaterial, hblock⟩ := h
  cases hlets : shelf.lets half f with
  | false =>
    have hunreadable := (Shelf.exportHalf_of_not_lets hplain hlets hmaterial).2
    rw [blocksOf_unreadable hunreadable] at hblock
    cases hblock
  | true =>
    obtain ⟨htext, listed, hlisted, rfl⟩ := Shelf.exportHalf_of_lets hlets
    rw [htext] at hmaterial
    cases hmaterial
    have hwhole : ';' ∉ (Block.ofHalf half listed.fingerprint).fingerprint.toList := by
      have := hplain.whole listed hlisted
      cases half <;> exact this
    rw [blocksOf_text hwhole] at hblock
    exact ⟨rfl, List.mem_singleton.mp hblock⟩

end KeyBuckets.Memory

namespace KeyBuckets.Distribution

open Memory

variable {count : BucketCount} {includeSecret : Bool} {key : Key} {i : Fin count.value}
  {s s' : Parts Shelf Shelf count}

/-! ## What passages, keys and runs add -/

/-- One half of a key adds what is offered for it to the bucket on its way, and nothing to any
other. -/
theorem Passage.grows {half : Half} {arrival : Arrival} {passed : List (Occurrence String count)}
    (h : Passage (World.distribution includeSecret) half key i s arrival passed s') :
    s'.source = s.source ∧ ∀ j : Fin count.value,
      Shelf.Grows (fun block => j = i ∧ s.source.Offers half key.fingerprint block)
        (s.buckets.get j) (s'.buckets.get j) := by
  rcases h.shelves with ⟨e, -, -, rfl⟩ | ⟨material, hmaterial, -, rfl⟩
  · exact ⟨rfl, fun j => .refl _ _⟩
  · refine ⟨rfl, fun j => ?_⟩
    rw [Parts.get_mapBucket]
    by_cases hij : i = j
    · subst hij
      rw [if_pos rfl]
      exact (Shelf.importKeys_grows _ material).mono fun block hblock =>
        ⟨rfl, material, hmaterial, hblock⟩
    · rw [if_neg hij]
      exact .refl _ _

/-- One key: its bucket grows by what the source sends for it, and no other does. -/
theorem Block.grows {outcome : Outcome} {block : List (Occurrence String count)}
    (h : Block (World.distribution includeSecret) key s outcome block s') :
    s'.source = s.source ∧ ∀ j : Fin count.value,
      Shelf.Grows (s.source.Sends includeSecret [key] j) (s.buckets.get j) (s'.buckets.get j) := by
  cases hchoice : Bucket.choice? count key.fingerprint with
  | none =>
    obtain ⟨rfl, -, -⟩ := h.of_choice_none hchoice
    exact ⟨rfl, fun j => .refl _ _⟩
  | some i =>
    obtain ⟨arrival, half, s₁, hpublic, -, hrest⟩ := h.of_choice hchoice
    obtain ⟨hsource₁, hgrows₁⟩ := hpublic.grows
    have hfirst : ∀ j : Fin count.value,
        Shelf.Grows (s.source.Sends includeSecret [key] j) (s.buckets.get j)
          (s₁.buckets.get j) := by
      intro j
      refine (hgrows₁ j).mono ?_
      rintro block ⟨rfl, hoffers⟩
      exact ⟨key, List.mem_singleton_self key, hchoice, .inl hoffers⟩
    rcases hrest with ⟨-, rfl, -⟩ | ⟨hfollows, secret, other, hsecret, -⟩
    · exact ⟨hsource₁, hfirst⟩
    · obtain ⟨hsource₂, hgrows₂⟩ := hsecret.grows
      rw [hsource₁] at hsource₂ hgrows₂
      refine ⟨hsource₂, fun j => (hfirst j).trans ((hgrows₂ j).mono ?_)⟩
      rintro block ⟨rfl, hoffers⟩
      exact ⟨key, List.mem_singleton_self key, hchoice,
        .inr ⟨hfollows.2.1, hfollows.2.2, hoffers⟩⟩

/-- Some keys, one after the other. Induction on the keys, as growth adds up. -/
theorem Blocks.grows {settled : List (Key × Outcome)} {blocks : List (Occurrence String count)}
    (h : Blocks (World.distribution includeSecret) s settled blocks s') :
    s'.source = s.source ∧ ∀ j : Fin count.value,
      Shelf.Grows (s.source.Sends includeSecret (settled.map Prod.fst) j)
        (s.buckets.get j) (s'.buckets.get j) := by
  induction h with
  | nil => exact ⟨rfl, fun j => .refl _ _⟩
  | cons hblock _ ih =>
    obtain ⟨hsource, hgrows⟩ := hblock.grows
    obtain ⟨hsource', hgrows'⟩ := ih
    rw [hsource] at hsource' hgrows'
    refine ⟨hsource', fun j => ((hgrows j).mono fun block hsends => ?_).trans
      ((hgrows' j).mono fun block hsends => ?_)⟩
    · exact hsends.mono fun _ hkey => List.mem_singleton.mp hkey ▸ List.mem_cons_self
    · exact hsends.mono fun _ hkey => List.mem_cons_of_mem _ hkey

end KeyBuckets.Distribution

namespace KeyBuckets.Memory

variable {count : BucketCount}

/-- A run over the keys that the source lists, given what comes of them. -/
theorem World.run_of_blocks (world : World count) {settled : List (Key × Outcome)}
    {blocks : List (Occurrence String count)} {s' : Parts Shelf Shelf count}
    (hlist : world.shelves.source.list = .ok (settled.map Prod.fst))
    (h : Distribution.Blocks (World.distribution world.includeSecret) world.shelves settled blocks
      s') :
    world.run
      = (⟨.ok (Totals.ofOutcomes (settled.map Prod.snd)),
          .request .source .list :: .event (.started settled.length) :: blocks
            ++ [.event (.finished (Totals.ofOutcomes (settled.map Prod.snd)))]⟩,
        { world with shelves := s' }) := by
  have hlisted : (World.distribution world.includeSecret).source.list world.shelves
      = (.ok (settled.map Prod.fst), world.shelves) := Prod.ext hlist rfl
  unfold World.run
  rw [(Distribution.Course.finished hlisted rfl h rfl).runTraced, List.length_map]

theorem World.run_of_unlisted (world : World count) {e : Error}
    (hlist : world.shelves.source.list = .error e) :
    world.run = (⟨.error e, [.request .source .list]⟩, world) := by
  have hlisted : (World.distribution world.includeSecret).source.list world.shelves
      = (.error e, world.shelves) := Prod.ext hlist rfl
  unfold World.run
  rw [(Distribution.Course.unlisted hlisted).runTraced]

/-- A run adds to each bucket what the source sends there, and nothing at all if the source cannot
be listed. -/
theorem World.run_grows (world : World count) :
    world.run.2.shelves.source = world.shelves.source ∧ ∀ i,
      Shelf.Grows (fun block => ∃ keys, world.shelves.source.list = .ok keys
          ∧ world.shelves.source.Sends world.includeSecret keys i block)
        (world.shelves.buckets.get i) (world.run.2.shelves.buckets.get i) := by
  cases hlist : world.shelves.source.list with
  | error e =>
    rw [world.run_of_unlisted hlist]
    exact ⟨rfl, fun i => .refl _ _⟩
  | ok keys =>
    obtain ⟨settled, blocks, s', rfl, hblocks⟩ := Distribution.exists_blocks
      (World.distribution world.includeSecret) keys world.shelves
    rw [world.run_of_blocks hlist hblocks]
    obtain ⟨hsource, hgrows⟩ := hblocks.grows
    exact ⟨hsource, fun i => (hgrows i).mono fun block hsends => ⟨_, rfl, hsends⟩⟩

end KeyBuckets.Memory
