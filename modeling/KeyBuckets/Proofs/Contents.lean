import KeyBuckets.Proofs.Independence
import KeyBuckets.Proofs.Marks

/-!
# Contents — what the buckets hold after a run in memory

Each key that arrives does to its bucket what the import of one block does: the public half
and a secret half that follows it come to the same as the secret half alone. The imports of a
whole run then amount to one pass over the keys of the bucket, with the newcomers at the end.

* **`Block.addAll`**, **`addAll_eq`** — any number of imports as one pass.
* **`Block.delivers`**, **`Blocks.delivers`** — what one key, and what some keys do to all buckets.
* **`World.contents`**, **`run_eq_contents`** — what a run leaves in each bucket.
-/

namespace KeyBuckets.Memory

open Text Key

/-! ## Imports as one pass over the keys -/

/-- The offered fingerprints that are not held, each once, in the order in which they are
offered first. -/
def newcomers (held offered : List String) : List String :=
  offered.eraseDups.filter (· ∉ held)

def bare (fingerprint : String) : Key :=
  ⟨fingerprint, "", false⟩

theorem fingerprints_bare (offered : List String) : fingerprints (offered.map bare) = offered := by
  unfold fingerprints
  rw [List.map_map]
  exact List.map_id offered

/-- What is left out makes no other member come first. Induction on the length, as the tail is
filtered. -/
theorem eraseDups_filter (p : String → Bool) (xs : List String) :
    (xs.filter p).eraseDups = xs.eraseDups.filter p := by
  -- `eraseDups` goes on with a filtered tail, so the induction is on the length
  induction hn : xs.length using Nat.strong_induction_on generalizing xs with
  | _ n ih =>
    cases xs with
    | nil => rfl
    | cons x xs =>
      have hshorter : (xs.filter fun y => !y == x).length < n := by
        have hle := List.length_filter_le (fun y => !y == x) xs
        rw [List.length_cons] at hn
        omega
      rw [List.eraseDups_cons, List.filter_cons, List.filter_cons, ← ih _ hshorter _ rfl]
      split
      · rw [List.eraseDups_cons, List.filter_comm]
      · next hx =>
        congr 1
        rw [List.filter_filter]
        refine List.filter_congr fun y _ => ?_
        by_cases hy : y = x
        · simp [hy, hx]
        · simp [hy]

theorem newcomers_singleton (held : List String) (f : String) :
    newcomers held [f] = if f ∈ held then [] else [f] := by
  unfold newcomers
  rw [List.eraseDups_cons, List.filter_nil, List.eraseDups_nil, List.filter_cons]
  by_cases hf : f ∈ held <;> simp [hf]

/-- What is offered later is new only if it was not offered before. -/
theorem newcomers_append (held xs ys : List String) :
    newcomers held (xs ++ ys)
      = newcomers held xs ++ newcomers (held ++ newcomers held xs) ys := by
  unfold newcomers
  rw [List.eraseDups_append, List.filter_append, List.removeAll, eraseDups_filter,
    List.filter_filter]
  congr 1
  refine List.filter_congr fun y _ => ?_
  by_cases hy : y ∈ held <;> simp [hy]

/-- One import marks the first key with its fingerprint, if it brings a secret half, after
adding the key if there was none. -/
theorem addTo_eq_markFirsts (block : Block) (keys : List Key) :
    block.addTo keys
      = markFirsts (fun f => block.secret && f = block.fingerprint)
          (keys ++ (newcomers (fingerprints keys) [block.fingerprint]).map bare) := by
  induction keys with
  | nil => simp [Block.addTo, newcomers_singleton, markFirsts, bare, mark, fingerprints]
  | cons k ks ih =>
    rw [Block.addTo, List.cons_append, markFirsts]
    by_cases hk : k.fingerprint = block.fingerprint
    · -- the search ends here: nothing is added, and no later key is marked
      rw [if_pos hk]
      have hnone : newcomers (fingerprints (k :: ks)) [block.fingerprint] = [] := by
        simp [newcomers_singleton, fingerprints, hk]
      rw [hnone, List.map_nil, List.append_nil, markFirsts_eq_self fun f _ => by simp [hk]]
      simp [hk, mark]
    · rw [if_neg hk, ih]
      have hsame : newcomers (fingerprints (k :: ks)) [block.fingerprint]
          = newcomers (fingerprints ks) [block.fingerprint] := by
        simp [newcomers_singleton, fingerprints, Ne.symm hk]
      rw [hsame]
      congr 1
      · simp [hk]
      · refine markFirsts_congr fun f _ => ?_
        by_cases hf : f = block.fingerprint
        · simp [hf, Ne.symm hk]
        · simp [hf]

/-- What imports one after the other do to a list of keys. -/
def Block.addAll (blocks : List Block) (keys : List Key) : List Key :=
  blocks.foldl (fun ks block => block.addTo ks) keys

theorem Block.addAll_cons (block : Block) (blocks : List Block) (keys : List Key) :
    addAll (block :: blocks) keys = addAll blocks (block.addTo keys) := rfl

theorem Block.addAll_append (xs ys : List Block) (keys : List Key) :
    addAll (xs ++ ys) keys = addAll ys (addAll xs keys) :=
  List.foldl_append

/-- Imports one after the other, as one pass. -/
theorem addAll_eq (blocks : List Block) (keys : List Key) :
    Block.addAll blocks keys
      = markFirsts (fun f => ⟨true, f⟩ ∈ blocks)
          (keys ++ (newcomers (fingerprints keys) (blocks.map (·.fingerprint))).map bare) := by
  induction blocks generalizing keys with
  | nil => simp [Block.addAll, newcomers, markFirsts_eq_self]
  | cons block blocks ih =>
    -- the pass for the first block, and the one for the others over its result
    let added := (newcomers (fingerprints keys) [block.fingerprint]).map bare
    let mine : String → Bool := fun f => block.secret && f = block.fingerprint
    have hheld : block.fingerprint ∈ fingerprints (keys ++ added) := by
      rw [fingerprints_append, fingerprints_bare, List.mem_append]
      by_cases hmem : block.fingerprint ∈ fingerprints keys
      · exact .inl hmem
      · exact .inr (by simp [newcomers_singleton, hmem])
    -- the marks of this block do not reach beyond the keys that are there after it
    have hbeyond : ∀ later, markFirsts mine (keys ++ added) ++ later
        = markFirsts mine (keys ++ added ++ later) := by
      intro later
      rw [markFirsts_append mine (keys ++ added) later]
      congr 1
      refine (markFirsts_eq_self fun f _ => ?_).symm
      by_cases hf : f = block.fingerprint
      · simp only [hf, hheld, not_true_eq_false, decide_false, Bool.and_false]
      · simp [mine, hf]
    have hnew : newcomers (fingerprints keys) ((block :: blocks).map (·.fingerprint))
        = newcomers (fingerprints keys) [block.fingerprint]
          ++ newcomers (fingerprints (keys ++ added)) (blocks.map (·.fingerprint)) := by
      rw [fingerprints_append, fingerprints_bare, ← newcomers_append]
      rfl
    rw [Block.addAll_cons, ih, addTo_eq_markFirsts, fingerprints_markFirsts, hbeyond,
      markFirsts_markFirsts, hnew, List.map_append, ← List.append_assoc]
    refine markFirsts_congr fun f _ => ?_
    rcases block with ⟨secret, g⟩
    cases secret <;> simp [mine, eq_comm]

/-! ## What one import does -/

def Shelf.take (blocks : List Block) (shelf : Shelf) : Shelf :=
  { shelf with keys := Block.addAll blocks shelf.keys }

theorem Shelf.take_nil (shelf : Shelf) : shelf.take [] = shelf := rfl

theorem Shelf.take_append (xs ys : List Block) (shelf : Shelf) :
    shelf.take (xs ++ ys) = (shelf.take xs).take ys := by
  unfold take
  rw [Block.addAll_append]

/-- The secret half brings the public one with it. -/
theorem addTo_secret_addTo_public (f : String) (keys : List Key) :
    (⟨true, f⟩ : Block).addTo ((⟨false, f⟩ : Block).addTo keys) = (⟨true, f⟩ : Block).addTo keys := by
  induction keys with
  | nil => simp [Block.addTo]
  | cons k ks ih =>
    by_cases hk : k.fingerprint = f
    · simp [Block.addTo, hk]
    · simp [Block.addTo, hk, ih]

def Block.text : Block → String
  | ⟨false, f⟩ => publicText f
  | ⟨true, f⟩ => secretText f

/-- The text of a block is read back. -/
theorem Block.read?_text (block : Block) : Block.read? block.text.toList = some block := by
  obtain ⟨secret, f⟩ := block
  cases secret <;> simp [Block.text, publicText, secretText, Block.read?, List.span, List.span.loop]

/-- And it is one piece, as its fingerprint holds no semicolon. -/
theorem Block.pieces_text {block : Block} (h : ';' ∉ block.fingerprint.toList) :
    pieces (· == ';') block.text.toList = [block.text.toList] := by
  refine pieces_of_forall_not _ fun c hc => ?_
  have hc' : c ∈ "PUB:SEC:".toList ∨ c ∈ block.fingerprint.toList := by
    obtain ⟨secret, f⟩ := block
    cases secret <;> simp [Block.text, publicText, secretText] at hc ⊢ <;> tauto
  rw [beq_eq_false_iff_ne]
  rintro rfl
  exact hc'.elim (by decide) h

/-- Where no answers are set, an import takes in the pieces of its text. -/
theorem Shelf.importKeys_of_unset {shelf : Shelf} (himports : shelf.imports = []) (text : String) :
    shelf.importKeys text
      = ((takeBlocks (pieces (· == ';') text.toList) {} shelf.keys).1,
          { shelf with keys := (takeBlocks (pieces (· == ';') text.toList) {} shelf.keys).2 }) := by
  obtain ⟨keys, listError, publicExports, secretExports, imports⟩ := shelf
  subst himports
  rfl

/-- The text of a block is taken in as that block. -/
theorem Shelf.importKeys_text {block : Block} {shelf : Shelf} (himports : shelf.imports = [])
    (h : ';' ∉ block.fingerprint.toList) :
    shelf.importKeys block.text = (.ok (block.count shelf.keys {}), shelf.take [block]) := by
  rw [importKeys_of_unset himports, Block.pieces_text h]
  simp [takeBlocks, Block.read?_text, take, Block.addAll]

/-- A text that starts with no block is refused, and changes nothing. -/
theorem Shelf.importKeys_unreadable {text : String} {shelf : Shelf} (himports : shelf.imports = [])
    (h : (pieces (· == ';') text.toList).head?.bind Block.read? = none) :
    shelf.importKeys text = (.error noKeyData, shelf) := by
  rw [importKeys_of_unset himports]
  cases hpieces : pieces (· == ';') text.toList with
  | nil => exact absurd hpieces (pieces_ne_nil _ _)
  | cons piece rest =>
    rw [hpieces] at h
    have hread : Block.read? piece = none := h
    simp [takeBlocks, hread]

/-- A block that is taken in is one key, new or there before. -/
theorem isSuccess_ofCounts_count (block : Block) (keys : List Key) :
    (Outcome.ofCounts (block.count keys {})).isSuccess = true := by
  rw [Outcome.isSuccess_ofCounts]
  unfold Block.count
  cases keys.find? (·.fingerprint = block.fingerprint) with
  | none => exact .inl rfl
  | some key => exact .inr rfl

/-! ## What a shelf hands over -/

def Block.ofHalf : Half → String → Block
  | .publicHalf, f => ⟨false, f⟩
  | .secretHalf, f => ⟨true, f⟩

/-- Whether a shelf hands over a half of the key with a fingerprint, as it is. -/
def Shelf.lets (shelf : Shelf) : Half → String → Bool
  | .publicHalf, f =>
    (shelf.publicExports.lookup f).isNone && shelf.keys.any (·.fingerprint = f)
  | .secretHalf, f =>
    (shelf.secretExports.lookup f).isNone
      && (shelf.keys.find? (·.fingerprint = f)).any (·.hasSecret)

/-- A shelf that lists its keys and hands over each half of a key as it is or not at all: an
answer that is set for a public half is an error or not the text of a key, and one that is set
for a secret half is an error. -/
structure Shelf.Plain (shelf : Shelf) : Prop where
  listed : shelf.listError = none
  whole : ∀ key ∈ shelf.keys, ';' ∉ key.fingerprint.toList
  publicExports : ∀ f text, shelf.publicExports.lookup f = some (.ok text) →
    (pieces (· == ';') text.toList).head?.bind Block.read? = none
  secretExports : ∀ f text, shelf.secretExports.lookup f ≠ some (.ok text)

def Shelf.exportHalf (shelf : Shelf) : Half → String → Except Error String
  | .publicHalf => shelf.exportPublic
  | .secretHalf => shelf.exportSecret

/-- A half that the shelf lets out is the text of its block. -/
theorem Shelf.exportHalf_of_lets {shelf : Shelf} {half : Half} {f : String}
    (h : shelf.lets half f = true) :
    shelf.exportHalf half f = .ok (Block.ofHalf half f).text
      ∧ ∃ key ∈ shelf.keys, key.fingerprint = f := by
  cases half with
  | publicHalf =>
    rw [lets, Bool.and_eq_true, Option.isNone_iff_eq_none] at h
    obtain ⟨hunset, hany⟩ := h
    refine ⟨?_, by simpa using hany⟩
    simp only [exportHalf, exportPublic, hunset, hany, if_true]
    rfl
  | secretHalf =>
    rw [lets, Bool.and_eq_true, Option.isNone_iff_eq_none] at h
    obtain ⟨hunset, hany⟩ := h
    obtain ⟨key, hfind, hsecret⟩ := (Option.any_eq_true _ _).mp hany
    refine ⟨?_, key, List.mem_of_find?_eq_some hfind, by simpa using List.find?_some hfind⟩
    simp only [exportHalf, exportSecret, hunset, hfind, hsecret, if_true]
    rfl

/-- What is not handed over is refused, or is not the text of a key. -/
theorem Shelf.exportHalf_of_not_lets {shelf : Shelf} (hplain : shelf.Plain) {half : Half}
    {f : String} (h : shelf.lets half f = false) {text : String}
    (htext : shelf.exportHalf half f = .ok text) :
    half = .publicHalf ∧ (pieces (· == ';') text.toList).head?.bind Block.read? = none := by
  cases half with
  | publicHalf =>
    refine ⟨rfl, ?_⟩
    cases hanswer : shelf.publicExports.lookup f with
    | some answer =>
      simp only [exportHalf, exportPublic, hanswer] at htext
      exact hplain.publicExports f text (htext ▸ hanswer)
    | none =>
      simp only [lets, hanswer, Option.isNone_none, Bool.true_and] at h
      simp [exportHalf, exportPublic, hanswer, h] at htext
  | secretHalf =>
    cases hanswer : shelf.secretExports.lookup f with
    | some answer =>
      simp only [exportHalf, exportSecret, hanswer] at htext
      exact absurd (htext ▸ hanswer) (hplain.secretExports f text)
    | none =>
      simp only [lets, hanswer, Option.isNone_none, Bool.true_and] at h
      cases hfind : shelf.keys.find? (·.fingerprint = f) with
      | none => simp [exportHalf, exportSecret, hanswer, hfind] at htext
      | some key =>
        rw [hfind, Option.any_some] at h
        simp [exportHalf, exportSecret, hanswer, hfind, h] at htext

def Shelf.letsFollow (shelf : Shelf) (includeSecret : Bool) (key : Key) : Bool :=
  includeSecret && key.hasSecret && shelf.lets .secretHalf key.fingerprint

/-- What a source hands over for a key, as one block. -/
def Shelf.delivery? (shelf : Shelf) (includeSecret : Bool) (key : Key) : Option Block :=
  if shelf.lets .publicHalf key.fingerprint then
    some ⟨shelf.letsFollow includeSecret key, key.fingerprint⟩
  else none

def Shelf.deliveries {count : BucketCount} (shelf : Shelf) (includeSecret : Bool)
    (i : Fin count.value) (keys : List Key) : List Block :=
  (keys.filter (·.chooses i)).filterMap (shelf.delivery? includeSecret)

end KeyBuckets.Memory

namespace KeyBuckets

def Arrival.ofAnswer : Except Error ImportCounts → Arrival
  | .error e => .importFailed e
  | .ok counts => .answered counts

/-- What comes of a half of a key that a plain shelf does not hand over: the error of the export,
or that of an import without any key in it. -/
def Memory.Shelf.refusal (source : Memory.Shelf) (half : Half) (f : String) : Arrival :=
  match source.exportHalf half f with
  | .error e => .exportFailed e
  | .ok _ => .importFailed Memory.noKeyData

theorem Memory.Shelf.isSuccess_refusal (source : Memory.Shelf) (half : Half) (f : String) :
    (source.refusal half f).outcome.isSuccess = false := by
  unfold Memory.Shelf.refusal
  cases source.exportHalf half f <;> rfl

namespace Distribution

open Memory

variable {count : BucketCount} {includeSecret : Bool} {key : Key} {i : Fin count.value}
  {s s' : Parts Shelf Shelf count}

/-! ## What one half of a key does -/

/-- An export leaves the shelves as they are. -/
theorem exportHalf_shelves (half : Half) (f : String) (s : Parts Shelf Shelf count) :
    (World.distribution includeSecret).source.exportHalf half f s = (s.source.exportHalf half f, s) := by
  cases half <;> rfl

/-- An import changes its shelf and no other. -/
theorem importKeys_shelves (text : String) (s : Parts Shelf Shelf count) :
    ((World.distribution includeSecret).bucket i).importKeys text s
      = (((s.buckets.get i).importKeys text).1,
          s.mapBucket i fun shelf => (shelf.importKeys text).2) :=
  rfl

/-- A half of a key on its way between shelves: an export changes nothing, and an import changes
the bucket. -/
theorem Passage.shelves {half : Half} {arrival : Arrival}
    {passed : List (Occurrence String count)}
    (h : Passage (World.distribution includeSecret) half key i s arrival passed s') :
    (∃ e, s.source.exportHalf half key.fingerprint = .error e
        ∧ arrival = .exportFailed e ∧ s' = s)
      ∨ ∃ text, s.source.exportHalf half key.fingerprint = .ok text
        ∧ arrival = .ofAnswer ((s.buckets.get i).importKeys text).1
        ∧ s' = s.mapBucket i fun shelf => (shelf.importKeys text).2 := by
  cases h with
  | exportFailed hexport =>
    rw [exportHalf_shelves] at hexport
    obtain ⟨hanswer, rfl⟩ := Prod.mk.inj hexport
    exact .inl ⟨_, hanswer, rfl, rfl⟩
  | importFailed hexport himport =>
    rw [exportHalf_shelves] at hexport
    rw [importKeys_shelves] at himport
    obtain ⟨hanswer, rfl⟩ := Prod.mk.inj hexport
    obtain ⟨htaken, rfl⟩ := Prod.mk.inj himport
    exact .inr ⟨_, hanswer, by rw [htaken]; rfl, rfl⟩
  | answered hexport himport =>
    rw [exportHalf_shelves] at hexport
    rw [importKeys_shelves] at himport
    obtain ⟨hanswer, rfl⟩ := Prod.mk.inj hexport
    obtain ⟨htaken, rfl⟩ := Prod.mk.inj himport
    exact .inr ⟨_, hanswer, by rw [htaken]; rfl, rfl⟩

/-- A half that is let out arrives. -/
theorem Passage.of_lets {half : Half} {arrival : Arrival} {passed : List (Occurrence String count)}
    (hplain : s.source.Plain) (himports : (s.buckets.get i).imports = [])
    (hlets : s.source.lets half key.fingerprint = true)
    (h : Passage (World.distribution includeSecret) half key i s arrival passed s') :
    arrival = .answered
        ((Memory.Block.ofHalf half key.fingerprint).count (s.buckets.get i).keys {})
      ∧ s' = s.mapBucket i (Shelf.take [.ofHalf half key.fingerprint]) := by
  -- only a listed fingerprint is handed over, and a listed one holds no semicolon
  obtain ⟨hexport, listed, hlisted, hfingerprint⟩ := Shelf.exportHalf_of_lets hlets
  have hwhole : ';' ∉ (Memory.Block.ofHalf half key.fingerprint).fingerprint.toList := by
    have := hplain.whole listed hlisted
    rw [hfingerprint] at this
    cases half <;> exact this
  have himport := Shelf.importKeys_text himports hwhole
  rcases h.shelves with ⟨e, herror, -, -⟩ | ⟨text, htext, harrival, hs'⟩
  · rw [hexport] at herror
    cases herror
  · rw [hexport] at htext
    cases htext
    rw [himport] at harrival
    refine ⟨harrival, hs'.trans (Parts.mapBucket_congr ?_)⟩
    rw [himport]

/-- A half of a key that is not handed over changes nothing, and only the source decides how that
is told. -/
theorem Passage.of_not_lets {half : Half} {arrival : Arrival}
    {passed : List (Occurrence String count)} (hplain : s.source.Plain)
    (himports : (s.buckets.get i).imports = [])
    (hlets : s.source.lets half key.fingerprint = false)
    (h : Passage (World.distribution includeSecret) half key i s arrival passed s') :
    arrival = s.source.refusal half key.fingerprint ∧ s' = s := by
  unfold Shelf.refusal
  rcases h.shelves with ⟨e, herror, harrival, hs'⟩ | ⟨text, htext, harrival, hs'⟩
  · rw [herror]
    exact ⟨harrival, hs'⟩
  · have hunreadable := (Shelf.exportHalf_of_not_lets hplain hlets htext).2
    have himport := Shelf.importKeys_unreadable himports hunreadable
    rw [himport] at harrival
    rw [htext]
    refine ⟨harrival, hs'.trans (Parts.mapBucket_eq_self ?_)⟩
    rw [himport]

/-- What a passage does to its bucket, whether or not the half is let out. -/
theorem Passage.takes {half : Half} {arrival : Arrival} {passed : List (Occurrence String count)}
    (hplain : s.source.Plain) (himports : (s.buckets.get i).imports = [])
    (h : Passage (World.distribution includeSecret) half key i s arrival passed s') :
    s' = s.mapBucket i (Shelf.take
        (if s.source.lets half key.fingerprint then [.ofHalf half key.fingerprint] else []))
      ∧ arrival.outcome.isSuccess = s.source.lets half key.fingerprint := by
  cases hlets : s.source.lets half key.fingerprint with
  | true =>
    obtain ⟨rfl, hs'⟩ := h.of_lets hplain himports hlets
    exact ⟨hs', isSuccess_ofCounts_count _ _⟩
  | false =>
    obtain ⟨rfl, rfl⟩ := h.of_not_lets hplain himports hlets
    exact ⟨(Parts.mapBucket_eq_self (Shelf.take_nil _)).symm, s'.source.isSuccess_refusal _ _⟩

/-! ## What one key does -/

/-- Whether a key of a plain source gets to a bucket. -/
def arrives (count : BucketCount) (source : Shelf) (key : Key) : Bool :=
  (Bucket.choice? count key.fingerprint).isSome && source.lets .publicHalf key.fingerprint

theorem get_mapBucket_take (j : Fin count.value) (blocks : List Memory.Block) :
    (s.mapBucket i (Shelf.take blocks)).buckets.get j
      = (s.buckets.get j).take (if i = j then blocks else []) := by
  rw [Parts.get_mapBucket]
  by_cases hij : i = j
  · rw [if_pos hij, if_pos hij, hij]
  · rw [if_neg hij, if_neg hij, Shelf.take_nil]

/-- The public half of a key and the secret one that may follow it do what one block does. -/
theorem Block.takes {outcome : Outcome} {block : List (Occurrence String count)}
    (hplain : s.source.Plain) (himports : (s.buckets.get i).imports = [])
    (hchoice : Bucket.choice? count key.fingerprint = some i)
    (h : Block (World.distribution includeSecret) key s outcome block s') :
    s' = s.mapBucket i (Shelf.take (s.source.delivery? includeSecret key).toList)
      ∧ outcome.isSuccess = s.source.lets .publicHalf key.fingerprint := by
  obtain ⟨arrival, half, s₁, hpublic, houtcome, hrest⟩ := h.of_choice hchoice
  obtain ⟨hs₁, hsuccess⟩ := hpublic.takes hplain himports
  rw [← houtcome] at hsuccess
  refine ⟨?_, hsuccess⟩
  unfold Shelf.delivery?
  rcases hrest with ⟨hstays, rfl, -⟩ | ⟨hfollows, secret, other, hsecret, -⟩
  · -- the secret half stays behind, so the delivery is the public half alone
    refine hs₁.trans ?_
    cases hlets : s.source.lets .publicHalf key.fingerprint with
    | false => rfl
    | true =>
      have hfollow : s.source.letsFollow includeSecret key = false := by
        unfold Shelf.letsFollow
        by_contra hfollow
        simp only [Bool.not_eq_false, Bool.and_eq_true] at hfollow
        exact hstays ⟨hsuccess.trans hlets, hfollow.1.1, hfollow.1.2⟩
      rw [hfollow]
      rfl
  · have hlets := hsuccess.symm.trans hfollows.1
    have hinclude : includeSecret = true := hfollows.2.1
    rw [hlets, if_pos rfl] at hs₁
    have hsource : s₁.source = s.source := by rw [hs₁, Parts.mapBucket_source]
    -- the secret half meets a bucket that still takes in what it is given
    have himports₁ : (s₁.buckets.get i).imports = [] := by
      rw [hs₁, get_mapBucket_take]
      exact himports
    obtain ⟨hs', -⟩ := hsecret.takes (hsource ▸ hplain) himports₁
    rw [hs', hsource, hs₁, Parts.mapBucket_mapBucket]
    refine Parts.mapBucket_congr ?_
    rw [← Shelf.take_append, hlets, if_pos rfl, Shelf.letsFollow, hinclude, hfollows.2.2]
    cases s.source.lets .secretHalf key.fingerprint with
    | false => rfl
    | true =>
      -- both halves arrive, and the first import leaves no trace under the second
      show Shelf.take [⟨false, key.fingerprint⟩, ⟨true, key.fingerprint⟩] _ = _
      unfold Shelf.take
      rw [Block.addAll_cons, Block.addAll_cons, addTo_secret_addTo_public]
      rfl

/-- One key: it does to its bucket what its block does, and nothing to the others. -/
theorem Block.delivers {outcome : Outcome} {block : List (Occurrence String count)}
    (hplain : s.source.Plain) (himports : ∀ j, (s.buckets.get j).imports = [])
    (h : Block (World.distribution includeSecret) key s outcome block s') :
    s'.source = s.source
      ∧ (∀ j : Fin count.value,
          s'.buckets.get j = (s.buckets.get j).take (s.source.deliveries includeSecret j [key]))
      ∧ outcome.isSuccess = arrives count s.source key := by
  cases hchoice : Bucket.choice? count key.fingerprint with
  | none =>
    obtain ⟨rfl, rfl, -⟩ := h.of_choice_none hchoice
    refine ⟨rfl, fun j => ?_, by simp [arrives, hchoice, Outcome.isSuccess]⟩
    simp [Shelf.deliveries, Key.chooses, hchoice, Shelf.take_nil]
  | some i =>
    obtain ⟨hs', hsuccess⟩ := h.takes hplain (himports i) hchoice
    refine ⟨by rw [hs', Parts.mapBucket_source], fun j => ?_, by simp [arrives, hchoice, hsuccess]⟩
    rw [hs', get_mapBucket_take]
    by_cases hij : i = j
    · subst hij
      cases hdelivery : s.source.delivery? includeSecret key <;>
        simp [Shelf.deliveries, Key.chooses, hchoice, hdelivery]
    · simp [Shelf.deliveries, Key.chooses, hchoice, hij]

/-! ## What some keys do -/

/-- What is delivered for some keys is delivered key by key. -/
theorem deliveries_cons (source : Shelf) (j : Fin count.value) (keys : List Key) :
    source.deliveries includeSecret j (key :: keys)
      = source.deliveries includeSecret j [key] ++ source.deliveries includeSecret j keys := by
  unfold Shelf.deliveries
  rw [← List.filterMap_append, ← List.filter_append]
  rfl

/-- Some keys, one after the other. Induction on the keys, with the deliveries of those before. -/
theorem Blocks.delivers {settled : List (Key × Outcome)} {blocks : List (Occurrence String count)}
    (hplain : s.source.Plain) (himports : ∀ j, (s.buckets.get j).imports = [])
    (h : Blocks (World.distribution includeSecret) s settled blocks s') :
    s'.source = s.source
      ∧ (∀ j : Fin count.value, s'.buckets.get j
          = (s.buckets.get j).take (s.source.deliveries includeSecret j (settled.map Prod.fst)))
      ∧ ∀ pair ∈ settled, pair.2.isSuccess = arrives count s.source pair.1 := by
  induction h with
  | nil => exact ⟨rfl, fun j => rfl, by simp⟩
  | @cons s s₁ s' key outcome settled block rest hblock hrest ih =>
    obtain ⟨hsource, hbuckets, hsuccess⟩ := hblock.delivers hplain himports
    have himports₁ : ∀ j : Fin count.value, (s₁.buckets.get j).imports = [] := by
      intro j
      rw [hbuckets]
      exact himports j
    obtain ⟨hsource', hbuckets', hsuccess'⟩ := ih (hsource ▸ hplain) himports₁
    rw [hsource] at hsource' hbuckets' hsuccess'
    refine ⟨hsource', fun j => ?_, List.forall_mem_cons.mpr ⟨hsuccess, hsuccess'⟩⟩
    rw [hbuckets', hbuckets, ← Shelf.take_append, List.map_cons,
      deliveries_cons _ j (settled.map Prod.fst)]

/-! ## What a run leaves behind -/

/-- Which fingerprints are delivered to a bucket, in the order of the listing. -/
theorem map_fingerprint_deliveries (source : Shelf) (keys : List Key) :
    (source.deliveries includeSecret i keys).map (·.fingerprint)
      = (Key.fingerprints keys).filter fun f =>
          Bucket.choice? count f = some i && source.lets .publicHalf f := by
  induction keys with
  | nil => rfl
  | cons key keys ih =>
    rw [deliveries_cons, List.map_append, ih, Key.fingerprints_cons, List.filter_cons]
    by_cases hchoice : Bucket.choice? count key.fingerprint = some i
    · cases hlets : source.lets .publicHalf key.fingerprint <;>
        simp [Shelf.deliveries, Shelf.delivery?, Key.chooses, hchoice, hlets]
    · simp [Shelf.deliveries, Key.chooses, hchoice]

/-- A secret half is handed over if the first key with the fingerprint has one. Which key of
that fingerprint asks for it makes no difference, as the first one does. -/
theorem secret_mem_deliveries (source : Shelf) (f : String) :
    (⟨true, f⟩ : Memory.Block) ∈ source.deliveries includeSecret i source.keys
      ↔ includeSecret = true ∧ Bucket.choice? count f = some i
        ∧ source.lets .publicHalf f = true ∧ source.lets .secretHalf f = true := by
  unfold Shelf.deliveries Shelf.delivery? Shelf.letsFollow
  simp only [List.mem_filterMap, List.mem_filter, Key.chooses_iff, Option.ite_none_right_eq_some,
    Option.some.injEq, Memory.Block.mk.injEq, Bool.and_eq_true]
  constructor
  · rintro ⟨key, ⟨-, hchoice⟩, hpublic, ⟨⟨hinclude, -⟩, hsecret⟩, rfl⟩
    exact ⟨hinclude, hchoice, hpublic, hsecret⟩
  · rintro ⟨hinclude, hchoice, hpublic, hsecret⟩
    -- the first key with the fingerprint asks for its own secret half
    have hany := (Bool.and_eq_true _ _).mp hsecret |>.2
    obtain ⟨key, hfind, hkey⟩ := (Option.any_eq_true _ _).mp hany
    have hfingerprint : key.fingerprint = f := by simpa using List.find?_some hfind
    subst hfingerprint
    exact ⟨key, ⟨List.mem_of_find?_eq_some hfind, hchoice⟩, hpublic, ⟨⟨hinclude, hkey⟩, hsecret⟩, rfl⟩

end Distribution

namespace Memory

open Key

variable {count : BucketCount}

/-- Whether the key with a fingerprint gets to a bucket: it is listed, chooses the bucket, and
no answer is set for its public half. -/
def World.reaches (world : World count) (i : Fin count.value) (f : String) : Bool :=
  Bucket.choice? count f = some i && world.shelves.source.lets .publicHalf f

/-- The fingerprints that get to a bucket and are not held there, in the order in which the source
has them first. -/
def World.added (world : World count) (i : Fin count.value) : List String :=
  (fingerprints world.shelves.source.keys).eraseDups.filter fun f =>
    world.reaches i f && f ∉ fingerprints (world.shelves.buckets.get i).keys

/-- Whether the secret half of the key with a fingerprint gets to a bucket: secret halves are
moved, the public half gets there, and the source hands over the secret half. -/
def World.reachesSecret (world : World count) (i : Fin count.value) (f : String) : Bool :=
  world.includeSecret && world.reaches i f && world.shelves.source.lets .secretHalf f

/-- What a run leaves in a bucket: the keys that it held and then the added ones, where the first
key with a fingerprint has its secret half if that got there. -/
def World.contents (world : World count) (i : Fin count.value) : List Key :=
  markFirsts (world.reachesSecret i)
    ((world.shelves.buckets.get i).keys ++ (world.added i).map bare)

/-- The fingerprints in a bucket are those that it had, and then those that are added. -/
theorem World.fingerprints_contents (world : World count) (i : Fin count.value) :
    fingerprints (world.contents i)
      = fingerprints (world.shelves.buckets.get i).keys ++ world.added i := by
  unfold World.contents
  rw [fingerprints_markFirsts, fingerprints_append, fingerprints_bare]

/-- Keys keep their user ids, and those that are added have none. -/
theorem World.userIds_contents (world : World count) (i : Fin count.value) :
    (world.contents i).map (·.userId)
      = (world.shelves.buckets.get i).keys.map (·.userId) ++ (world.added i).map fun _ => "" := by
  unfold World.contents
  rw [userIds_markFirsts, List.map_append, List.map_map]
  rfl

/-- The first key with a fingerprint keeps its secret half, and has one if that got there. -/
theorem World.find?_contents (world : World count) (i : Fin count.value) (f : String) :
    (world.contents i).find? (·.fingerprint = f)
      = (((world.shelves.buckets.get i).keys ++ (world.added i).map bare).find?
          (·.fingerprint = f)).map (mark (world.reachesSecret i f)) :=
  find?_markFirsts _ _ f

/-- What is delivered, taken in, makes the contents. -/
theorem World.take_deliveries (world : World count) (i : Fin count.value) :
    ((world.shelves.buckets.get i).take
        (world.shelves.source.deliveries world.includeSecret i world.shelves.source.keys)).keys
      = world.contents i := by
  have hadded : newcomers (fingerprints (world.shelves.buckets.get i).keys)
      ((world.shelves.source.deliveries world.includeSecret i world.shelves.source.keys).map
        (·.fingerprint)) = world.added i := by
    rw [Distribution.map_fingerprint_deliveries, newcomers, eraseDups_filter, List.filter_filter]
    simp only [World.added, World.reaches, Bool.and_comm]
  unfold Shelf.take World.contents
  rw [addAll_eq, hadded]
  refine markFirsts_congr fun f _ => ?_
  rw [Bool.eq_iff_iff, decide_eq_true_iff, Distribution.secret_mem_deliveries]
  simp [World.reachesSecret, World.reaches, and_assoc]

/-- **What a run leaves behind.** A plain source is distributed, and each bucket ends up with
the contents that `World.contents` tells in one go. -/
theorem run_eq_contents (world : World count) (hplain : world.shelves.source.Plain)
    (himports : ∀ i, (world.shelves.buckets.get i).imports = []) :
    world.run.1.result
        = .ok { moved := world.shelves.source.keys.countP
                  (Distribution.arrives count world.shelves.source)
                failed := world.shelves.source.keys.countP
                  (! Distribution.arrives count world.shelves.source ·) }
      ∧ ∀ i, (world.run.2.shelves.buckets.get i).keys = world.contents i := by
  have hlist : (World.distribution world.includeSecret).source.list world.shelves
      = (.ok world.shelves.source.keys, world.shelves) := by
    show (world.shelves.source.list, world.shelves) = _
    rw [Shelf.list, hplain.listed]
  obtain ⟨settled, blocks, s', hkeys, hblocks, hrecord⟩ :=
    Distribution.exists_blocks_record hlist
  obtain ⟨-, hbuckets, hsuccess⟩ := hblocks.delivers hplain himports
  constructor
  · show ((World.distribution world.includeSecret).record world.shelves).result = _
    rw [hrecord, ← hkeys, List.countP_map, List.countP_map]
    show Except.ok (Totals.ofOutcomes _) = _
    rw [Totals.ofOutcomes_eq, List.countP_map, List.countP_map]
    congr 2
    · exact List.countP_congr fun pair hpair => by simp [hsuccess pair hpair]
    · exact List.countP_congr fun pair hpair => by simp [hsuccess pair hpair]
  · intro i
    show (((World.distribution world.includeSecret).record world.shelves).final.buckets.get i).keys
      = _
    rw [hrecord, ← world.take_deliveries, ← hkeys]
    exact congrArg Shelf.keys (hbuckets i)

/-- Five keys over two buckets: one that its bucket holds already, listed twice; one without a
secret half; one whose public half is refused; one that chooses no bucket. -/
theorem run_eq_contents_five_keys :
    let source : Shelf :=
      { keys := [⟨"0A", "a", true⟩, ⟨"1B", "b", false⟩, ⟨"0A", "a", false⟩, ⟨"3D", "d", true⟩,
          ⟨"X", "x", false⟩]
        publicExports := [("3D", .error .permissionDenied)] }
    let world : World ⟨2, by decide⟩ := .ofShelves _ source [{ keys := [⟨"0A", "", false⟩] }, {}]
    source.Plain ∧ (∀ i, (world.shelves.buckets.get i).imports = [])
      ∧ (world.run.2.shelves.buckets.get 0).keys = [⟨"0A", "", true⟩]
      ∧ (world.run.2.shelves.buckets.get 1).keys = [⟨"1B", "", false⟩]
      ∧ world.run.1.result = .ok { moved := 3, failed := 2 } := by
  intro source world
  have hplain : source.Plain := by
    refine ⟨rfl, by decide, fun f text h => ?_, fun f text h => ?_⟩
    · rw [List.lookup_cons] at h
      split at h <;> cases h
    · cases h
  have himports : ∀ i, (world.shelves.buckets.get i).imports = [] := by decide
  obtain ⟨hresult, hcontents⟩ := run_eq_contents world hplain himports
  refine ⟨hplain, himports, (hcontents 0).trans ?_, (hcontents 1).trans ?_, hresult.trans ?_⟩
  · decide
  · decide
  · exact congrArg Except.ok (by decide)

end Memory

end KeyBuckets
