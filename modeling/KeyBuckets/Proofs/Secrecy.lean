import KeyBuckets.Proofs.Accounts
import KeyBuckets.Proofs.Dialogue
import KeyBuckets.Proofs.Growth

/-!
# Secrecy — what secret halves have no say in

Two runs are held side by side. Moving secret halves along changes nothing but the marks of keys
in the buckets and the reports on what was skipped. A run that leaves them behind does not even
look at what the listing says of them, and never asks for one.

* **`secrets_leave_no_trace`** — a run in memory with secret halves, beside one without.
* **`Indistinct`** — two sources that differ in nothing but secret halves.
* **`records_of_indistinct`** — runs over two such sources, when secret halves are left behind.
* **`Plan.keepsSecrets_of_mem_invocations`** — the invocations of such a run.
* **`public_run_blind`** — both of them.
-/

namespace KeyBuckets

/-- The key, whether or not it has its secret half. -/
def Key.unmarked (key : Key) : Key :=
  { key with hasSecret := false }

namespace Memory

/-! ## Shelves but for the marks of keys -/

def Shelf.unmarked (shelf : Shelf) : Shelf :=
  { shelf with keys := shelf.keys.map Key.unmarked }

theorem map_unmarked_addTo (block : Block) (keys : List Key) :
    (block.addTo keys).map Key.unmarked
      = (⟨false, block.fingerprint⟩ : Block).addTo (keys.map Key.unmarked) := by
  induction keys with
  | nil => rfl
  | cons k ks ih =>
    rw [Block.addTo, List.map_cons, Block.addTo]
    have hsame : k.unmarked.fingerprint = k.fingerprint := rfl
    rw [hsame]
    by_cases hk : k.fingerprint = block.fingerprint
    · rw [if_pos hk, if_pos hk]
      rfl
    · rw [if_neg hk, if_neg hk, List.map_cons, ih]

/-- Up to marks, imports do what the public halves of their keys do. -/
theorem Shelf.unmarked_take (blocks : List Block) (shelf : Shelf) :
    (shelf.take blocks).unmarked
      = shelf.unmarked.take ((blocks.map (·.fingerprint)).map fun f => ⟨false, f⟩) := by
  induction blocks generalizing shelf with
  | nil => rfl
  | cons block blocks ih =>
    have hfirst : (shelf.take [block]).unmarked
        = shelf.unmarked.take [⟨false, block.fingerprint⟩] := by
      unfold unmarked take
      exact congrArg (fun keys => { shelf with keys }) (map_unmarked_addTo block shelf.keys)
    rw [← List.singleton_append, take_append, ih, hfirst, ← take_append]
    rfl

theorem Block.count_unmarked (f : String) (keys : List Key) :
    (⟨false, f⟩ : Block).count (keys.map Key.unmarked) {} = (⟨false, f⟩ : Block).count keys {} := by
  unfold Block.count
  rw [List.find?_map]
  have hsame : ((fun key : Key => decide (key.fingerprint = f)) ∘ Key.unmarked)
      = fun key => decide (key.fingerprint = f) := rfl
  rw [hsame]
  cases keys.find? (·.fingerprint = f) <;> rfl

end Memory

namespace Distribution

open Memory

section Marks

variable {count : BucketCount} {key : Key} {i : Fin count.value}
  {s s' t t' : Parts Shelf Shelf count}

/-- Plain shelves that differ in nothing but the marks of keys in the buckets. -/
structure SameButMarks (s t : Parts Shelf Shelf count) : Prop where
  plain : s.source.Plain
  unset : ∀ j, (s.buckets.get j).imports = []
  source : t.source = s.source
  buckets : ∀ j : Fin count.value, (t.buckets.get j).unmarked = (s.buckets.get j).unmarked

theorem SameButMarks.unset_right (h : SameButMarks s t) (j : Fin count.value) :
    (t.buckets.get j).imports = [] :=
  (congrArg Shelf.imports (h.buckets j)).trans (h.unset j)

/-- The same comes of a public half, as no counter of its import knows of marks. -/
theorem SameButMarks.arrival_eq {a b : Bool} {arrival arrival' : Arrival}
    {passed passed' : List (Occurrence String count)} (hst : SameButMarks s t)
    (h : Passage (World.distribution a) .publicHalf key i s arrival passed s')
    (h' : Passage (World.distribution b) .publicHalf key i t arrival' passed' t') :
    arrival' = arrival := by
  have hplain' : t.source.Plain := hst.source ▸ hst.plain
  cases hlets : s.source.lets .publicHalf key.fingerprint with
  | true =>
    have hlets' : t.source.lets .publicHalf key.fingerprint = true := hst.source ▸ hlets
    rw [(h.of_lets hst.plain (hst.unset i) hlets).1,
      (h'.of_lets hplain' (hst.unset_right i) hlets').1]
    congr 1
    show (⟨false, key.fingerprint⟩ : Memory.Block).count (t.buckets.get i).keys {} = _
    rw [← Memory.Block.count_unmarked]
    have hkeys : (t.buckets.get i).keys.map Key.unmarked
        = (s.buckets.get i).keys.map Key.unmarked :=
      congrArg Shelf.keys (hst.buckets i)
    rw [hkeys]
    exact Memory.Block.count_unmarked key.fingerprint _
  | false =>
    have hlets' : t.source.lets .publicHalf key.fingerprint = false := hst.source ▸ hlets
    rw [(h.of_not_lets hst.plain (hst.unset i) hlets).1,
      (h'.of_not_lets hplain' (hst.unset_right i) hlets').1, hst.source]

theorem SameButMarks.outcome_eq {a b : Bool} {outcome outcome' : Outcome}
    {block block' : List (Occurrence String count)} (hst : SameButMarks s t)
    (h : Block (World.distribution a) key s outcome block s')
    (h' : Block (World.distribution b) key t outcome' block' t') : outcome' = outcome := by
  cases hchoice : Bucket.choice? count key.fingerprint with
  | none =>
    obtain ⟨-, houtcome, -⟩ := h.of_choice_none hchoice
    obtain ⟨-, houtcome', -⟩ := h'.of_choice_none hchoice
    rw [houtcome, houtcome']
  | some i =>
    obtain ⟨arrival, half, s₁, hpublic, houtcome, -⟩ := h.of_choice hchoice
    obtain ⟨arrival', half', t₁, hpublic', houtcome', -⟩ := h'.of_choice hchoice
    rw [houtcome, houtcome', hst.arrival_eq hpublic hpublic']

theorem SameButMarks.of_block {a b : Bool} {outcome outcome' : Outcome}
    {block block' : List (Occurrence String count)} (hst : SameButMarks s t)
    (h : Block (World.distribution a) key s outcome block s')
    (h' : Block (World.distribution b) key t outcome' block' t') : SameButMarks s' t' := by
  obtain ⟨hsource, hbuckets, -⟩ := h.delivers hst.plain hst.unset
  obtain ⟨hsource', hbuckets', -⟩ := h'.delivers (hst.source ▸ hst.plain) hst.unset_right
  refine ⟨hsource ▸ hst.plain, fun j => ?_, ?_, fun j => ?_⟩
  · rw [hbuckets]
    exact hst.unset j
  · rw [hsource', hst.source, hsource]
  · -- whatever is delivered of secret halves, the fingerprints are those of the public ones
    rw [hbuckets, hbuckets', Shelf.unmarked_take, Shelf.unmarked_take, hst.buckets j, hst.source,
      map_fingerprint_deliveries, map_fingerprint_deliveries]

/-- The reports of one run are those of the other but for skipped secret halves. -/
def ToldAlike {Material : Type} (trace trace' : List (Occurrence Material count)) : Prop :=
  eventsOf trace' = (eventsOf trace).filter (·.skipped?.isNone)

theorem ToldAlike.append {Material : Type} {xs xs' ys ys' : List (Occurrence Material count)}
    (hxs : ToldAlike xs xs') (hys : ToldAlike ys ys') : ToldAlike (xs ++ ys) (xs' ++ ys') := by
  unfold ToldAlike at *
  rw [eventsOf_append, eventsOf_append, List.filter_append, hxs, hys]

theorem filter_events (account : Account) :
    (account.events count).filter (·.skipped?.isNone)
      = Account.events count { account with skipped := none } := by
  unfold Account.events
  cases Bucket.choice? count account.key.fingerprint <;> cases account.skipped <;> rfl

/-- What happens for a key when secret halves are left behind, beside what happens for it when they
are moved. -/
theorem SameButMarks.exists_block {outcome : Outcome} {block : List (Occurrence String count)}
    (hst : SameButMarks s t) (h : Block (World.distribution true) key s outcome block s') :
    ∃ block' t', Block (World.distribution false) key t outcome block' t'
      ∧ ToldAlike block block' ∧ SameButMarks s' t' := by
  obtain ⟨outcome', block', t', h'⟩ := Distribution.exists_block (World.distribution false) key t
  obtain rfl := hst.outcome_eq h h'
  refine ⟨block', t', h', ?_, hst.of_block h h'⟩
  obtain ⟨skipped, hevents, -⟩ := h.exists_account
  obtain ⟨skipped', hevents', hskipped'⟩ := h'.exists_account
  have hnone : skipped' = none := by
    rcases hskipped' with ⟨-, hnone⟩ | ⟨hfollows, -⟩
    · exact hnone
    · cases hfollows.2.1
  unfold ToldAlike
  rw [hevents, hevents', filter_events, hnone]

theorem SameButMarks.exists_blocks {settled : List (Key × Outcome)}
    {blocks : List (Occurrence String count)} (hst : SameButMarks s t)
    (h : Blocks (World.distribution true) s settled blocks s') :
    ∃ blocks' t', Blocks (World.distribution false) t settled blocks' t'
      ∧ ToldAlike blocks blocks' ∧ SameButMarks s' t' := by
  induction h generalizing t with
  | nil => exact ⟨[], t, .nil, rfl, hst⟩
  | cons hblock _ ih =>
    obtain ⟨block', t₁, hblock', htold, hst₁⟩ := hst.exists_block hblock
    obtain ⟨rest', t', hrest', htold', hst'⟩ := ih hst₁
    exact ⟨block' ++ rest', t', .cons hblock' hrest', htold.append htold', hst'⟩

end Marks

end Distribution

namespace Memory

variable {count : BucketCount}

/-- **Secret halves leave no trace** in the totals, in the reports on public halves and in what the
buckets hold, up to the marks of the keys whose secret halves arrived. -/
theorem secrets_leave_no_trace (shelves : Parts Shelf Shelf count)
    (hplain : shelves.source.Plain) (himports : ∀ i, (shelves.buckets.get i).imports = []) :
    let moving := (World.mk shelves true).run
    let leaving := (World.mk shelves false).run
    (∃ totals, moving.1.result = .ok totals ∧ leaving.1.result = .ok totals)
      ∧ eventsOf leaving.1.trace = (eventsOf moving.1.trace).filter (·.skipped?.isNone)
      ∧ ∀ i, (leaving.2.shelves.buckets.get i).unmarked
          = (moving.2.shelves.buckets.get i).unmarked := by
  have hstart : Distribution.SameButMarks shelves shelves :=
    ⟨hplain, himports, rfl, fun _ => rfl⟩
  obtain ⟨settled, blocks, s', hkeys, hblocks⟩ :=
    Distribution.exists_blocks (World.distribution true) shelves.source.keys shelves
  obtain ⟨blocks', t', hblocks', htold, hst'⟩ := hstart.exists_blocks hblocks
  have hlist : shelves.source.list = .ok (settled.map Prod.fst) := by
    rw [Shelf.list, hplain.listed, hkeys]
  intro moving leaving
  have hmoving : moving = _ := World.run_of_blocks ⟨shelves, true⟩ hlist hblocks
  have hleaving : leaving = _ := World.run_of_blocks ⟨shelves, false⟩ hlist hblocks'
  rw [hmoving, hleaving]
  refine ⟨⟨_, rfl, rfl⟩, ?_, hst'.buckets⟩
  show eventsOf (Distribution.Record.ofBlocks settled blocks' t').trace
    = (eventsOf (Distribution.Record.ofBlocks settled blocks s').trace).filter (·.skipped?.isNone)
  rw [Distribution.eventsOf_record, Distribution.eventsOf_record, List.filter_append,
    List.filter_cons, htold]
  rfl

/-- Three keys over two buckets: one whose secret half arrives, one whose secret half is refused,
and one that its bucket holds already. -/
theorem secrets_leave_no_trace_three_keys :
    let source : Shelf :=
      { keys := [⟨"0A", "a", true⟩, ⟨"1B", "b", true⟩, ⟨"2C", "c", true⟩]
        secretExports := [("1B", .error .permissionDenied)] }
    let shelves : Parts Shelf Shelf ⟨2, by decide⟩ :=
      { source, buckets := #v[{ keys := [⟨"2C", "", false⟩] }, {}] }
    source.Plain ∧ (∀ i, (shelves.buckets.get i).imports = [])
      ∧ (∃ totals, (World.mk shelves true).run.1.result = .ok totals
          ∧ (World.mk shelves false).run.1.result = .ok totals)
      ∧ eventsOf (World.mk shelves false).run.1.trace
        ≠ eventsOf (World.mk shelves true).run.1.trace
      ∧ (World.mk shelves false).run.2.shelves.buckets.get 0
        ≠ (World.mk shelves true).run.2.shelves.buckets.get 0
      ∧ ((World.mk shelves false).run.2.shelves.buckets.get 0).unmarked
        = ((World.mk shelves true).run.2.shelves.buckets.get 0).unmarked := by
  intro source shelves
  have hplain : source.Plain := by
    refine ⟨rfl, by decide, fun f text h => ?_, fun f text h => ?_⟩
    · cases h
    · rw [List.lookup_cons] at h
      split at h <;> cases h
  have himports : ∀ i, (shelves.buckets.get i).imports = [] := by decide
  obtain ⟨htotals, -, hbuckets⟩ := secrets_leave_no_trace shelves hplain himports
  refine ⟨hplain, himports, htotals, by decide +kernel, fun hsame => ?_, hbuckets 0⟩
  exact absurd (congrArg Shelf.keys hsame) (by decide +kernel)

end Memory

/-! ## Sources but for their secret halves -/

/-- The state of a source after some exports of public halves. -/
def Vault.afterExports {σ Material : Type} (vault : Vault (StateM σ) Material)
    (fingerprints : List String) (s : σ) : σ :=
  fingerprints.foldl (fun s fingerprint => (vault.exportPublic fingerprint s).2) s

/-- Two sources list keys that differ in nothing but their marks, and then answer alike whatever
public halves they are asked for. -/
structure Indistinct {Source Other Material : Type} (source : Vault (StateM Source) Material)
    (other : Vault (StateM Other) Material) (u : Source) (v : Other) : Prop where
  lists : (source.list u).1.map (List.map Key.unmarked)
    = (other.list v).1.map (List.map Key.unmarked)
  exports : ∀ fingerprints fingerprint,
    (source.exportPublic fingerprint (source.afterExports fingerprints (source.list u).2)).1
      = (other.exportPublic fingerprint (other.afterExports fingerprints (other.list v).2)).1

theorem Indistinct.list_cases {Source Other Material : Type}
    {source : Vault (StateM Source) Material} {other : Vault (StateM Other) Material} {u : Source}
    {v : Other} (h : Indistinct source other u v) :
    (∃ e, (source.list u).1 = .error e ∧ (other.list v).1 = .error e)
      ∨ ∃ keys keys', (source.list u).1 = .ok keys ∧ (other.list v).1 = .ok keys'
        ∧ keys.map Key.unmarked = keys'.map Key.unmarked := by
  have hlists := h.lists
  cases hlist : (source.list u).1 <;> cases hlist' : (other.list v).1 <;>
    rw [hlist, hlist'] at hlists
  case error.error e e' => exact .inl ⟨e, rfl, congrArg Except.error (Except.error.inj hlists).symm⟩
  case ok.ok keys keys' => exact .inr ⟨keys, keys', rfl, rfl, Except.ok.inj hlists⟩
  all_goals cases hlists

theorem Memory.Shelf.afterExports (shelf : Memory.Shelf) (fingerprints : List String) :
    Memory.Shelf.vault.afterExports fingerprints shelf = shelf := by
  induction fingerprints with
  | nil => rfl
  | cons fingerprint fingerprints ih => exact ih

/-- Shelves cannot be told apart by the marks of their keys, nor by what they answer to exports of
secret halves. -/
theorem Memory.Shelf.indistinct {shelf other : Memory.Shelf}
    (hkeys : shelf.keys.map Key.unmarked = other.keys.map Key.unmarked)
    (herror : shelf.listError = other.listError)
    (hexports : shelf.publicExports = other.publicExports) :
    Indistinct Memory.Shelf.vault Memory.Shelf.vault shelf other where
  lists := by
    show shelf.list.map _ = other.list.map _
    unfold Memory.Shelf.list
    rw [← herror]
    cases shelf.listError with
    | some e => rfl
    | none => exact congrArg Except.ok hkeys
  exports fingerprints fingerprint := by
    rw [Memory.Shelf.afterExports, Memory.Shelf.afterExports]
    show shelf.exportPublic fingerprint = other.exportPublic fingerprint
    have hany : ∀ keys : List Key, keys.any (·.fingerprint = fingerprint)
        = (keys.map Key.unmarked).any (·.fingerprint = fingerprint) :=
      fun keys => by rw [List.any_map]; rfl
    unfold Memory.Shelf.exportPublic
    rw [hexports, hany, hkeys, ← hany]

namespace Distribution

section Blind

variable {Source Other Target Material : Type} {count : BucketCount}
  {source : Vault (StateM Source) Material} {other : Vault (StateM Other) Material}
  {bucket : Fin count.value → Vault (StateM Target) Material} {u : Source} {v : Other}
  {key key' : Key} {i : Fin count.value} {s s' : Parts Source Target count}
  {t : Parts Other Target count}

/-- The buckets are in the same states, and both sources have been asked for the same public halves
since they were listed. -/
structure InStep (source : Vault (StateM Source) Material) (other : Vault (StateM Other) Material)
    (u : Source) (v : Other) (s : Parts Source Target count) (t : Parts Other Target count) :
    Prop where
  buckets : t.buckets = s.buckets
  sources : ∃ fingerprints, s.source = source.afterExports fingerprints (source.list u).2
    ∧ t.source = other.afterExports fingerprints (other.list v).2

theorem InStep.export (hsame : Indistinct source other u v) (hst : InStep source other u v s t)
    {fingerprint : String} {answer : Except Error Material}
    (h : (ofParts source bucket false).source.exportHalf .publicHalf fingerprint s
      = (answer, s')) :
    ∃ t', (ofParts other bucket false).source.exportHalf .publicHalf fingerprint t = (answer, t')
      ∧ InStep source other u v s' t' := by
  obtain ⟨hbuckets, fingerprints, hs, ht⟩ := hst
  rw [export_ofParts] at h ⊢
  obtain ⟨hanswer, rfl⟩ := Prod.mk.inj h
  refine ⟨t.mapSource fun w => (other.exportPublic fingerprint w).2, Prod.ext ?_ rfl,
    hbuckets, fingerprints ++ [fingerprint], ?_, ?_⟩
  · show (other.exportPublic fingerprint t.source).1 = answer
    rw [ht, ← hsame.exports, ← hs]
    exact hanswer
  · unfold Vault.afterExports at hs ⊢
    rw [List.foldl_concat, ← hs]
    rfl
  · unfold Vault.afterExports at ht ⊢
    rw [List.foldl_concat, ← ht]
    rfl

theorem InStep.import (hst : InStep source other u v s t) {material : Material}
    {answer : Except Error ImportCounts}
    (h : ((ofParts source bucket false).bucket i).importKeys material s = (answer, s')) :
    ∃ t', ((ofParts other bucket false).bucket i).importKeys material t = (answer, t')
      ∧ InStep source other u v s' t' := by
  rw [import_ofParts] at h ⊢
  obtain ⟨hanswer, rfl⟩ := Prod.mk.inj h
  have hbucket : t.buckets.get i = s.buckets.get i := by rw [hst.buckets]
  refine ⟨_, Prod.ext ?_ rfl, ?_, hst.sources⟩
  · rw [Parts.atBucket_fst, hbucket]
    exact hanswer
  · show t.buckets.set i _ = s.buckets.set i _
    rw [hst.buckets]

theorem InStep.passage (hsame : Indistinct source other u v) (hst : InStep source other u v s t)
    (hkey : key'.fingerprint = key.fingerprint) {arrival : Arrival}
    {passed : List (Occurrence Material count)}
    (h : Passage (ofParts source bucket false) .publicHalf key i s arrival passed s') :
    ∃ t', Passage (ofParts other bucket false) .publicHalf key' i t arrival passed t'
      ∧ InStep source other u v s' t' := by
  cases h with
  | exportFailed hexport =>
    obtain ⟨t', hexport', hst'⟩ := hst.export hsame hexport
    rw [← hkey] at hexport' ⊢
    exact ⟨t', .exportFailed hexport', hst'⟩
  | importFailed hexport himport =>
    obtain ⟨t₁, hexport', hst₁⟩ := hst.export hsame hexport
    obtain ⟨t', himport', hst'⟩ := hst₁.import himport
    rw [← hkey] at hexport' ⊢
    exact ⟨t', .importFailed hexport' himport', hst'⟩
  | answered hexport himport =>
    obtain ⟨t₁, hexport', hst₁⟩ := hst.export hsame hexport
    obtain ⟨t', himport', hst'⟩ := hst₁.import himport
    rw [← hkey] at hexport' ⊢
    exact ⟨t', .answered hexport' himport', hst'⟩

theorem InStep.block (hsame : Indistinct source other u v) (hst : InStep source other u v s t)
    (hkey : key.unmarked = key'.unmarked) {outcome : Outcome}
    {block : List (Occurrence Material count)}
    (h : Block (ofParts source bucket false) key s outcome block s') :
    ∃ t', Block (ofParts other bucket false) key' t outcome block t'
      ∧ InStep source other u v s' t' := by
  have hfingerprint : key'.fingerprint = key.fingerprint :=
    (congrArg Key.fingerprint hkey).symm
  cases h with
  | unassigned hvalue hreason =>
    rw [← hfingerprint] at hvalue hreason ⊢
    exact ⟨t, .unassigned hvalue hreason, hst⟩
  | publicOnly hvalue hi hpublic houtcome hstays =>
    obtain ⟨t', hpublic', hst'⟩ := hst.passage hsame hfingerprint hpublic
    rw [← hfingerprint] at hvalue ⊢
    have hstays' : ¬ Follows (ofParts other bucket false) key' outcome :=
      fun hfollows => by cases hfollows.2.1
    exact ⟨t', .publicOnly hvalue hi hpublic' houtcome hstays', hst'⟩
  | bothHalves _ _ _ _ hfollows _ => cases hfollows.2.1

theorem InStep.blocks (hsame : Indistinct source other u v) (hst : InStep source other u v s t)
    {settled : List (Key × Outcome)} {blocks : List (Occurrence Material count)} {keys : List Key}
    (hkeys : (settled.map Prod.fst).map Key.unmarked = keys.map Key.unmarked)
    (h : Blocks (ofParts source bucket false) s settled blocks s') :
    ∃ settled' t', settled'.map Prod.fst = keys
      ∧ settled'.map Prod.snd = settled.map Prod.snd
      ∧ Blocks (ofParts other bucket false) t settled' blocks t'
      ∧ InStep source other u v s' t' := by
  induction h generalizing t keys with
  | nil =>
    obtain rfl : keys = [] := List.map_eq_nil_iff.mp hkeys.symm
    exact ⟨[], t, rfl, rfl, .nil, hst⟩
  | @cons s s₁ s' key outcome settled block rest hblock _ ih =>
    -- the other source lists a key of the same fingerprint in this place
    obtain ⟨key', keys', rfl, hkey, hkeys'⟩ := List.map_eq_cons_iff.mp hkeys.symm
    obtain ⟨t₁, hblock', hst₁⟩ := hst.block hsame hkey.symm hblock
    obtain ⟨settled', t', rfl, houtcomes, hrest', hst'⟩ := ih hst₁ hkeys'.symm
    exact ⟨(key', outcome) :: settled', t', rfl,
      by rw [List.map_cons, List.map_cons, houtcomes], .cons hblock' hrest', hst'⟩

/-- When secret halves are left behind, none is asked for. -/
theorem Block.not_mem_exportSecret {σ : Type} {d : Distribution (StateM σ) Material count}
    {w w' : σ} {outcome : Outcome} {block : List (Occurrence Material count)}
    (hpublic : d.includeSecret = false) (h : Block d key w outcome block w')
    (place : Place count) (fingerprint : String) :
    Occurrence.request place (.exportSecret fingerprint) ∉ block := by
  cases h with
  | unassigned => simp
  | publicOnly _ _ hpassage _ _ =>
    have hpassed := hpassage.forall_mem (p := (· ≠ .request place (.exportSecret fingerprint)))
      (by cases place <;> simp [Vault.Request.export]) (by simp)
    intro hmem
    simp only [List.cons_append, List.mem_cons, List.mem_append, List.not_mem_nil, or_false,
      reduceCtorEq, false_or] at hmem
    exact hpassed _ hmem rfl
  | bothHalves _ _ _ _ hfollows _ => cases hpublic.symm.trans hfollows.2.1

theorem Blocks.not_mem_exportSecret {σ : Type} {d : Distribution (StateM σ) Material count}
    {w w' : σ} {settled : List (Key × Outcome)} {blocks : List (Occurrence Material count)}
    (hpublic : d.includeSecret = false) (h : Blocks d w settled blocks w') (place : Place count)
    (fingerprint : String) :
    Occurrence.request place (.exportSecret fingerprint) ∉ blocks := by
  induction h with
  | nil => exact List.not_mem_nil
  | cons hblock _ ih =>
    rw [List.mem_append]
    exact not_or.mpr ⟨hblock.not_mem_exportSecret hpublic place fingerprint, ih⟩

theorem Course.not_mem_exportSecret {σ : Type} {d : Distribution (StateM σ) Material count}
    {w w' : σ} {result : Except Error Totals} {trace : List (Occurrence Material count)}
    (hpublic : d.includeSecret = false) (h : Course d w result trace w') (place : Place count)
    (fingerprint : String) :
    Occurrence.request place (.exportSecret fingerprint) ∉ trace := by
  cases h with
  | unlisted => simp
  | finished _ _ hblocks _ =>
    have hnone := hblocks.not_mem_exportSecret hpublic place fingerprint
    simpa using hnone

/-- Two sources that cannot be told apart are distributed in the same way. -/
theorem record_of_indistinct (hsame : Indistinct source other u v)
    (bucket : Fin count.value → Vault (StateM Target) Material)
    (buckets : Vector Target count.value) :
    ((ofParts other bucket false).record ⟨v, buckets⟩).trace
        = ((ofParts source bucket false).record ⟨u, buckets⟩).trace
      ∧ ((ofParts other bucket false).record ⟨v, buckets⟩).result
        = ((ofParts source bucket false).record ⟨u, buckets⟩).result
      ∧ ((ofParts other bucket false).record ⟨v, buckets⟩).final.buckets
        = ((ofParts source bucket false).record ⟨u, buckets⟩).final.buckets := by
  have hlist : (ofParts source bucket false).source.list ⟨u, buckets⟩
      = ((source.list u).1, ⟨(source.list u).2, buckets⟩) := rfl
  have hlist' : (ofParts other bucket false).source.list ⟨v, buckets⟩
      = ((other.list v).1, ⟨(other.list v).2, buckets⟩) := rfl
  rcases hsame.list_cases with ⟨e, herror, herror'⟩ | ⟨keys, keys', hkeys, hkeys', hlooks⟩
  · rw [herror] at hlist
    rw [herror'] at hlist'
    rw [(Course.unlisted hlist).record_eq, (Course.unlisted hlist').record_eq]
    exact ⟨rfl, rfl, rfl⟩
  · rw [hkeys] at hlist
    rw [hkeys'] at hlist'
    have hstart : InStep source other u v (Parts.mk (source.list u).2 buckets)
        (Parts.mk (other.list v).2 buckets) := ⟨rfl, [], rfl, rfl⟩
    obtain ⟨settled, blocks, s', rfl, hblocks⟩ :=
      exists_blocks (ofParts source bucket false) keys ⟨(source.list u).2, buckets⟩
    obtain ⟨settled', t', rfl, houtcomes, hblocks', hst'⟩ := hstart.blocks hsame hlooks hblocks
    have hlength : settled'.length = settled.length := by
      simpa using congrArg List.length houtcomes
    rw [hblocks.record_eq hlist, hblocks'.record_eq hlist']
    unfold Record.ofBlocks
    rw [houtcomes, hlength]
    exact ⟨rfl, rfl, hst'.buckets⟩

end Blind

end Distribution

namespace Plan

open Machine Keyring

/-- An invocation about a keyring of the plan whose command is not an export of secret halves. -/
def KeepsSecrets (plan : Plan) (call : Invocation) : Prop :=
  ∃ home ∈ plan.inputHome :: plan.homes, ∃ command,
    call.arguments = ["--homedir", home, "--batch", "--no-tty"] ++ command
      ∧ "--export-secret-keys" ∉ command

variable {plan : Plan}

theorem keepsSecrets_listing {command : List String}
    (hcommand : command ∈ [listPublicCommand, listSecretCommand]) :
    plan.KeepsSecrets (plan.source.invocation command []) := by
  refine ⟨plan.inputHome, List.mem_cons_self, command, rfl, ?_⟩
  have hall : ∀ command ∈ [listPublicCommand, listSecretCommand],
      "--export-secret-keys" ∉ command := by decide
  exact hall command hcommand

theorem keepsSecrets_exporting (plan : Plan) {text form : String}
    (hform : Fingerprint.canonical text = .ok form) :
    plan.KeepsSecrets (plan.exporting .publicHalf form) := by
  refine ⟨plan.inputHome, List.mem_cons_self, exportPublicCommand form, rfl, fun hmem => ?_⟩
  -- a canonical fingerprint holds no hyphen
  obtain ⟨-, hdigits, -⟩ := Fingerprint.canonicalChars_eq_ok (Fingerprint.canonical_eq_ok hform)
  have hsame : "--export-secret-keys" = form := by simpa [exportPublicCommand] using hmem
  have hhyphen : '-' ∈ form.toList := by rw [← hsame]; decide
  exact absurd (hdigits _ hhyphen) (by decide)

theorem keepsSecrets_importing (i : Fin plan.count.value) (material : List UInt8) :
    plan.KeepsSecrets (plan.importing i material) := by
  have hhome : plan.home i.val ∈ plan.homes :=
    List.mem_map_of_mem (List.mem_range.mpr i.isLt)
  exact ⟨plan.home i.val, List.mem_cons_of_mem _ hhome, importCommand, rfl, by decide⟩

theorem Dealing.keepsSecrets {key : Key} {turns : List Turn} {moved : Bool}
    (hpublic : plan.includeSecret = false) (h : Dealing plan key turns moved) :
    ∀ turn ∈ turns, plan.KeepsSecrets turn.invocation := by
  cases h with
  | unassigned => exact List.forall_mem_nil _
  | invalid => exact List.forall_mem_nil _
  | publicOnly _ hform hhandling _ _ =>
    have hexport := keepsSecrets_exporting plan hform
    cases hhandling with
    | withheld => exact List.forall_mem_singleton.mpr hexport
    | handed =>
      exact List.forall_mem_cons.mpr ⟨hexport,
        List.forall_mem_singleton.mpr (keepsSecrets_importing _ _)⟩
  | bothHalves _ _ _ _ hfollows _ => cases hpublic.symm.trans hfollows.2.1

theorem Dealings.keepsSecrets {dealt : List (Key × Bool)} {turns : List Turn}
    (hpublic : plan.includeSecret = false) (h : Dealings plan dealt turns) :
    ∀ turn ∈ turns, plan.KeepsSecrets turn.invocation := by
  induction h with
  | nil => exact List.forall_mem_nil _
  | cons hkey _ ih => exact List.forall_mem_append.mpr ⟨hkey.keepsSecrets hpublic, ih⟩

/-- **A run that leaves secret halves behind starts no export of one**, whatever is listed. -/
theorem keepsSecrets_of_mem_invocations (hpublic : plan.includeSecret = false) {machine : Machine}
    {call : Invocation} (hcall : call ∈ plan.invocations machine) : plan.KeepsSecrets call := by
  obtain ⟨listings, dealt, turns, hlistings, -, hdealt, heq⟩ := plan.invocations_eq machine
  rw [heq] at hcall
  rcases List.mem_append.mp hcall with hlisting | hkey
  · obtain ⟨command, hcommand, rfl⟩ := hlistings call hlisting
    exact keepsSecrets_listing hcommand
  · obtain ⟨turn, hturn, hstarted⟩ := List.mem_filterMap.mp hkey
    rw [← turn.eq_of_started hstarted]
    exact hdealt.keepsSecrets hpublic turn hturn

end Plan

namespace Distribution

/-- Nothing of a run tells two sources apart, and no secret half is asked for. -/
theorem records_of_indistinct {Source Other Target Material : Type} {count : BucketCount}
    {source : Vault (StateM Source) Material} {other : Vault (StateM Other) Material}
    {u : Source} {v : Other} (hsame : Indistinct source other u v)
    (bucket : Fin count.value → Vault (StateM Target) Material)
    (buckets : Vector Target count.value) :
    let run := (ofParts source bucket false).record ⟨u, buckets⟩
    let run' := (ofParts other bucket false).record ⟨v, buckets⟩
    run'.trace = run.trace ∧ run'.result = run.result ∧ run'.final.buckets = run.final.buckets
      ∧ ∀ place fingerprint, .request place (.exportSecret fingerprint) ∉ run.trace := by
  obtain ⟨htrace, hresult, hbuckets⟩ := record_of_indistinct hsame bucket buckets
  have hcourse := course_record (ofParts source bucket false) ⟨u, buckets⟩
  exact ⟨htrace, hresult, hbuckets, hcourse.not_mem_exportSecret rfl⟩

/-- **A run that leaves secret halves behind is blind to them.** It is the same run for two sources
that differ in nothing else, and where a program looks after the keyrings, no export of a secret
half is started. -/
theorem public_run_blind :
    (∀ (Source Other Target Material : Type) (count : BucketCount)
        (source : Vault (StateM Source) Material) (other : Vault (StateM Other) Material)
        (u : Source) (v : Other), Indistinct source other u v →
      ∀ (bucket : Fin count.value → Vault (StateM Target) Material)
        (buckets : Vector Target count.value),
      let run := (ofParts source bucket false).record ⟨u, buckets⟩
      let run' := (ofParts other bucket false).record ⟨v, buckets⟩
      run'.trace = run.trace ∧ run'.result = run.result ∧ run'.final.buckets = run.final.buckets
        ∧ ∀ place fingerprint, .request place (.exportSecret fingerprint) ∉ run.trace)
      ∧ ∀ (plan : Plan) (machine : Machine), plan.includeSecret = false →
        ∀ call ∈ plan.invocations machine, plan.KeepsSecrets call :=
  ⟨fun _ _ _ _ _ _ _ _ _ hsame => records_of_indistinct hsame,
    fun _ _ hpublic _ hcall => Plan.keepsSecrets_of_mem_invocations hpublic hcall⟩

/-- Two keys, each of which one of the two sources marks, and an export of a secret half that one of
them would answer; and a key with its secret half in a keyring. -/
theorem public_run_blind_two_keys :
    let source : Memory.Shelf := { keys := [⟨"0A", "a", true⟩, ⟨"1B", "b", false⟩] }
    let other : Memory.Shelf :=
      { keys := [⟨"0A", "a", false⟩, ⟨"1B", "b", true⟩]
        secretExports := [("1B", .ok "SEC:FF")] }
    let count : BucketCount := ⟨2, by decide⟩
    let bucket : Fin count.value → Vault (StateM Memory.Shelf) String := fun _ => Memory.Shelf.vault
    let buckets : Vector Memory.Shelf count.value := #v[{}, {}]
    let run (shelf : Memory.Shelf) :=
      (ofParts Memory.Shelf.vault bucket false).record ⟨shelf, buckets⟩
    let plan : Plan := { inputHome := "/home", stem := "/part", count, includeSecret := false }
    let machine := Machine.small fun arguments =>
      if arguments.contains "--import" then .printing "[GNUPG:] IMPORT_RES 1 0 1 0 0\n"
      else .printing ("sec:\nfpr:::::::::" ++ String.ofList (List.replicate 40 '1') ++ ":\n")
    Indistinct Memory.Shelf.vault Memory.Shelf.vault source other
      ∧ (run other).trace = (run source).trace ∧ (run other).result = (run source).result
      ∧ (run source).result.toOption = some { moved := 2, failed := 0 }
      ∧ (plan.carryOut machine).1.result = .ok { moved := 1, failed := 0 }
      ∧ ∀ call ∈ plan.invocations machine, plan.KeepsSecrets call := by
  intro source other count bucket buckets run plan machine
  have hsame : Indistinct Memory.Shelf.vault Memory.Shelf.vault source other :=
    Memory.Shelf.indistinct rfl rfl rfl
  have hblind := public_run_blind.1 _ _ _ _ count _ _ _ _ hsame bucket buckets
  exact ⟨hsame, hblind.1, hblind.2.1, by decide +kernel, by decide +kernel,
    public_run_blind.2 plan machine rfl⟩

end Distribution

end KeyBuckets
