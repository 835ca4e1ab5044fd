import KeyBuckets.Trace

/-!
# The course of a run — which occurrences follow which

A run is told by a grammar: the request for the listing, the report that starts the run, one
block of occurrences a key in the order of the listing, and the report that ends it. The
vaults are arbitrary: each request may change a state that all of them share, and its answer
may depend on that state.

* **`Passage`** — one half of a key on its way to a bucket: at most one export and one import.
* **`Block`** — the occurrences that belong to one key; **`Blocks`** — those of a listing.
* **`Course`** — the whole run.
* **`Weighs`**, **`AllWeighed`** — the counters that are added for a key, and for some keys.
* **`Recorder`**, **`Recorder.Renders`** — actions that leave a record, and a distribution that
  goes as another one does and leaves a record of it; **`Course.adds`** — the record is a course.
* **`exists_course`**, **`Course.runTraced`** — every run has a course, and takes it.
* **`Blocks.filter`** — a run over some of the keys, beside a run over all of them.

The value of a digit is told here by its place in a table, apart from the program.
-/

namespace KeyBuckets

/-! ## The digit in front -/

/-- The value of a hexadecimal digit is its place among the digits of its case. -/
def Text.digitPlace? (c : Char) : Option Nat :=
  "0123456789ABCDEF".toList.idxOf? c <|> "0123456789abcdef".toList.idxOf? c

/-- A digit has the place that it is read as, and no other character has one. -/
theorem Text.digitPlace?_eq (c : Char) : digitPlace? c = hexValue? c := by
  by_cases hascii : c.toNat < 128
  · have htable : ∀ n < 128, digitPlace? (Char.ofNat n) = hexValue? (Char.ofNat n) := by
      decide +kernel
    have hc := htable c.toNat hascii
    rwa [Char.ofNat_toNat] at hc
  · -- all digits are ASCII characters
    have hnone : hexValue? c = none := by
      cases hvalue : hexValue? c with
      | none => rfl
      | some value => exact absurd (toNat_lt_of_hexValue? hvalue) hascii
    have hplace : ∀ ds : List Char, ds.all (·.toNat < 128) = true → ds.idxOf? c = none := by
      intro ds hds
      refine List.idxOf?_eq_none_iff.mpr fun hc => hascii ?_
      exact of_decide_eq_true (List.all_eq_true.mp hds c hc)
    unfold digitPlace?
    rw [hnone, hplace _ rfl, hplace _ rfl]
    rfl

/-- The value of the digit that a text starts with, if it starts with one. -/
def Fingerprint.firstDigit? (text : String) : Option Nat :=
  text.toList.head?.bind Text.digitPlace?

theorem Fingerprint.leadingValue?_eq_firstDigit? (text : String) :
    leadingValue? text = firstDigit? text := by
  unfold leadingValue? firstDigit?
  rw [funext Text.digitPlace?_eq]

namespace Bucket

variable {count : BucketCount} {fingerprint : String} {i : Fin count.value}

theorem choice?_eq_some_iff_firstDigit :
    choice? count fingerprint = some i
      ↔ ∃ value, Fingerprint.firstDigit? fingerprint = some value
          ∧ i.val = value % count.value := by
  rw [choice?_eq_some_iff, Fingerprint.leadingValue?_eq_firstDigit?]

theorem choice?_eq_none_iff_firstDigit :
    choice? count fingerprint = none ↔ Fingerprint.firstDigit? fingerprint = none := by
  rw [choice?_eq_none_iff, Fingerprint.leadingValue?_eq_firstDigit?]

end Bucket

/-- The two halves of a key. -/
inductive Half where
  | publicHalf
  | secretHalf
  deriving DecidableEq

namespace Vault

def exportHalf {m : Type → Type} {Material : Type} (vault : Vault m Material) :
    Half → String → m (Except Error Material)
  | .publicHalf => vault.exportPublic
  | .secretHalf => vault.exportSecret

def Request.export {Material : Type} (fingerprint : String) : Half → Request Material
  | .publicHalf => .exportPublic fingerprint
  | .secretHalf => .exportSecret fingerprint

end Vault

/-- What came of one half of a key. -/
inductive Arrival where
  | exportFailed (error : Error)
  | importFailed (error : Error)
  /-- The bucket took the material and said what it did with it. -/
  | answered (counts : ImportCounts)

namespace Arrival

def outcome : Arrival → Outcome
  | exportFailed e => .exportFailed e.message
  | importFailed e => .importFailed e.message
  | answered counts => .ofCounts counts

/-- Why a secret half is not in the bucket, if it is not. -/
def skipReason? : Arrival → Option String
  | exportFailed e | importFailed e => some e.message
  | answered counts =>
    if counts.secretAccepted then none
    else some ("secret key not imported: " ++ counts.describe)

end Arrival

namespace Totals

def ofOutcomes (outcomes : List Outcome) : Totals :=
  outcomes.foldl record {}

theorem foldl_record (outcomes : List Outcome) (totals : Totals) :
    outcomes.foldl record totals
      = { moved := totals.moved + outcomes.countP (·.isSuccess)
          failed := totals.failed + outcomes.countP (! ·.isSuccess) } := by
  induction outcomes generalizing totals with
  | nil => rfl
  | cons outcome outcomes ih =>
    rw [List.foldl_cons, ih]
    unfold record
    cases hsuccess : outcome.isSuccess <;> simp [hsuccess] <;> omega

theorem ofOutcomes_eq (outcomes : List Outcome) :
    ofOutcomes outcomes
      = { moved := outcomes.countP (·.isSuccess), failed := outcomes.countP (! ·.isSuccess) } := by
  unfold ofOutcomes
  rw [foldl_record, Nat.zero_add, Nat.zero_add]

end Totals

namespace Distribution

variable {σ Material α β : Type} {count : BucketCount}

/-! ## The grammar -/

/-- One half of a key on its way to bucket `i`. Only material that was exported is imported,
and it is imported as it is. -/
inductive Passage (d : Distribution (StateM σ) Material count) (half : Half) (key : Key)
    (i : Fin count.value) : σ → Arrival → List (Occurrence Material count) → σ → Prop where
  | exportFailed {s s' : σ} {e : Error}
      (hexport : d.source.exportHalf half key.fingerprint s = (.error e, s')) :
      Passage d half key i s (.exportFailed e) [.request .source (.export key.fingerprint half)] s'
  | importFailed {s s₁ s' : σ} {material : Material} {e : Error}
      (hexport : d.source.exportHalf half key.fingerprint s = (.ok material, s₁))
      (himport : (d.bucket i).importKeys material s₁ = (.error e, s')) :
      Passage d half key i s (.importFailed e)
        [.request .source (.export key.fingerprint half),
          .request (.bucket i) (.importKeys material)] s'
  | answered {s s₁ s' : σ} {material : Material} {counts : ImportCounts}
      (hexport : d.source.exportHalf half key.fingerprint s = (.ok material, s₁))
      (himport : (d.bucket i).importKeys material s₁ = (.ok counts, s')) :
      Passage d half key i s (.answered counts)
        [.request .source (.export key.fingerprint half),
          .request (.bucket i) (.importKeys material)] s'

/-- Whether the secret half of a key follows, after what became of the key. -/
def Follows (d : Distribution (StateM σ) Material count) (key : Key) (outcome : Outcome) : Prop :=
  outcome.isSuccess = true ∧ d.includeSecret = true ∧ key.hasSecret = true

def skipReport (key : Key) (secret : Arrival) : List (Occurrence Material count) :=
  (secret.skipReason?.map fun reason => .event (.secretSkipped key.fingerprint reason)).toList

/-- All that happens for one key. -/
inductive Block (d : Distribution (StateM σ) Material count) (key : Key) :
    σ → Outcome → List (Occurrence Material count) → σ → Prop where
  | unassigned {s : σ} {reason : String}
      (hvalue : Fingerprint.firstDigit? key.fingerprint = none)
      (hreason : reason = (Error.invalidFingerprint key.fingerprint .noLeadingDigit).message) :
      Block d key s (.unassigned reason) [.event (.settled key.fingerprint (.unassigned reason))] s
  | publicOnly {s s' : σ} {value : Nat} {i : Fin count.value} {arrival : Arrival}
      {outcome : Outcome} {half : List (Occurrence Material count)}
      (hvalue : Fingerprint.firstDigit? key.fingerprint = some value)
      (hi : i.val = value % count.value)
      (hpublic : Passage d .publicHalf key i s arrival half s')
      (houtcome : outcome = arrival.outcome) (hstays : ¬ d.Follows key outcome) :
      Block d key s outcome
        (.event (.moving key.fingerprint i.val) :: half
          ++ [.event (.settled key.fingerprint outcome)]) s'
  | bothHalves {s s₁ s' : σ} {value : Nat} {i : Fin count.value} {arrival secret : Arrival}
      {outcome : Outcome} {half other : List (Occurrence Material count)}
      (hvalue : Fingerprint.firstDigit? key.fingerprint = some value)
      (hi : i.val = value % count.value)
      (hpublic : Passage d .publicHalf key i s arrival half s₁)
      (houtcome : outcome = arrival.outcome) (hfollows : d.Follows key outcome)
      (hsecret : Passage d .secretHalf key i s₁ secret other s') :
      Block d key s outcome
        (.event (.moving key.fingerprint i.val) :: half ++ other ++ skipReport key secret
          ++ [.event (.settled key.fingerprint outcome)]) s'

/-- The blocks of some keys, one after the other, with the outcome of each key. -/
inductive Blocks (d : Distribution (StateM σ) Material count) :
    σ → List (Key × Outcome) → List (Occurrence Material count) → σ → Prop where
  | nil {s : σ} : Blocks d s [] [] s
  | cons {s s₁ s' : σ} {key : Key} {outcome : Outcome} {settled : List (Key × Outcome)}
      {block rest : List (Occurrence Material count)}
      (hblock : Block d key s outcome block s₁) (hrest : Blocks d s₁ settled rest s') :
      Blocks d s ((key, outcome) :: settled) (block ++ rest) s'

/-- A whole run. A source that cannot be listed ends it with that error and without any
report; nothing else does. -/
inductive Course (d : Distribution (StateM σ) Material count) :
    σ → Except Error Totals → List (Occurrence Material count) → σ → Prop where
  | unlisted {s s' : σ} {e : Error} (hlist : d.source.list s = (.error e, s')) :
      Course d s (.error e) [.request .source .list] s'
  | finished {s s₁ s' : σ} {keys : List Key} {settled : List (Key × Outcome)} {totals : Totals}
      {blocks : List (Occurrence Material count)}
      (hlist : d.source.list s = (.ok keys, s₁))
      (hkeys : settled.map Prod.fst = keys)
      (hblocks : Blocks d s₁ settled blocks s')
      (htotals : totals = Totals.ofOutcomes (settled.map Prod.snd)) :
      Course d s (.ok totals)
        (.request .source .list :: .event (.started keys.length) :: blocks
          ++ [.event (.finished totals)]) s'

/-- What happens for a key that chooses bucket `i`. -/
theorem Block.of_choice {d : Distribution (StateM σ) Material count} {key : Key}
    {i : Fin count.value} {s s' : σ} {outcome : Outcome}
    {block : List (Occurrence Material count)}
    (hchoice : Bucket.choice? count key.fingerprint = some i)
    (h : Block d key s outcome block s') :
    ∃ arrival half s₁, Passage d .publicHalf key i s arrival half s₁ ∧ outcome = arrival.outcome
      ∧ ((¬ d.Follows key outcome ∧ s' = s₁
          ∧ block = .event (.moving key.fingerprint i.val) :: half
            ++ [.event (.settled key.fingerprint outcome)])
        ∨ (d.Follows key outcome ∧ ∃ secret other, Passage d .secretHalf key i s₁ secret other s'
          ∧ block = .event (.moving key.fingerprint i.val) :: half ++ other
            ++ skipReport key secret ++ [.event (.settled key.fingerprint outcome)])) := by
  cases h with
  | unassigned hvalue =>
    rw [Bucket.choice?_eq_none_iff_firstDigit.mpr hvalue] at hchoice
    cases hchoice
  | publicOnly hvalue hi hpublic houtcome hstays =>
    rw [Bucket.choice?_eq_some_iff_firstDigit.mpr ⟨_, hvalue, hi⟩] at hchoice
    cases hchoice
    exact ⟨_, _, _, hpublic, houtcome, .inl ⟨hstays, rfl, rfl⟩⟩
  | bothHalves hvalue hi hpublic houtcome hfollows hsecret =>
    rw [Bucket.choice?_eq_some_iff_firstDigit.mpr ⟨_, hvalue, hi⟩] at hchoice
    cases hchoice
    exact ⟨_, _, _, hpublic, houtcome, .inr ⟨hfollows, _, _, hsecret, rfl⟩⟩

/-- What happens for a key that chooses no bucket. -/
theorem Block.of_choice_none {d : Distribution (StateM σ) Material count} {key : Key} {s s' : σ}
    {outcome : Outcome} {block : List (Occurrence Material count)}
    (hchoice : Bucket.choice? count key.fingerprint = none)
    (h : Block d key s outcome block s') :
    s' = s
      ∧ outcome = .unassigned (Error.invalidFingerprint key.fingerprint .noLeadingDigit).message
      ∧ block = [.event (.settled key.fingerprint outcome)] := by
  have hnone := Bucket.choice?_eq_none_iff_firstDigit.mp hchoice
  cases h with
  | unassigned _ hreason => exact ⟨rfl, congrArg Outcome.unassigned hreason, rfl⟩
  | publicOnly hvalue => rw [hnone] at hvalue; cases hvalue
  | bothHalves hvalue => rw [hnone] at hvalue; cases hvalue

/-! ## Every run has a course

Whatever the vaults answer, one of the constructors fits: by cases on the answers. -/

/-- A half always comes to something, by what the export and the import answer. -/
theorem exists_passage (d : Distribution (StateM σ) Material count) (half : Half) (key : Key)
    (i : Fin count.value) (s : σ) :
    ∃ arrival passed s', Passage d half key i s arrival passed s' := by
  rcases hexport : d.source.exportHalf half key.fingerprint s with ⟨_ | material, s₁⟩
  · exact ⟨_, _, _, .exportFailed hexport⟩
  · rcases himport : (d.bucket i).importKeys material s₁ with ⟨_ | counts, s'⟩
    · exact ⟨_, _, _, .importFailed hexport himport⟩
    · exact ⟨_, _, _, .answered hexport himport⟩

/-- And so does a key, by whether it chooses a bucket and whether its secret half is to follow. -/
theorem exists_block (d : Distribution (StateM σ) Material count) (key : Key) (s : σ) :
    ∃ outcome block s', Block d key s outcome block s' := by
  cases hvalue : Fingerprint.firstDigit? key.fingerprint with
  | none => exact ⟨_, _, _, .unassigned hvalue rfl⟩
  | some value =>
    let i : Fin count.value := ⟨value % count.value, Nat.mod_lt value count.pos⟩
    -- what came of the public half decides whether there is a second passage
    obtain ⟨arrival, half, s₁, hpublic⟩ := exists_passage d .publicHalf key i s
    by_cases hfollows : d.Follows key arrival.outcome
    · obtain ⟨secret, other, s', hsecret⟩ := exists_passage d .secretHalf key i s₁
      exact ⟨_, _, _, .bothHalves hvalue rfl hpublic rfl hfollows hsecret⟩
    · exact ⟨_, _, _, .publicOnly hvalue rfl hpublic rfl hfollows⟩

/-- Keys can be settled one after the other, whatever becomes of each. Induction on the keys. -/
theorem exists_blocks (d : Distribution (StateM σ) Material count) (keys : List Key) (s : σ) :
    ∃ settled blocks s', settled.map Prod.fst = keys ∧ Blocks d s settled blocks s' := by
  induction keys generalizing s with
  | nil => exact ⟨_, _, _, rfl, .nil⟩
  | cons key keys ih =>
    obtain ⟨outcome, block, s₁, hblock⟩ := exists_block d key s
    obtain ⟨settled, rest, s', hkeys, hrest⟩ := ih s₁
    exact ⟨_, _, _, by rw [List.map_cons, hkeys], .cons hblock hrest⟩

/-- Every run has a course, whether or not the source can be listed. -/
theorem exists_course (d : Distribution (StateM σ) Material count) (s : σ) :
    ∃ result trace s', Course d s result trace s' := by
  rcases hlist : d.source.list s with ⟨_ | keys, s₁⟩
  · exact ⟨_, _, _, .unlisted hlist⟩
  · obtain ⟨settled, blocks, s', hkeys, hblocks⟩ := exists_blocks d keys s₁
    exact ⟨_, _, _, .finished hlist hkeys hblocks rfl⟩

/-! ## A run over some of the keys -/

/-- A run over some of the keys, beside a run over all of them: it waits while another key is
settled. If waiting keeps the states related, and what happens for a key is shown if and only if the
key is among them, it does what is shown of the whole run. -/
theorem Blocks.filter {d : Distribution (StateM σ) Material count} {R : σ → σ → Prop}
    {keeps : Key → Bool} {shows : Occurrence Material count → Bool}
    (hshows : ∀ {key s s' t outcome block}, R s t → Block d key s outcome block s' →
      ∀ o ∈ block, shows o = keeps key)
    (hkept : ∀ {key s s' t outcome block}, keeps key = true → R s t →
      Block d key s outcome block s' → ∃ t', Block d key t outcome block t' ∧ R s' t')
    (hwaits : ∀ {key s s' t outcome block}, keeps key = false → R s t →
      Block d key s outcome block s' → R s' t)
    {s s' t : σ} {settled : List (Key × Outcome)} {blocks : List (Occurrence Material count)}
    (h : Blocks d s settled blocks s') (hst : R s t) :
    ∃ t', Blocks d t (settled.filter (keeps ·.1)) (blocks.filter shows) t' ∧ R s' t' := by
  induction h generalizing t with
  | nil => exact ⟨t, .nil, hst⟩
  | @cons s s₁ s' key outcome settled block rest hblock _ ih =>
    have hblockShows := hshows hst hblock
    rw [List.filter_append]
    cases hkey : keeps key with
    | true =>
      have hwhole : block.filter shows = block :=
        List.filter_eq_self.mpr fun o ho => (hblockShows o ho).trans hkey
      rw [hwhole, List.filter_cons_of_pos (by simp [hkey])]
      obtain ⟨t₁, hblock', hst₁⟩ := hkept hkey hst hblock
      obtain ⟨t', hrest', hst'⟩ := ih hst₁
      exact ⟨t', .cons hblock' hrest', hst'⟩
    | false =>
      have hnone : block.filter shows = [] :=
        List.filter_eq_nil_iff.mpr fun o ho => by simp [hblockShows o ho, hkey]
      rw [hnone, List.nil_append, List.filter_cons_of_neg (by simp [hkey])]
      exact ih (hwaits hkey hst hblock)

/-! ## A run takes its course

The run is an action that only ever appends to its trace, in a monad that may differ from program
to program. A `Recorder` says of an action what it appends and where it ends, from any trace so
far; a distribution that `Renders` another one in that monad makes the same requests. Each step
of the run is then read off its constructor. -/

/-- What is noted by the actions of a monad: `Adds act s a added s'` says that from `s` the action
answers `a`, notes `added`, and ends in `s'`. -/
structure Recorder (n : Type → Type) [Monad n] (σ Material : Type) (count : BucketCount) where
  Adds : {α : Type} → n α → σ → α → List (Occurrence Material count) → σ → Prop
  adds_pure : ∀ {α : Type} (a : α) (s : σ), Adds (pure a) s a [] s
  adds_bind : ∀ {α β : Type} {act : n α} {next : α → n β} {s s₁ s' : σ} {a : α} {b : β}
    {added more : List (Occurrence Material count)}, Adds act s a added s₁ →
      Adds (next a) s₁ b more s' → Adds (act >>= next) s b (added ++ more) s'

namespace Recorder

variable {n : Type → Type} [Monad n]

/-- What two actions add, one after the other, adds up. -/
theorem Adds.bind {R : Recorder n σ Material count} {act : n α} {next : α → n β} {s s₁ s' : σ}
    {a : α} {b : β} {added more : List (Occurrence Material count)} (hact : R.Adds act s a added s₁)
    (hnext : R.Adds (next a) s₁ b more s') : R.Adds (act >>= next) s b (added ++ more) s' :=
  R.adds_bind hact hnext

/-- An action that only says something about the one before it adds nothing. -/
theorem Adds.bind_pure {R : Recorder n σ Material count} {act : n α} {next : α → n β} {s s' : σ}
    {a : α} {b : β} {added : List (Occurrence Material count)} (hact : R.Adds act s a added s')
    (hnext : next a = pure b) : R.Adds (act >>= next) s b added s' := by
  have hall := hact.bind (hnext ▸ R.adds_pure b s')
  rwa [List.append_nil] at hall

/-- A distribution in the monad that notes its requests and reports, and whose vaults answer as those
of `d` do. Counters that satisfy `fits` are judged as they are where sums wrap. -/
structure Renders (R : Recorder n σ Material count) (d : Distribution (StateM σ) Material count)
    (fits : ImportCounts → Prop) (t : Distribution n Material count) (notify : Event → n Unit)
    (accepts : ImportCounts → n Bool) : Prop where
  includeSecret : t.includeSecret = d.includeSecret
  list : ∀ {s s' answer}, d.source.list s = (answer, s') →
    R.Adds t.source.list s answer [.request .source .list] s'
  exportHalf : ∀ {half fingerprint s s' answer},
    d.source.exportHalf half fingerprint s = (answer, s') →
      R.Adds (t.source.exportHalf half fingerprint) s answer
        [.request .source (.export fingerprint half)] s'
  importKeys : ∀ {i material s s' answer}, (d.bucket i).importKeys material s = (answer, s') →
    R.Adds ((t.bucket i).importKeys material) s answer
      [.request (.bucket i) (.importKeys material)] s'
  notify : ∀ event s, R.Adds (notify event) s () [.event event] s
  accepts : ∀ {counts}, fits counts → ∀ s, R.Adds (accepts counts) s counts.secretAccepted [] s

end Recorder

/-- When the secret half of a key has been imported and its counters are about to be added: `part`
is what has happened for the key until then. -/
inductive Weighs (d : Distribution (StateM σ) Material count) (key : Key) :
    σ → ImportCounts → List (Occurrence Material count) → σ → Prop where
  | intro {s s₁ s' : σ} {value : Nat} {i : Fin count.value} {arrival : Arrival}
      {outcome : Outcome} {half other : List (Occurrence Material count)} {counts : ImportCounts}
      (hvalue : Fingerprint.firstDigit? key.fingerprint = some value)
      (hi : i.val = value % count.value)
      (hpublic : Passage d .publicHalf key i s arrival half s₁)
      (houtcome : outcome = arrival.outcome) (hfollows : d.Follows key outcome)
      (hsecret : Passage d .secretHalf key i s₁ (.answered counts) other s') :
      Weighs d key s counts (.event (.moving key.fingerprint i.val) :: half ++ other) s'

/-- All counters that are added while some keys are settled satisfy `fits`. -/
def AllWeighed (d : Distribution (StateM σ) Material count) (fits : ImportCounts → Prop) :
    σ → List Key → Prop
  | _, [] => True
  | s, key :: keys =>
    (∀ counts part t, Weighs d key s counts part t → fits counts)
      ∧ ∀ outcome block s₁, Block d key s outcome block s₁ → AllWeighed d fits s₁ keys

/-- What holds of all counters holds of those that are added. -/
theorem allWeighed_of_forall {d : Distribution (StateM σ) Material count}
    {fits : ImportCounts → Prop} (h : ∀ counts, fits counts) (s : σ) (keys : List Key) :
    d.AllWeighed fits s keys := by
  induction keys generalizing s with
  | nil => trivial
  | cons key keys ih => exact ⟨fun counts _ _ _ => h counts, fun _ _ s₁ _ => ih s₁⟩

section Steps

variable {n : Type → Type} [Monad n] {R : Recorder n σ Material count}
  {d : Distribution (StateM σ) Material count} {fits : ImportCounts → Prop}
  {t : Distribution n Material count} {notify : Event → n Unit} {accepts : ImportCounts → n Bool}
  {key : Key} {i : Fin count.value}

/-- The public half, on its way. One case for each way that it can end. -/
theorem Passage.adds_movePublic (hR : R.Renders d fits t notify accepts) {s s' : σ}
    {arrival : Arrival} {half : List (Occurrence Material count)}
    (h : Passage d .publicHalf key i s arrival half s') :
    R.Adds (t.movePublic key (t.bucket i)) s arrival.outcome half s' := by
  unfold movePublic
  cases h with
  | exportFailed hexport => exact (hR.exportHalf hexport).bind_pure rfl
  | importFailed hexport himport =>
    exact (hR.exportHalf hexport).bind ((hR.importKeys himport).bind_pure rfl)
  | answered hexport himport =>
    exact (hR.exportHalf hexport).bind ((hR.importKeys himport).bind_pure rfl)

/-- The secret half, on its way. Only here counters are added. -/
theorem Passage.adds_moveSecret (hR : R.Renders d fits t notify accepts) {s s' : σ}
    {arrival : Arrival} {half : List (Occurrence Material count)}
    (hfits : ∀ counts, arrival = .answered counts → fits counts)
    (h : Passage d .secretHalf key i s arrival half s') :
    R.Adds (t.moveSecret accepts key (t.bucket i)) s arrival.skipReason? half s' := by
  unfold moveSecret
  cases h with
  | exportFailed hexport => exact (hR.exportHalf hexport).bind_pure rfl
  | importFailed hexport himport =>
    exact (hR.exportHalf hexport).bind ((hR.importKeys himport).bind_pure rfl)
  | answered hexport himport =>
    exact (hR.exportHalf hexport).bind
      ((hR.importKeys himport).bind ((hR.accepts (hfits _ rfl) s').bind_pure rfl))

theorem Recorder.Renders.wantsSecret (hR : R.Renders d fits t notify accepts) {outcome : Outcome} :
    t.wantsSecret key outcome = true ↔ d.Follows key outcome := by
  unfold Distribution.wantsSecret
  rw [hR.includeSecret, Bool.and_eq_true, Bool.and_eq_true, and_assoc]
  rfl

/-- A secret half that follows is moved, and a skip is reported. -/
theorem Passage.adds_followUp (hR : R.Renders d fits t notify accepts) {s s' : σ}
    {outcome : Outcome} {secret : Arrival} {other : List (Occurrence Material count)}
    (hfollows : d.Follows key outcome)
    (hfits : ∀ counts, secret = .answered counts → fits counts)
    (h : Passage d .secretHalf key i s secret other s') :
    R.Adds (t.followUp notify accepts key (t.bucket i) outcome) s ()
      (other ++ skipReport key secret) s' := by
  unfold followUp
  rw [if_pos (hR.wantsSecret.mpr hfollows)]
  refine (h.adds_moveSecret hR hfits).bind ?_
  unfold skipReport
  cases secret.skipReason? with
  | none => exact R.adds_pure () s'
  | some reason => exact hR.notify _ s'

/-- A secret half that stays behind is not asked for. -/
theorem adds_followUp_of_stays (hR : R.Renders d fits t notify accepts) {outcome : Outcome} (s : σ)
    (hstays : ¬ d.Follows key outcome) :
    R.Adds (t.followUp notify accepts key (t.bucket i) outcome) s () [] s := by
  unfold followUp
  rw [if_neg (mt hR.wantsSecret.mp hstays)]
  exact R.adds_pure () s

/-- What is the same for all keys that choose a bucket. -/
theorem adds_settle (hR : R.Renders d fits t notify accepts) {s s₁ s' : σ} {value : Nat}
    {arrival : Arrival} {outcome : Outcome} {half other : List (Occurrence Material count)}
    (hvalue : Fingerprint.firstDigit? key.fingerprint = some value)
    (hi : i.val = value % count.value) (hpublic : Passage d .publicHalf key i s arrival half s₁)
    (houtcome : outcome = arrival.outcome)
    (hfollow : R.Adds (t.followUp notify accepts key (t.bucket i) outcome) s₁ () other s') :
    R.Adds (t.settle notify accepts key) s outcome
      (.event (.moving key.fingerprint i.val) :: half ++ other
        ++ [.event (.settled key.fingerprint outcome)]) s' := by
  -- up to the report on the outcome, with which both kinds of block end
  have hmove : R.Adds (t.move notify accepts key) s outcome
      (.event (.moving key.fingerprint i.val) :: half ++ other) s' := by
    rw [← Fingerprint.leadingValue?_eq_firstDigit?] at hvalue
    unfold move
    rw [Bucket.assign_of_leadingValue hvalue hi]
    subst houtcome
    exact (hR.notify _ s).bind ((hpublic.adds_movePublic hR).bind (hfollow.bind_pure rfl))
  exact hmove.bind ((hR.notify _ s').bind_pure rfl)

/-- One key is settled as its block tells. -/
theorem Block.adds (hR : R.Renders d fits t notify accepts) {s s' : σ} {outcome : Outcome}
    {block : List (Occurrence Material count)}
    (hfits : ∀ counts part u, Weighs d key s counts part u → fits counts)
    (h : Block d key s outcome block s') :
    R.Adds (t.settle notify accepts key) s outcome block s' := by
  cases h with
  | unassigned hvalue hreason =>
    rw [← Fingerprint.leadingValue?_eq_firstDigit?] at hvalue
    unfold settle move
    rw [Bucket.assign_of_no_leadingValue hvalue, hreason]
    exact (R.adds_pure _ s).bind ((hR.notify _ s).bind_pure rfl)
  | publicOnly hvalue hi hpublic houtcome hstays =>
    have hsettle := adds_settle hR hvalue hi hpublic houtcome (adds_followUp_of_stays hR s' hstays)
    rwa [List.append_nil] at hsettle
  | bothHalves hvalue hi hpublic houtcome hfollows hsecret =>
    have hfollow := hsecret.adds_followUp hR hfollows fun counts hanswered =>
      hfits counts _ _ (.intro hvalue hi hpublic houtcome hfollows (hanswered ▸ hsecret))
    -- the grammar brackets the secret half to the left, the monad to the right
    have hsettle := adds_settle hR hvalue hi hpublic houtcome hfollow
    rwa [← List.append_assoc] at hsettle

/-- Along the blocks the totals count one outcome after the other. -/
theorem Blocks.adds (hR : R.Renders d fits t notify accepts) {s s' : σ}
    {settled : List (Key × Outcome)} {blocks : List (Occurrence Material count)}
    (hfits : d.AllWeighed fits s (settled.map Prod.fst)) (h : Blocks d s settled blocks s')
    (totals : Totals) :
    R.Adds (t.settleAll notify accepts totals (settled.map Prod.fst)) s
      ((settled.map Prod.snd).foldl Totals.record totals) blocks s' := by
  -- `settleAll` carries the totals along, so they vary in the induction
  induction h generalizing totals with
  | nil => exact R.adds_pure totals _
  | cons hblock _ ih =>
    exact (hblock.adds hR hfits.1).bind (ih (hfits.2 _ _ _ hblock) (totals.record _))

/-- And a run goes as its course tells. -/
theorem Course.adds (hR : R.Renders d fits t notify accepts) {s s' : σ}
    {result : Except Error Totals} {trace : List (Occurrence Material count)}
    (hfits : ∀ keys s₁, d.source.list s = (.ok keys, s₁) → d.AllWeighed fits s₁ keys)
    (h : Course d s result trace s') : R.Adds (t.run notify accepts) s result trace s' := by
  unfold run
  cases h with
  | unlisted hlist => exact (hR.list hlist).bind_pure rfl
  | finished hlist hkeys hblocks htotals =>
    subst hkeys
    subst htotals
    exact (hR.list hlist).bind ((hR.notify _ _).bind
      ((hblocks.adds hR (hfits _ _ hlist) {}).bind ((hR.notify _ s').bind_pure rfl)))

end Steps

/-- What is appended to any trace so far. -/
def appends (σ Material : Type) (count : BucketCount) :
    Recorder (StateT (List (Occurrence Material count)) (StateM σ)) σ Material count where
  Adds act s a added s' := ∀ before, act before s = ((a, before ++ added), s')
  adds_pure a s before := by
    rw [List.append_nil]
    rfl
  adds_bind {α β act next s s₁ s' a b added more} hact hnext before := by
    show next (act before s).1.1 (act before s).1.2 (act before s).2 = _
    rw [hact before, hnext (before ++ added), List.append_assoc]

/-- A request to a vault is noted, and then answered as it would be without the note. -/
theorem adds_noted {ask : StateM σ α} {s s' : σ} {answer : α} (h : ask s = (answer, s'))
    (occurrence : Occurrence Material count) :
    (appends σ Material count).Adds (do jot occurrence; StateT.lift ask) s answer
      [occurrence] s' := by
  intro before
  show (((ask s).1, before ++ [occurrence]), (ask s).2) = _
  rw [h]

/-- The distribution that notes its requests is the one that it notes. -/
theorem renders_traced (d : Distribution (StateM σ) Material count) :
    (appends σ Material count).Renders d (fun _ => True) d.traced report
      fun counts => pure counts.secretAccepted where
  includeSecret := rfl
  list h := adds_noted h _
  exportHalf {half} _ _ _ _ h := by cases half <;> exact adds_noted h _
  importKeys h := adds_noted h _
  notify _ _ _ := rfl
  accepts _ s := (appends σ Material count).adds_pure _ s

/-- A course is what the run does. -/
theorem Course.runTraced {d : Distribution (StateM σ) Material count} {s s' : σ}
    {result : Except Error Totals} {trace : List (Occurrence Material count)}
    (h : Course d s result trace s') : d.runTraced s = ((result, trace), s') :=
  h.adds (renders_traced d) (fun _ _ _ => allWeighed_of_forall (fun _ => trivial) _ _) []

/-- What the run does is a course. -/
theorem course_runTraced {d : Distribution (StateM σ) Material count} {s s' : σ}
    {result : Except Error Totals} {trace : List (Occurrence Material count)}
    (h : d.runTraced s = ((result, trace), s')) : Course d s result trace s' := by
  -- some course starts here, and the run takes it, so it is the one that the run took
  obtain ⟨result', trace', s'', hcourse⟩ := exists_course d s
  have heq := hcourse.runTraced
  rw [h] at heq
  cases heq
  exact hcourse

/-! ## The record of a run -/

/-- How a run ends, what happens in it, and where it leaves the vaults. -/
structure Record (σ Material : Type) (count : BucketCount) where
  result : Except Error Totals
  trace : List (Occurrence Material count)
  final : σ

def record (d : Distribution (StateM σ) Material count) (s : σ) : Record σ Material count :=
  let ((result, trace), final) := d.runTraced s
  { result, trace, final }

theorem runTraced_eq_record (d : Distribution (StateM σ) Material count) (s : σ) :
    d.runTraced s = (((d.record s).result, (d.record s).trace), (d.record s).final) := rfl

/-- What is on record for a run is its course. -/
theorem course_record (d : Distribution (StateM σ) Material count) (s : σ) :
    Course d s (d.record s).result (d.record s).trace (d.record s).final :=
  course_runTraced (runTraced_eq_record d s)

theorem Course.record_eq {d : Distribution (StateM σ) Material count} {s s' : σ}
    {result : Except Error Totals} {trace : List (Occurrence Material count)}
    (h : Course d s result trace s') : d.record s = ⟨result, trace, s'⟩ := by
  unfold record
  rw [h.runTraced]

/-- The record of a run over some keys, given what came of them. -/
def Record.ofBlocks (settled : List (Key × Outcome)) (blocks : List (Occurrence Material count))
    (final : σ) : Record σ Material count :=
  let totals := Totals.ofOutcomes (settled.map Prod.snd)
  { result := .ok totals
    trace := .request .source .list :: .event (.started settled.length) :: blocks
      ++ [.event (.finished totals)]
    final }

/-- Once the source is listed, the blocks of the keys are the record. -/
theorem Blocks.record_eq {d : Distribution (StateM σ) Material count} {s s₁ s' : σ}
    {settled : List (Key × Outcome)} {blocks : List (Occurrence Material count)}
    (hlist : d.source.list s = (.ok (settled.map Prod.fst), s₁))
    (h : Blocks d s₁ settled blocks s') : d.record s = .ofBlocks settled blocks s' := by
  rw [(Course.finished hlist rfl h rfl).record_eq, List.length_map]
  rfl

/-- A run whose source can be listed settles all its keys. -/
theorem exists_blocks_record {d : Distribution (StateM σ) Material count} {s s₁ : σ}
    {keys : List Key} (hlist : d.source.list s = (.ok keys, s₁)) :
    ∃ settled blocks s', settled.map Prod.fst = keys ∧ Blocks d s₁ settled blocks s'
      ∧ d.record s = .ofBlocks settled blocks s' := by
  obtain ⟨settled, blocks, s', rfl, hblocks⟩ := exists_blocks d keys s₁
  exact ⟨settled, blocks, s', rfl, hblocks, hblocks.record_eq hlist⟩

end Distribution

end KeyBuckets
