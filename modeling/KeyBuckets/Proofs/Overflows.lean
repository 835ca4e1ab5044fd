import KeyBuckets.Memory.World
import KeyBuckets.Proofs.Course
import Mathlib.Data.List.Basic

/-!
# Overflows — runs that are stopped

A program that checks for overflows makes the run that it would make without the check, up to the
first sum of counters that does not fit. There it is stopped, with what has happened for the key
until then, and the keys after it stay where they are.

* **`CheckedCourse`** — a whole course in which all sums fit, or the beginning of one.
* **`Stops`**, **`Weighs.stops`** — an action that is stopped, and the step of a run that is one.
* **`exists_checkedCourse`**, **`CheckedCourse.runChecked`** — every run with the check has such a
  course, and takes it.
* **`run_iff_course`** — the runs of either kind, told by their grammars.
* **`unstopped_iff`**, **`Unstopped.withstands`** — a run that is not stopped is the same run.
-/

namespace KeyBuckets.Distribution

variable {σ Material α β : Type} {count : BucketCount}

/-! ## The grammar -/

/-- A run with the check for overflows. -/
inductive CheckedCourse (d : Distribution (StateM σ) Material count) :
    σ → Option (Except Error Totals) → List (Occurrence Material count) → σ → Prop where
  | whole {s s' : σ} {result : Except Error Totals} {trace : List (Occurrence Material count)}
      (hcourse : Course d s result trace s')
      (hfits : ∀ keys s₁, d.source.list s = (.ok keys, s₁) →
        d.AllWeighed (·.overflows = false) s₁ keys) :
      CheckedCourse d s (some result) trace s'
  /-- The counters of `key` are the first that do not fit. -/
  | stopped {s s₁ s₂ s' : σ} {keys rest : List Key} {key : Key} {settled : List (Key × Outcome)}
      {blocks part : List (Occurrence Material count)} {counts : ImportCounts}
      (hlist : d.source.list s = (.ok keys, s₁))
      (hkeys : settled.map Prod.fst ++ key :: rest = keys)
      (hblocks : Blocks d s₁ settled blocks s₂)
      (hfits : d.AllWeighed (·.overflows = false) s₁ (settled.map Prod.fst))
      (hweighs : Weighs d key s₂ counts part s') (hoverflow : counts.overflows = true) :
      CheckedCourse d s none
        (.request .source .list :: .event (.started keys.length) :: blocks ++ part) s'

/-! ## Every run with the check has such a course

The keys are looked at one by one, up to the first whose counters do not fit. -/

/-- What happens for a key is settled by the state in which it is taken. -/
theorem Block.unique {d : Distribution (StateM σ) Material count} {key : Key} {s s₁ s₂ : σ}
    {outcome outcome' : Outcome} {block block' : List (Occurrence Material count)}
    (h : Block d key s outcome block s₁) (h' : Block d key s outcome' block' s₂) : s₁ = s₂ := by
  have hadds := h.adds (renders_traced d) (fun _ _ _ _ => trivial) []
  have hadds' := h'.adds (renders_traced d) (fun _ _ _ _ => trivial) []
  exact (Prod.mk.inj (hadds.symm.trans hadds')).2

/-- Counters fit for some keys if they fit for the first one, and for the others in the state that
it leaves. -/
theorem allWeighed_cons {d : Distribution (StateM σ) Material count} {fits : ImportCounts → Prop}
    {key : Key} {keys : List Key} {s s₁ : σ} {outcome : Outcome}
    {block : List (Occurrence Material count)} (hblock : Block d key s outcome block s₁)
    (hkey : ∀ counts part t, Weighs d key s counts part t → fits counts)
    (hkeys : d.AllWeighed fits s₁ keys) : d.AllWeighed fits s (key :: keys) :=
  ⟨hkey, fun _ _ _ hblock' => hblock.unique hblock' ▸ hkeys⟩

/-- Either all counters fit, or there is a first key with counters that do not. Induction on the
keys, in the state that those before them leave. -/
theorem allWeighed_or_stops (d : Distribution (StateM σ) Material count) (keys : List Key) (s : σ) :
    d.AllWeighed (·.overflows = false) s keys
      ∨ ∃ settled key rest blocks s₂ counts part s', settled.map Prod.fst ++ key :: rest = keys
          ∧ Blocks d s settled blocks s₂
          ∧ d.AllWeighed (·.overflows = false) s (settled.map Prod.fst)
          ∧ Weighs d key s₂ counts part s' ∧ counts.overflows = true := by
  induction keys generalizing s with
  | nil => exact .inl trivial
  | cons key keys ih =>
    by_cases hkey : ∀ counts part t, Weighs d key s counts part t → counts.overflows = false
    · obtain ⟨outcome, block, s₁, hblock⟩ := exists_block d key s
      rcases ih s₁ with hfits | ⟨settled, last, rest, blocks, s₂, counts, part, s', rfl, hblocks,
        hfits, hweighs, hoverflow⟩
      · exact .inl (allWeighed_cons hblock hkey hfits)
      · exact .inr ⟨(key, outcome) :: settled, last, rest, _, s₂, counts, part, s', rfl,
          .cons hblock hblocks, allWeighed_cons hblock hkey hfits, hweighs, hoverflow⟩
    · simp only [not_forall, Bool.not_eq_false] at hkey
      obtain ⟨counts, part, t, hweighs, hoverflow⟩ := hkey
      exact .inr ⟨[], key, keys, [], s, counts, part, t, rfl, .nil, trivial, hweighs, hoverflow⟩

/-- Every run with the check has a course, whole or stopped. -/
theorem exists_checkedCourse (d : Distribution (StateM σ) Material count) (s : σ) :
    ∃ result? trace s', CheckedCourse d s result? trace s' := by
  obtain ⟨result, trace, s', hcourse⟩ := exists_course d s
  rcases hlist : d.source.list s with ⟨_ | keys, s₁⟩
  · refine ⟨_, _, _, .whole hcourse fun keys s₁ hok => ?_⟩
    rw [hlist] at hok
    cases hok
  · rcases allWeighed_or_stops d keys s₁ with hfits | ⟨settled, key, rest, blocks, s₂, counts, part,
      s', hkeys, hblocks, hfits, hweighs, hoverflow⟩
    · refine ⟨_, _, _, .whole hcourse fun keys' s₁' hok => ?_⟩
      rw [hlist] at hok
      cases hok
      exact hfits
    · exact ⟨_, _, _, .stopped hlist hkeys hblocks hfits hweighs hoverflow⟩

/-! ## A run with the check takes its course

As long as the check finds nothing, the run renders the one without it. A sum that does not fit
stops the action that adds, and whatever that action is part of. -/

/-- Of two actions the second one is taken only if the first one is not stopped. -/
theorem run_bind_apply {act : OptionT (StateT (List (Occurrence Material count)) (StateM σ)) α}
    {next : α → OptionT (StateT (List (Occurrence Material count)) (StateM σ)) β}
    (before : List (Occurrence Material count)) (s : σ) :
    (act >>= next).run before s
      = (match (act.run before s).1.1 with
        | some a => (next a).run
        | none => pure none) (act.run before s).1.2 (act.run before s).2 := rfl

/-- What is appended to any trace so far by an action that could be stopped and is not. -/
def appendsUnstopped (σ Material : Type) (count : BucketCount) :
    Recorder (OptionT (StateT (List (Occurrence Material count)) (StateM σ))) σ Material count where
  Adds act s a added s' := ∀ before, act.run before s = ((some a, before ++ added), s')
  adds_pure a s before := by
    rw [List.append_nil]
    rfl
  adds_bind {α β act next s s₁ s' a b added more} hact hnext before := by
    rw [run_bind_apply, hact before]
    show (next a).run (before ++ added) s₁ = _
    rw [hnext (before ++ added), List.append_assoc]

/-- An action that is stopped: from `s` it notes `added`, ends in `s'`, and has no answer. -/
def Stops (act : OptionT (StateT (List (Occurrence Material count)) (StateM σ)) α) (s : σ)
    (added : List (Occurrence Material count)) (s' : σ) : Prop :=
  ∀ before, act.run before s = ((none, before ++ added), s')

/-- What comes after a stop is not taken. -/
theorem Stops.bind {act : OptionT (StateT (List (Occurrence Material count)) (StateM σ)) α}
    {next : α → OptionT (StateT (List (Occurrence Material count)) (StateM σ)) β} {s s' : σ}
    {added : List (Occurrence Material count)} (h : Stops act s added s') :
    Stops (act >>= next) s added s' := by
  intro before
  rw [run_bind_apply, h before]
  rfl

/-- What was added before a stop stays. -/
theorem Recorder.Adds.bind_stops
    {act : OptionT (StateT (List (Occurrence Material count)) (StateM σ)) α}
    {next : α → OptionT (StateT (List (Occurrence Material count)) (StateM σ)) β} {s s₁ s' : σ}
    {a : α} {added more : List (Occurrence Material count)}
    (hact : (appendsUnstopped σ Material count).Adds act s a added s₁)
    (hnext : Stops (next a) s₁ more s') : Stops (act >>= next) s (added ++ more) s' := by
  intro before
  rw [run_bind_apply, hact before]
  show (next a).run (before ++ added) s₁ = _
  rw [hnext (before ++ added), List.append_assoc]

/-- The distribution that notes each request, among actions that can be stopped. -/
def checked (d : Distribution (StateM σ) Material count) :
    Distribution (OptionT (StateT (List (Occurrence Material count)) (StateM σ))) Material count :=
  d.traced.mapM OptionT.lift

def reportChecked (event : Event) :
    OptionT (StateT (List (Occurrence Material count)) (StateM σ)) Unit :=
  OptionT.lift (report event)

/-- An action that cannot be stopped adds the same among those that can. -/
theorem adds_lift {act : StateT (List (Occurrence Material count)) (StateM σ) α} {s s' : σ} {a : α}
    {added : List (Occurrence Material count)}
    (h : (appends σ Material count).Adds act s a added s') :
    (appendsUnstopped σ Material count).Adds (OptionT.lift act) s a added s' := by
  intro before
  show ((some (act before s).1.1, (act before s).1.2), (act before s).2) = _
  rw [h before]

/-- As long as the counters fit, the run with the check is the one without it. -/
theorem renders_checked (d : Distribution (StateM σ) Material count) :
    (appendsUnstopped σ Material count).Renders d (·.overflows = false) d.checked reportChecked
      acceptsChecked where
  includeSecret := rfl
  list h := adds_lift ((renders_traced d).list h)
  exportHalf {half} _ _ _ _ h := by
    cases half <;> exact adds_lift ((renders_traced d).exportHalf h)
  importKeys h := adds_lift ((renders_traced d).importKeys h)
  notify event s := adds_lift ((renders_traced d).notify event s)
  accepts {counts} hfits s := by
    unfold acceptsChecked
    rw [hfits]
    exact (appendsUnstopped σ Material count).adds_pure _ s

/-- A sum that does not fit stops right there, and adds nothing. -/
theorem stops_acceptsChecked {counts : ImportCounts} (hoverflow : counts.overflows = true) (s : σ) :
    Stops (acceptsChecked counts :
      OptionT (StateT (List (Occurrence Material count)) (StateM σ)) Bool) s [] s := by
  intro before
  unfold acceptsChecked
  rw [if_pos hoverflow, List.append_nil]
  rfl

section Steps

variable {d : Distribution (StateM σ) Material count} {key : Key} {counts : ImportCounts}

theorem Passage.stops_followUp {i : Fin count.value} {s s' : σ} {outcome : Outcome}
    {other : List (Occurrence Material count)} (hfollows : d.Follows key outcome)
    (hoverflow : counts.overflows = true)
    (h : Passage d .secretHalf key i s (.answered counts) other s') :
    Stops (d.checked.followUp reportChecked acceptsChecked key (d.checked.bucket i) outcome) s
      other s' := by
  have hR := renders_checked d
  unfold followUp
  rw [if_pos (hR.wantsSecret.mpr hfollows)]
  cases h with
  | answered hexport himport =>
    -- the export and the import are noted, and then their counters stop the run
    have hmove : Stops (d.checked.moveSecret acceptsChecked key (d.checked.bucket i)) s
        ([_] ++ ([_] ++ [])) s' :=
      (hR.exportHalf hexport).bind_stops
        ((hR.importKeys himport).bind_stops (stops_acceptsChecked hoverflow s').bind)
    exact hmove.bind

/-- A key with counters that do not fit stops the run, once its halves are on their way. -/
theorem Weighs.stops {s s' : σ} {part : List (Occurrence Material count)}
    (hoverflow : counts.overflows = true) (h : Weighs d key s counts part s') :
    Stops (d.checked.settle reportChecked acceptsChecked key) s part s' := by
  have hR := renders_checked d
  cases h with
  | @intro _ _ _ i arrival outcome half other _ hvalue hi hpublic houtcome hfollows hsecret =>
    have hfollowUp := hsecret.stops_followUp hfollows hoverflow
    rw [← Fingerprint.leadingValue?_eq_firstDigit?] at hvalue
    subst houtcome
    have hmove : Stops (d.checked.move reportChecked acceptsChecked key) s
        ([.event (.moving key.fingerprint i.val)] ++ (half ++ other)) s' := by
      unfold move
      rw [Bucket.assign_of_leadingValue hvalue hi]
      exact (hR.notify _ s).bind_stops ((hpublic.adds_movePublic hR).bind_stops hfollowUp.bind)
    exact hmove.bind

/-- Keys that fit are settled before the one that stops the run. Induction on those. -/
theorem Blocks.stops {s s₂ s' : σ} {settled : List (Key × Outcome)} {rest : List Key}
    {blocks part : List (Occurrence Material count)}
    (hfits : d.AllWeighed (·.overflows = false) s (settled.map Prod.fst))
    (h : Blocks d s settled blocks s₂) (hweighs : Weighs d key s₂ counts part s')
    (hoverflow : counts.overflows = true) (totals : Totals) :
    Stops (d.checked.settleAll reportChecked acceptsChecked totals
      (settled.map Prod.fst ++ key :: rest)) s (blocks ++ part) s' := by
  induction h generalizing totals with
  | nil => exact (hweighs.stops hoverflow).bind
  | cons hblock _ ih =>
    rw [List.append_assoc]
    exact (hblock.adds (renders_checked d) hfits.1).bind_stops
      (ih (hfits.2 _ _ _ hblock) hweighs (totals.record _))

end Steps

/-- A course is taken by the run with the check. -/
theorem CheckedCourse.runChecked {d : Distribution (StateM σ) Material count} {s s' : σ}
    {result? : Option (Except Error Totals)} {trace : List (Occurrence Material count)}
    (h : CheckedCourse d s result? trace s') : d.runChecked s = ((result?, trace), s') := by
  have hR := renders_checked d
  cases h with
  | whole hcourse hfits => exact hcourse.adds hR hfits []
  | stopped hlist hkeys hblocks hfits hweighs hoverflow =>
    subst hkeys
    have hrun : Stops (d.checked.run reportChecked acceptsChecked) s
        ([.request .source .list] ++ ([.event (.started _)] ++ (_ ++ _))) s' :=
      (hR.list hlist).bind_stops ((hR.notify _ _).bind_stops
        (hblocks.stops hfits hweighs hoverflow {}).bind)
    exact hrun []

/-- And no other run is, as there is always a course and a run goes one way. -/
theorem checkedCourse_runChecked {d : Distribution (StateM σ) Material count} {s s' : σ}
    {result? : Option (Except Error Totals)} {trace : List (Occurrence Material count)}
    (h : d.runChecked s = ((result?, trace), s')) : CheckedCourse d s result? trace s' := by
  obtain ⟨result', trace', s'', hcourse⟩ := exists_checkedCourse d s
  have heq := hcourse.runChecked
  rw [h] at heq
  cases heq
  exact hcourse

/-! ## Runs of either kind -/

theorem runChecked_eq (d : Distribution (StateM σ) Material count) (s : σ) :
    d.runChecked s
      = (((d.runChecked s).1.1, (d.runChecked s).1.2), (d.runChecked s).2) := rfl

/-- **The grammar of a run.** Whatever the vaults answer, and however their answers hang together,
what happens in a run is a `Course`, and nothing else is one; with the check for overflows it is a
`CheckedCourse`, and again nothing else is. -/
theorem run_iff_course (d : Distribution (StateM σ) Material count) (s s' : σ)
    (trace : List (Occurrence Material count)) :
    (∀ result, d.runTraced s = ((result, trace), s') ↔ Course d s result trace s')
      ∧ ∀ result?, d.runChecked s = ((result?, trace), s') ↔ CheckedCourse d s result? trace s' :=
  ⟨fun _ => ⟨course_runTraced, Course.runTraced⟩,
    fun _ => ⟨checkedCourse_runChecked, CheckedCourse.runChecked⟩⟩

open Memory in
/-- Six keys over two buckets: one is refused, one chooses no bucket, one is moved with both halves,
one is rejected, one cannot be imported, and one is moved without its secret half, as the counters
of that import add up to zero. There a run with the check is stopped. -/
theorem run_iff_course_six_keys :
    let source : Shelf :=
      { keys := [⟨"1B", "b", true⟩, ⟨"X", "x", false⟩, ⟨"0a", "a", true⟩, ⟨"2C", "c", true⟩,
          ⟨"3D", "d", false⟩, ⟨"4E", "e", true⟩]
        publicExports := [("1B", .error .permissionDenied)] }
    let wrapping : ImportCounts := { secretImported := 4294967295, secretUnchanged := 1 }
    let first : Shelf :=
      { imports := [none, none, some (.ok { considered := 1 }), none, some (.ok wrapping)] }
    let second : Shelf := { imports := [some (.error .noKeyring)] }
    let parts : Parts Shelf Shelf ⟨2, by decide⟩ := { source, buckets := #v[first, second] }
    let d := ofParts Shelf.vault (fun _ => Shelf.vault) true
    let begun : List (Occurrence String ⟨2, by decide⟩) :=
      [.request .source .list, .event (.started 6),
        .event (.moving "1B" 1), .request .source (.exportPublic "1B"),
        .event (.settled "1B" (.exportFailed "permission denied")),
        .event (.settled "X"
          (.unassigned (Error.invalidFingerprint "X" .noLeadingDigit).message)),
        .event (.moving "0a" 0), .request .source (.exportPublic "0a"),
        .request (.bucket 0) (.importKeys "PUB:0a"), .request .source (.exportSecret "0a"),
        .request (.bucket 0) (.importKeys "SEC:0a"), .event (.settled "0a" .imported),
        .event (.moving "2C" 0), .request .source (.exportPublic "2C"),
        .request (.bucket 0) (.importKeys "PUB:2C"),
        .event (.settled "2C" (.rejected { considered := 1 })),
        .event (.moving "3D" 1), .request .source (.exportPublic "3D"),
        .request (.bucket 1) (.importKeys "PUB:3D"),
        .event (.settled "3D" (.importFailed "keyring not initialized")),
        .event (.moving "4E" 0), .request .source (.exportPublic "4E"),
        .request (.bucket 0) (.importKeys "PUB:4E"), .request .source (.exportSecret "4E"),
        .request (.bucket 0) (.importKeys "SEC:4E")]
    let ended : List (Occurrence String ⟨2, by decide⟩) :=
      [.event (.secretSkipped "4E" ("secret key not imported: " ++ wrapping.describe)),
        .event (.settled "4E" .imported), .event (.finished { moved := 2, failed := 4 })]
    Course d parts (.ok { moved := 2, failed := 4 }) (begun ++ ended) (d.record parts).final
      ∧ CheckedCourse d parts none begun (d.runChecked parts).2 := by
  intro source wrapping first second parts d begun ended
  have hresult : (d.record parts).result = .ok { moved := 2, failed := 4 } := by decide +kernel
  have htrace : (d.record parts).trace = begun ++ ended := by decide +kernel
  have hstopped : (d.runChecked parts).1.1 = none := by decide +kernel
  have hbegun : (d.runChecked parts).1.2 = begun := by decide +kernel
  constructor
  · rw [← hresult, ← htrace]
    exact ((run_iff_course d parts _ _).1 _).mp (runTraced_eq_record d parts)
  · rw [← hstopped, ← hbegun]
    exact ((run_iff_course d parts _ _).2 _).mp (runChecked_eq d parts)

/-! ## Runs that are not stopped -/

/-- The check for overflows does not stop the run. -/
def Unstopped (d : Distribution (StateM σ) Material count) (s : σ) : Prop :=
  (d.runChecked s).1.1.isSome = true

/-- The run with the check is the run without it. -/
def Withstands (d : Distribution (StateM σ) Material count) (s : σ) : Prop :=
  d.runChecked s = ((some (d.record s).result, (d.record s).trace), (d.record s).final)

/-- A run is not stopped if and only if all counters that are added in it fit. -/
theorem unstopped_iff {d : Distribution (StateM σ) Material count} {s : σ} :
    d.Unstopped s ↔ ∀ keys s₁, d.source.list s = (.ok keys, s₁) →
      d.AllWeighed (·.overflows = false) s₁ keys := by
  constructor
  · intro hsome
    obtain ⟨result?, trace, s', hcourse⟩ := exists_checkedCourse d s
    unfold Unstopped at hsome
    rw [hcourse.runChecked] at hsome
    cases hcourse with
    | whole _ hfits => exact hfits
    | stopped => cases hsome
  · intro hfits
    obtain ⟨result, trace, s', hcourse⟩ := exists_course d s
    unfold Unstopped
    rw [(CheckedCourse.whole hcourse hfits).runChecked]
    rfl

/-- A run that is not stopped is the same run. -/
theorem Unstopped.withstands {d : Distribution (StateM σ) Material count} {s : σ}
    (h : d.Unstopped s) : d.Withstands s :=
  (CheckedCourse.whole (course_record d s) (unstopped_iff.mp h)).runChecked

end KeyBuckets.Distribution
