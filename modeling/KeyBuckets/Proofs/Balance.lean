import KeyBuckets.Proofs.Accounts
import KeyBuckets.Proofs.Independence

/-!
# Balance — the totals of a run, held against what happened in it

The totals that a run ends with are counted key by key while it goes on. Here they are held
against its trace: against the reports on where keys go and what became of them, and against the
imports that the buckets were asked for. Each key of the listing is one entry, however often its
fingerprint is listed.

* **`SkipsSettled`** — the report that a secret half is skipped comes right before the one that
  its key arrived.
* **`Tallied`** — settled keys beside what happened for them; it composes, so a listing is tallied
  if each of its keys is.
* **`Balanced`**, **`balanced_record`** — the totals, the reports and the imports of a whole run.
-/

namespace KeyBuckets

/-! ## What is counted -/

/-- Whether no bucket was responsible for a key. -/
def Outcome.isUnassigned : Outcome → Bool
  | unassigned _ => true
  | _ => false

/-- A key arrived if it is new in its bucket, or was there before. -/
theorem Outcome.isSuccess_iff {outcome : Outcome} :
    outcome.isSuccess = true ↔ outcome = imported ∨ outcome = unchanged := by
  cases outcome <;> simp [isSuccess]

/-- The fingerprint and the bucket that a report on a key on its way tells. -/
def Event.moving? : Event → Option (String × Nat)
  | moving fingerprint bucket => some (fingerprint, bucket)
  | _ => none

def Occurrence.isImport {Material : Type} {count : BucketCount} :
    Occurrence Material count → Bool
  | request _ (.importKeys _) => true
  | _ => false

/-- Wherever a secret half is told to be skipped, the next report is that its key arrived. -/
def SkipsSettled (events : List Event) : Prop :=
  ∀ before fingerprint reason after,
    events = before ++ .secretSkipped fingerprint reason :: after →
      ∃ outcome rest, after = .settled fingerprint outcome :: rest ∧ outcome.isSuccess = true

/-- Reports can be cut anywhere: a skip and the report on its key stay on one side. -/
theorem SkipsSettled.append {xs ys : List Event} (hxs : SkipsSettled xs) (hys : SkipsSettled ys) :
    SkipsSettled (xs ++ ys) := by
  intro before fingerprint reason after h
  rcases List.append_eq_append_iff.mp h with ⟨more, -, hright⟩ | ⟨left, hxs', hafter⟩
  · exact hys more fingerprint reason after hright
  · cases left with
    | nil => exact hys [] fingerprint reason after hafter.symm
    | cons e left =>
      -- the report on the skip ends no first part, as the one on its key follows there
      obtain ⟨rfl, rfl⟩ := List.cons.inj hafter
      obtain ⟨outcome, rest, rfl, hsuccess⟩ := hxs before fingerprint reason left hxs'
      exact ⟨outcome, rest ++ ys, rfl, hsuccess⟩

/-- A report that is about no skip has nothing to be followed by. -/
theorem skipsSettled_singleton {event : Event} (h : event.skipped? = none) :
    SkipsSettled [event] := by
  intro before fingerprint reason after heq
  rcases List.singleton_eq_append_iff.mp heq with ⟨-, hright⟩ | ⟨-, hright⟩
  · obtain ⟨rfl, -⟩ := List.cons.inj hright
    cases h
  · cases hright

/-- A skip, followed by the report that its key arrived. -/
theorem skipsSettled_pair (fingerprint reason : String) {outcome : Outcome}
    (h : outcome.isSuccess = true) :
    SkipsSettled [.secretSkipped fingerprint reason, .settled fingerprint outcome] := by
  intro before fingerprint' reason' after heq
  cases before with
  | nil =>
    obtain ⟨hskip, rfl⟩ := List.cons.inj heq
    cases hskip
    exact ⟨outcome, [], rfl, h⟩
  | cons e before =>
    have hlast : [Event.settled fingerprint outcome]
        = before ++ .secretSkipped fingerprint' reason' :: after := (List.cons.inj heq).2
    exact skipsSettled_singleton rfl before fingerprint' reason' after hlast

section Views

variable {Material : Type} {count : BucketCount}

/-- Which keys are told to be on their way, and to which buckets. -/
def movesOf (trace : List (Occurrence Material count)) : List (String × Nat) :=
  (eventsOf trace).filterMap Event.moving?

/-- The number of imports that were asked for. -/
def importsIn (trace : List (Occurrence Material count)) : Nat :=
  trace.countP Occurrence.isImport

theorem movesOf_append (xs ys : List (Occurrence Material count)) :
    movesOf (xs ++ ys) = movesOf xs ++ movesOf ys := by
  unfold movesOf
  rw [eventsOf_append, List.filterMap_append]

theorem importsIn_append (xs ys : List (Occurrence Material count)) :
    importsIn (xs ++ ys) = importsIn xs + importsIn ys :=
  List.countP_append

/-- A key is told to be on its way once, if it chooses a bucket. -/
theorem Account.moving?_events (account : Account) :
    ((account.events count).filterMap Event.moving?).length
      = if (Bucket.choice? count account.key.fingerprint).isSome then 1 else 0 := by
  unfold events
  cases Bucket.choice? count account.key.fingerprint <;> cases account.skipped <;> rfl

/-- All reports on a key name it. -/
theorem Account.fingerprint?_events (account : Account) :
    ∀ event ∈ account.events count, event.fingerprint? = some account.key.fingerprint := by
  unfold events
  intro event hevent
  rcases List.mem_append.mp hevent with hfirst | hlast
  · rcases List.mem_append.mp hfirst with hmoving | hskipped
    · obtain ⟨i, -, rfl⟩ := Option.map_eq_some_iff.mp (Option.mem_toList.mp hmoving)
      rfl
    · obtain ⟨reason, -, rfl⟩ := Option.map_eq_some_iff.mp (Option.mem_toList.mp hskipped)
      rfl
  · rw [List.mem_singleton.mp hlast]
    rfl

/-- The reports on one key are in order if only a key that arrived has a secret half to skip. -/
theorem Account.skipsSettled_events {account : Account}
    (h : account.skipped.isSome = true → account.outcome.isSuccess = true) :
    SkipsSettled (account.events count) := by
  unfold events
  have hmoving : SkipsSettled ((Bucket.choice? count account.key.fingerprint).map fun i =>
      Event.moving account.key.fingerprint i.val).toList := by
    cases Bucket.choice? count account.key.fingerprint with
    | none => intro before fingerprint reason after heq; simp at heq
    | some i => exact skipsSettled_singleton rfl
  rw [List.append_assoc]
  refine hmoving.append ?_
  cases hskipped : account.skipped with
  | none => exact skipsSettled_singleton rfl
  | some reason => exact skipsSettled_pair _ _ (h (by rw [hskipped]; rfl))

end Views

/-- Once a half is on its way, a bucket is responsible for its key. -/
theorem Arrival.isUnassigned_outcome (arrival : Arrival) :
    arrival.outcome.isUnassigned = false := by
  cases arrival with
  | exportFailed _ | importFailed _ => rfl
  | answered counts =>
    show (Outcome.ofCounts counts).isUnassigned = false
    unfold Outcome.ofCounts
    split
    · rfl
    · split <;> rfl

namespace Distribution

variable {σ Material : Type} {count : BucketCount} {d : Distribution (StateM σ) Material count}
  {key : Key} {i : Fin count.value} {s s' : σ}

/-! ## One key, and some keys -/

/-- Settled keys, beside what happened for them. -/
structure Tallied (settled : List (Key × Outcome)) (trace : List (Occurrence Material count)) :
    Prop where
  /-- Each key is on its way to a bucket, or no bucket is responsible for it. -/
  moves : (movesOf trace).length + settled.countP (·.2.isUnassigned) = settled.length
  skips : SkipsSettled (eventsOf trace)
  named : ∀ event ∈ eventsOf trace, event.fingerprint?.isSome = true
  /-- A key that arrived was imported. -/
  arrived : settled.countP (·.2.isSuccess) ≤ importsIn trace
  /-- A key on its way is imported half by half. -/
  imports : importsIn trace ≤ 2 * (movesOf trace).length

/-- What is tallied adds up: all five fields are sums, or about single reports. -/
theorem Tallied.append {xs ys : List (Key × Outcome)}
    {trace more : List (Occurrence Material count)}
    (hxs : Tallied xs trace) (hys : Tallied ys more) : Tallied (xs ++ ys) (trace ++ more) where
  moves := by
    have hx := hxs.moves
    have hy := hys.moves
    rw [movesOf_append, List.length_append, List.length_append, List.countP_append]
    omega
  skips := by
    rw [eventsOf_append]
    exact hxs.skips.append hys.skips
  named := by
    rw [eventsOf_append]
    intro event hevent
    exact (List.mem_append.mp hevent).elim (hxs.named event) (hys.named event)
  arrived := by
    rw [List.countP_append, importsIn_append]
    exact Nat.add_le_add hxs.arrived hys.arrived
  imports := by
    have hx := hxs.imports
    have hy := hys.imports
    rw [movesOf_append, List.length_append, importsIn_append]
    omega

/-- One half of a key is imported at most once, and the half of a key that arrived is. -/
theorem Passage.importsIn_passed {half : Half} {arrival : Arrival}
    {passed : List (Occurrence Material count)} (h : Passage d half key i s arrival passed s') :
    importsIn passed ≤ 1 ∧ (arrival.outcome.isSuccess = true → importsIn passed = 1) := by
  have hone : ∀ material : Material,
      importsIn [.request .source (.export key.fingerprint half),
        .request (.bucket i) (.importKeys material)] = 1 := by
    intro material
    cases half <;> rfl
  cases h with
  | exportFailed =>
    have hnone : importsIn ([.request .source (.export key.fingerprint half)] :
        List (Occurrence Material count)) = 0 := by
      cases half <;> rfl
    refine ⟨by omega, fun hsuccess => ?_⟩
    cases hsuccess
  | importFailed => exact ⟨(hone _).le, fun _ => hone _⟩
  | answered => exact ⟨(hone _).le, fun _ => hone _⟩

/-- A report on a skip is no import. -/
theorem importsIn_skipReport (secret : Arrival) :
    importsIn (skipReport key secret : List (Occurrence Material count)) = 0 := by
  unfold skipReport
  cases secret.skipReason? <;> rfl

/-- A key that chooses a bucket is imported at most once for each half, and at least once if it
arrived. -/
theorem Block.importsIn_le {outcome : Outcome} {block : List (Occurrence Material count)}
    (hchoice : Bucket.choice? count key.fingerprint = some i)
    (h : Block d key s outcome block s') :
    importsIn block ≤ 2 ∧ (outcome.isSuccess = true → 1 ≤ importsIn block)
      ∧ outcome.isUnassigned = false := by
  obtain ⟨arrival, half, s₁, hpublic, rfl, hrest⟩ := h.of_choice hchoice
  obtain ⟨hhalf, harrived⟩ := hpublic.importsIn_passed
  -- the reports around the passages are no imports
  have hmoving : importsIn ([.event (.moving key.fingerprint i.val)] :
      List (Occurrence Material count)) = 0 := rfl
  have hsettled : importsIn ([.event (.settled key.fingerprint arrival.outcome)] :
      List (Occurrence Material count)) = 0 := rfl
  rcases hrest with ⟨-, -, rfl⟩ | ⟨-, secret, other, hsecret, rfl⟩
  · rw [← List.singleton_append, importsIn_append, importsIn_append, hmoving, hsettled]
    exact ⟨by omega, fun hsuccess => by have := harrived hsuccess; omega,
      arrival.isUnassigned_outcome⟩
  · have hother := hsecret.importsIn_passed.1
    rw [← List.singleton_append, importsIn_append, importsIn_append, importsIn_append,
      importsIn_append, importsIn_skipReport, hmoving, hsettled]
    exact ⟨by omega, fun hsuccess => by have := harrived hsuccess; omega,
      arrival.isUnassigned_outcome⟩

/-- One key, by whether it chooses a bucket. -/
theorem Block.tallied {outcome : Outcome} {block : List (Occurrence Material count)}
    (h : Block d key s outcome block s') : Tallied [(key, outcome)] block := by
  obtain ⟨skipped, hevents, hskipped⟩ := h.exists_account
  have hskips : SkipsSettled (eventsOf block) := by
    rw [hevents]
    refine Account.skipsSettled_events fun hsome => ?_
    -- a secret half is followed up only for a key that arrived
    rcases hskipped with ⟨-, rfl⟩ | ⟨hfollows, -⟩
    · cases hsome
    · exact hfollows.1
  have hnamed : ∀ event ∈ eventsOf block, event.fingerprint?.isSome = true := by
    rw [hevents]
    intro event hevent
    rw [Account.fingerprint?_events _ event hevent]
    rfl
  have hmoves : (movesOf block).length
      = if (Bucket.choice? count key.fingerprint).isSome then 1 else 0 := by
    unfold movesOf
    rw [hevents, Account.moving?_events]
  cases hchoice : Bucket.choice? count key.fingerprint with
  | none =>
    obtain ⟨-, rfl, rfl⟩ := h.of_choice_none hchoice
    exact ⟨rfl, hskips, hnamed, Nat.le_refl 0, Nat.le_refl 0⟩
  | some i =>
    obtain ⟨hle, harrived, hassigned⟩ := h.importsIn_le hchoice
    have hone : (movesOf block).length = 1 := by rw [hmoves, hchoice]; rfl
    refine ⟨?_, hskips, hnamed, ?_, ?_⟩
    · rw [hone, List.countP_singleton, hassigned]
      rfl
    · rw [List.countP_singleton]
      split
      · next hsuccess => exact harrived hsuccess
      · exact Nat.zero_le _
    · omega

/-- Some keys, one after the other. Induction on the keys, as what is tallied adds up. -/
theorem Blocks.tallied {settled : List (Key × Outcome)} {blocks : List (Occurrence Material count)}
    (h : Blocks d s settled blocks s') : Tallied settled blocks := by
  induction h with
  | nil =>
    exact ⟨rfl, fun before _ _ _ heq => by simp at heq, by simp, Nat.le_refl 0, Nat.le_refl 0⟩
  | cons hblock _ ih => exact hblock.tallied.append ih

/-! ## Whole runs -/

/-- The totals of a run over some keys, held against what happened in it. -/
structure Balanced (keys : List Key) (totals : Totals) (trace : List (Occurrence Material count)) :
    Prop where
  /-- The first report tells the number of keys and the last one the totals; all others name a
  key. -/
  reports : ∃ between, eventsOf trace = .started keys.length :: between ++ [.finished totals]
    ∧ ∀ event ∈ between, event.fingerprint?.isSome = true
  /-- Each listed key is settled once, in the order of the listing. -/
  settled : (outcomesOf trace).map Prod.fst = keys.map (·.fingerprint)
  moved : totals.moved = (outcomesOf trace).countP fun pair =>
    pair.2 = .imported ∨ pair.2 = .unchanged
  failed : totals.failed = (outcomesOf trace).countP fun pair =>
    ¬ (pair.2 = .imported ∨ pair.2 = .unchanged)
  whole : totals.moved + totals.failed = keys.length
  /-- All keys are told to be on their way, but for those that no bucket is responsible for. -/
  moves : (movesOf trace).length = keys.length - (outcomesOf trace).countP (·.2.isUnassigned)
  skips : SkipsSettled (eventsOf trace)
  imports : totals.moved ≤ importsIn trace ∧ importsIn trace ≤ 2 * (movesOf trace).length

/-- The listing and the reports at both ends of a run are no imports. -/
theorem importsIn_record (settled : List (Key × Outcome))
    (blocks : List (Occurrence Material count)) (final : σ) :
    importsIn (Record.ofBlocks settled blocks final).trace = importsIn blocks := by
  show importsIn ([_, _] ++ blocks ++ [_]) = _
  rw [importsIn_append, importsIn_append]
  show 0 + importsIn blocks + 0 = _
  omega

/-- What is tallied key by key, held against the totals. -/
theorem Blocks.balanced {settled : List (Key × Outcome)} {blocks : List (Occurrence Material count)}
    (h : Blocks d s settled blocks s') (final : σ) :
    Balanced (settled.map Prod.fst) (Totals.ofOutcomes (settled.map Prod.snd))
      (Record.ofBlocks settled blocks final).trace := by
  have htally := h.tallied
  have hevents := eventsOf_record settled blocks final
  have houtcomes : outcomesOf (Record.ofBlocks settled blocks final).trace
      = settled.map fun pair => (pair.1.fingerprint, pair.2) := by
    rw [outcomesOf_ofBlocks, h.outcomesOf_eq]
  have hmoves : movesOf (Record.ofBlocks settled blocks final).trace = movesOf blocks := by
    unfold movesOf
    rw [hevents, List.filterMap_append]
    exact List.append_nil _
  have htotals : Totals.ofOutcomes (settled.map Prod.snd)
      = { moved := settled.countP (·.2.isSuccess),
          failed := settled.countP (! ·.2.isSuccess) } := by
    rw [Totals.ofOutcomes_eq, List.countP_map, List.countP_map]
    rfl
  refine ⟨⟨eventsOf blocks, ?_, htally.named⟩, ?_, ?_, ?_, ?_, ?_, ?_, ?_⟩
  · rw [hevents, List.length_map]
  · rw [houtcomes, List.map_map, List.map_map]
    rfl
  · rw [houtcomes, htotals, List.countP_map]
    refine List.countP_congr fun pair _ => ?_
    rw [Outcome.isSuccess_iff]
    exact decide_eq_true_iff.symm
  · rw [houtcomes, htotals, List.countP_map]
    refine List.countP_congr fun pair _ => ?_
    rw [Bool.not_eq_true', ← Bool.not_eq_true, Outcome.isSuccess_iff]
    exact decide_eq_true_iff.symm
  · rw [htotals, List.length_map]
    have hsplit := List.length_eq_countP_add_countP (fun pair => pair.2.isSuccess) (l := settled)
    simpa using hsplit.symm
  · -- the sum of both is the number of keys
    have hsum := htally.moves
    rw [hmoves, houtcomes, List.length_map, List.countP_map]
    show _ = settled.length - settled.countP (·.2.isUnassigned)
    omega
  · -- neither the first report nor the last one is about a skip
    rw [hevents, ← List.singleton_append, List.append_assoc]
    exact (skipsSettled_singleton rfl).append (htally.skips.append (skipsSettled_singleton rfl))
  · rw [importsIn_record, hmoves, htotals]
    exact ⟨htally.arrived, htally.imports⟩

/-- **The books of a run balance.** A run ends with totals if and only if its source can be listed,
and then they agree with its reports and with the imports that its buckets were asked for, whatever
the vaults answered. -/
theorem balanced_record (d : Distribution (StateM σ) Material count) (s : σ) :
    (d.record s).result.isOk = (d.source.list s).1.isOk
      ∧ ∀ totals, (d.record s).result = .ok totals →
        ∃ keys, (d.source.list s).1 = .ok keys ∧ Balanced keys totals (d.record s).trace := by
  rcases hlist : d.source.list s with ⟨_ | keys, s₁⟩
  · next e =>
    have hresult : (d.record s).result = .error e :=
      congrArg Record.result (Course.unlisted hlist).record_eq
    refine ⟨by rw [hresult]; rfl, fun totals htotals => ?_⟩
    rw [hresult] at htotals
    cases htotals
  · obtain ⟨settled, blocks, s', rfl, hblocks, hrecord⟩ := exists_blocks_record hlist
    rw [hrecord]
    refine ⟨rfl, fun totals htotals => ⟨_, rfl, ?_⟩⟩
    cases htotals
    exact hblocks.balanced s'

open Memory in
/-- Five keys over two buckets: two arrive, one of them without its secret half; one is refused, one
is rejected and one chooses no bucket. -/
theorem balanced_record_five_keys :
    let source : Shelf :=
      { keys := [⟨"1B", "b", true⟩, ⟨"0A", "a", true⟩, ⟨"X", "x", false⟩, ⟨"3D", "d", true⟩,
          ⟨"2C", "c", false⟩]
        publicExports := [("1B", .error .permissionDenied), ("2C", .ok "PUB:0A;PUB:2C")]
        secretExports := [("3D", .error .permissionDenied)] }
    let parts : Parts Shelf Shelf ⟨2, by decide⟩ := { source, buckets := Vector.replicate 2 {} }
    let d := ofParts Shelf.vault (fun _ => Shelf.vault) true
    (d.record parts).result = .ok { moved := 3, failed := 2 }
      ∧ (skipsOf (d.record parts).trace).map Prod.fst = ["3D"]
      ∧ Balanced source.keys { moved := 3, failed := 2 } (d.record parts).trace := by
  intro source parts d
  have hresult : (d.record parts).result = .ok { moved := 3, failed := 2 } := by decide +kernel
  obtain ⟨keys, hkeys, hbalanced⟩ := (balanced_record d parts).2 _ hresult
  cases hkeys
  exact ⟨hresult, by decide +kernel, hbalanced⟩

end Distribution

end KeyBuckets
