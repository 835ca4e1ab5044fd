import KeyBuckets.Proofs.Course

/-!
# Accounts — what a run tells of each key

The reports of a run, without the requests, are one account for each key of the listing, in its
order. Whatever the vaults answer, an account has the same shape: where the key goes, if it chooses
a bucket, then that its secret half is skipped, if it is, and last what became of the key.

* **`Account`** — what is told of one key, and `Account.events`, the reports that tell it.
* **`Block.exists_account`** — the account of a key, and where its word on the secret half is from.
* **`Blocks.outcomesOf_eq`** — what is told of the outcomes of some keys is what they were.
-/

namespace KeyBuckets

/-- What a run tells of one key: the key as it is listed, what became of it, and the reason for
which its secret half was skipped, if it was. -/
structure Account where
  key : Key
  outcome : Outcome
  skipped : Option String

def Account.events (count : BucketCount) (account : Account) : List Event :=
  ((Bucket.choice? count account.key.fingerprint).map fun i =>
      Event.moving account.key.fingerprint i.val).toList
    ++ (account.skipped.map (.secretSkipped account.key.fingerprint)).toList
    ++ [.settled account.key.fingerprint account.outcome]

/-! ## What reports are about -/

/-- The fingerprint and the outcome that a report tells. -/
def Event.settled? : Event → Option (String × Outcome)
  | settled fingerprint outcome => some (fingerprint, outcome)
  | _ => none

/-- The fingerprint and the reason that a report on a skipped secret half tells. -/
def Event.skipped? : Event → Option (String × String)
  | secretSkipped fingerprint reason => some (fingerprint, reason)
  | _ => none

section Views

variable {Material : Type} {count : BucketCount}

def outcomesOf (trace : List (Occurrence Material count)) : List (String × Outcome) :=
  (eventsOf trace).filterMap Event.settled?

def skipsOf (trace : List (Occurrence Material count)) : List (String × String) :=
  (eventsOf trace).filterMap Event.skipped?

@[simp] theorem eventsOf_append (xs ys : List (Occurrence Material count)) :
    eventsOf (xs ++ ys) = eventsOf xs ++ eventsOf ys :=
  List.filterMap_append

@[simp] theorem eventsOf_cons_event (e : Event) (trace : List (Occurrence Material count)) :
    eventsOf (.event e :: trace) = e :: eventsOf trace := rfl

@[simp] theorem eventsOf_nil : eventsOf ([] : List (Occurrence Material count)) = [] := rfl

theorem outcomesOf_append (xs ys : List (Occurrence Material count)) :
    outcomesOf (xs ++ ys) = outcomesOf xs ++ outcomesOf ys := by
  unfold outcomesOf
  rw [eventsOf_append, List.filterMap_append]

theorem skipsOf_append (xs ys : List (Occurrence Material count)) :
    skipsOf (xs ++ ys) = skipsOf xs ++ skipsOf ys := by
  unfold skipsOf
  rw [eventsOf_append, List.filterMap_append]

/-- Of the reports on a key one says what became of it. -/
theorem Account.settled?_events (account : Account) :
    (account.events count).filterMap Event.settled?
      = [(account.key.fingerprint, account.outcome)] := by
  unfold events
  cases Bucket.choice? count account.key.fingerprint <;> cases account.skipped <;> rfl

/-- And one says why its secret half was skipped, if it was. -/
theorem Account.skipped?_events (account : Account) :
    (account.events count).filterMap Event.skipped?
      = (account.skipped.map (account.key.fingerprint, ·)).toList := by
  unfold events
  cases Bucket.choice? count account.key.fingerprint <;> cases account.skipped <;> rfl

end Views

namespace Distribution

variable {σ Material : Type} {count : BucketCount} {d : Distribution (StateM σ) Material count}
  {key : Key} {i : Fin count.value} {s s' : σ}

/-! ## The account of a key -/

@[simp] theorem Passage.eventsOf_passed {half : Half} {arrival : Arrival}
    {passed : List (Occurrence Material count)} (h : Passage d half key i s arrival passed s') :
    eventsOf passed = [] := by
  cases h <;> rfl

theorem eventsOf_skipReport (secret : Arrival) :
    eventsOf (skipReport key secret : List (Occurrence Material count))
      = (secret.skipReason?.map (.secretSkipped key.fingerprint)).toList := by
  unfold skipReport
  cases secret.skipReason? <;> rfl

/-- The reports on a key are an account of it. If its secret half follows, the account says of it
what came of its passage, and otherwise nothing. -/
theorem Block.exists_account {outcome : Outcome} {block : List (Occurrence Material count)}
    (h : Block d key s outcome block s') :
    ∃ skipped, eventsOf block = Account.events count ⟨key, outcome, skipped⟩
      ∧ ((¬ d.Follows key outcome ∧ skipped = none)
        ∨ (d.Follows key outcome ∧ ∃ i arrival half s₁ secret other,
            Bucket.choice? count key.fingerprint = some i
              ∧ Passage d .publicHalf key i s arrival half s₁
              ∧ Passage d .secretHalf key i s₁ secret other s'
              ∧ skipped = secret.skipReason?)) := by
  cases hchoice : Bucket.choice? count key.fingerprint with
  | none =>
    obtain ⟨-, rfl, rfl⟩ := h.of_choice_none hchoice
    refine ⟨none, by simp [Account.events, hchoice], .inl ⟨fun hfollows => ?_, rfl⟩⟩
    cases hfollows.1
  | some i =>
    obtain ⟨arrival, half, s₁, hpublic, -, hrest⟩ := h.of_choice hchoice
    rcases hrest with ⟨hstays, -, rfl⟩ | ⟨hfollows, secret, other, hsecret, rfl⟩
    · refine ⟨none, ?_, .inl ⟨hstays, rfl⟩⟩
      simp [Account.events, hchoice, hpublic.eventsOf_passed]
    · refine ⟨secret.skipReason?, ?_, .inr ⟨hfollows, i, arrival, half, s₁, secret, other, rfl,
        hpublic, hsecret, rfl⟩⟩
      simp [Account.events, hchoice, hpublic.eventsOf_passed, hsecret.eventsOf_passed,
        eventsOf_skipReport]

/-- What is reported of a key is its outcome. -/
theorem Block.outcomesOf_eq {outcome : Outcome} {block : List (Occurrence Material count)}
    (h : Block d key s outcome block s') : outcomesOf block = [(key.fingerprint, outcome)] := by
  obtain ⟨skipped, hevents, -⟩ := h.exists_account
  unfold outcomesOf
  rw [hevents, Account.settled?_events]

/-- The outcomes that are told are those of the keys, in the order of the listing. -/
theorem Blocks.outcomesOf_eq {settled : List (Key × Outcome)}
    {blocks : List (Occurrence Material count)} (h : Blocks d s settled blocks s') :
    outcomesOf blocks = settled.map fun pair => (pair.1.fingerprint, pair.2) := by
  induction h with
  | nil => rfl
  | cons hblock _ ih =>
    rw [outcomesOf_append, hblock.outcomesOf_eq, ih]
    rfl

/-- Only a key that was moved is told to have left its secret half behind. -/
theorem Block.of_mem_skipsOf {outcome : Outcome} {block : List (Occurrence Material count)}
    (h : Block d key s outcome block s') {skip : String × String} (hskip : skip ∈ skipsOf block) :
    skip.1 = key.fingerprint ∧ outcome.isSuccess = true := by
  obtain ⟨skipped, hevents, hfollows⟩ := h.exists_account
  unfold skipsOf at hskip
  rw [hevents, Account.skipped?_events] at hskip
  obtain ⟨reason, hreason, rfl⟩ := Option.map_eq_some_iff.mp (Option.mem_toList.mp hskip)
  rcases hfollows with ⟨-, hnone⟩ | ⟨hfollows, -⟩
  · rw [hnone] at hreason
    cases hreason
  · exact ⟨rfl, hfollows.1⟩

/-- Only for a key that arrived a secret half is skipped. -/
theorem Blocks.of_mem_skipsOf {settled : List (Key × Outcome)}
    {blocks : List (Occurrence Material count)} (h : Blocks d s settled blocks s')
    {skip : String × String} (hskip : skip ∈ skipsOf blocks) :
    ∃ pair ∈ settled, pair.1.fingerprint = skip.1 ∧ pair.2.isSuccess = true := by
  induction h with
  | nil => cases hskip
  | cons hblock _ ih =>
    rw [skipsOf_append] at hskip
    rcases List.mem_append.mp hskip with hfirst | hlater
    · obtain ⟨hname, hsuccess⟩ := hblock.of_mem_skipsOf hfirst
      exact ⟨_, List.mem_cons_self, hname.symm, hsuccess⟩
    · obtain ⟨pair, hpair, hfound⟩ := ih hlater
      exact ⟨pair, List.mem_cons_of_mem _ hpair, hfound⟩

/-! ## The reports of a whole run -/

section Readings

variable (settled : List (Key × Outcome)) (blocks : List (Occurrence Material count)) (final : σ)

/-- The reports of a run are those on its keys, between the first one and the last. -/
theorem eventsOf_record :
    eventsOf (Record.ofBlocks settled blocks final).trace
      = .started settled.length :: eventsOf blocks
        ++ [.finished (Totals.ofOutcomes (settled.map Prod.snd))] := by
  show eventsOf ([_, _] ++ blocks ++ [_]) = _
  rw [eventsOf_append, eventsOf_append]
  rfl

/-- The reports at both ends of a run are about no key. -/
theorem outcomesOf_ofBlocks :
    outcomesOf (Record.ofBlocks settled blocks final).trace = outcomesOf blocks := by
  unfold outcomesOf
  rw [eventsOf_record, List.filterMap_append]
  exact List.append_nil _

theorem skipsOf_ofBlocks :
    skipsOf (Record.ofBlocks settled blocks final).trace = skipsOf blocks := by
  unfold skipsOf
  rw [eventsOf_record, List.filterMap_append]
  exact List.append_nil _

end Readings

end Distribution

end KeyBuckets
