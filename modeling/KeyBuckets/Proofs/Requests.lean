import KeyBuckets.Proofs.Dialogue

/-!
# Requests — which invocations a run comes to

A distribution knows its buckets by their numbers and asks them for something; on a machine there
are attempts at invocations, each with the home that it is about. Once the source has been listed,
what is tried is what the distribution asks for, whether or not it is started: an import into a
bucket is one invocation about the home of that bucket, and an export is one about the source, or
none if the fingerprint has no canonical form.

* **`callsOf`** — the invocations that an occurrence of a run comes to.
* **`attempts_of_blocks`** — the keys of a run, one after the other.
* **`attempts_carryOut`**, **`tried_eq_calls`** — what is tried in a whole run is told by the trace
  of the run.
-/

namespace KeyBuckets.Plan

open Machine Keyring

/-- The invocations that the request for an export comes to. -/
def exportCalls (plan : Plan) (half : Half) (fingerprint : String) : List Invocation :=
  ((Fingerprint.canonical fingerprint).toOption.map (plan.exporting half)).toList

/-- The invocations that an occurrence comes to, but for the request to list the source. -/
def callsOf (plan : Plan) : Occurrence (List UInt8) plan.count → List Invocation
  | .request .source (.exportPublic fingerprint) => plan.exportCalls .publicHalf fingerprint
  | .request .source (.exportSecret fingerprint) => plan.exportCalls .secretHalf fingerprint
  | .request (.bucket i) (.importKeys material) => [plan.importing i material]
  | _ => []

variable {plan : Plan} {key : Key} {i : Fin plan.count.value} {half : Half} {s s' : Machine}

@[simp] theorem callsOf_event (event : Event) : plan.callsOf (.event event) = [] := rfl

@[simp] theorem callsOf_export (fingerprint : String) (half : Half) :
    plan.callsOf (.request .source (.export fingerprint half))
      = plan.exportCalls half fingerprint := by
  cases half <;> rfl

@[simp] theorem callsOf_import (i : Fin plan.count.value) (material : List UInt8) :
    plan.callsOf (.request (.bucket i) (.importKeys material)) = [plan.importing i material] := rfl

@[simp] theorem flatMap_callsOf_skipReport (key : Key) (secret : Arrival) :
    (Distribution.skipReport key secret).flatMap plan.callsOf = [] := by
  unfold Distribution.skipReport
  cases secret.skipReason? <;> rfl

/-! ## One request -/

/-- A request for an export is one invocation about the source, if there is a form to ask for. -/
theorem attempts_of_export {fingerprint : String} {answer : Except Error (List UInt8)}
    (h : plan.distribution.source.exportHalf half fingerprint s = (answer, s')) :
    s.Attempts (plan.exportCalls half fingerprint) s' := by
  rw [exportHalf_distribution] at h
  unfold exportCalls
  cases hform : Fingerprint.canonical fingerprint with
  | error e =>
    -- the machine is left alone
    rw [askExport_of_error hform] at h
    obtain ⟨-, rfl⟩ := Prod.mk.inj h
    exact .none _
  | ok form =>
    obtain ⟨given, htakes, -⟩ := askExport_takes hform h
    exact htakes.attempts

/-- A request for an import is one invocation about the bucket. -/
theorem attempts_of_import {material : List UInt8} {answer : Except Error ImportCounts}
    (h : (plan.distribution.bucket i).importKeys material s = (answer, s')) :
    s.Attempts [plan.importing i material] s' := by
  obtain ⟨given, htakes, -⟩ := importKeys_takes h
  exact htakes.attempts

/-! ## The requests for the listed keys -/

/-- One half of a key: what it is imported with does not matter. -/
theorem attempts_of_passage {arrival : Arrival}
    {passed : List (Occurrence (List UInt8) plan.count)}
    (h : Distribution.Passage plan.distribution half key i s arrival passed s') :
    s.Attempts (passed.flatMap plan.callsOf) s' := by
  cases h with
  | exportFailed hexport => simpa using attempts_of_export hexport
  | importFailed hexport himport =>
    simpa using (attempts_of_export hexport).trans (attempts_of_import himport)
  | answered hexport himport =>
    simpa using (attempts_of_export hexport).trans (attempts_of_import himport)

/-- One key, one half after the other. -/
theorem attempts_of_block {outcome : Outcome} {block : List (Occurrence (List UInt8) plan.count)}
    (h : Distribution.Block plan.distribution key s outcome block s') :
    s.Attempts (block.flatMap plan.callsOf) s' := by
  cases h with
  | unassigned => exact .none _
  | publicOnly _ _ hpublic _ _ => simpa using attempts_of_passage hpublic
  | bothHalves _ _ hpublic _ _ hsecret =>
    simpa using (attempts_of_passage hpublic).trans (attempts_of_passage hsecret)

/-- **Whatever is asked of the vaults is tried on the machine**, and nothing else is. -/
theorem attempts_of_blocks {settled : List (Key × Outcome)}
    {blocks : List (Occurrence (List UInt8) plan.count)}
    (h : Distribution.Blocks plan.distribution s settled blocks s') :
    s.Attempts (blocks.flatMap plan.callsOf) s' := by
  induction h with
  | nil => exact .none _
  | cons hblock _ ih =>
    rw [List.flatMap_append]
    exact (attempts_of_block hblock).trans ih

/-! ## Whole runs -/

/-- **What is tried in a run**: the listings, and then the requests in the trace. -/
theorem attempts_carryOut (plan : Plan) (machine : Machine) :
    ∃ commands tree, commands <+: [listPublicCommand, listSecretCommand]
      ∧ { machine with tree }.Attempts
        ((commands.map fun command => plan.source.invocation command [])
          ++ (plan.carryOut machine).1.trace.flatMap plan.callsOf) (plan.carryOut machine).2 := by
  have hcarried := carried_carryOut plan machine
  generalize (plan.carryOut machine).1 = course at hcarried ⊢
  generalize (plan.carryOut machine).2 = final at hcarried ⊢
  cases hcarried with
  | @unfurnished tree => exact ⟨[], _, List.nil_prefix, .none _⟩
  | @unlisted tree e _ _ hlist =>
    obtain ⟨commands, hcommands, hattempts⟩ := list_attempts hlist
    exact ⟨commands, tree, hcommands, hattempts.trans (.none _)⟩
  | @finished tree start final settled blocks hhomes hlist hblocks =>
    obtain ⟨commands, hcommands, hattempts⟩ := list_attempts hlist
    refine ⟨commands, tree, hcommands, ?_⟩
    simpa [Distribution.Record.ofBlocks, callsOf]
      using hattempts.trans (attempts_of_blocks hblocks)

/-- The attempts of a run, told by its trace. -/
theorem tried_eq_calls (plan : Plan) (machine : Machine) :
    ∃ commands, commands <+: [listPublicCommand, listSecretCommand]
      ∧ (plan.tried machine).map Attempt.invocation
        = (commands.map fun command => plan.source.invocation command [])
          ++ (plan.carryOut machine).1.trace.flatMap plan.callsOf := by
  obtain ⟨commands, tree, hcommands, tried, hcalls, htries⟩ := attempts_carryOut plan machine
  refine ⟨commands, hcommands, ?_⟩
  rw [tried_eq_of_tries htries, hcalls]

end KeyBuckets.Plan
