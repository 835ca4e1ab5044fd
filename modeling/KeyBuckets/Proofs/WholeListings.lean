import KeyBuckets.Proofs.Handover
import Mathlib.Data.List.Basic

/-!
# Whole listings — a keyring is listed as a whole, or not at all

A listing is asked for twice. Either time the program may be refused, reply too late or end badly.
None of these errors leaves a listing behind: not the keys without the marks of their secret halves,
and not a listing without keys. It ends what needs the listing, and so a distribution whose source
cannot be listed asks for nothing more.

* **`Keyring.tree_list`** — a listing leaves the tree as it is.
* **`Plan.tried_of_unlisted`** — a distribution whose source cannot be listed only lists.
* **`Plan.listed_whole_or_refused`** — a keyring is listed as a whole, or the error ends the run.
-/

namespace KeyBuckets

open Machine Text

namespace Keyring

/-- Listing a keyring is trying its commands, and changes nothing else. -/
theorem tree_list (ring : Keyring) (s : Machine) : (ring.list s).2.tree = s.tree := by
  rcases hlist : ring.list s with ⟨answer, s'⟩
  obtain ⟨commands, -, tried, -, htries⟩ := list_attempts hlist
  rw [htries]

end Keyring

namespace Plan

open Keyring

variable {plan : Plan} {machine prepared listed : Machine} {rings : List Keyring} {e : Error}

/-- A distribution whose source cannot be listed ends with that. -/
theorem carryOut_of_unlisted (hprepare : plan.prepare machine = (.ok rings, prepared))
    (hlist : plan.source.list prepared = (.error e, listed)) :
    plan.carryOut machine
      = ({ result := .error e, trace := [.request .source .list], buckets := rings }, listed) :=
  carryOut_of_prepare hprepare (Distribution.Course.unlisted hlist).runTraced

/-- Nothing is tried while homes are made. -/
theorem attempts_prepare (h : plan.prepare machine = (.ok rings, prepared)) :
    prepared.attempts = machine.attempts := by
  rcases furnished_or_unfurnished machine.working machine.tree plan.homes with
    ⟨tree, hhomes⟩ | ⟨e, hhomes⟩
  · rw [prepare_of_furnished hhomes] at h
    rw [← (Prod.mk.inj h).2]
  · obtain ⟨tree, hprepare⟩ := prepare_of_unfurnished hhomes
    rw [hprepare] at h
    cases h

/-- A distribution whose source cannot be listed tries no other commands than those of listings. -/
theorem tried_of_unlisted (hprepare : plan.prepare machine = (.ok rings, prepared))
    (hlist : plan.source.list prepared = (.error e, listed)) :
    ∀ attempt ∈ plan.tried machine, ∃ command ∈ [listPublicCommand, listSecretCommand],
      attempt.invocation = plan.source.invocation command [] := by
  obtain ⟨commands, hcommands, listings, hlistings, htries⟩ := list_attempts hlist
  have htried : plan.tried machine = listings := by
    unfold Plan.tried
    rw [carryOut_of_unlisted hprepare hlist, htries.attempts, attempts_prepare hprepare,
      List.drop_left]
  intro attempt hattempt
  rw [htried] at hattempt
  have hmem := List.mem_map_of_mem (f := Attempt.invocation) hattempt
  rw [hlistings] at hmem
  obtain ⟨command, hcommand, hsame⟩ := List.mem_map.mp hmem
  exact ⟨command, hcommands.subset hcommand, hsame.symm⟩

/-- **A keyring is listed as a whole, or the listing is refused.** Without a home nothing is asked;
otherwise it takes two good answers, and the first bad one is the error, be it that the program
could not be started. The tree stays as it is. A distribution whose source is refused ends with that
error, and tries neither an export nor an import. -/
theorem listed_whole_or_refused :
    (∀ (ring : Keyring) (s s' : Machine) (answer : Except Error (List Key)),
      ring.list s = (answer, s') ↔ ring.Lists s answer s')
      ∧ (∀ (ring : Keyring) (s : Machine), (ring.list s).2.tree = s.tree)
      ∧ ∀ (plan : Plan) (machine prepared listed : Machine) (rings : List Keyring) (e : Error),
        plan.prepare machine = (.ok rings, prepared) →
        plan.source.list prepared = (.error e, listed) →
        plan.carryOut machine
            = ({ result := .error e, trace := [.request .source .list], buckets := rings }, listed)
          ∧ ∀ attempt ∈ plan.tried machine,
            (∃ command ∈ [listPublicCommand, listSecretCommand],
              attempt.invocation = plan.source.invocation command [])
            ∧ (∀ half form, attempt.invocation ≠ plan.exporting half form)
            ∧ ∀ i material, attempt.invocation ≠ plan.importing i material := by
  refine ⟨fun ring s s' answer => lists_iff, tree_list, ?_⟩
  intro plan machine prepared listed rings e hprepare hlist
  refine ⟨carryOut_of_unlisted hprepare hlist, fun attempt hattempt => ?_⟩
  obtain ⟨command, hcommand, hsame⟩ := tried_of_unlisted hprepare hlist attempt hattempt
  rw [hsame]
  exact ⟨⟨command, hcommand, rfl⟩, fun half form => listing_ne_exporting hcommand half form,
    fun i material => listing_ne_importing hcommand i material⟩

/-- One key is listed, but the system does not start the program again to tell whether it has a
secret half. -/
theorem listed_whole_or_refused_one_key :
    let busy : IoError := .other "Resource temporarily unavailable (os error 11)"
    let listing := "pub:\nfpr:::::::::" ++ String.ofList (List.replicate 40 '1') ++ ":\n"
    let plan : Plan := { inputHome := "/home", stem := "/part", count := ⟨2, by decide⟩ }
    let machine := Machine.small (fun _ => .printing listing)
      (fun attempts _ => if attempts = [] then none else some busy)
    let prepared := (plan.prepare machine).2
    plan.prepare machine = (.ok plan.buckets, prepared)
      ∧ (plan.source.list prepared).1 = .error (.command busy)
      ∧ (plan.carryOut machine).1.result = .error (.command busy)
      ∧ plan.tried machine
        = [.started (plan.source.invocation listPublicCommand []),
          .refused (plan.source.invocation listSecretCommand []) busy]
      ∧ ∀ attempt ∈ plan.tried machine, ∀ i material,
        attempt.invocation ≠ plan.importing i material := by
  intro busy listing plan machine prepared
  have hprepare : plan.prepare machine = (.ok plan.buckets, prepared) := by
    exact Prod.ext (by decide +kernel) rfl
  have hlist : plan.source.list prepared
      = (.error (.command busy), (plan.source.list prepared).2) := by
    exact Prod.ext (by decide +kernel) rfl
  obtain ⟨hcarried, hcalls⟩ :=
    listed_whole_or_refused.2.2 plan machine prepared _ _ _ hprepare hlist
  exact ⟨hprepare, congrArg Prod.fst hlist, congrArg (·.1.result) hcarried, by decide +kernel,
    fun attempt hattempt => (hcalls attempt hattempt).2.2⟩

end Plan

end KeyBuckets
