import KeyBuckets.Proofs.Accounts
import KeyBuckets.Proofs.Answers
import KeyBuckets.Proofs.Dialogue
import KeyBuckets.Proofs.StatusLines
import Mathlib.Data.List.Basic

/-!
# Imports — what the reply to an import is taken for

The reply to an import holds three accounts of it, which need not agree: the last status line, the
ending, and whether the program read all of its input. They are believed in this order, and the
first that says anything decides. A key counts as moved only on the word of a status line, so that
an import that was cut short before it printed one moves nothing.

* **`Keyring.Judged`**, **`Keyring.judged_iff`** — what a reply to an import is taken for.
* **`Visit`**, **`Plan.Vouched`** — the turns taken for a listed key, and when they show that it
  was moved.
* **`Plan.imports_judged`** — the order for one import, and the status lines behind a run.
-/

namespace KeyBuckets

open Machine Text

namespace Machine

/-- The counters that the output of an import says, if it has a status line. -/
def Reply.Counts (reply : Reply) (counts : ImportCounts) : Prop :=
  ∃ rest ws, ImportCounts.LastStatus (Utf8.decode reply.stdout) rest ∧ Worded rest ws
    ∧ ImportCounts.Says ws counts

/-- The output of an import has no status line. -/
def Reply.Uncounted (reply : Reply) : Prop :=
  ∃ ls, Lined (Utf8.decode reply.stdout) ls ∧ ∀ line ∈ ls, ¬ ImportCounts.statusTag <+: line

/-- A status line says that one key was imported, or that one was there before. -/
def Reply.CountsOne (reply : Reply) : Prop :=
  ∃ counts, reply.Counts counts ∧ (counts.imported = 1 ∨ counts.unchanged = 1)

variable {reply : Reply} {counts : ImportCounts}

theorem Reply.counts_iff :
    reply.Counts counts ↔ ImportCounts.read? (Utf8.decode reply.stdout) = some counts :=
  ImportCounts.read?_eq_some_iff.symm

theorem Reply.uncounted_iff :
    reply.Uncounted ↔ ImportCounts.read? (Utf8.decode reply.stdout) = none := by
  rw [ImportCounts.read?_eq_none_iff]
  constructor
  · rintro ⟨ls, hlined, hnone⟩
    rwa [hlined.lines_eq]
  · exact fun hnone => ⟨_, lined_lines _, hnone⟩

end Machine

namespace Keyring

/-! ## One import -/

/-- What the reply to an import is taken for. A status line decides whatever else there is; without
one a bad ending does, then input that was not read, and if nothing is wrong nothing was counted. -/
inductive Judged (ring : Keyring) (reply : Reply) : Except Error ImportCounts → Prop where
  | counted {counts : ImportCounts} (hcounts : reply.Counts counts) : Judged ring reply (.ok counts)
  | failed {e : Error} (hnone : reply.Uncounted) (hending : reply.ending ≠ .exited 0)
      (hfails : ring.Fails reply e) : Judged ring reply (.error e)
  | unread (hnone : reply.Uncounted) (hending : reply.ending = .exited 0)
      (hinput : reply.readsInput = false) : Judged ring reply (.error (.command .brokenPipe))
  | uncounted (hnone : reply.Uncounted) (hending : reply.ending = .exited 0)
      (hinput : reply.readsInput = true) :
      Judged ring reply
        (.ok
          { considered := 0, imported := 0, unchanged := 0
            secretImported := 0, secretUnchanged := 0 })

variable {ring : Keyring} {reply : Reply} {answer : Except Error ImportCounts}
  {material : List UInt8} {s s' : Machine}

theorem judged_importAnswer (ring : Keyring) (reply : Reply) :
    ring.Judged reply (ring.importAnswer reply) := by
  unfold importAnswer
  cases hread : ImportCounts.read? (Utf8.decode reply.stdout) with
  | some counts => exact .counted (Reply.counts_iff.mpr hread)
  | none =>
    have hnone := Reply.uncounted_iff.mpr hread
    dsimp only
    by_cases hending : reply.ending = .exited 0
    · rw [if_neg (not_not_intro (Ending.isSuccess_iff.mpr hending))]
      cases hinput : reply.readsInput with
      | false => exact .unread hnone hending hinput
      | true => exact .uncounted hnone hending hinput
    · rw [if_pos fun hsuccess => hending (Ending.isSuccess_iff.mp hsuccess)]
      exact .failed hnone hending (fails_failure ring reply)

theorem Judged.importAnswer_eq (h : ring.Judged reply answer) :
    ring.importAnswer reply = answer := by
  unfold importAnswer
  cases h with
  | counted hcounts => rw [Reply.counts_iff.mp hcounts]
  | failed hnone hending hfails =>
    rw [Reply.uncounted_iff.mp hnone, fails_iff.mp hfails]
    exact if_pos fun hsuccess => hending (Ending.isSuccess_iff.mp hsuccess)
  | unread hnone hending hinput =>
    rw [Reply.uncounted_iff.mp hnone, hending, hinput]
    rfl
  | uncounted hnone hending hinput =>
    rw [Reply.uncounted_iff.mp hnone, hending, hinput]
    rfl

/-- **What a reply to an import is taken for**, by what is in it. -/
theorem judged_iff : ring.importAnswer reply = answer ↔ ring.Judged reply answer := by
  constructor
  · rintro rfl
    exact judged_importAnswer ring reply
  · exact fun h => h.importAnswer_eq

theorem Asked.importKeys_eq (h : ring.Asked importCommand material s (.ok reply) s') :
    ring.importKeys material s = (ring.importAnswer reply, s') :=
  bind_of_eq h.ask_eq _

/-- An import that succeeds has a reply that counts. -/
theorem exists_asked_of_importKeys {counts : ImportCounts}
    (h : ring.importKeys material s = (.ok counts, s')) :
    ∃ reply, ring.Asked importCommand material s (.ok reply) s'
      ∧ ring.Judged reply (.ok counts) := by
  obtain ⟨asked, s₁, hask, hrest⟩ := exists_of_bind h
  cases asked with
  | error e => cases hrest
  | ok reply =>
    obtain ⟨hanswer, rfl⟩ := Prod.mk.inj hrest
    exact ⟨reply, asked_iff.mp hask, judged_iff.mp hanswer⟩

/-- Without a status line there is no success. -/
theorem Judged.countsOne {counts : ImportCounts} (h : ring.Judged reply (.ok counts))
    (hsuccess : (Outcome.ofCounts counts).isSuccess = true) : reply.CountsOne := by
  cases h with
  | counted hcounts => exact ⟨counts, hcounts, Outcome.isSuccess_ofCounts.mp hsuccess⟩
  | uncounted => cases hsuccess

theorem accepts_iff : ring.accepts reply = true ↔ ring.inTime reply = true ∧ reply.CountsOne := by
  unfold accepts Reply.CountsOne
  rw [Bool.and_eq_true, Option.any_eq_true]
  refine and_congr_right fun _ => exists_congr fun counts => ?_
  rw [Reply.counts_iff, Bool.or_eq_true, decide_eq_true_iff, decide_eq_true_iff]

/-- Whatever the source is, a key counts as moved into a keyring only on the word of a status line
in the reply to the import of its public half. -/
theorem countsOne_of_movePublic {count : BucketCount}
    (d : Distribution (StateM Machine) (List UInt8) count) (key : Key) (ring : Keyring)
    (s : Machine) (h : (d.movePublic key ring.vault s).1.isSuccess = true) :
    ∃ material s₁ s₂ reply, d.source.exportPublic key.fingerprint s = (.ok material, s₁)
      ∧ ring.Asked importCommand material s₁ (.ok reply) s₂ ∧ reply.CountsOne := by
  unfold Distribution.movePublic at h
  rcases hexport : d.source.exportPublic key.fingerprint s with ⟨_ | material, s₁⟩
  · rw [bind_of_eq hexport] at h
    cases h
  · rw [bind_of_eq hexport] at h
    dsimp only at h
    rcases himport : ring.importKeys material s₁ with ⟨_ | counts, s₂⟩
    · have hvault : ring.vault.importKeys material s₁ = (.error _, s₂) := himport
      rw [bind_of_eq hvault] at h
      cases h
    · have hvault : ring.vault.importKeys material s₁ = (.ok counts, s₂) := himport
      rw [bind_of_eq hvault] at h
      obtain ⟨reply, hasked, hjudged⟩ := exists_asked_of_importKeys himport
      exact ⟨material, s₁, s₂, reply, rfl, hasked, hjudged.countsOne h⟩

end Keyring

/-! ## The imports of a run -/

/-- A listed key, what became of it, and the turns that were taken for it. -/
structure Visit where
  key : Key
  outcome : Outcome
  turns : List Turn

namespace Plan

open Keyring

/-- The first turns for a key are an export of its public half and the import of what that gave, and
a status line in the reply to the import counts one key. -/
def Vouched (plan : Plan) (visit : Visit) : Prop :=
  ∃ i form given reply rest, Bucket.choice? plan.count visit.key.fingerprint = some i
    ∧ Fingerprint.canonical visit.key.fingerprint = .ok form
    ∧ visit.turns = ⟨plan.exporting .publicHalf form, .ok given⟩
        :: ⟨plan.importing i given.stdout, .ok reply⟩ :: rest
    ∧ (plan.bucket i).inTime reply = true ∧ reply.CountsOne

variable {plan : Plan} {visit : Visit} {s s' : Machine}

theorem vouched_of_handling {form : String} {i : Fin plan.count.value} {turns more : List Turn}
    {answer : Option Reply} (hchoice : Bucket.choice? plan.count visit.key.fingerprint = some i)
    (hform : Fingerprint.canonical visit.key.fingerprint = .ok form)
    (h : Handling plan .publicHalf form i turns answer) (hturns : visit.turns = turns ++ more)
    (haccepts : answer.any (plan.bucket i).accepts = true) : plan.Vouched visit := by
  cases h with
  | withheld => cases haccepts
  | @handed given answer hgives =>
    cases answer with
    | error cause => cases haccepts
    | ok reply =>
      obtain ⟨hintime, hcounts⟩ := accepts_iff.mp haccepts
      exact ⟨i, form, given, reply, more, hchoice, hform, hturns, hintime, hcounts⟩

/-- A key counts as moved exactly if its turns show that it was. -/
theorem vouched_iff_of_dealing (h : Dealing plan visit.key visit.turns visit.outcome.isSuccess) :
    visit.outcome.isSuccess = true ↔ plan.Vouched visit := by
  rcases visit with ⟨key, outcome, turns⟩
  dsimp only at h ⊢
  generalize outcome.isSuccess = moved at h ⊢
  constructor
  · rintro rfl
    cases h with
    | publicOnly hchoice hform hpublic hmoved _ =>
      exact vouched_of_handling hchoice hform hpublic (List.append_nil _).symm hmoved.symm
    | bothHalves hchoice hform hpublic hmoved _ _ =>
      exact vouched_of_handling hchoice hform hpublic rfl hmoved.symm
  · rintro ⟨i, form, given, reply, rest, hchoice, hform, hturns, hintime, hcounts⟩
    dsimp only at hchoice hform hturns
    cases h with
    | unassigned => cases hturns
    | invalid => cases hturns
    | publicOnly hchoice' hform' hpublic hmoved _ =>
      obtain rfl := Option.some.inj (hchoice'.symm.trans hchoice)
      cases hpublic with
      | withheld => cases hturns
      | handed =>
        obtain ⟨-, hsecond⟩ := List.cons.inj hturns
        obtain ⟨-, hanswer⟩ := Turn.mk.inj (List.cons.inj hsecond).1
        rw [hmoved, hanswer]
        exact accepts_iff.mpr ⟨hintime, hcounts⟩
    | bothHalves _ _ _ _ hfollows _ => exact hfollows.1

/-- The keys of a run are visited one after the other. -/
theorem exists_visits {settled : List (Key × Outcome)}
    {blocks : List (Occurrence (List UInt8) plan.count)}
    (h : Distribution.Blocks plan.distribution s settled blocks s') :
    ∃ visits : List Visit, (visits.map fun visit => (visit.key, visit.outcome)) = settled
      ∧ s.Takes (visits.flatMap (·.turns)) s'
      ∧ ∀ visit ∈ visits, visit.outcome.isSuccess = true ↔ plan.Vouched visit := by
  induction h with
  | nil => exact ⟨[], rfl, .none, List.forall_mem_nil _⟩
  | @cons s s₁ s' key outcome settled block rest hblock _ ih =>
    obtain ⟨turns, hdealing, htakes⟩ := dealing_of_block hblock
    obtain ⟨visits, rfl, htakes', hvisits⟩ := ih
    refine ⟨⟨key, outcome, turns⟩ :: visits, rfl, htakes.trans htakes', ?_⟩
    exact List.forall_mem_cons.mpr ⟨vouched_iff_of_dealing hdealing, hvisits⟩

/-- The visits of a whole run: none if it did not get so far. -/
theorem exists_visits_carryOut (plan : Plan) (machine : Machine) :
    ∃ (tree : FileTree) (tried : List Attempt) (start : Machine) (visits : List Visit),
      { machine with tree }.Tries tried start
      ∧ outcomesOf (plan.carryOut machine).1.trace
        = visits.map (fun visit => (visit.key.fingerprint, visit.outcome))
      ∧ (∀ totals, (plan.carryOut machine).1.result = .ok totals →
          totals.moved = visits.countP (·.outcome.isSuccess))
      ∧ start.Takes (visits.flatMap (·.turns)) (plan.carryOut machine).2
      ∧ ∀ visit ∈ visits, visit.outcome.isSuccess = true ↔ plan.Vouched visit := by
  have hcarried := carried_carryOut plan machine
  generalize (plan.carryOut machine).1 = course at hcarried ⊢
  generalize (plan.carryOut machine).2 = final at hcarried ⊢
  cases hcarried with
  | @unfurnished tree e _ =>
    refine ⟨tree, [], _, [], .none _, rfl, fun totals htotals => ?_, .none, List.forall_mem_nil _⟩
    cases htotals
  | @unlisted tree e _ _ hlist =>
    obtain ⟨commands, -, listings, -, htries⟩ := list_attempts hlist
    refine ⟨tree, listings, final, [], htries, rfl, fun totals htotals => ?_, .none,
      List.forall_mem_nil _⟩
    cases htotals
  | @finished tree start final settled blocks hhomes hlist hblocks =>
    obtain ⟨commands, -, listings, -, htries⟩ := list_attempts hlist
    obtain ⟨visits, rfl, htakes, hvisits⟩ := exists_visits hblocks
    refine ⟨tree, listings, start, visits, htries, ?_, fun totals htotals => ?_, htakes, hvisits⟩
    · rw [Distribution.outcomesOf_ofBlocks, hblocks.outcomesOf_eq, List.map_map]
      rfl
    · obtain rfl := Except.ok.inj htotals
      rw [Totals.ofOutcomes_eq, List.map_map, List.countP_map]
      rfl

/-- **What an import is taken for.** Once the program has replied in time, the first of three rules
decides: the last status line, a bad ending, and input that was not read. Whatever the source is, a
key is moved only on the word of a status line; and the keys that a run counts as moved are those
whose public halves were imported with a status line that counts one key. -/
theorem imports_judged :
    (∀ (ring : Keyring) (material : List UInt8) (s : Machine),
      ring.starts importCommand material s = .ok () →
      ring.inTime (s.reply s.history (ring.invocation importCommand material)) = true →
      ∀ answer s', ring.importKeys material s = (answer, s')
        ↔ s.Tries [.started (ring.invocation importCommand material)] s'
          ∧ ring.Judged (s.reply s.history (ring.invocation importCommand material)) answer)
      ∧ (∀ (count : BucketCount) (d : Distribution (StateM Machine) (List UInt8) count) (key : Key)
          (ring : Keyring) (s : Machine),
        (d.movePublic key ring.vault s).1.isSuccess = true →
        ∃ material s₁ s₂ reply, d.source.exportPublic key.fingerprint s = (.ok material, s₁)
          ∧ ring.Asked importCommand material s₁ (.ok reply) s₂ ∧ reply.CountsOne)
      ∧ ∀ (plan : Plan) (machine : Machine), ∃ (tree : FileTree) (tried : List Attempt)
          (start : Machine) (visits : List Visit),
        { machine with tree }.Tries tried start
        ∧ outcomesOf (plan.carryOut machine).1.trace
          = visits.map (fun visit => (visit.key.fingerprint, visit.outcome))
        ∧ (∀ totals, (plan.carryOut machine).1.result = .ok totals →
            totals.moved = visits.countP (·.outcome.isSuccess))
        ∧ start.Takes (visits.flatMap (·.turns)) (plan.carryOut machine).2
        ∧ ∀ visit ∈ visits, visit.outcome.isSuccess = true ↔ plan.Vouched visit := by
  refine ⟨fun ring material s hstart hintime answer s' => ?_,
    fun count d key ring s => countsOne_of_movePublic d key ring s, exists_visits_carryOut⟩
  have hasked : ring.Asked importCommand material s
      (.ok (s.reply s.history (ring.invocation importCommand material)))
      { s with attempts := s.attempts ++ [.started (ring.invocation importCommand material)] } :=
    .answered hstart rfl rfl hintime
  rw [hasked.importKeys_eq, Prod.mk.injEq, judged_iff]
  exact ⟨fun ⟨hjudged, htries⟩ => ⟨htries.symm, hjudged⟩,
    fun ⟨htries, hjudged⟩ => ⟨hjudged, htries.symm⟩⟩

/-- An import that crashes before it has read its input, and after it has printed its status line,
moves the key. -/
theorem imports_judged_crash :
    let name := String.ofList (List.replicate 40 '1')
    let key : Key := ⟨name, "", false⟩
    let plan : Plan := { inputHome := "/home", stem := "/part", count := ⟨2, by decide⟩ }
    let machine := Machine.small fun arguments =>
      if arguments.contains "--list-keys" then .printing ("pub:\nfpr:::::::::" ++ name ++ ":\n")
      else if arguments.contains "--import" then
        { Reply.printing "[GNUPG:] IMPORT_RES 1 0 1 0 0\n" with
          ending := .killed 9, readsInput := false }
      else { stdout := [0x21] }
    let bucket := plan.bucket ⟨0, by decide⟩
    let reply := machine.reply [] (bucket.invocation importCommand [0x21])
    bucket.starts importCommand [0x21] machine = .ok () ∧ bucket.inTime reply = true
      ∧ bucket.Judged reply (bucket.importKeys [0x21] machine).1
      ∧ (plan.distribution.movePublic key bucket.vault machine).1.isSuccess = true
      ∧ (∃ material s₁ s₂ counted, bucket.Asked importCommand material s₁ (.ok counted) s₂
          ∧ counted.CountsOne)
      ∧ (plan.carryOut machine).1.result = .ok { moved := 1, failed := 0 }
      ∧ ∃ visits : List Visit, 1 = visits.countP (·.outcome.isSuccess)
        ∧ ∀ visit ∈ visits, visit.outcome.isSuccess = true ↔ plan.Vouched visit := by
  intro name key plan machine bucket reply
  have hstart : bucket.starts importCommand [0x21] machine = .ok () := by decide +kernel
  have hintime : bucket.inTime reply = true := by decide +kernel
  have hmoved : (plan.distribution.movePublic key bucket.vault machine).1.isSuccess = true := by
    decide +kernel
  have hresult : (plan.carryOut machine).1.result = .ok { moved := 1, failed := 0 } := by
    decide +kernel
  obtain ⟨hjudged, hcounts, hvisits⟩ := imports_judged
  obtain ⟨-, -, -, visits, -, -, htotals, -, hvouched⟩ := hvisits plan machine
  obtain ⟨material, s₁, s₂, counted, -, hasked, hone⟩ :=
    hcounts plan.count plan.distribution key bucket machine hmoved
  exact ⟨hstart, hintime, ((hjudged bucket [0x21] machine hstart hintime _ _).mp rfl).2,
    hmoved, ⟨material, s₁, s₂, counted, hasked, hone⟩, hresult, visits, htotals _ hresult, hvouched⟩

end Plan

end KeyBuckets
