import KeyBuckets.CommandLine.Report
import KeyBuckets.Proofs.Accounts
import KeyBuckets.Proofs.Dialogue
import KeyBuckets.Proofs.Overflows

/-!
# Commands — what a distribution prints, and how it ends

A command line that asks for a distribution ends in one of three ways. Without buckets it is
refused. It fails if a home cannot be made or the source cannot be listed. In every other case it
runs to its end and tells where each key goes and how many keys were moved, however many were not.
This is so however the command line was understood; and with the check for overflows too, unless
counters that do not fit stop the program.

* **`Plan.Fails`** — what keeps a distribution from starting.
* **`Plan.Fits`** — no counters stop a distribution with the check.
* **`Tells`** — what a distribution that ran to its end has printed.
* **`run_lawful`** — the three ways, for every command line and every machine.
-/

namespace KeyBuckets

namespace Plan

/-- A home cannot be made, or the source cannot be listed once all of them are. -/
def Fails (plan : Plan) (machine : Machine) : Prop :=
  (∃ e, Unfurnished machine.working machine.tree plan.homes e)
    ∨ ∃ tree e, Furnished machine.working machine.tree plan.homes tree
      ∧ (plan.source.list { machine with tree }).1 = .error e

/-- All counters that are added while the plan is carried out fit. -/
def Fits (plan : Plan) (machine : Machine) : Prop :=
  ∀ tree keys listed, Furnished machine.working machine.tree plan.homes tree →
    plan.source.list { machine with tree } = (.ok keys, listed) →
    plan.distribution.AllWeighed (·.overflows = false) listed keys

end Plan

namespace CommandLine

open Plan

/-! ## Lines -/

/-- The line on where a key goes, if it goes anywhere. -/
def movingLine? (count : BucketCount) (key : Key) : Option String :=
  (Fingerprint.firstDigit? key.fingerprint).map fun value =>
    "Moving key " ++ key.fingerprint ++ " into keyring " ++ (value % count.value).repr ++ "\n"

/-- The lines on how many keys were moved and how many were not. -/
def countLines (moved failed : Nat) : List String :=
  ["Success: " ++ moved.repr ++ "\n", "Failure: " ++ failed.repr ++ "\n"]

section Lines

variable {σ Material : Type} {count : BucketCount}

def textOf (trace : List (Occurrence Material count)) : String :=
  String.join ((eventsOf trace).map eventText)

theorem textOf_append (xs ys : List (Occurrence Material count)) :
    textOf (xs ++ ys) = textOf xs ++ textOf ys := by
  unfold textOf
  rw [eventsOf_append, List.map_append, String.join_append]

/-- The totals are printed on two lines. -/
theorem eventText_finished (moved failed : Nat) :
    eventText (.finished { moved, failed }) = String.join (countLines moved failed) := by
  have hbreak : "\nFailure: " = "\n" ++ "Failure: " := by decide
  simp only [eventText, Totals.describe, countLines, String.join_cons, String.join_nil,
    String.append_empty, hbreak, String.append_assoc]

/-- A key that chooses a bucket has a line, and it is the one that is printed for it. -/
theorem movingLine?_of_choice {key : Key} {i : Fin count.value}
    (h : Bucket.choice? count key.fingerprint = some i) :
    movingLine? count key = some (eventText (.moving key.fingerprint i.val)) := by
  obtain ⟨value, hvalue, hi⟩ := Bucket.choice?_eq_some_iff_firstDigit.mp h
  unfold movingLine?
  rw [hvalue, hi]
  rfl

theorem movingLine?_of_no_choice {key : Key} (h : Bucket.choice? count key.fingerprint = none) :
    movingLine? count key = none := by
  unfold movingLine?
  rw [Bucket.choice?_eq_none_iff_firstDigit.mp h]
  rfl

/-- Of what is reported on a key only the bucket that it goes to is printed. -/
theorem Account.text_events (account : Account) :
    String.join ((account.events count).map eventText)
      = String.join (movingLine? count account.key).toList := by
  unfold Account.events
  cases hchoice : Bucket.choice? count account.key.fingerprint with
  | none =>
    rw [movingLine?_of_no_choice hchoice]
    cases account.skipped <;> rfl
  | some i =>
    rw [movingLine?_of_choice hchoice]
    cases account.skipped <;> simp [eventText]

variable {d : Distribution (StateM σ) Material count} {s s' : σ}

/-- What is printed while keys are settled: a line for each key that goes anywhere. -/
theorem textOf_blocks {settled : List (Key × Outcome)}
    {blocks : List (Occurrence Material count)} (h : Distribution.Blocks d s settled blocks s') :
    textOf blocks = String.join ((settled.map Prod.fst).filterMap (movingLine? count)) := by
  induction h with
  | nil => rfl
  | @cons s s₁ s' key outcome settled block rest hblock _ ih =>
    obtain ⟨skipped, hevents, -⟩ := hblock.exists_account
    have hkey : textOf block = String.join (movingLine? count key).toList := by
      unfold textOf
      rw [hevents]
      exact Account.text_events ⟨key, outcome, skipped⟩
    rw [textOf_append, hkey, ih, List.map_cons, List.filterMap_cons, ← String.join_append]
    cases movingLine? count key <;> rfl

/-- What is printed in a whole run. Both counts are those of the outcomes. -/
theorem textOf_record {settled : List (Key × Outcome)}
    {blocks : List (Occurrence Material count)} (h : Distribution.Blocks d s settled blocks s') :
    textOf (Distribution.Record.ofBlocks settled blocks s').trace
      = String.join ((settled.map Prod.fst).filterMap (movingLine? count)
          ++ countLines (settled.countP (·.2.isSuccess)) (settled.countP (! ·.2.isSuccess))) := by
  have hblocks : String.join ((eventsOf blocks).map eventText)
      = String.join ((settled.map Prod.fst).filterMap (movingLine? count)) := textOf_blocks h
  have hstart : eventText (.started settled.length) = "" := rfl
  unfold textOf
  rw [Distribution.eventsOf_record, Totals.ofOutcomes_eq, List.countP_map, List.countP_map]
  simp only [List.map_append, List.map_cons, List.map_nil, String.join_append, String.join_cons,
    String.join_nil, String.append_empty, hstart, String.empty_append, hblocks,
    eventText_finished, Function.comp_def]

end Lines

/-! ## The three ways -/

/-- What the settings of a command line ask for, with a number of buckets. -/
def Settings.planFor (settings : Settings) (count : BucketCount) : Plan where
  inputHome := settings.inputHome
  stem := settings.stem
  count
  program := settings.program
  includeSecret := !settings.publicOnly
  limit := settings.limit

/-- What a distribution that ran to its end has printed: where each key goes, in the order of the
listing, and how many keys were moved. What the exports and imports come to, those that are not
started included, decides which were. -/
inductive Tells (plan : Plan) (machine : Machine) : String → Machine → Prop where
  | ended {tree : Machine.FileTree} {keys : List Key} {listed final : Machine}
      {dealt : List (Key × Bool)} {turns : List Machine.Turn} {moved failed : Nat}
      (hhomes : Furnished machine.working machine.tree plan.homes tree)
      (hlist : plan.source.list { machine with tree } = (.ok keys, listed))
      (hkeys : dealt.map Prod.fst = keys) (hdealt : Dealings plan dealt turns)
      (hturns : listed.Takes turns final) (hmoved : moved = dealt.countP (·.2))
      (hall : moved + failed = keys.length) :
      Tells plan machine
        (String.join (keys.filterMap (movingLine? plan.count) ++ countLines moved failed)) final

/-- How a distribution with a plan ends. -/
structure Lawful (plan : Plan) (machine : Machine) (report : Report) (final : Machine) :
    Prop where
  status : report.status = 0 ∨ report.status = 1
  fails : report.status = 1 ↔ plan.Fails machine
  silent : report.status ≠ 0 → report.stdout = ""
  tells : report.status = 0 → Tells plan machine report.stdout final

/-- Settings with buckets amount to a plan. -/
theorem plan_planFor {settings : Settings} {count : BucketCount}
    (hcount : count.value = settings.count) : settings.plan = .ok (settings.planFor count) := by
  unfold Settings.plan Plan.new?
  rw [← hcount, BucketCount.ofNat?_value]
  rfl

section Readers

variable {m : Type → Type} [Monad m] {reader : List String → Except UsageError Request}
  {carryOut : (plan : Plan) → m (Plan.Course plan.count)} {arguments : List String}
  {settings : Settings}

/-- Once a command line is understood, its plan is carried out and reported on. -/
theorem runAs_of_plan {plan : Plan} (hreader : reader arguments = .ok (.distribute settings))
    (hplan : settings.plan = .ok plan) :
    runAs reader carryOut arguments = (do return reportOn (← carryOut plan)) := by
  unfold runAs
  rw [hreader]
  simp only [perform, hplan]

/-- Without buckets it makes no difference how plans are carried out. -/
theorem runAs_of_zero (hreader : reader arguments = .ok (.distribute settings))
    (hzero : settings.count = 0) :
    runAs reader carryOut arguments
      = pure { failure := some (.request (.invalidBucketCount 0)) } := by
  have hplan : settings.plan = .error (.invalidBucketCount 0) := by
    unfold Settings.plan Plan.new?
    rw [hzero]
    rfl
  unfold runAs
  rw [hreader]
  simp only [perform, hplan]

end Readers

/-- A plan cannot fail and be carried out to its end. -/
theorem not_fails_of_listed {plan : Plan} {machine listed : Machine} {tree : Machine.FileTree}
    {keys : List Key} (hhomes : Furnished machine.working machine.tree plan.homes tree)
    (hlist : plan.source.list { machine with tree } = (.ok keys, listed)) :
    ¬ plan.Fails machine := by
  rintro (⟨e, hfails⟩ | ⟨tree', e, hhomes', hfails⟩)
  · exact hhomes.not_unfurnished hfails
  · obtain rfl := hhomes.unique hhomes'
    rw [hlist] at hfails
    cases hfails

/-- However far a plan gets, its report is as it should be. -/
theorem lawful_of_carried {plan : Plan} {machine final : Machine} {course : Plan.Course plan.count}
    (h : Carried plan machine course final) : Lawful plan machine (reportOn course) final := by
  cases h with
  | unfurnished hhomes =>
    have hfails : plan.Fails machine := .inl ⟨_, hhomes⟩
    exact ⟨.inr rfl, iff_of_true rfl hfails, fun _ => rfl, fun hzero => by cases hzero⟩
  | @unlisted tree e listed hhomes hlist =>
    have hfails : plan.Fails machine := .inr ⟨tree, e, hhomes, by rw [hlist]⟩
    exact ⟨.inr rfl, iff_of_true rfl hfails, fun _ => rfl, fun hzero => by cases hzero⟩
  | @finished tree listed final settled blocks hhomes hlist hblocks =>
    have hgoes : ¬ plan.Fails machine := not_fails_of_listed hhomes hlist
    obtain ⟨turns, hdealt, hturns⟩ := dealings_of_blocks hblocks
    refine ⟨.inl rfl, iff_of_false Nat.zero_ne_one hgoes, fun hstatus => absurd rfl hstatus,
      fun _ => ?_⟩
    show Tells plan machine (textOf (Distribution.Record.ofBlocks settled blocks final).trace) final
    rw [textOf_record hblocks]
    refine .ended hhomes hlist (by rw [List.map_map]; rfl) hdealt hturns ?_ ?_
    · rw [List.countP_map]
      rfl
    · rw [List.length_map, List.length_eq_countP_add_countP (·.2.isSuccess)]
      simp

/-! ## The check for overflows

A plan that can be carried out so far is carried out with the check as it is without it, unless
counters that do not fit stop the distribution. -/

/-- The homes and the listing are the same with the check, so it comes down to the distribution. -/
theorem fits_iff_unstopped {plan : Plan} {machine : Machine} {tree : Machine.FileTree}
    (hhomes : Furnished machine.working machine.tree plan.homes tree) :
    plan.Fits machine ↔ plan.distribution.Unstopped { machine with tree } := by
  rw [Distribution.unstopped_iff]
  constructor
  · exact fun hfits keys listed hlist => hfits tree keys listed hhomes hlist
  · intro hfits tree' keys listed hhomes' hlist
    obtain rfl := hhomes.unique hhomes'
    exact hfits keys listed hlist

/-- An action that may be stopped, and what comes after it. -/
theorem run_bind {α β : Type} (act : OptionT (StateM Machine) α)
    (next : α → OptionT (StateM Machine) β) (machine : Machine) :
    (act >>= next).run machine
      = (match (act.run machine).1 with
        | some a => (next a).run
        | none => pure none) (act.run machine).2 := rfl

/-- An action that cannot be stopped, and what comes after it. -/
theorem run_bind_of_eq {α β : Type} {act : StateM Machine α}
    {next : α → OptionT (StateM Machine) β} {machine machine' : Machine} {a : α}
    (h : act machine = (a, machine')) :
    ((liftM act : OptionT (StateM Machine) α) >>= next).run machine = (next a).run machine' := by
  show ((next (act machine).1).run) (act machine).2 = _
  rw [h]

/-- Where all homes can be made, the distribution decides. -/
theorem run_carryOutChecked {plan : Plan} {machine : Machine} {tree : Machine.FileTree}
    (hhomes : Furnished machine.working machine.tree plan.homes tree) {final : Machine}
    {result? : Option (Except Error Totals)} {trace : List (Occurrence (List UInt8) plan.count)}
    (hrun : plan.distribution.runChecked { machine with tree } = ((result?, trace), final)) :
    plan.carryOutChecked.run machine
      = (result?.map fun result => { result, trace, buckets := plan.buckets }, final) := by
  have hprepare := prepare_of_furnished hhomes
  refine (run_bind_of_eq hprepare).trans ((run_bind_of_eq hrun).trans ?_)
  cases result? <;> rfl

/-- A plan without counters that overflow is carried out as it is without the check. -/
theorem run_carryOutChecked_of_fits {plan : Plan} {machine : Machine} (hfits : plan.Fits machine) :
    plan.carryOutChecked.run machine
      = (some (plan.carryOut machine).1, (plan.carryOut machine).2) := by
  rcases furnished_or_unfurnished machine.working machine.tree plan.homes with
    ⟨tree, hhomes⟩ | ⟨e, hhomes⟩
  · have hwithstands := ((fits_iff_unstopped hhomes).mp hfits).withstands
    have hrun := Distribution.runTraced_eq_record plan.distribution { machine with tree }
    rw [run_carryOutChecked hhomes hwithstands,
      carryOut_of_prepare (prepare_of_furnished hhomes) hrun]
    rfl
  · obtain ⟨tree, hprepare⟩ := prepare_of_unfurnished hhomes
    rw [carryOut_of_not_prepare hprepare]
    exact run_bind_of_eq hprepare

/-- And any other plan is stopped, as its homes were made and its source was listed. -/
theorem run_carryOutChecked_of_not_fits {plan : Plan} {machine : Machine}
    (hfits : ¬ plan.Fits machine) : (plan.carryOutChecked.run machine).1 = none := by
  rcases furnished_or_unfurnished machine.working machine.tree plan.homes with
    ⟨tree, hhomes⟩ | ⟨e, hhomes⟩
  · have hstopped : (plan.distribution.runChecked { machine with tree }).1.1 = none := by
      rw [fits_iff_unstopped hhomes] at hfits
      exact Option.not_isSome_iff_eq_none.mp hfits
    rw [run_carryOutChecked hhomes (Distribution.runChecked_eq _ _), hstopped]
    rfl
  · exact absurd (fun _ _ _ hhomes' _ => absurd hhomes hhomes'.not_unfurnished) hfits

/-- There is a report if the plan was not stopped. -/
theorem run_reportOn {count : BucketCount} (act : OptionT (StateM Machine) (Plan.Course count))
    (machine : Machine) :
    (do return reportOn (← act) : OptionT (StateM Machine) Report).run machine
      = ((act.run machine).1.map reportOn, (act.run machine).2) := by
  refine (run_bind act _ machine).trans ?_
  cases (act.run machine).1 <;> rfl

/-- **How a distribution ends, for every command line that asks for one.** The reader of command
lines is any one that understands this one so, and the program may check for overflows: then it
ends in the same way, or counters that do not fit stop it. -/
theorem run_lawful {reader : List String → Except UsageError Request} {arguments : List String}
    {settings : Settings} (hreader : reader arguments = .ok (.distribute settings))
    (machine : Machine) :
    let ended := runAs reader Plan.carryOut arguments machine
    let checked := (runAs reader Plan.carryOutChecked arguments).run machine
    (settings.count = 0 → ended.1.status = 2 ∧ ended.1.stdout = "" ∧ ended.2 = machine
        ∧ checked = (some ended.1, ended.2))
      ∧ ∀ count : BucketCount, count.value = settings.count →
        Lawful (settings.planFor count) machine ended.1 ended.2
          ∧ ((settings.planFor count).Fits machine → checked = (some ended.1, ended.2))
          ∧ (¬ (settings.planFor count).Fits machine → checked.1 = none) := by
  intro ended checked
  constructor
  · intro hzero
    have hended : ended = ({ failure := some (.request (.invalidBucketCount 0)) }, machine) :=
      congrFun (runAs_of_zero hreader hzero) machine
    have hchecked : checked
        = (some { failure := some (.request (.invalidBucketCount 0)) }, machine) :=
      congrFun (congrArg OptionT.run (runAs_of_zero hreader hzero)) machine
    rw [hended, hchecked]
    exact ⟨rfl, rfl, rfl, rfl⟩
  · intro count hcount
    have hplan := plan_planFor hcount
    generalize settings.planFor count = plan at hplan ⊢
    have hended : ended = (reportOn (plan.carryOut machine).1, (plan.carryOut machine).2) :=
      (congrFun (runAs_of_plan hreader hplan) machine).trans rfl
    have hchecked : checked = ((plan.carryOutChecked.run machine).1.map reportOn,
        (plan.carryOutChecked.run machine).2) :=
      (congrFun (congrArg OptionT.run (runAs_of_plan hreader hplan)) machine).trans
        (run_reportOn plan.carryOutChecked machine)
    rw [hended, hchecked]
    refine ⟨lawful_of_carried (carried_carryOut plan machine), fun hfits => ?_, fun hfits => ?_⟩
    · rw [run_carryOutChecked_of_fits hfits]
      rfl
    · rw [run_carryOutChecked_of_not_fits hfits]
      rfl

/-- Of three keys one is moved, one starts with no digit, and the export of one is not started. -/
theorem run_lawful_three_keys :
    let digits := String.ofList (List.replicate 40 '3')
    let others := String.ofList (List.replicate 40 '4')
    let listing := "pub:\nfpr:::::::::" ++ digits ++ ":\npub:\nfpr:::::::::Z:\npub:\nfpr:::::::::"
      ++ others ++ ":\n"
    let arguments := ["/home", "/part", "2"]
    let settings : Settings := { inputHome := "/home", stem := "/part", count := 2 }
    let machine := Machine.small
      (fun arguments =>
        if arguments.contains "--list-keys" then .printing listing
        else if arguments.contains "--export" then { stdout := [0x41] }
        else if arguments.contains "--import" then .printing "[GNUPG:] IMPORT_RES 1 0 1\n"
        else {})
      (fun _ invocation =>
        if invocation.arguments.contains others then
          some (.other "Cannot allocate memory (os error 12)")
        else none)
    let ended := runAs read Plan.carryOut arguments machine
    read arguments = .ok (.distribute settings)
      ∧ Lawful (settings.planFor ⟨2, by decide⟩) machine ended.1 ended.2
      ∧ (runAs read Plan.carryOutChecked arguments).run machine = (some ended.1, ended.2)
      ∧ ended.1.status = 0
      ∧ ended.1.stdout
        = "Moving key " ++ digits ++ " into keyring 1\nMoving key " ++ others
          ++ " into keyring 0\nSuccess: 1\nFailure: 2\n" := by
  intro digits others listing arguments settings machine ended
  have hread : read arguments = .ok (.distribute settings) := by rfl
  have hended : ended.1 = { stdout := "Moving key " ++ digits ++ " into keyring 1\nMoving key "
      ++ others ++ " into keyring 0\nSuccess: 1\nFailure: 2\n" } := by decide +kernel
  have hreport : ((runAs read Plan.carryOutChecked arguments).run machine).1.isSome = true := by
    decide +kernel
  obtain ⟨hlawful, hfits, hstopped⟩ := (run_lawful hread machine).2 ⟨2, by decide⟩ rfl
  -- a program that was stopped would have no report
  have hchecked := hfits (Classical.not_not.mp fun hnone => by
    rw [hstopped hnone] at hreport
    cases hreport)
  exact ⟨hread, hlawful, hchecked, congrArg Report.status hended, congrArg Report.stdout hended⟩

end CommandLine

end KeyBuckets
