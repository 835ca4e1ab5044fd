import KeyBuckets.Proofs.Handover
import Mathlib.Data.List.Basic

/-!
# Exports — material is handed on as it was printed

An export either gives all that the program printed, octet by octet, or it is an error. A bad ending
makes nothing of what was printed before it, and an output with nothing in it is no material either.
So what a bucket gets to import is the whole output of the export right before it.

* **`Keyring.Yields`**, **`Keyring.yields_iff`** — what the reply to an export yields.
* **`Keyring.Exported`**, **`Keyring.exported_iff`** — what comes of one export.
* **`Plan.Fed`**, **`Plan.fed_of_dealings`** — imports with the outputs of the exports before them.
* **`Plan.exports_whole`** — when an export succeeds and with what, and where a run takes it.
-/

namespace KeyBuckets

open Machine Text

namespace Keyring

/-! ## One export -/

/-- What the reply to an export yields. The ending decides whether the output counts at all, and
what is printed as an error counts only if it does not. -/
inductive Yields (ring : Keyring) (form : String) (reply : Reply) :
    Except Error (List UInt8) → Prop where
  | given (hending : reply.ending = .exited 0) (hsome : reply.stdout ≠ []) :
      Yields ring form reply (.ok reply.stdout)
  | unknown (hending : reply.ending = .exited 0) (hnone : reply.stdout = []) :
      Yields ring form reply (.error (.keyNotFound form))
  | failed {e : Error} (hending : reply.ending ≠ .exited 0) (hfails : ring.Fails reply e) :
      Yields ring form reply (.error e)

/-- The reply that a machine gives to an export. -/
def exportReply (ring : Keyring) (half : Half) (form : String) (s : Machine) : Reply :=
  s.reply s.history (ring.invocation (Plan.exportCommand half form) [])

/-- If it comes to an export of the key with some text as its fingerprint, the program starts and
replies in time. -/
def Replies (ring : Keyring) (half : Half) (text : String) (s : Machine) : Prop :=
  ∀ form, Fingerprint.canonical text = .ok form →
    ring.starts (Plan.exportCommand half form) [] s = .ok ()
      ∧ ring.inTime (ring.exportReply half form s) = true

/-- What comes of an export by a program that replies. It is asked for at most once. -/
inductive Exported (ring : Keyring) (half : Half) (text : String) (s : Machine) :
    Except Error (List UInt8) → Machine → Prop where
  | invalid {e : Error} (hform : Fingerprint.canonical text = .error e) :
      Exported ring half text s (.error e) s
  | replied {form : String} {answer : Except Error (List UInt8)} {s' : Machine}
      (hform : Fingerprint.canonical text = .ok form)
      (htries : s.Tries [.started (ring.invocation (Plan.exportCommand half form) [])] s')
      (hyields : ring.Yields form (ring.exportReply half form s) answer) :
      Exported ring half text s answer s'

variable {ring : Keyring} {reply : Reply} {half : Half} {text form : String}
  {answer : Except Error (List UInt8)} {s s' : Machine}

theorem yields_exportAnswer (ring : Keyring) (form : String) (reply : Reply) :
    ring.Yields form reply (ring.exportAnswer form reply) := by
  unfold exportAnswer
  by_cases hending : reply.ending = .exited 0
  · rw [output_of_success hending]
    cases hout : reply.stdout with
    | nil => exact .unknown hending hout
    | cons octet octets =>
      have hgiven : ring.Yields form reply (.ok reply.stdout) := .given hending (by simp [hout])
      rwa [hout] at hgiven
  · rw [output_of_failure hending]
    exact .failed hending (fails_failure ring reply)

theorem Yields.exportAnswer_eq (h : ring.Yields form reply answer) :
    ring.exportAnswer form reply = answer := by
  unfold exportAnswer
  cases h with
  | given hending hsome =>
    rw [output_of_success hending]
    cases hout : reply.stdout with
    | nil => exact absurd hout hsome
    | cons octet octets => rfl
  | unknown hending hnone => rw [output_of_success hending, hnone]
  | failed hending hfails => rw [output_of_failure hending, fails_iff.mp hfails]

/-- **What the reply to an export yields**, by its ending and its output. -/
theorem yields_iff : ring.exportAnswer form reply = answer ↔ ring.Yields form reply answer := by
  constructor
  · rintro rfl
    exact yields_exportAnswer ring form reply
  · exact fun h => h.exportAnswer_eq

/-- Material is the whole output of a reply with a good ending, and there is some. -/
theorem yields_ok_iff {octets : List UInt8} :
    ring.Yields form reply (.ok octets)
      ↔ reply.ending = .exited 0 ∧ reply.stdout = octets ∧ octets ≠ [] := by
  constructor
  · rintro (⟨hending, hsome⟩ | _ | _)
    exact ⟨hending, rfl, hsome⟩
  · rintro ⟨hending, rfl, hsome⟩
    exact .given hending hsome

theorem Asked.askExport_eq {command : String → List String}
    (hform : Fingerprint.canonical text = .ok form)
    (h : ring.Asked (command form) [] s (.ok reply) s') :
    ring.askExport command text s = (ring.exportAnswer form reply, s') := by
  unfold askExport
  rw [hform]
  exact bind_of_eq h.ask_eq _

/-- **What comes of an export** by a program that replies. -/
theorem exported_iff (h : ring.Replies half text s) :
    ring.vault.exportHalf half text s = (answer, s') ↔ ring.Exported half text s answer s' := by
  rw [Plan.exportHalf_vault]
  cases hform : Fingerprint.canonical text with
  | error e =>
    rw [askExport_of_error hform, Prod.mk.injEq]
    constructor
    · rintro ⟨rfl, rfl⟩
      exact .invalid hform
    · rintro (⟨hinvalid⟩ | ⟨hvalid, -, -⟩)
      · obtain rfl := Except.error.inj (hform.symm.trans hinvalid)
        exact ⟨rfl, rfl⟩
      · cases hform.symm.trans hvalid
  | ok form =>
    obtain ⟨hstart, hintime⟩ := h form hform
    have hasked : ring.Asked (Plan.exportCommand half form) [] s
        (.ok (ring.exportReply half form s))
        { s with attempts := s.attempts
            ++ [.started (ring.invocation (Plan.exportCommand half form) [])] } :=
      .answered hstart rfl rfl hintime
    rw [hasked.askExport_eq hform, Prod.mk.injEq, yields_iff]
    constructor
    · rintro ⟨hyields, htries⟩
      exact .replied hform htries.symm hyields
    · rintro (⟨hinvalid⟩ | ⟨hvalid, htries, hyields⟩)
      · cases hform.symm.trans hinvalid
      · obtain rfl := Except.ok.inj (hform.symm.trans hvalid)
        exact ⟨hyields, htries.symm⟩

/-- An export succeeds exactly if the fingerprint has a canonical form and the reply yields
material. -/
theorem exportHalf_eq_ok_iff (h : ring.Replies half text s) {octets : List UInt8} :
    (ring.vault.exportHalf half text s).1 = .ok octets
      ↔ ∃ form, Fingerprint.canonical text = .ok form
        ∧ (ring.exportReply half form s).ending = .exited 0
        ∧ (ring.exportReply half form s).stdout = octets ∧ octets ≠ [] := by
  rcases hexport : ring.vault.exportHalf half text s with ⟨answer, s'⟩
  have hexported := (exported_iff h).mp hexport
  constructor
  · rintro rfl
    cases hexported with
    | replied hform _ hyields => exact ⟨_, hform, yields_ok_iff.mp hyields⟩
  · rintro ⟨form, hform, hmaterial⟩
    cases hexported with
    | invalid hinvalid => cases hform.symm.trans hinvalid
    | replied hvalid _ hyields =>
      obtain rfl := Except.ok.inj (hform.symm.trans hvalid)
      have hgiven : ring.Yields form (ring.exportReply half form s) (.ok octets) :=
        yields_ok_iff.mpr hmaterial
      exact hyields.exportAnswer_eq.symm.trans hgiven.exportAnswer_eq

theorem gives_iff :
    ring.gives reply = true
      ↔ ring.inTime reply = true ∧ reply.ending = .exited 0 ∧ reply.stdout ≠ [] := by
  unfold gives
  rw [Bool.and_eq_true, Bool.and_eq_true, Ending.isSuccess_iff, Bool.not_eq_true',
    List.isEmpty_eq_false_iff, and_assoc]

end Keyring

namespace Plan

open Keyring

/-! ## The imports of a run -/

/-- Turns in which every import comes right after an export, and gets all that this one printed.
Any of them may be refused. -/
inductive Fed (plan : Plan) : List Turn → Prop where
  | nil : Fed plan []
  | withheld {half : Half} {form : String} {answer : Except IoError Reply} {turns : List Turn}
      (hturns : Fed plan turns) : Fed plan (⟨plan.exporting half form, answer⟩ :: turns)
  | handed {half : Half} {form : String} {i : Fin plan.count.value} {given : Reply}
      {answer : Except IoError Reply} {turns : List Turn} (hgives : plan.source.gives given = true)
      (hturns : Fed plan turns) :
      Fed plan
        (⟨plan.exporting half form, .ok given⟩ :: ⟨plan.importing i given.stdout, answer⟩ :: turns)

variable {plan : Plan}

theorem Fed.append {turns more : List Turn} (h : Fed plan turns) (h' : Fed plan more) :
    Fed plan (turns ++ more) := by
  induction h with
  | nil => exact h'
  | withheld _ ih => exact .withheld ih
  | handed hgives _ ih => exact .handed hgives ih

theorem fed_of_handling {half : Half} {form : String} {i : Fin plan.count.value}
    {turns : List Turn} {answer : Option Reply} (h : Handling plan half form i turns answer) :
    Fed plan turns := by
  cases h with
  | withheld => exact .withheld .nil
  | handed hgives => exact .handed hgives .nil

theorem fed_of_dealing {key : Key} {turns : List Turn} {moved : Bool}
    (h : Dealing plan key turns moved) : Fed plan turns := by
  cases h with
  | unassigned => exact .nil
  | invalid => exact .nil
  | publicOnly _ _ hpublic => exact fed_of_handling hpublic
  | bothHalves _ _ hpublic _ _ hsecret =>
    exact (fed_of_handling hpublic).append (fed_of_handling hsecret)

/-- Whatever keys are dealt with, imports get what was exported for them. -/
theorem fed_of_dealings {dealt : List (Key × Bool)} {turns : List Turn}
    (h : Dealings plan dealt turns) : Fed plan turns := by
  induction h with
  | nil => exact .nil
  | cons hkey _ ih => exact (fed_of_dealing hkey).append ih

/-- The turn before an import is the export that it is fed by. -/
theorem Fed.exists_export {turns : List Turn} (h : Fed plan turns) {before after : List Turn}
    {turn : Turn} {i : Fin plan.count.value} {material : List UInt8}
    (hturns : turns = before ++ turn :: after)
    (himport : turn.invocation = plan.importing i material) :
    ∃ earlier half form given, before = earlier ++ [⟨plan.exporting half form, .ok given⟩]
      ∧ plan.source.gives given = true ∧ material = given.stdout := by
  induction h generalizing before with
  | nil => simp at hturns
  | @withheld half form answer turns _ ih =>
    cases before with
    | nil =>
      obtain ⟨rfl, -⟩ := List.cons.inj hturns
      exact absurd himport (exporting_ne_importing half form i material)
    | cons first before =>
      obtain ⟨earlier, half', form', given, rfl, hgiven⟩ := ih (List.cons.inj hturns).2
      exact ⟨first :: earlier, half', form', given, rfl, hgiven⟩
  | @handed half form j given answer turns hgives _ ih =>
    rcases before with _ | ⟨first, _ | ⟨second, before⟩⟩
    · obtain ⟨rfl, -⟩ := List.cons.inj hturns
      exact absurd himport (exporting_ne_importing half form i material)
    · obtain ⟨rfl, hrest⟩ := List.cons.inj hturns
      obtain ⟨rfl, -⟩ := List.cons.inj hrest
      exact ⟨[], half, form, given, rfl, hgives, (congrArg Invocation.input himport).symm⟩
    · obtain ⟨earlier, half', form', given', rfl, hgiven⟩ :=
        ih (List.cons.inj (List.cons.inj hturns).2).2
      exact ⟨first :: second :: earlier, half', form', given', rfl, hgiven⟩

/-- An import of a run is not among the listings that the run starts with. -/
theorem importing_after_listing {listings before after rest : List Invocation}
    {i : Fin plan.count.value} {material : List UInt8}
    (hlistings : ∀ call ∈ listings, ∃ command ∈ [listPublicCommand, listSecretCommand],
      call = plan.source.invocation command [])
    (h : listings ++ rest = before ++ plan.importing i material :: after) :
    ∃ between, before = listings ++ between
      ∧ rest = between ++ plan.importing i material :: after := by
  rcases List.append_eq_append_iff.mp h with ⟨between, hbefore, hrest⟩ | ⟨more, hlist, himport⟩
  · exact ⟨between, hbefore, hrest⟩
  · cases more with
    | nil => exact ⟨[], by rw [hlist, List.append_nil, List.append_nil], himport.symm⟩
    | cons listing more =>
      -- the import would be one of the listings
      obtain ⟨rfl, -⟩ := List.cons.inj himport
      obtain ⟨command, hcommand, hsame⟩ := hlistings (plan.importing i material) (by simp [hlist])
      exact absurd hsame.symm (listing_ne_importing hcommand i material)

/-- The turn of a started invocation, and what was started before it. -/
theorem exists_turn_of_started {turns : List Turn} {before after : List Invocation}
    {call : Invocation} (h : turns.filterMap Turn.started? = before ++ call :: after) :
    ∃ turnsBefore turn turnsAfter, turns = turnsBefore ++ turn :: turnsAfter
      ∧ turnsBefore.filterMap Turn.started? = before ∧ turn.invocation = call := by
  obtain ⟨first, rest, rfl, hfirst, hrest⟩ := List.filterMap_eq_append_iff.mp h
  obtain ⟨refused, turn, turnsAfter, rfl, hrefused, hturn, -⟩ :=
    List.filterMap_eq_cons_iff.mp hrest
  have hnone : refused.filterMap Turn.started? = [] := List.filterMap_eq_nil_iff.mpr hrefused
  refine ⟨first ++ refused, turn, turnsAfter, (List.append_assoc ..).symm, ?_,
    turn.eq_of_started hturn⟩
  rw [List.filterMap_append, hfirst, hnone, List.append_nil]

/-- What a run imports is what it exported right before, as the program printed it then. -/
theorem exists_export_of_import {machine : Machine} {before after : List Invocation}
    {i : Fin plan.count.value} {material : List UInt8}
    (h : plan.invocations machine = before ++ plan.importing i material :: after) :
    ∃ earlier half form given, before = earlier ++ [plan.exporting half form]
      ∧ given = machine.reply (machine.history ++ earlier) (plan.exporting half form)
      ∧ plan.source.gives given = true ∧ material = given.stdout := by
  obtain ⟨commands, tree, start, dealt, turns, hcommands, ⟨listings, hlistings, htries⟩, -, hdealt,
    htakes⟩ := plan.takes_carryOut machine
  have hcalls : plan.invocations machine
      = listings.filterMap Attempt.started? ++ turns.filterMap Turn.started? := by
    unfold invocations
    rw [tried_eq_of_tries (htries.trans htakes.tries), List.filterMap_append, started_of_turns]
  obtain ⟨between, rfl, hturns⟩ :=
    importing_after_listing (listing_of_started hcommands hlistings) (hcalls.symm.trans h)
  obtain ⟨turnsBefore, turn, turnsAfter, rfl, rfl, himport⟩ := exists_turn_of_started hturns
  obtain ⟨earlier, half, form, given, rfl, hgives, hmaterial⟩ :=
    (fed_of_dealings hdealt).exists_export rfl himport
  have hreply : given = start.reply (start.history ++ earlier.filterMap Turn.started?)
      (plan.exporting half form) := htakes.reply_eq (List.append_assoc earlier _ _)
  rw [htries.reply, htries.history, List.append_assoc] at hreply
  refine ⟨_, half, form, given, ?_, hreply, hgives, hmaterial⟩
  rw [List.filterMap_append, List.append_assoc]
  rfl

/-- **Exports give everything or nothing.** An export by a program that replies succeeds exactly if
the text has a canonical form, the ending is good and something was printed, and then it gives what
was printed; otherwise the ending, the output and what was said decide which error it is. And in a
run, each import gets the whole output of the export right before it. -/
theorem exports_whole :
    (∀ (ring : Keyring) (half : Half) (text : String) (s : Machine), ring.Replies half text s →
      (∀ answer s', ring.vault.exportHalf half text s = (answer, s')
        ↔ ring.Exported half text s answer s')
      ∧ ∀ octets, (ring.vault.exportHalf half text s).1 = .ok octets
        ↔ ∃ form, Fingerprint.canonical text = .ok form
          ∧ (ring.exportReply half form s).ending = .exited 0
          ∧ (ring.exportReply half form s).stdout = octets ∧ octets ≠ [])
      ∧ ∀ (plan : Plan) (machine : Machine) (before after : List Invocation)
          (i : Fin plan.count.value) (material : List UInt8),
        plan.invocations machine = before ++ plan.importing i material :: after →
        ∃ earlier half form given, before = earlier ++ [plan.exporting half form]
          ∧ given = machine.reply (machine.history ++ earlier) (plan.exporting half form)
          ∧ plan.source.inTime given = true ∧ given.ending = .exited 0
          ∧ material = given.stdout ∧ material ≠ [] := by
  refine ⟨fun ring half text s hreplies => ⟨fun answer s' => exported_iff hreplies,
    fun octets => exportHalf_eq_ok_iff hreplies⟩, ?_⟩
  intro plan machine before after i material hcalls
  obtain ⟨earlier, half, form, given, hbefore, hreply, hgives, rfl⟩ :=
    exists_export_of_import hcalls
  obtain ⟨hintime, hending, hsome⟩ := gives_iff.mp hgives
  exact ⟨earlier, half, form, given, hbefore, hreply, hintime, hending, rfl, hsome⟩

/-- A key is exported with a warning and imported as it was printed; its secret half is not, since
the program is killed while it prints it. -/
theorem exports_whole_killed :
    let name := String.ofList (List.replicate 40 '1')
    let plan : Plan := { inputHome := "/home", stem := "/part", count := ⟨2, by decide⟩ }
    let machine := Machine.small fun arguments =>
      if arguments.contains "--list-keys" then .printing ("pub:\nfpr:::::::::" ++ name ++ ":\n")
      else if arguments.contains "--list-secret-keys" then
        .printing ("sec:\nfpr:::::::::" ++ name ++ ":\n")
      else if arguments.contains "--export" then
        { stdout := [0x99, 0xff, 0x00], stderr := Utf8.ascii "Permission denied".toList }
      else if arguments.contains "--export-secret-keys" then
        { stdout := [0x95], stderr := Utf8.ascii "/home: No such file or directory".toList
          ending := .killed 9 }
      else .printing "[GNUPG:] IMPORT_RES 1 0 1 0 0\n"
    plan.source.Replies .publicHalf ("0x" ++ name) machine
      ∧ plan.source.Replies .secretHalf name machine
      ∧ (plan.source.vault.exportHalf .publicHalf ("0x" ++ name) machine).1
        = .ok [0x99, 0xff, 0x00]
      ∧ plan.source.Exported .secretHalf name machine (.error .noKeyring)
        (plan.source.vault.exportHalf .secretHalf name machine).2
      ∧ plan.invocations machine
        = (plan.invocations machine).take 3 ++ plan.importing ⟨1, by decide⟩ [0x99, 0xff, 0x00]
          :: (plan.invocations machine).drop 4
      ∧ ∃ earlier half form,
        (plan.invocations machine).take 3 = earlier ++ [plan.exporting half form]
        ∧ (machine.reply (machine.history ++ earlier) (plan.exporting half form)).stdout
          = [0x99, 0xff, 0x00] := by
  intro name plan machine
  have hname : ∀ text form, text = name ∨ text = "0x" ++ name →
      Fingerprint.canonical text = .ok form → form = name := by
    have hforms : Fingerprint.canonical name = .ok name
        ∧ Fingerprint.canonical ("0x" ++ name) = .ok name := by decide +kernel
    rintro text form (rfl | rfl) hform
    · exact Except.ok.inj (hform.symm.trans hforms.1)
    · exact Except.ok.inj (hform.symm.trans hforms.2)
  have hpublic : plan.source.Replies .publicHalf ("0x" ++ name) machine := by
    intro form hform
    rw [hname _ form (.inr rfl) hform]
    decide +kernel
  have hsecret : plan.source.Replies .secretHalf name machine := by
    intro form hform
    rw [hname _ form (.inl rfl) hform]
    decide +kernel
  have hrefused : plan.source.vault.exportHalf .secretHalf name machine
      = (.error .noKeyring, (plan.source.vault.exportHalf .secretHalf name machine).2) :=
    Prod.ext (by decide +kernel) rfl
  have hcalls : plan.invocations machine
      = (plan.invocations machine).take 3 ++ plan.importing ⟨1, by decide⟩ [0x99, 0xff, 0x00]
        :: (plan.invocations machine).drop 4 := by decide +kernel
  obtain ⟨hexports, himports⟩ := exports_whole
  obtain ⟨-, hgiven⟩ := hexports plan.source .publicHalf ("0x" ++ name) machine hpublic
  obtain ⟨earlier, half, form, given, hbefore, hreply, -, -, hmaterial, -⟩ :=
    himports plan machine _ _ _ _ hcalls
  refine ⟨hpublic, hsecret, (hgiven _).mpr ⟨name, by decide +kernel⟩, ?_, hcalls,
    earlier, half, form, hbefore, ?_⟩
  · exact ((hexports plan.source .secretHalf name machine hsecret).1 _ _).mp hrefused
  · rw [← hreply, ← hmaterial]

end Plan

end KeyBuckets
