import KeyBuckets.Proofs.Invocations
import Mathlib.Logic.Basic

/-!
# Answers — what a reply is taken for

A reply with a good ending is taken for what was printed. Any other ending is a failure, and which
one it is depends on what the program said about it, by the first of three rules: what was refused,
what is missing, and the status of the ending.

* **`Fails`**, **`fails_iff`** — the failure behind a reply.
* **`Prints`**, **`prints_iff`** — what comes of a command whose output is wanted.
* **`Lists`**, **`lists_iff`** — what comes of listing a keyring.
-/

namespace KeyBuckets

namespace Machine

/-- A text is part of what a program said on its error output. -/
def Reply.Mentions (reply : Reply) (text : String) : Prop :=
  text.toList <:+: Text.Utf8.decode reply.stderr

/-- The program said that something was refused. -/
def Reply.Refused (reply : Reply) : Prop :=
  reply.Mentions "Permission denied" ∨ reply.Mentions "permission denied"

instance (reply : Reply) (text : String) : Decidable (reply.Mentions text) :=
  decidable_of_iff _ Text.occursIn_iff

instance (reply : Reply) : Decidable reply.Refused :=
  inferInstanceAs (Decidable (_ ∨ _))

theorem Ending.isSuccess_iff {ending : Ending} : ending.isSuccess = true ↔ ending = .exited 0 := by
  cases ending <;> simp [isSuccess]

end Machine

namespace Keyring

open Machine Text

/-! ## Failures -/

/-- The program said that something was missing, and spoke of the home of the keyring. -/
def Misses (ring : Keyring) (reply : Reply) : Prop :=
  reply.Mentions "No such file or directory" ∧ reply.Mentions ring.home

instance (ring : Keyring) (reply : Reply) : Decidable (ring.Misses reply) :=
  inferInstanceAs (Decidable (_ ∧ _))

/-- The failure behind a reply. What was refused comes before what is missing, and a program that
was killed has no status. -/
inductive Fails (ring : Keyring) (reply : Reply) : Error → Prop where
  | refused (hrefused : reply.Refused) : Fails ring reply .permissionDenied
  | missing (hrefused : ¬ reply.Refused) (hmisses : ring.Misses reply) : Fails ring reply .noKeyring
  | exited {status : UInt8} (hrefused : ¬ reply.Refused) (hmisses : ¬ ring.Misses reply)
      (hending : reply.ending = .exited status) :
      Fails ring reply (.gpg status.toNat (String.ofList (Utf8.decode reply.stderr)))
  | killed {signal : Nat} (hrefused : ¬ reply.Refused) (hmisses : ¬ ring.Misses reply)
      (hending : reply.ending = .killed signal) :
      Fails ring reply (.gpg (-1) (String.ofList (Utf8.decode reply.stderr)))

variable {ring : Keyring} {reply : Reply} {e : Error}

theorem failure_eq (ring : Keyring) (reply : Reply) :
    ring.failure reply = if reply.Refused then .permissionDenied
      else if ring.Misses reply then .noKeyring
      else .gpg reply.ending.status (String.ofList (Utf8.decode reply.stderr)) := by
  unfold failure
  refine if_congr ?_ rfl (if_congr ?_ rfl rfl)
  · rw [Bool.or_eq_true, occursIn_iff, occursIn_iff]
    rfl
  · rw [Bool.and_eq_true, occursIn_iff, occursIn_iff]
    rfl

theorem fails_failure (ring : Keyring) (reply : Reply) : ring.Fails reply (ring.failure reply) := by
  rw [failure_eq]
  split
  · next hrefused => exact .refused hrefused
  · next hrefused =>
    split
    · next hmisses => exact .missing hrefused hmisses
    · next hmisses =>
      cases hending : reply.ending with
      | exited status => exact .exited hrefused hmisses hending
      | killed signal => exact .killed hrefused hmisses hending

/-- **The failure behind a reply**, by what the program said. -/
theorem fails_iff : ring.Fails reply e ↔ e = ring.failure reply := by
  constructor
  · intro h
    rw [failure_eq]
    cases h with
    | refused hrefused => rw [if_pos hrefused]
    | missing hrefused hmisses => rw [if_neg hrefused, if_pos hmisses]
    | exited hrefused hmisses hending =>
      rw [if_neg hrefused, if_neg hmisses, hending]
      rfl
    | killed hrefused hmisses hending =>
      rw [if_neg hrefused, if_neg hmisses, hending]
      rfl
  · rintro rfl
    exact fails_failure ring reply

/-! ## Printed answers -/

/-- What comes of a command whose output is wanted: an error if there is no reply or a bad ending,
and otherwise all that was printed, whatever was said besides. -/
inductive Prints (ring : Keyring) (command : List String) (s : Machine) :
    Except Error (List UInt8) → Machine → Prop where
  | unanswered {e : Error} {s' : Machine} (hasked : ring.Asked command [] s (.error e) s') :
      Prints ring command s (.error e) s'
  | failed {reply : Reply} {e : Error} {s' : Machine}
      (hasked : ring.Asked command [] s (.ok reply) s') (hending : reply.ending ≠ .exited 0)
      (hfails : ring.Fails reply e) : Prints ring command s (.error e) s'
  | printed {reply : Reply} {s' : Machine} (hasked : ring.Asked command [] s (.ok reply) s')
      (hending : reply.ending = .exited 0) : Prints ring command s (.ok reply.stdout) s'

variable {command : List String} {s s' : Machine}

theorem output_of_success (h : reply.ending = .exited 0) :
    ring.output reply = .ok reply.stdout := by
  unfold output
  exact if_pos (Ending.isSuccess_iff.mpr h)

theorem output_of_failure (h : reply.ending ≠ .exited 0) :
    ring.output reply = .error (ring.failure reply) := by
  unfold output
  exact if_neg fun hsuccess => h (Ending.isSuccess_iff.mp hsuccess)

/-- **What comes of a command whose output is wanted**: that of the command, and of its reply. -/
theorem prints_iff {printed : Except Error (List UInt8)} :
    ring.Prints command s printed s'
      ↔ ∃ asked, ring.ask command [] s = (asked, s') ∧ printed = asked.bind ring.output := by
  constructor
  · intro h
    cases h with
    | unanswered hasked => exact ⟨_, hasked.ask_eq, rfl⟩
    | failed hasked hending hfails =>
      refine ⟨_, hasked.ask_eq, ?_⟩
      rw [Except.bind, output_of_failure hending, fails_iff.mp hfails]
    | printed hasked hending =>
      refine ⟨_, hasked.ask_eq, ?_⟩
      rw [Except.bind, output_of_success hending]
  · rintro ⟨asked, hask, rfl⟩
    have hasked := asked_iff.mp hask
    cases asked with
    | error e => exact .unanswered hasked
    | ok reply =>
      rw [Except.bind]
      by_cases hending : reply.ending = .exited 0
      · rw [output_of_success hending]
        exact .printed hasked hending
      · rw [output_of_failure hending]
        exact .failed hasked hending (fails_failure ring reply)

theorem exists_prints (ring : Keyring) (command : List String) (s : Machine) :
    ∃ printed s', ring.Prints command s printed s' :=
  ⟨_, _, prints_iff.mpr ⟨_, rfl, rfl⟩⟩

theorem Prints.attempts {printed : Except Error (List UInt8)}
    (h : ring.Prints command s printed s') : s.Attempts [ring.invocation command []] s' := by
  obtain ⟨asked, hask, rfl⟩ := prints_iff.mp h
  exact ask_attempts hask

/-! ## Listings -/

/-- What comes of listing a keyring. Both commands have to be started and to end well, and the
second one is given only after that of the first. -/
inductive Lists (ring : Keyring) (s : Machine) : Except Error (List Key) → Machine → Prop where
  | homeless (hhome : s.tree.leadsToDirectory s.working ring.home = false) :
      Lists ring s (.error .noKeyring) s
  | publicRefused {e : Error} {s' : Machine}
      (hhome : s.tree.leadsToDirectory s.working ring.home = true)
      (hpublic : ring.Prints listPublicCommand s (.error e) s') : Lists ring s (.error e) s'
  | secretRefused {octets : List UInt8} {e : Error} {s₁ s' : Machine}
      (hhome : s.tree.leadsToDirectory s.working ring.home = true)
      (hpublic : ring.Prints listPublicCommand s (.ok octets) s₁)
      (hsecret : ring.Prints listSecretCommand s₁ (.error e) s') : Lists ring s (.error e) s'
  | listed {octets octets' : List UInt8} {s₁ s' : Machine}
      (hhome : s.tree.leadsToDirectory s.working ring.home = true)
      (hpublic : ring.Prints listPublicCommand s (.ok octets) s₁)
      (hsecret : ring.Prints listSecretCommand s₁ (.ok octets') s') :
      Lists ring s (.ok (Key.markSecrets (Listing.keys (Utf8.decode octets))
        (Listing.keys (Utf8.decode octets')))) s'

/-- A listing on its own is what is printed, read as a listing. -/
theorem Prints.askList_eq {printed : Except Error (List UInt8)}
    (h : ring.Prints command s printed s') :
    ring.askList command s
      = (printed.map fun octets => Listing.keys (Utf8.decode octets), s') := by
  obtain ⟨asked, hask, rfl⟩ := prints_iff.mp h
  unfold askList
  rw [bind_of_eq hask]
  cases asked <;> rfl

theorem Lists.list_eq {answer : Except Error (List Key)} (h : ring.Lists s answer s') :
    ring.list s = (answer, s') := by
  have hget : (get : StateM Machine Machine) s = (s, s) := rfl
  unfold list
  rw [bind_of_eq hget]
  cases h with
  | homeless hhome =>
    rw [hhome]
    rfl
  | publicRefused hhome hpublic =>
    rw [if_pos hhome]
    exact bind_of_eq hpublic.askList_eq _
  | secretRefused hhome hpublic hsecret =>
    rw [if_pos hhome]
    exact (bind_of_eq hpublic.askList_eq _).trans (bind_of_eq hsecret.askList_eq _)
  | listed hhome hpublic hsecret =>
    rw [if_pos hhome]
    exact (bind_of_eq hpublic.askList_eq _).trans (bind_of_eq hsecret.askList_eq _)

theorem exists_lists (ring : Keyring) (s : Machine) : ∃ answer s', ring.Lists s answer s' := by
  cases hhome : s.tree.leadsToDirectory s.working ring.home with
  | false => exact ⟨_, _, .homeless hhome⟩
  | true =>
    obtain ⟨printed, s₁, hpublic⟩ := exists_prints ring listPublicCommand s
    cases printed with
    | error e => exact ⟨_, _, .publicRefused hhome hpublic⟩
    | ok octets =>
      obtain ⟨printed', s', hsecret⟩ := exists_prints ring listSecretCommand s₁
      cases printed' with
      | error e => exact ⟨_, _, .secretRefused hhome hpublic hsecret⟩
      | ok octets' => exact ⟨_, _, .listed hhome hpublic hsecret⟩

/-- **What comes of listing a keyring**, in whatever state the machine is. -/
theorem lists_iff {answer : Except Error (List Key)} :
    ring.list s = (answer, s') ↔ ring.Lists s answer s' := by
  constructor
  · intro h
    obtain ⟨answer', s'', hlists⟩ := exists_lists ring s
    obtain ⟨rfl, rfl⟩ := Prod.mk.inj (h.symm.trans hlists.list_eq)
    exact hlists
  · exact fun h => h.list_eq

/-- Public keys are asked for before secret ones. -/
theorem list_attempts {answer : Except Error (List Key)} (h : ring.list s = (answer, s')) :
    ∃ commands, commands <+: [listPublicCommand, listSecretCommand]
      ∧ s.Attempts (commands.map fun command => ring.invocation command []) s' := by
  cases lists_iff.mp h with
  | homeless => exact ⟨[], List.nil_prefix, .none _⟩
  | publicRefused _ hpublic => exact ⟨[listPublicCommand], by simp, hpublic.attempts⟩
  | secretRefused _ hpublic hsecret =>
    exact ⟨_, List.prefix_rfl, hpublic.attempts.trans hsecret.attempts⟩
  | listed _ hpublic hsecret =>
    exact ⟨_, List.prefix_rfl, hpublic.attempts.trans hsecret.attempts⟩

end Keyring

end KeyBuckets
