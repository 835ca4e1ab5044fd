import KeyBuckets.Proofs.Handover

/-!
# Argument vectors — the words that a program is started with

A listing is whatever the program prints, and fingerprints come out of it as any text at all. An
export is asked for with the canonical form of a fingerprint or not at all, so nothing else of a
listing gets into a command: the words of a command are fixed, or name a home of the plan, or are
such a form.

* **`Keyring.Exports`** — what an export of a key with any text as its fingerprint comes to.
* **`Plan.ArgumentVector`** — the words of the commands of a plan, written out.
* **`Plan.Word`** — where a word of such a command comes from.
* **`Plan.argument_vectors`** — exports on their own, and all commands of a run.
-/

namespace KeyBuckets

open Machine

namespace Keyring

/-! ## An export on its own -/

/-- The words that every command to a keyring starts with. -/
def homeWords (home : String) : List String := ["--homedir", home, "--batch", "--no-tty"]

/-- The words of an export before the fingerprint. -/
def exportWords : Half → List String
  | .publicHalf => ["--export"]
  | .secretHalf => ["--pinentry-mode", "loopback", "--passphrase", "", "--export-secret-keys"]

/-- An export of a half of the key with some text as its fingerprint: the text is refused, or the
program cannot be started, or it is started once, with a form as its last argument. -/
inductive Exports (ring : Keyring) (half : Half) (text : String) (s : Machine) :
    Except Error (List UInt8) → Machine → Prop where
  | refused {fault : FingerprintFault}
      (hrefused : Fingerprint.canonical text = .error (.invalidFingerprint text fault)) :
      Exports ring half text s (.error (.invalidFingerprint text fault)) s
  | unstarted {form : String} {call : Invocation} {cause : IoError} {s' : Machine}
      (hcanonical : Fingerprint.canonical text = .ok form)
      (htries : s.Tries [.refused call cause] s') :
      Exports ring half text s (.error (.command cause)) s'
  | started {form : String} {call : Invocation} {answer : Except Error (List UInt8)} {s' : Machine}
      (hcanonical : Fingerprint.canonical text = .ok form) (hform : Fingerprint.IsForm form)
      (harguments : call.arguments = homeWords ring.home ++ exportWords half ++ [form])
      (htries : s.Tries [.started call] s') : Exports ring half text s answer s'

/-- The arguments of an export, word by word. -/
theorem arguments_export (ring : Keyring) (half : Half) (form : String) :
    (ring.invocation (Plan.exportCommand half form) []).arguments
      = homeWords ring.home ++ exportWords half ++ [form] := by
  cases half <;> rfl

/-- Every export is one of these, by the canonical form of its text and by what comes of the
command. -/
theorem exports_exportHalf (ring : Keyring) (half : Half) (text : String) (s : Machine) :
    Exports ring half text s (ring.vault.exportHalf half text s).1
      (ring.vault.exportHalf half text s).2 := by
  rw [Plan.exportHalf_vault]
  unfold askExport
  cases hform : Fingerprint.canonical text with
  | error e =>
    obtain ⟨fault, rfl⟩ := Fingerprint.canonical_eq_error hform
    exact .refused hform
  | ok form =>
    rcases hask : ring.ask (Plan.exportCommand half form) [] s with ⟨asked, s₁⟩
    dsimp only
    rw [bind_of_eq hask]
    have hvalid := Fingerprint.isForm_of_canonical hform
    -- what is made of a reply makes no difference
    cases asked_iff.mp hask with
    | unstarted _ htries => exact .unstarted hform htries
    | late _ htries => exact .started hform hvalid (ring.arguments_export half form) htries
    | answered _ htries => exact .started hform hvalid (ring.arguments_export half form) htries

end Keyring

namespace Plan

open Keyring

/-! ## The commands of a run -/

/-- The arguments of a command that a plan gives: it lists or exports keys of the keyring that is
split, or imports keys into one of the buckets. -/
inductive ArgumentVector (plan : Plan) : List String → Prop where
  | listPublic : ArgumentVector plan
      (homeWords plan.inputHome ++ ["--list-keys", "--with-colons", "--fixed-list-mode"])
  | listSecret : ArgumentVector plan
      (homeWords plan.inputHome ++ ["--list-secret-keys", "--with-colons", "--fixed-list-mode"])
  | exported (half : Half) {form : String} (hform : Fingerprint.IsForm form) :
      ArgumentVector plan (homeWords plan.inputHome ++ exportWords half ++ [form])
  | imported (i : Fin plan.count.value) : ArgumentVector plan
      (homeWords (Bucket.home plan.stem i.val) ++ ["--status-fd=1", "--import"])

variable {plan : Plan}

/-- Both listings are about the keyring that is split. -/
theorem argumentVector_listing {command : List String}
    (hcommand : command ∈ [listPublicCommand, listSecretCommand]) :
    plan.ArgumentVector (plan.source.invocation command []).arguments := by
  simp only [List.mem_cons, List.not_mem_nil, or_false] at hcommand
  rcases hcommand with rfl | rfl
  · exact .listPublic
  · exact .listSecret

/-- An export in a run has a form at its end. -/
theorem argumentVector_exporting {half : Half} {text form : String}
    (hform : Fingerprint.canonical text = .ok form) :
    plan.ArgumentVector (plan.exporting half form).arguments := by
  unfold exporting
  rw [arguments_export]
  exact .exported half (Fingerprint.isForm_of_canonical hform)

/-- An import in a run is about a bucket of the plan. -/
theorem argumentVector_importing (i : Fin plan.count.value) (material : List UInt8) :
    plan.ArgumentVector (plan.importing i material).arguments :=
  .imported i

/-- Whatever keys are listed, a run over them has no other commands. -/
theorem Calls.argumentVector {keys : List Key} {calls : List Invocation}
    (h : Calls plan keys calls) :
    ∀ call ∈ calls, plan.ArgumentVector call.arguments := by
  induction h with
  | none => exact List.forall_mem_nil _
  | listing hcommand _ ih =>
    exact List.forall_mem_cons.mpr ⟨argumentVector_listing hcommand, ih⟩
  | exchange _ _ hexchange _ ih =>
    refine List.forall_mem_append.mpr ⟨?_, ih⟩
    -- what is imported does not matter, as it is no argument
    cases hexchange with
    | none => exact List.forall_mem_nil _
    | exported hform => exact List.forall_mem_singleton.mpr (argumentVector_exporting hform)
    | handed hform =>
      refine List.forall_mem_cons.mpr ⟨argumentVector_exporting hform, ?_⟩
      exact List.forall_mem_singleton.mpr (argumentVector_importing _ _)

/-! ## The words of a command -/

/-- The words that are the same whatever is split. -/
def vocabulary : List String :=
  ["--homedir", "--batch", "--no-tty", "--list-keys", "--list-secret-keys", "--with-colons",
    "--fixed-list-mode", "--pinentry-mode", "loopback", "--passphrase", "", "--export",
    "--export-secret-keys", "--status-fd=1", "--import"]

/-- A word that is fixed, or names a home of the plan, or is a form. -/
inductive Word (plan : Plan) : String → Prop where
  | fixed {word : String} (hword : word ∈ vocabulary) : Word plan word
  | source : Word plan plan.inputHome
  | bucket (i : Fin plan.count.value) : Word plan (Bucket.home plan.stem i.val)
  | form {word : String} (hform : Fingerprint.IsForm word) : Word plan word

/-- Fixed words are words of a command. -/
theorem forall_word_of_subset {words : List String} (h : words ⊆ vocabulary) :
    ∀ word ∈ words, plan.Word word :=
  fun _ hword => .fixed (h hword)

/-- The words that a command starts with are fixed, but for the home. -/
theorem forall_word_homeWords {home : String} (h : plan.Word home) :
    ∀ word ∈ homeWords home, plan.Word word := by
  have hfixed : ∀ word ∈ ["--batch", "--no-tty"], plan.Word word :=
    forall_word_of_subset (by decide)
  exact List.forall_mem_cons.mpr ⟨.fixed (by decide), List.forall_mem_cons.mpr ⟨h, hfixed⟩⟩

/-- The words of an export are fixed, but for the form. -/
theorem exportWords_subset (half : Half) : exportWords half ⊆ vocabulary := by
  cases half <;> decide

/-- Every word of a command is fixed, or a home of the plan, or a form. One case for each kind of
command. -/
theorem ArgumentVector.forall_word {arguments : List String} (h : plan.ArgumentVector arguments) :
    ∀ word ∈ arguments, plan.Word word := by
  have hsource : ∀ word ∈ homeWords plan.inputHome, plan.Word word := forall_word_homeWords .source
  cases h with
  | listPublic =>
    exact List.forall_mem_append.mpr ⟨hsource, forall_word_of_subset (by decide)⟩
  | listSecret =>
    exact List.forall_mem_append.mpr ⟨hsource, forall_word_of_subset (by decide)⟩
  | exported half hform =>
    -- only the last word comes out of a listing
    refine List.forall_mem_append.mpr ⟨?_, List.forall_mem_singleton.mpr (.form hform)⟩
    exact List.forall_mem_append.mpr ⟨hsource, forall_word_of_subset (exportWords_subset half)⟩
  | imported i =>
    have hbucket : ∀ word ∈ homeWords (Bucket.home plan.stem i.val), plan.Word word :=
      forall_word_homeWords (.bucket i)
    exact List.forall_mem_append.mpr ⟨hbucket, forall_word_of_subset (by decide)⟩

/-- **What programs are started with.** An export of any text comes to one command with a form at
its end, if any; and in a run, whatever is listed and answered, all commands are such exports, the
two listings, and imports into the buckets, so that the words are those of the plan and forms. -/
theorem argument_vectors :
    (∀ (ring : Keyring) (half : Half) (text : String) (s : Machine),
      ring.Exports half text s (ring.vault.exportHalf half text s).1
        (ring.vault.exportHalf half text s).2)
      ∧ ∀ (plan : Plan) (machine : Machine), ∃ calls,
        (plan.carryOut machine).2.history = machine.history ++ calls
          ∧ (∀ call ∈ calls, plan.ArgumentVector call.arguments)
          ∧ ∀ call ∈ calls, ∀ word ∈ call.arguments, plan.Word word := by
  refine ⟨exports_exportHalf, fun plan machine => ?_⟩
  have hvectors := (plan.calls_carryOut machine).argumentVector
  exact ⟨plan.invocations machine, plan.history_eq_append_invocations machine, hvectors,
    fun call hcall => (hvectors call hcall).forall_word⟩

end Plan

end KeyBuckets
