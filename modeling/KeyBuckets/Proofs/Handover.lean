import KeyBuckets.Proofs.Dialogue

/-!
# Handover — which key a keyring hands to which bucket

A fingerprint is read twice on its way: as it is listed it chooses the bucket, and in canonical
form it is exported. The two readings see the same first digit unless the mark of hexadecimal
numbers stands before the listed fingerprint, which then chooses a bucket by the zero of the
mark.

* **`Calls`** — the invocations of a run; **`calls_carryOut`** — every run starts such invocations.
* **`Hands`** — a key is exported and at once imported into a bucket.
* **`agrees_iff`** — when the buckets are those of the digits of the exported keys.
-/

namespace KeyBuckets.Plan

open Machine Keyring

/-! ## The invocations of a run -/

/-- The invocations for one half of a key on its way to bucket `i`, as far as they are started. -/
inductive Exchange (plan : Plan) (half : Half) (key : Key) (i : Fin plan.count.value) :
    List Invocation → Prop where
  | none : Exchange plan half key i []
  | exported {form : String} (hform : Fingerprint.canonical key.fingerprint = .ok form) :
      Exchange plan half key i [plan.exporting half form]
  | handed {form : String} {material : List UInt8}
      (hform : Fingerprint.canonical key.fingerprint = .ok form) :
      Exchange plan half key i [plan.exporting half form, plan.importing i material]

/-- The invocations of a run over some keys: listings, and exchanges of the keys with the buckets
that they choose. -/
inductive Calls (plan : Plan) (keys : List Key) : List Invocation → Prop where
  | none : Calls plan keys []
  | listing {command : List String} {rest : List Invocation}
      (hcommand : command ∈ [listPublicCommand, listSecretCommand])
      (hrest : Calls plan keys rest) :
      Calls plan keys (plan.source.invocation command [] :: rest)
  | exchange {half : Half} {key : Key} {i : Fin plan.count.value} {exchange rest : List Invocation}
      (hkey : key ∈ keys) (hchoice : Bucket.choice? plan.count key.fingerprint = some i)
      (hexchange : Exchange plan half key i exchange) (hrest : Calls plan keys rest) :
      Calls plan keys (exchange ++ rest)

variable {plan : Plan} {keys : List Key}

theorem Calls.append {xs ys : List Invocation} (hxs : Calls plan keys xs)
    (hys : Calls plan keys ys) : Calls plan keys (xs ++ ys) := by
  induction hxs with
  | none => exact hys
  | listing hcommand _ ih => exact .listing hcommand ih
  | exchange hkey hchoice hexchange _ ih =>
    rw [List.append_assoc]
    exact .exchange hkey hchoice hexchange ih

theorem Calls.of_exchange {half : Half} {key : Key} {i : Fin plan.count.value}
    {exchange : List Invocation} (hkey : key ∈ keys)
    (hchoice : Bucket.choice? plan.count key.fingerprint = some i)
    (h : Exchange plan half key i exchange) : Calls plan keys exchange := by
  have hcalls := Calls.exchange hkey hchoice h .none
  rwa [List.append_nil] at hcalls

theorem calls_listing {listings : List Invocation}
    (h : ∀ call ∈ listings, ∃ command ∈ [listPublicCommand, listSecretCommand],
      call = plan.source.invocation command []) : Calls plan keys listings := by
  induction listings with
  | nil => exact .none
  | cons call listings ih =>
    obtain ⟨⟨command, hcommand, rfl⟩, hlistings⟩ := List.forall_mem_cons.mp h
    exact .listing hcommand (ih hlistings)

/-- What is refused drops out of an exchange, and the import only comes after the export. -/
theorem exchange_of_handling {half : Half} {key : Key} {form : String} {i : Fin plan.count.value}
    {turns : List Turn} {answer : Option Reply}
    (hform : Fingerprint.canonical key.fingerprint = .ok form)
    (h : Handling plan half form i turns answer) :
    Exchange plan half key i (turns.filterMap Turn.started?) := by
  cases h with
  | @withheld answer =>
    cases answer with
    | error => exact .none
    | ok => exact .exported hform
  | @handed given answer =>
    cases answer with
    | error => exact .exported hform
    | ok => exact .handed hform

theorem calls_of_dealing {key : Key} {turns : List Turn} {moved : Bool} (hkey : key ∈ keys)
    (h : Dealing plan key turns moved) : Calls plan keys (turns.filterMap Turn.started?) := by
  cases h with
  | unassigned => exact .none
  | invalid => exact .none
  | publicOnly hchoice hform hpublic _ _ =>
    exact .of_exchange hkey hchoice (exchange_of_handling hform hpublic)
  | bothHalves hchoice hform hpublic _ _ hsecret =>
    rw [List.filterMap_append]
    exact .exchange hkey hchoice (exchange_of_handling hform hpublic)
      (.of_exchange hkey hchoice (exchange_of_handling hform hsecret))

theorem calls_of_dealings {dealt : List (Key × Bool)} {turns : List Turn}
    (hkeys : ∀ pair ∈ dealt, pair.1 ∈ keys) (h : Dealings plan dealt turns) :
    Calls plan keys (turns.filterMap Turn.started?) := by
  induction h with
  | nil => exact .none
  | cons hkey _ ih =>
    obtain ⟨hmem, hothers⟩ := List.forall_mem_cons.mp hkeys
    rw [List.filterMap_append]
    exact (calls_of_dealing hmem hkey).append (ih hothers)

/-! ## Exports that are followed by an import -/

/-- A key is exported, and what comes next is an import into bucket `i`. -/
def Hands (plan : Plan) (invocations : List Invocation) (form : String)
    (i : Fin plan.count.value) : Prop :=
  ∃ half material, [plan.exporting half form, plan.importing i material] <:+: invocations

theorem exporting_ne_importing (half : Half) (form : String) (i : Fin plan.count.value)
    (material : List UInt8) : plan.exporting half form ≠ plan.importing i material := by
  intro h
  have harguments := congrArg Invocation.arguments h
  cases half <;> simp [exporting, importing, invocation, exportCommand, exportPublicCommand,
    exportSecretCommand, importCommand] at harguments

theorem listing_ne_importing {command : List String}
    (hcommand : command ∈ [listPublicCommand, listSecretCommand]) (i : Fin plan.count.value)
    (material : List UInt8) : plan.source.invocation command [] ≠ plan.importing i material := by
  intro h
  have harguments := congrArg Invocation.arguments h
  simp only [List.mem_cons, List.not_mem_nil, or_false] at hcommand
  rcases hcommand with rfl | rfl <;>
    simp [importing, invocation, listPublicCommand, listSecretCommand, importCommand] at harguments

theorem listing_ne_exporting {command : List String}
    (hcommand : command ∈ [listPublicCommand, listSecretCommand]) (half : Half) (form : String) :
    plan.source.invocation command [] ≠ plan.exporting half form := by
  intro h
  have harguments := congrArg Invocation.arguments h
  simp only [List.mem_cons, List.not_mem_nil, or_false] at hcommand
  rcases hcommand with rfl | rfl <;> cases half <;>
    simp [exporting, invocation, listPublicCommand, listSecretCommand, exportCommand,
      exportPublicCommand, exportSecretCommand] at harguments

theorem exporting_injective {half half' : Half} {form form' : String}
    (h : plan.exporting half form = plan.exporting half' form') : form = form' := by
  have harguments := congrArg Invocation.arguments h
  cases half <;> cases half' <;>
    simp [exporting, invocation, exportCommand, exportPublicCommand, exportSecretCommand]
      at harguments <;>
    exact harguments

theorem importing_injective {i j : Fin plan.count.value} {material material' : List UInt8}
    (h : plan.importing i material = plan.importing j material') : i = j := by
  have harguments := congrArg Invocation.arguments h
  have hhome : plan.home i.val = plan.home j.val := by
    simpa [importing, bucket, keyring, invocation] using harguments
  exact Fin.ext (Bucket.home_injective plan.stem hhome)

theorem Calls.head?_ne {invocations : List Invocation} (h : Calls plan keys invocations)
    (i : Fin plan.count.value) (material : List UInt8) :
    invocations.head? ≠ some (plan.importing i material) := by
  induction h with
  | none => simp
  | listing hcommand _ _ =>
    rw [List.head?_cons]
    exact fun heq => listing_ne_importing hcommand i material (Option.some.inj heq)
  | exchange _ _ hexchange _ ih =>
    cases hexchange with
    | none => exact ih
    | exported =>
      exact fun heq => exporting_ne_importing _ _ i material (Option.some.inj heq)
    | handed =>
      exact fun heq => exporting_ne_importing _ _ i material (Option.some.inj heq)

/-- What is handed over is a listed key, and the bucket is the one that it chooses as listed. -/
theorem Calls.key_of_hands {invocations : List Invocation} (h : Calls plan keys invocations)
    {form : String} {i : Fin plan.count.value} (hhands : plan.Hands invocations form i) :
    ∃ key ∈ keys, Fingerprint.canonical key.fingerprint = .ok form
      ∧ Bucket.choice? plan.count key.fingerprint = some i := by
  obtain ⟨half, material, hinfix⟩ := hhands
  induction h with
  | none => simp at hinfix
  | listing hcommand _ ih =>
    rcases List.infix_cons_iff.mp hinfix with hprefix | hrest
    · have heq := (List.cons_prefix_cons.mp hprefix).1
      exact absurd heq.symm (listing_ne_exporting hcommand half form)
    · exact ih hrest
  | @exchange half' key j exchange rest hkey hchoice hexchange hrest ih =>
    -- the pair lies in the exchange or in the rest, as it cannot lie across the cut
    -- an import at the head of the rest would have to be the one that is looked for
    have hlast : ¬ [plan.importing i material] <+: rest := by
      intro hprefix
      obtain ⟨more, rfl⟩ := hprefix
      exact hrest.head?_ne i material rfl
    cases hexchange with
    | none => exact ih hinfix
    | exported =>
      rcases List.infix_cons_iff.mp hinfix with hprefix | hlater
      · exact absurd (List.cons_prefix_cons.mp hprefix).2 hlast
      · exact ih hlater
    | @handed form' material' hform =>
      rcases List.infix_cons_iff.mp hinfix with hprefix | hlater
      · obtain ⟨hexport, himport⟩ := List.cons_prefix_cons.mp hprefix
        have hsame := (List.cons_prefix_cons.mp himport).1
        rw [exporting_injective hexport, importing_injective hsame]
        exact ⟨key, hkey, hform, hchoice⟩
      · rcases List.infix_cons_iff.mp hlater with hprefix | hlater
        · have heq := (List.cons_prefix_cons.mp hprefix).1
          exact absurd heq (exporting_ne_importing half form j material')
        · exact ih hlater

/-! ## Whole runs -/

/-- Whatever happens, the invocations are those of a run over the listed keys. -/
theorem calls_carryOut (plan : Plan) (machine : Machine) :
    Calls plan (plan.listed machine) (plan.invocations machine) := by
  obtain ⟨listings, dealt, turns, hlistings, hkeys, hdealt, heq⟩ := plan.invocations_eq machine
  have hmem : ∀ pair ∈ dealt, pair.1 ∈ plan.listed machine := by
    intro pair hpair
    rw [← hkeys]
    exact List.mem_map_of_mem hpair
  rw [heq]
  exact (calls_listing hlistings).append (calls_of_dealings hmem hdealt)

/-! ## The bucket of the first digit -/

/-- What is handed over goes to the bucket of its first digit, and so no key goes to two. -/
structure Agrees (plan : Plan) (machine : Machine) : Prop where
  digit : ∀ form i, plan.Hands (plan.invocations machine) form i →
    ∃ value, Fingerprint.leadingValue? form = some value ∧ i.val = value % plan.count.value
  once : ∀ form i j, plan.Hands (plan.invocations machine) form i →
    plan.Hands (plan.invocations machine) form j → i = j

/-- The mark chooses another bucket than the digit after it. -/
def Misplaces (plan : Plan) (key : Key) : Prop :=
  Fingerprint.Marked key.fingerprint
    ∧ ∃ form value, Fingerprint.canonical key.fingerprint = .ok form
      ∧ Fingerprint.leadingValue? form = some value ∧ value % plan.count.value ≠ 0

/-- The chosen bucket is that of the first digit exactly for a key that is not misplaced. -/
theorem digit_iff_not_misplaces {key : Key} {form : String} {i : Fin plan.count.value}
    (hform : Fingerprint.canonical key.fingerprint = .ok form)
    (hchoice : Bucket.choice? plan.count key.fingerprint = some i) :
    (∃ value, Fingerprint.leadingValue? form = some value ∧ i.val = value % plan.count.value)
      ↔ ¬ plan.Misplaces key := by
  obtain ⟨listedValue, hlisted, hi⟩ := Bucket.choice?_eq_some_iff.mp hchoice
  by_cases hmark : Fingerprint.Marked key.fingerprint
  · -- the key chooses by the zero of its mark
    have hzero : i.val = 0 := by
      rw [Fingerprint.leadingValue?_of_marked hmark] at hlisted
      obtain rfl := Option.some.inj hlisted
      rw [hi, Nat.zero_mod]
    constructor
    · rintro ⟨value, hvalue, hdigit⟩ ⟨-, form', value', hform', hvalue', hne⟩
      obtain rfl : form = form' := Except.ok.inj (hform.symm.trans hform')
      obtain rfl : value = value' := Option.some.inj (hvalue.symm.trans hvalue')
      omega
    · intro hplaced
      obtain ⟨value, hvalue⟩ := Fingerprint.leadingValue?_of_canonical hform
      have hmultiple : value % plan.count.value = 0 := by
        refine Decidable.byContradiction fun hne => ?_
        exact hplaced ⟨hmark, form, value, hform, hvalue, hne⟩
      exact ⟨value, hvalue, hzero.trans hmultiple.symm⟩
  · -- both readings see the same first digit
    have hvalue := Fingerprint.leadingValue?_canonical hform hmark hlisted
    exact iff_of_true ⟨listedValue, hvalue, hi⟩ fun hmisplaced => hmark hmisplaced.1

theorem Agrees.of_digit {machine : Machine}
    (h : ∀ form i, plan.Hands (plan.invocations machine) form i →
      ∃ value, Fingerprint.leadingValue? form = some value ∧ i.val = value % plan.count.value) :
    plan.Agrees machine where
  digit := h
  once := by
    intro form i j hi hj
    obtain ⟨value, hvalue, hival⟩ := h form i hi
    obtain ⟨value', hvalue', hjval⟩ := h form j hj
    obtain rfl : value = value' := Option.some.inj (hvalue.symm.trans hvalue')
    exact Fin.ext (hival.trans hjval.symm)

/-- **When exports and bucket choices agree.** They do exactly in the runs that hand over no
misplaced key; so they do whenever the listing has none, whatever the program answers. -/
theorem agrees_iff (plan : Plan) (machine : Machine) :
    (plan.Agrees machine
        ↔ ∀ form i, plan.Hands (plan.invocations machine) form i →
          ∃ key ∈ plan.listed machine, Fingerprint.canonical key.fingerprint = .ok form
            ∧ Bucket.choice? plan.count key.fingerprint = some i ∧ ¬ plan.Misplaces key)
      ∧ ((∀ key ∈ plan.listed machine, ¬ plan.Misplaces key) → plan.Agrees machine) := by
  have hcalls := calls_carryOut plan machine
  refine ⟨⟨fun hagrees form i hhands => ?_, fun hplaced => ?_⟩, fun hplaced => ?_⟩
  · obtain ⟨key, hkey, hform, hchoice⟩ := hcalls.key_of_hands hhands
    have hdigit := hagrees.digit form i hhands
    exact ⟨key, hkey, hform, hchoice, (digit_iff_not_misplaces hform hchoice).mp hdigit⟩
  · refine .of_digit fun form i hhands => ?_
    obtain ⟨key, -, hform, hchoice, hkey⟩ := hplaced form i hhands
    exact (digit_iff_not_misplaces hform hchoice).mpr hkey
  · refine .of_digit fun form i hhands => ?_
    obtain ⟨key, hkey, hform, hchoice⟩ := hcalls.key_of_hands hhands
    exact (digit_iff_not_misplaces hform hchoice).mpr (hplaced key hkey)

/-- One key, listed with the mark and without it, goes to two buckets of two. -/
theorem not_agrees_of_mark :
    let digits := String.ofList (List.replicate 40 '1')
    let listing := "pub:\nfpr:::::::::0x" ++ digits ++ ":\npub:\nfpr:::::::::" ++ digits ++ ":\n"
    let plan : Plan := { inputHome := "/home", stem := "/part", count := ⟨2, by decide⟩ }
    let machine := Machine.small fun arguments =>
      if arguments.contains "--list-keys" then .printing listing
      else if arguments.contains "--export" then { stdout := [0x41] }
      else {}
    (plan.prepare machine).1.isOk = true ∧ plan.Hands (plan.invocations machine) digits 0
      ∧ plan.Hands (plan.invocations machine) digits 1 ∧ ¬ plan.Agrees machine := by
  intro digits listing plan machine
  -- two listings, then one export and one import for each of the two keys
  have hfirst : plan.Hands (plan.invocations machine) digits 0 := by
    refine ⟨.publicHalf, [0x41], (plan.invocations machine).take 2,
      (plan.invocations machine).drop 4, ?_⟩
    decide +kernel
  have hsecond : plan.Hands (plan.invocations machine) digits 1 := by
    refine ⟨.publicHalf, [0x41], (plan.invocations machine).take 4, [], ?_⟩
    decide +kernel
  refine ⟨by decide +kernel, hfirst, hsecond, fun hagrees => ?_⟩
  exact absurd (hagrees.once digits 0 1 hfirst hsecond) (by decide)

end KeyBuckets.Plan
