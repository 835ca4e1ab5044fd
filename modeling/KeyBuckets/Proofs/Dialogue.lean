import KeyBuckets.Proofs.Answers
import KeyBuckets.Proofs.CanonicalForm
import KeyBuckets.Proofs.Course
import KeyBuckets.Proofs.Decoding
import KeyBuckets.Proofs.Homes

/-!
# Dialogue — what becomes of a key, by what the program answers

Once the source has been listed, each key takes its turns: an export, the import of what it gave,
and the same for the secret half if that is to follow. In each turn the program may be refused or
reply, and these answers alone decide what becomes of the key.

* **`Keyring.gives`**, **`Keyring.accepts`** — which replies to an export and an import are good.
* **`Dealing`** — the turns that belong to one key, and whether it counts as moved.
* **`dealings_of_blocks`** — the keys of a run are dealt with so, one after the other.
* **`carried_carryOut`**, **`takes_carryOut`** — what carrying out a plan comes to, and which turns
  it takes.
* **`tried`**, **`invocations`** — the attempts of a run, and those of them that are started.
* **`Machine.small`** — a machine for runs on fixed inputs.
-/

namespace KeyBuckets

namespace Machine

/-- A machine with a keyring at `/home` and the program `gpg`, which replies by its arguments. -/
def small (reply : List String → Reply)
    (refuses : List Attempt → Invocation → Option IoError := fun _ _ => none) : Machine where
  tree :=
    { entries := [(["home"], .directory 0o700), (["bin"], .directory 0o755),
        (["bin", "gpg"], .file true)]
      inDirectory := by decide }
  searchPath := "/bin"
  reply _ invocation := reply invocation.arguments
  refuses

/-- A reply that prints some ASCII text. -/
def Reply.printing (text : String) : Reply where
  stdout := Text.Utf8.ascii text.toList

end Machine

namespace Keyring

open Machine

/-! ## Good replies -/

/-- The reply to an export that gives material: in time, with a good ending and with output. -/
def gives (ring : Keyring) (reply : Reply) : Bool :=
  ring.inTime reply && reply.ending.isSuccess && !reply.stdout.isEmpty

/-- The reply to an import that took the key: in time, and with counters that speak of one key. -/
def accepts (ring : Keyring) (reply : Reply) : Bool :=
  ring.inTime reply
    && (ImportCounts.read? (Text.Utf8.decode reply.stdout)).any fun counts =>
      counts.imported = 1 || counts.unchanged = 1

variable {ring : Keyring} {s s' : Machine}

/-- What is no good in time is no good. -/
theorem any_eq_false_of_late {given : Except IoError Reply} {good : Reply → Bool}
    (hlate : given.toOption.any ring.inTime = false)
    (hgood : ∀ reply, ring.inTime reply = false → good reply = false) :
    given.toOption.any good = false := by
  cases given with
  | error cause => rfl
  | ok reply => exact hgood reply hlate

/-- The program is not asked for a fingerprint without a canonical form. -/
theorem askExport_of_error {e : Error} {fingerprint : String}
    (hform : Fingerprint.canonical fingerprint = .error e) (command : String → List String)
    (s : Machine) : ring.askExport command fingerprint s = (.error e, s) := by
  unfold askExport
  rw [hform]
  rfl

/-- An export is one turn, and it gives the output of a good reply or nothing. -/
theorem askExport_takes {command : String → List String} {fingerprint form : String}
    {answer : Except Error (List UInt8)} (hform : Fingerprint.canonical fingerprint = .ok form)
    (hexport : ring.askExport command fingerprint s = (answer, s')) :
    ∃ given, s.Takes [⟨ring.invocation (command form) [], given⟩] s'
      ∧ ((∃ reply, given = .ok reply ∧ ring.gives reply = true ∧ answer = .ok reply.stdout)
        ∨ (given.toOption.any ring.gives = false ∧ ∃ e, answer = .error e)) := by
  unfold askExport at hexport
  rw [hform] at hexport
  obtain ⟨asked, s₁, hask, hrest⟩ := exists_of_bind hexport
  obtain ⟨given, htakes, ⟨reply, rfl, hintime, rfl⟩ | ⟨hlate, e, rfl⟩⟩ := ask_takes hask
  · obtain ⟨rfl, rfl⟩ := Prod.mk.inj hrest
    refine ⟨_, htakes, ?_⟩
    show _ ∨ (ring.gives reply = false ∧ _)
    unfold gives
    rw [hintime, Bool.true_and]
    unfold exportAnswer output
    cases hending : reply.ending.isSuccess with
    | false => exact .inr ⟨rfl, _, rfl⟩
    | true =>
      cases hstdout : reply.stdout with
      | nil => exact .inr ⟨rfl, _, rfl⟩
      | cons octet octets => exact .inl ⟨reply, rfl, by simp [*], by rw [hstdout]; rfl⟩
  · obtain ⟨rfl, rfl⟩ := Prod.mk.inj hrest
    refine ⟨given, htakes, .inr ⟨any_eq_false_of_late hlate fun reply hreply => ?_, e, rfl⟩⟩
    unfold gives
    rw [hreply]
    rfl

/-- An import is one turn, and whether it counts as a success is up to the reply. -/
theorem importKeys_takes {material : List UInt8} {answer : Except Error ImportCounts}
    (himport : ring.importKeys material s = (answer, s')) :
    ∃ given, s.Takes [⟨ring.invocation importCommand material, given⟩] s'
      ∧ ((given.toOption.any ring.accepts = false ∧ ∃ e, answer = .error e)
        ∨ ∃ counts, answer = .ok counts
          ∧ (Outcome.ofCounts counts).isSuccess = given.toOption.any ring.accepts) := by
  obtain ⟨asked, s₁, hask, hrest⟩ := exists_of_bind himport
  obtain ⟨given, htakes, ⟨reply, rfl, hintime, rfl⟩ | ⟨hlate, e, rfl⟩⟩ := ask_takes hask
  · obtain ⟨rfl, rfl⟩ := Prod.mk.inj hrest
    refine ⟨_, htakes, ?_⟩
    show (ring.accepts reply = false ∧ _) ∨ ∃ counts, _ ∧ _ = ring.accepts reply
    unfold accepts
    rw [hintime, Bool.true_and]
    unfold importAnswer
    cases hcounts : ImportCounts.read? (Text.Utf8.decode reply.stdout) with
    | some counts =>
      refine .inr ⟨counts, rfl, Bool.eq_iff_iff.mpr ?_⟩
      rw [Outcome.isSuccess_ofCounts]
      simp
    | none =>
      -- without counters there is no success, whether or not the import counts as one
      dsimp only
      split
      · exact .inl ⟨rfl, _, rfl⟩
      · split
        · exact .inl ⟨rfl, _, rfl⟩
        · exact .inr ⟨_, rfl, rfl⟩
  · obtain ⟨rfl, rfl⟩ := Prod.mk.inj hrest
    refine ⟨given, htakes, .inl ⟨any_eq_false_of_late hlate fun reply hreply => ?_, e, rfl⟩⟩
    unfold accepts
    rw [hreply]
    rfl

end Keyring

namespace Plan

open Machine Keyring

/-! ## Dealing with keys -/

def bucket (plan : Plan) (i : Fin plan.count.value) : Keyring :=
  plan.keyring (plan.home i.val)

def exportCommand : Half → String → List String
  | .publicHalf => exportPublicCommand
  | .secretHalf => exportSecretCommand

def exporting (plan : Plan) (half : Half) (form : String) : Invocation :=
  plan.source.invocation (exportCommand half form) []

def importing (plan : Plan) (i : Fin plan.count.value) (material : List UInt8) : Invocation :=
  (plan.bucket i).invocation importCommand material

/-- One half of a key on its way to bucket `i`, with the reply to its import if there is one. Only
what an export gave is imported, and an export gives nothing if it is not started. -/
inductive Handling (plan : Plan) (half : Half) (form : String) (i : Fin plan.count.value) :
    List Turn → Option Reply → Prop where
  | withheld {answer : Except IoError Reply}
      (hgives : answer.toOption.any plan.source.gives = false) :
      Handling plan half form i [⟨plan.exporting half form, answer⟩] none
  | handed {given : Reply} {answer : Except IoError Reply}
      (hgives : plan.source.gives given = true) :
      Handling plan half form i
        [⟨plan.exporting half form, .ok given⟩, ⟨plan.importing i given.stdout, answer⟩]
        answer.toOption

/-- The turns that belong to one key, and whether it counts as moved. A key that chooses no bucket
and a fingerprint without a canonical form are not spoken of. -/
inductive Dealing (plan : Plan) (key : Key) : List Turn → Bool → Prop where
  | unassigned (hchoice : Bucket.choice? plan.count key.fingerprint = none) :
      Dealing plan key [] false
  | invalid {e : Error} (hform : Fingerprint.canonical key.fingerprint = .error e) :
      Dealing plan key [] false
  | publicOnly {i : Fin plan.count.value} {form : String} {turns : List Turn}
      {answer : Option Reply} {moved : Bool}
      (hchoice : Bucket.choice? plan.count key.fingerprint = some i)
      (hform : Fingerprint.canonical key.fingerprint = .ok form)
      (hpublic : Handling plan .publicHalf form i turns answer)
      (hmoved : moved = answer.any (plan.bucket i).accepts)
      (hstays : ¬ (moved = true ∧ plan.includeSecret = true ∧ key.hasSecret = true)) :
      Dealing plan key turns moved
  | bothHalves {i : Fin plan.count.value} {form : String} {turns more : List Turn}
      {answer secret : Option Reply} {moved : Bool}
      (hchoice : Bucket.choice? plan.count key.fingerprint = some i)
      (hform : Fingerprint.canonical key.fingerprint = .ok form)
      (hpublic : Handling plan .publicHalf form i turns answer)
      (hmoved : moved = answer.any (plan.bucket i).accepts)
      (hfollows : moved = true ∧ plan.includeSecret = true ∧ key.hasSecret = true)
      (hsecret : Handling plan .secretHalf form i more secret) :
      Dealing plan key (turns ++ more) moved

/-- Keys are dealt with one after the other. -/
inductive Dealings (plan : Plan) : List (Key × Bool) → List Turn → Prop where
  | nil : Dealings plan [] []
  | cons {key : Key} {moved : Bool} {dealt : List (Key × Bool)} {turns rest : List Turn}
      (hkey : Dealing plan key turns moved) (hrest : Dealings plan dealt rest) :
      Dealings plan ((key, moved) :: dealt) (turns ++ rest)

variable {plan : Plan} {key : Key} {i : Fin plan.count.value} {s s' : Machine}

/-- Both halves are exported in the same way, by commands of their own. -/
theorem exportHalf_vault (ring : Keyring) (half : Half) (fingerprint : String) :
    ring.vault.exportHalf half fingerprint = ring.askExport (exportCommand half) fingerprint := by
  cases half <;> rfl

theorem exportHalf_distribution (half : Half) (fingerprint : String) :
    plan.distribution.source.exportHalf half fingerprint
      = plan.source.askExport (exportCommand half) fingerprint :=
  exportHalf_vault plan.source half fingerprint

/-- What a passage comes to, in turns. -/
theorem handling_of_passage {half : Half} {form : String} {arrival : Arrival}
    {passed : List (Occurrence (List UInt8) plan.count)}
    (hform : Fingerprint.canonical key.fingerprint = .ok form)
    (h : Distribution.Passage plan.distribution half key i s arrival passed s') :
    ∃ turns answer, Handling plan half form i turns answer ∧ s.Takes turns s'
      ∧ arrival.outcome.isSuccess = answer.any (plan.bucket i).accepts := by
  -- the turn of the export, by whether it gives material
  have hexported : ∀ {answer : Except Error (List UInt8)} {s₁ : Machine},
      plan.distribution.source.exportHalf half key.fingerprint s = (answer, s₁) →
      ∃ given, s.Takes [⟨plan.exporting half form, given⟩] s₁
        ∧ ((∃ reply, given = .ok reply ∧ plan.source.gives reply = true
            ∧ answer = .ok reply.stdout)
          ∨ (given.toOption.any plan.source.gives = false ∧ ∃ e, answer = .error e)) := by
    intro answer s₁ hexport
    rw [exportHalf_distribution] at hexport
    exact askExport_takes hform hexport
  have himported : ∀ {material : List UInt8} {s₁ : Machine} {answer : Except Error ImportCounts},
      plan.distribution.source.exportHalf half key.fingerprint s = (.ok material, s₁) →
      (plan.distribution.bucket i).importKeys material s₁ = (answer, s') →
      ∃ turns given, Handling plan half form i turns given ∧ s.Takes turns s'
        ∧ ((given.any (plan.bucket i).accepts = false ∧ ∃ e, answer = .error e)
          ∨ ∃ counts, answer = .ok counts
            ∧ (Outcome.ofCounts counts).isSuccess = given.any (plan.bucket i).accepts) := by
    intro material s₁ answer hexport himport
    obtain ⟨_, htakes, ⟨reply, rfl, hgives, hmaterial⟩ | ⟨-, e, he⟩⟩ := hexported hexport
    · obtain rfl := Except.ok.inj hmaterial
      have himport : (plan.bucket i).importKeys reply.stdout s₁ = (answer, s') := himport
      obtain ⟨given, htakes', hanswer⟩ := importKeys_takes himport
      exact ⟨_, given.toOption, .handed hgives, htakes.trans htakes', hanswer⟩
    · cases he
  cases h with
  | exportFailed hexport =>
    obtain ⟨given, htakes, ⟨reply, -, -, hmaterial⟩ | ⟨hgives, -⟩⟩ := hexported hexport
    · cases hmaterial
    · exact ⟨_, none, .withheld hgives, htakes, rfl⟩
  | importFailed hexport himport =>
    obtain ⟨turns, given, hturns, htakes, ⟨hrefused, -⟩ | ⟨counts, hcounts, -⟩⟩ :=
      himported hexport himport
    · exact ⟨turns, given, hturns, htakes, hrefused.symm⟩
    · cases hcounts
  | answered hexport himport =>
    obtain ⟨turns, given, hturns, htakes, ⟨-, e, he⟩ | ⟨counts, hcounts, hsuccess⟩⟩ :=
      himported hexport himport
    · cases he
    · obtain rfl := Except.ok.inj hcounts
      exact ⟨turns, given, hturns, htakes, hsuccess⟩

/-- A fingerprint without a canonical form is not spoken of. -/
theorem passage_of_invalid {half : Half} {e : Error} {arrival : Arrival}
    {passed : List (Occurrence (List UInt8) plan.count)}
    (hform : Fingerprint.canonical key.fingerprint = .error e)
    (h : Distribution.Passage plan.distribution half key i s arrival passed s') :
    s' = s ∧ arrival.outcome.isSuccess = false := by
  have hrefused : plan.distribution.source.exportHalf half key.fingerprint s = (.error e, s) := by
    rw [exportHalf_distribution]
    exact askExport_of_error hform _ s
  cases h with
  | exportFailed hexport =>
    obtain ⟨-, rfl⟩ := Prod.mk.inj (hrefused.symm.trans hexport)
    exact ⟨rfl, rfl⟩
  | importFailed hexport => cases hrefused.symm.trans hexport
  | answered hexport => cases hrefused.symm.trans hexport

/-- What happens for a key, in turns. It is settled by the canonical form of its fingerprint and by
its bucket whether there are any. -/
theorem dealing_of_block {outcome : Outcome} {block : List (Occurrence (List UInt8) plan.count)}
    (h : Distribution.Block plan.distribution key s outcome block s') :
    ∃ turns, Dealing plan key turns outcome.isSuccess ∧ s.Takes turns s' := by
  cases hchoice : Bucket.choice? plan.count key.fingerprint with
  | none =>
    obtain ⟨rfl, rfl, -⟩ := h.of_choice_none hchoice
    exact ⟨[], .unassigned hchoice, .none⟩
  | some i =>
    obtain ⟨arrival, half, s₁, hpublic, rfl, hrest⟩ := h.of_choice hchoice
    cases hform : Fingerprint.canonical key.fingerprint with
    | error e =>
      obtain ⟨rfl, hfailed⟩ := passage_of_invalid hform hpublic
      rcases hrest with ⟨-, rfl, -⟩ | ⟨hfollows, -⟩
      · rw [hfailed]
        exact ⟨[], .invalid hform, .none⟩
      · exact absurd hfollows.1 (by rw [hfailed]; decide)
    | ok form =>
      obtain ⟨turns, answer, hturns, htakes, hmoved⟩ := handling_of_passage hform hpublic
      rcases hrest with ⟨hstays, rfl, -⟩ | ⟨hfollows, secret, other, hsecret, -⟩
      · exact ⟨turns, .publicOnly hchoice hform hturns hmoved hstays, htakes⟩
      · obtain ⟨more, answer', hmore, htakes', -⟩ :=
          handling_of_passage hform hsecret
        exact ⟨turns ++ more, .bothHalves hchoice hform hturns hmoved hfollows hmore,
          htakes.trans htakes'⟩

/-- **Keys are dealt with one after the other**, and those that count as moved are those that the
answers in their turns make so. -/
theorem dealings_of_blocks {settled : List (Key × Outcome)}
    {blocks : List (Occurrence (List UInt8) plan.count)}
    (h : Distribution.Blocks plan.distribution s settled blocks s') :
    ∃ turns, Dealings plan (settled.map fun pair => (pair.1, pair.2.isSuccess)) turns
      ∧ s.Takes turns s' := by
  induction h with
  | nil => exact ⟨[], .nil, .none⟩
  | cons hblock _ ih =>
    obtain ⟨turns, hkey, htakes⟩ := dealing_of_block hblock
    obtain ⟨rest, hrest, htakes'⟩ := ih
    exact ⟨turns ++ rest, .cons hkey hrest, htakes.trans htakes'⟩

/-! ## Carrying out a plan -/

/-- What carrying out a plan comes to. It fails if a home cannot be made or the source cannot be
listed, and otherwise all listed keys are settled. -/
inductive Carried (plan : Plan) (machine : Machine) : Course plan.count → Machine → Prop where
  | unfurnished {tree : FileTree} {e : Error}
      (hhomes : Unfurnished machine.working machine.tree plan.homes e) :
      Carried plan machine { result := .error e } { machine with tree }
  | unlisted {tree : FileTree} {e : Error} {listed : Machine}
      (hhomes : Furnished machine.working machine.tree plan.homes tree)
      (hlist : plan.source.list { machine with tree } = (.error e, listed)) :
      Carried plan machine
        { result := .error e, trace := [.request .source .list], buckets := plan.buckets } listed
  | finished {tree : FileTree} {listed final : Machine} {settled : List (Key × Outcome)}
      {blocks : List (Occurrence (List UInt8) plan.count)}
      (hhomes : Furnished machine.working machine.tree plan.homes tree)
      (hlist : plan.source.list { machine with tree } = (.ok (settled.map Prod.fst), listed))
      (hblocks : Distribution.Blocks plan.distribution listed settled blocks final) :
      Carried plan machine
        { result := (Distribution.Record.ofBlocks settled blocks final).result
          trace := (Distribution.Record.ofBlocks settled blocks final).trace
          buckets := plan.buckets } final

/-- Once a plan is prepared, carrying it out is its distribution. -/
theorem carryOut_of_prepare {machine prepared final : Machine} {rings : List Keyring}
    {result : Except Error Totals} {trace : List (Occurrence (List UInt8) plan.count)}
    (hprepare : plan.prepare machine = (.ok rings, prepared))
    (hrun : plan.distribution.runTraced prepared = ((result, trace), final)) :
    plan.carryOut machine = ({ result, trace, buckets := rings }, final) :=
  (bind_of_eq hprepare _).trans (bind_of_eq hrun _)

/-- A plan that cannot be prepared is not distributed. -/
theorem carryOut_of_not_prepare {machine machine' : Machine} {e : Error}
    (hprepare : plan.prepare machine = (.error e, machine')) :
    plan.carryOut machine = ({ result := .error e }, machine') :=
  bind_of_eq hprepare _

/-- Every plan is carried out in one of the three ways. -/
theorem carried_carryOut (plan : Plan) (machine : Machine) :
    Carried plan machine (plan.carryOut machine).1 (plan.carryOut machine).2 := by
  rcases furnished_or_unfurnished machine.working machine.tree plan.homes with
    ⟨tree, hhomes⟩ | ⟨e, hhomes⟩
  · have hprepare := prepare_of_furnished hhomes
    rcases hlist : plan.source.list { machine with tree } with ⟨_ | keys, listed⟩
    · rw [carryOut_of_prepare hprepare (Distribution.Course.unlisted hlist).runTraced]
      exact .unlisted hhomes hlist
    · obtain ⟨settled, blocks, final, rfl, hblocks⟩ :=
        Distribution.exists_blocks plan.distribution keys listed
      rw [carryOut_of_prepare hprepare
        (Distribution.Course.finished hlist rfl hblocks rfl).runTraced, List.length_map]
      exact .finished hhomes hlist hblocks
  · obtain ⟨tree, hprepare⟩ := prepare_of_unfurnished hhomes
    rw [carryOut_of_not_prepare hprepare]
    exact .unfurnished hhomes

/-- The keys that the source lists when a plan is carried out: none if it does not get so far. -/
def listed (plan : Plan) (machine : Machine) : List Key :=
  match plan.prepare machine with
  | (.ok _, prepared) => (plan.source.list prepared).1.toOption.getD []
  | (.error _, _) => []

/-- The attempts that are made while a plan is carried out. -/
def tried (plan : Plan) (machine : Machine) : List Attempt :=
  (plan.carryOut machine).2.attempts.drop machine.attempts.length

/-- The invocations that are started while a plan is carried out. -/
def invocations (plan : Plan) (machine : Machine) : List Invocation :=
  (plan.tried machine).filterMap Attempt.started?

theorem listed_of_furnished {tree : FileTree} {machine : Machine}
    (hhomes : Furnished machine.working machine.tree plan.homes tree) :
    plan.listed machine = (plan.source.list { machine with tree }).1.toOption.getD [] := by
  unfold listed
  rw [prepare_of_furnished hhomes]

/-- What a machine goes through during a run: the listings, and then the turns that belong to the
listed keys. -/
theorem takes_carryOut (plan : Plan) (machine : Machine) :
    ∃ commands tree start dealt turns, commands <+: [listPublicCommand, listSecretCommand]
      ∧ { machine with tree }.Attempts
        (commands.map fun command => plan.source.invocation command []) start
      ∧ dealt.map Prod.fst = plan.listed machine ∧ Dealings plan dealt turns
      ∧ start.Takes turns (plan.carryOut machine).2 := by
  have hcarried := carried_carryOut plan machine
  generalize (plan.carryOut machine).1 = course at hcarried
  generalize (plan.carryOut machine).2 = final at hcarried ⊢
  cases hcarried with
  | @unfurnished tree e hhomes =>
    obtain ⟨tree', hprepare⟩ := prepare_of_unfurnished hhomes
    have hlisted : plan.listed machine = [] := by
      unfold listed
      rw [hprepare]
    exact ⟨[], tree, _, [], [], List.nil_prefix, .none _, hlisted.symm, .nil, .none⟩
  | @unlisted tree e _ hhomes hlist =>
    obtain ⟨commands, hcommands, hattempts⟩ := list_attempts hlist
    have hlisted : plan.listed machine = [] := by
      rw [listed_of_furnished hhomes, hlist]
      rfl
    exact ⟨commands, tree, final, [], [], hcommands, hattempts, hlisted.symm, .nil, .none⟩
  | @finished tree start final settled blocks hhomes hlist hblocks =>
    obtain ⟨commands, hcommands, hattempts⟩ := list_attempts hlist
    obtain ⟨turns, hdealt, htakes⟩ := dealings_of_blocks hblocks
    have hlisted : plan.listed machine = settled.map Prod.fst := by
      rw [listed_of_furnished hhomes, hlist]
      rfl
    refine ⟨commands, tree, start, _, turns, hcommands, hattempts, ?_, hdealt, htakes⟩
    rw [hlisted, List.map_map]
    rfl

/-- The attempts of a run are those on its machine, whatever becomes of the tree. -/
theorem tried_eq_of_tries {plan : Plan} {machine : Machine} {tree : FileTree}
    {tried : List Attempt} (h : { machine with tree }.Tries tried (plan.carryOut machine).2) :
    plan.tried machine = tried := by
  unfold Plan.tried
  rw [h.attempts]
  exact List.drop_left

/-- The attempts of a run: the listings, and then the turns for the listed keys. -/
theorem tried_eq (plan : Plan) (machine : Machine) :
    ∃ commands listings dealt turns, commands <+: [listPublicCommand, listSecretCommand]
      ∧ listings.map Attempt.invocation
        = commands.map (fun command => plan.source.invocation command [])
      ∧ dealt.map Prod.fst = plan.listed machine ∧ Dealings plan dealt turns
      ∧ plan.tried machine = listings ++ turns.map Turn.attempt := by
  obtain ⟨commands, tree, start, dealt, turns, hcommands, ⟨listings, hlistings, htries⟩, hkeys,
    hdealt, htakes⟩ := plan.takes_carryOut machine
  exact ⟨commands, listings, dealt, turns, hcommands, hlistings, hkeys, hdealt,
    tried_eq_of_tries (htries.trans htakes.tries)⟩

/-- A run adds its attempts to those of the machine, and takes nothing away. -/
theorem attempts_eq_append_tried (plan : Plan) (machine : Machine) :
    (plan.carryOut machine).2.attempts = machine.attempts ++ plan.tried machine := by
  obtain ⟨commands, tree, start, dealt, turns, -, ⟨listings, -, htries⟩, -, -, htakes⟩ :=
    plan.takes_carryOut machine
  have hwhole := htries.trans htakes.tries
  rw [tried_eq_of_tries hwhole]
  exact hwhole.attempts

/-- And so it does with the invocations that are started. -/
theorem history_eq_append_invocations (plan : Plan) (machine : Machine) :
    (plan.carryOut machine).2.history = machine.history ++ plan.invocations machine := by
  unfold Machine.history
  rw [attempts_eq_append_tried, List.filterMap_append]
  rfl

/-- Of a listing, only what was tried can have been started. -/
theorem listing_of_started {commands : List (List String)} {listings : List Attempt}
    (hcommands : commands <+: [listPublicCommand, listSecretCommand])
    (h : listings.map Attempt.invocation
      = commands.map (fun command => plan.source.invocation command [])) :
    ∀ call ∈ listings.filterMap Attempt.started?,
      ∃ command ∈ [listPublicCommand, listSecretCommand],
        call = plan.source.invocation command [] := by
  intro call hcall
  obtain ⟨attempt, hattempt, hstarted⟩ := List.mem_filterMap.mp hcall
  have hmem := List.mem_map_of_mem (f := Attempt.invocation) hattempt
  rw [h, Attempt.eq_of_started hstarted] at hmem
  obtain ⟨command, hcommand, hsame⟩ := List.mem_map.mp hmem
  exact ⟨command, hcommands.subset hcommand, hsame.symm⟩

/-- The invocations of a run: those of the listings, and then those for the listed keys. -/
theorem invocations_eq (plan : Plan) (machine : Machine) :
    ∃ listings dealt turns,
      (∀ call ∈ listings, ∃ command ∈ [listPublicCommand, listSecretCommand],
        call = plan.source.invocation command [])
      ∧ dealt.map Prod.fst = plan.listed machine ∧ Dealings plan dealt turns
      ∧ plan.invocations machine = listings ++ turns.filterMap Turn.started? := by
  obtain ⟨commands, listings, dealt, turns, hcommands, hlistings, hkeys, hdealt, htried⟩ :=
    plan.tried_eq machine
  refine ⟨_, dealt, turns, listing_of_started hcommands hlistings, hkeys, hdealt, ?_⟩
  unfold invocations
  rw [htried, List.filterMap_append, started_of_turns]

end Plan

end KeyBuckets
