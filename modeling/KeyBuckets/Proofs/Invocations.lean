import KeyBuckets.Keyring

/-!
# Invocations — what comes of a command

A command is one attempt to start the program, and nothing else of the machine changes. The attempt
may be refused, each time anew; a program that is started replies, and its reply may come too late.

* **`Machine.Tries`** — from one machine to another, some more invocations are tried.
* **`Machine.Turn`**, **`Machine.Takes`** — invocations with what came of them, and a machine that
  goes through them.
* **`Keyring.Asked`**, **`Keyring.asked_iff`** — what comes of a command.
-/

namespace KeyBuckets

/-- An action that is followed by another one is taken apart. -/
theorem exists_of_bind {σ α β : Type} {act : StateM σ α} {next : α → StateM σ β} {s s' : σ} {b : β}
    (h : (act >>= next) s = (b, s')) : ∃ a s₁, act s = (a, s₁) ∧ next a s₁ = (b, s') :=
  ⟨_, _, rfl, h⟩

/-- An action of which the first part is known goes on from there. -/
theorem bind_of_eq {σ α β : Type} {act : StateM σ α} {s s₁ : σ} {a : α} (h : act s = (a, s₁))
    (next : α → StateM σ β) : (act >>= next) s = next a s₁ := by
  show next (act s).1 (act s).2 = _
  rw [h]

namespace Machine

/-! ## Attempts -/

/-- From `s` to `s'` some more invocations are tried on a machine, and nothing else of it
changes. -/
def Tries (s : Machine) (tried : List Attempt) (s' : Machine) : Prop :=
  s' = { s with attempts := s.attempts ++ tried }

theorem Tries.none (s : Machine) : s.Tries [] s := by
  unfold Tries
  rw [List.append_nil]

/-- What is tried adds up. -/
theorem Tries.trans {s s₁ s' : Machine} {tried more : List Attempt} (h : s.Tries tried s₁)
    (h' : s₁.Tries more s') : s.Tries (tried ++ more) s' := by
  unfold Tries at *
  rw [h', h, List.append_assoc]

theorem Tries.attempts {s s' : Machine} {tried : List Attempt} (h : s.Tries tried s') :
    s'.attempts = s.attempts ++ tried := by
  rw [h]

/-- Only what was started is seen by the programs. -/
theorem Tries.history {s s' : Machine} {tried : List Attempt} (h : s.Tries tried s') :
    s'.history = s.history ++ tried.filterMap Attempt.started? := by
  unfold Machine.history
  rw [h.attempts, List.filterMap_append]

/-- The rule of replies stays the same, whatever is tried. -/
theorem Tries.reply {s s' : Machine} {tried : List Attempt} (h : s.Tries tried s') :
    s'.reply = s.reply := by
  rw [h]

/-- From `s` to `s'` these invocations are tried, and each of them is started or refused. -/
def Attempts (s : Machine) (calls : List Invocation) (s' : Machine) : Prop :=
  ∃ tried, tried.map Attempt.invocation = calls ∧ s.Tries tried s'

theorem Attempts.none (s : Machine) : s.Attempts [] s :=
  ⟨[], rfl, .none s⟩

/-- Invocations that are tried add up, started or not. -/
theorem Attempts.trans {s s₁ s' : Machine} {calls more : List Invocation} (h : s.Attempts calls s₁)
    (h' : s₁.Attempts more s') : s.Attempts (calls ++ more) s' := by
  obtain ⟨tried, rfl, htries⟩ := h
  obtain ⟨tried', rfl, htries'⟩ := h'
  exact ⟨tried ++ tried', List.map_append, htries.trans htries'⟩

/-! ## Turns -/

/-- An invocation that is tried, with the reply to it, or why it was refused. -/
structure Turn where
  invocation : Invocation
  answer : Except IoError Reply

def Turn.attempt (turn : Turn) : Attempt :=
  match turn.answer with
  | .ok _ => .started turn.invocation
  | .error cause => .refused turn.invocation cause

/-- The invocation of a turn, if it was started. -/
def Turn.started? (turn : Turn) : Option Invocation :=
  turn.attempt.started?

/-- What was started is the invocation of its attempt. -/
theorem Attempt.eq_of_started {attempt : Attempt} {call : Invocation}
    (h : attempt.started? = some call) : attempt.invocation = call := by
  cases attempt with
  | started invocation => exact Option.some.inj h
  | refused => cases h

theorem Turn.invocation_attempt (turn : Turn) : turn.attempt.invocation = turn.invocation := by
  obtain ⟨invocation, _ | _⟩ := turn <;> rfl

theorem Turn.eq_of_started {turn : Turn} {call : Invocation} (h : turn.started? = some call) :
    turn.invocation = call := by
  rw [← turn.invocation_attempt]
  exact Attempt.eq_of_started h

/-- From one machine to the other these turns are taken: each invocation comes to what the machine
makes of it after all those before. -/
inductive Takes : Machine → List Turn → Machine → Prop where
  | none {s : Machine} : Takes s [] s
  | turn {s s₁ s' : Machine} {invocation : Invocation} {answer : Except IoError Reply}
      {turns : List Turn} (hinvoke : invoke invocation s = (answer, s₁))
      (hturns : Takes s₁ turns s') : Takes s (⟨invocation, answer⟩ :: turns) s'

/-- An invocation that is refused is noted as such, and there is no reply. -/
theorem invoke_of_error {s : Machine} {invocation : Invocation} {cause : IoError}
    (h : s.start invocation = .error cause) :
    invoke invocation s
      = (.error cause, { s with attempts := s.attempts ++ [.refused invocation cause] }) := by
  unfold invoke
  rw [h]

/-- An invocation that is started gets the reply that is due after those before it. -/
theorem invoke_of_ok {s : Machine} {invocation : Invocation} (h : s.start invocation = .ok ()) :
    invoke invocation s
      = (.ok (s.reply s.history invocation),
        { s with attempts := s.attempts ++ [.started invocation] }) := by
  unfold invoke
  rw [h]

/-- An invocation is one attempt, whatever comes of it. -/
theorem tries_of_invoke {s s' : Machine} {invocation : Invocation} {answer : Except IoError Reply}
    (h : invoke invocation s = (answer, s')) : s.Tries [Turn.attempt ⟨invocation, answer⟩] s' := by
  cases hstart : s.start invocation with
  | error cause =>
    rw [invoke_of_error hstart] at h
    cases h
    rfl
  | ok _ =>
    rw [invoke_of_ok hstart] at h
    cases h
    rfl

/-- The reply to an invocation is the one after those that were started before. -/
theorem reply_of_invoke {s s' : Machine} {invocation : Invocation} {reply : Reply}
    (h : invoke invocation s = (.ok reply, s')) : reply = s.reply s.history invocation := by
  cases hstart : s.start invocation with
  | error cause =>
    rw [invoke_of_error hstart] at h
    cases h
  | ok _ =>
    rw [invoke_of_ok hstart] at h
    cases h
    rfl

/-- Turns add up. Induction on those that come first. -/
theorem Takes.trans {s s₁ s' : Machine} {turns more : List Turn} (h : s.Takes turns s₁)
    (h' : s₁.Takes more s') : s.Takes (turns ++ more) s' := by
  induction h with
  | none => exact h'
  | turn hinvoke _ ih => exact .turn hinvoke (ih h')

/-- Turns are attempts, one each. -/
theorem Takes.tries {s s' : Machine} {turns : List Turn} (h : s.Takes turns s') :
    s.Tries (turns.map Turn.attempt) s' := by
  induction h with
  | none => exact .none _
  | turn hinvoke _ ih => exact (tries_of_invoke hinvoke).trans ih

/-- What is started among the attempts of turns is what is started among the turns. -/
theorem started_of_turns (turns : List Turn) :
    (turns.map Turn.attempt).filterMap Attempt.started? = turns.filterMap Turn.started? := by
  rw [List.filterMap_map]
  rfl

theorem Takes.attempts {s s' : Machine} {turns : List Turn} (h : s.Takes turns s') :
    s.Attempts (turns.map Turn.invocation) s' := by
  refine ⟨turns.map Turn.attempt, ?_, h.tries⟩
  rw [List.map_map]
  exact List.map_congr_left fun turn _ => turn.invocation_attempt

/-- The reply of a turn is the one that the machine gives after the turns before it. -/
theorem Takes.reply_eq {s s' : Machine} {turns : List Turn} (h : s.Takes turns s')
    {before after : List Turn} {invocation : Invocation} {reply : Reply}
    (hturns : turns = before ++ ⟨invocation, .ok reply⟩ :: after) :
    reply = s.reply (s.history ++ before.filterMap Turn.started?) invocation := by
  induction h generalizing before with
  | none => simp at hturns
  | @turn s s₁ s' first answer turns hinvoke _ ih =>
    cases before with
    | nil =>
      obtain ⟨hfirst, -⟩ := List.cons.inj hturns
      obtain ⟨rfl, rfl⟩ := Turn.mk.inj hfirst
      rw [List.filterMap_nil, List.append_nil]
      exact reply_of_invoke hinvoke
    | cons turn before =>
      obtain ⟨rfl, hrest⟩ := List.cons.inj hturns
      have htries := tries_of_invoke hinvoke
      rw [ih hrest, htries.reply, htries.history, List.append_assoc]
      cases answer <;> rfl

end Machine

namespace Keyring

open Machine

variable {ring : Keyring} {command : List String} {input : List UInt8} {s s' : Machine}

/-! ## What comes of a command -/

/-- The reply comes within the limit, if there is one. -/
def inTime (ring : Keyring) (reply : Reply) : Bool :=
  !(reply.overruns && ring.limit.isSome)

/-- Whether the program of a keyring is started with a command. -/
def starts (ring : Keyring) (command : List String) (input : List UInt8) (s : Machine) :
    Except IoError Unit :=
  s.start (ring.invocation command input)

/-- What comes of a command: the program is not started, or its reply is too late for the limit, or
there is a reply. The attempt is made in any case, and a program that is started sees it, however
late it replies. -/
inductive Asked (ring : Keyring) (command : List String) (input : List UInt8) (s : Machine) :
    Except Error Reply → Machine → Prop where
  | unstarted {cause : IoError} {s' : Machine} (hstart : ring.starts command input s = .error cause)
      (htries : s.Tries [.refused (ring.invocation command input) cause] s') :
      Asked ring command input s (.error (.command cause)) s'
  | late {seconds : Nat} {s' : Machine} (hstart : ring.starts command input s = .ok ())
      (htries : s.Tries [.started (ring.invocation command input)] s')
      (hlate : (s.reply s.history (ring.invocation command input)).overruns = true)
      (hlimit : ring.limit = some seconds) :
      Asked ring command input s (.error (.timedOut seconds)) s'
  | answered {reply : Reply} {s' : Machine} (hstart : ring.starts command input s = .ok ())
      (htries : s.Tries [.started (ring.invocation command input)] s')
      (hreply : reply = s.reply s.history (ring.invocation command input))
      (hintime : ring.inTime reply = true) :
      Asked ring command input s (.ok reply) s'

/-- Every command comes to one of the three, by whether it starts and when its reply comes. -/
theorem asked_ask (ring : Keyring) (command : List String) (input : List UInt8) (s : Machine) :
    ring.Asked command input s (ring.ask command input s).1 (ring.ask command input s).2 := by
  unfold ask
  cases hstart : ring.starts command input s with
  | error cause =>
    rw [bind_of_eq (invoke_of_error hstart)]
    exact .unstarted hstart rfl
  | ok _ =>
    rw [bind_of_eq (invoke_of_ok hstart)]
    -- the reply is late only if it overruns and there is a limit
    cases hoverruns : (s.reply s.history (ring.invocation command input)).overruns <;>
      cases hlimit : ring.limit <;> dsimp only <;> rw [hoverruns]
    case true.some seconds => exact .late hstart rfl hoverruns hlimit
    all_goals exact .answered hstart rfl rfl (by simp [inTime, hoverruns, hlimit])

/-- And what comes of it is settled by that. -/
theorem Asked.ask_eq {answer : Except Error Reply} (h : ring.Asked command input s answer s') :
    ring.ask command input s = (answer, s') := by
  unfold ask
  cases h with
  | unstarted hstart htries =>
    rw [bind_of_eq (invoke_of_error hstart), htries]
    rfl
  | late hstart htries hlate hlimit =>
    rw [bind_of_eq (invoke_of_ok hstart), htries]
    dsimp only
    rw [hlate, hlimit]
    rfl
  | answered hstart htries hreply hintime =>
    rw [bind_of_eq (invoke_of_ok hstart), htries, hreply]
    rw [hreply] at hintime
    dsimp only
    unfold inTime at hintime
    cases hoverruns : (s.reply s.history (ring.invocation command input)).overruns <;>
      cases hlimit : ring.limit <;> rw [hoverruns, hlimit] at hintime
    case true.some seconds => cases hintime
    all_goals rfl

/-- **What comes of a command**, without the function that gives it. -/
theorem asked_iff {answer : Except Error Reply} :
    ring.ask command input s = (answer, s') ↔ ring.Asked command input s answer s' := by
  constructor
  · intro h
    have hasked := asked_ask ring command input s
    rwa [h] at hasked
  · exact fun h => h.ask_eq

/-- A command is one turn. Its reply counts only if it comes in time. -/
theorem ask_takes {answer : Except Error Reply} (h : ring.ask command input s = (answer, s')) :
    ∃ given, s.Takes [⟨ring.invocation command input, given⟩] s'
      ∧ ((∃ reply, given = .ok reply ∧ ring.inTime reply = true ∧ answer = .ok reply)
        ∨ (given.toOption.any ring.inTime = false ∧ ∃ e, answer = .error e)) := by
  cases asked_iff.mp h with
  | unstarted hstart htries =>
    have hinvoke := invoke_of_error hstart
    rw [← htries] at hinvoke
    exact ⟨_, .turn hinvoke .none, .inr ⟨rfl, _, rfl⟩⟩
  | late hstart htries hlate hlimit =>
    have hinvoke := invoke_of_ok hstart
    rw [← htries] at hinvoke
    exact ⟨_, .turn hinvoke .none, .inr ⟨by simp [inTime, hlate, hlimit, Except.toOption], _, rfl⟩⟩
  | answered hstart htries hreply hintime =>
    subst hreply
    have hinvoke := invoke_of_ok hstart
    rw [← htries] at hinvoke
    exact ⟨_, .turn hinvoke .none, .inl ⟨_, rfl, hintime, rfl⟩⟩

/-- A command is tried once, whatever comes of it. -/
theorem ask_attempts {answer : Except Error Reply} (h : ring.ask command input s = (answer, s')) :
    s.Attempts [ring.invocation command input] s' := by
  obtain ⟨given, htakes, -⟩ := ask_takes h
  exact htakes.attempts

end Keyring

end KeyBuckets
