import KeyBuckets.Machine.Program

/-!
# Machines — a file tree and programs that answer

A machine has a file tree, a working directory and a search path, and two rules: what a
program that is started does, and which programs are not started although they could be.
The rules see what came before, so a program may answer the same question differently each
time, and a system that has just started a program may refuse to start it again. Programs
leave the tree alone; they read their input and give back what they print and how they end.
-/

namespace KeyBuckets.Machine

structure Invocation where
  program : String
  arguments : List String
  /-- Variables of the environment that are set for this program. -/
  environment : List (String × String)
  input : List UInt8
  deriving DecidableEq, Repr

/-- An invocation that was tried, and whether it was started. -/
inductive Attempt where
  | started (invocation : Invocation)
  | refused (invocation : Invocation) (cause : IoError)
  deriving DecidableEq, Repr

inductive Ending where
  | exited (status : UInt8)
  | killed (signal : Nat)
  deriving DecidableEq, Repr

structure Reply where
  stdout : List UInt8 := []
  stderr : List UInt8 := []
  ending : Ending := .exited 0
  /-- Whether the program reads its input to the end, so that all of it can be
  written. -/
  readsInput : Bool := true
  /-- Whether the program takes longer than any limit set for it. -/
  overruns : Bool := false
  deriving DecidableEq, Repr

end Machine

/-- A machine, with the attempts to start a program on it, oldest first. -/
structure Machine where
  tree : Machine.FileTree := {}
  working : Machine.Location := []
  searchPath : String := ""
  /-- The reply of a program, by the invocations that were started before it. -/
  reply : List Machine.Invocation → Machine.Invocation → Machine.Reply := fun _ _ => {}
  /-- Why the system does not start a program that could be started, by all attempts so
  far. It may be out of processes or memory at any time. -/
  refuses : List Machine.Attempt → Machine.Invocation → Option IoError := fun _ _ => none
  attempts : List Machine.Attempt := []

namespace Machine

def Attempt.invocation : Attempt → Invocation
  | started invocation | refused invocation _ => invocation

def Attempt.started? : Attempt → Option Invocation
  | started invocation => some invocation
  | refused .. => none

/-- The invocations that were started, oldest first. -/
def history (machine : Machine) : List Invocation :=
  machine.attempts.filterMap Attempt.started?

def Ending.isSuccess : Ending → Bool
  | exited status => status = 0
  | killed _ => false

/-- The exit status of a program. One that was killed has none, which is written as
minus one. -/
def Ending.status : Ending → Int
  | exited status => status.toNat
  | killed _ => -1

/-- Whether an invocation is started. There has to be a program for it, and the system may
still refuse. -/
def start (machine : Machine) (invocation : Invocation) : Except IoError Unit :=
  match startable machine.tree machine.working machine.searchPath invocation.program
      invocation.arguments with
  | .error cause => .error cause
  | .ok () =>
    match machine.refuses machine.attempts invocation with
    | some cause => .error cause
    | none => .ok ()

/-- Starts a program, gives it its input, and waits until it has ended. -/
def invoke (invocation : Invocation) : StateM Machine (Except IoError Reply) := fun machine =>
  match machine.start invocation with
  | .error cause =>
    (.error cause, { machine with attempts := machine.attempts ++ [.refused invocation cause] })
  | .ok () =>
    (.ok (machine.reply machine.history invocation),
      { machine with attempts := machine.attempts ++ [.started invocation] })

end Machine

end KeyBuckets
