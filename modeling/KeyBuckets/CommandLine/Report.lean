import KeyBuckets.CommandLine.Arguments
import KeyBuckets.Plan

/-!
# Command line — what a command does and prints

A command ends with a report: what it prints and its exit status. Status 0 says that
the distribution ran to its end, however many keys failed; 1 that it could not start;
2 that the command line is wrong. Only a distribution that ran to its end prints
anything about keys.

How a command line is understood, and how a plan is carried out, are parameters here:
`runAs` takes any reader of command lines, and any way to carry out a plan, so also one
with a check that may stop the program. `run` is the command with the reader of
`CommandLine.Arguments`.
-/

namespace KeyBuckets.CommandLine

/-- Why a command ends without having done what it was asked for. -/
inductive Failure where
  | usage (error : UsageError)
  /-- The command line is well-formed and asks for something that cannot be. -/
  | request (error : Error)
  | run (error : Error)
  deriving DecidableEq, Repr

structure Report where
  stdout : String := ""
  failure : Option Failure := none
  deriving DecidableEq, Repr

def Report.status (report : Report) : Nat :=
  match report.failure with
  | none => 0
  | some (.run _) => 1
  | some (.usage _) | some (.request _) => 2

/-- What is printed about an error that is not one of usage. -/
def errorText (error : Error) : String :=
  "Error: " ++ error.message ++ "\n"

def Failure.text : Failure → String
  | usage error => "error: " ++ error.message ++ "\n\nFor more information, try '--help'.\n"
  | request error | run error => errorText error

def versionText : String :=
  "gpg-split-keyring 0.1.0\n"

def helpText : String :=
  "Split a GPG keyring into N sub-keyrings by fingerprint prefix

Usage: gpg-split-keyring [OPTIONS] <INPUT_HOME> <OUTPUT_BASE> <PARTITIONS>

Arguments:
  <INPUT_HOME>   Home directory of the keyring to split
  <OUTPUT_BASE>  Prefix for the output keyrings; keyring i is created at <OUTPUT_BASE>i
  <PARTITIONS>   Number of output keyrings

Options:
      --gpg <GPG>                    GPG executable to run [default: gpg]
      --public-only                  Copy public keys only, leaving secret key material behind
      --timeout-secs <TIMEOUT_SECS>  Abort any single GPG invocation after this many seconds
  -h, --help                         Print help
  -V, --version                      Print version
"

/-- What an event prints: keys as they are moved, and the totals at the end. -/
def eventText : Event → String
  | .moving fingerprint bucket =>
    "Moving key " ++ fingerprint ++ " into keyring " ++ bucket.repr ++ "\n"
  | .finished totals => totals.describe ++ "\n"
  | _ => ""

/-- The plan that the settings of a command line amount to. -/
def Settings.plan (settings : Settings) : Except Error Plan :=
  (Plan.new? settings.inputHome settings.stem settings.count).map fun plan =>
    { plan with
      program := settings.program
      includeSecret := !settings.publicOnly
      limit := settings.limit }

/-- The report on a plan that was carried out. -/
def reportOn {count : BucketCount} (course : Plan.Course count) : Report where
  stdout := String.join ((eventsOf course.trace).map eventText)
  failure := match course.result with
    | .ok _ => none
    | .error e => some (.run e)

section Commands

variable {m : Type → Type} [Monad m]

def perform (carryOut : (plan : Plan) → m (Plan.Course plan.count)) : Request → m Report
  | .help => return { stdout := helpText }
  | .version => return { stdout := versionText }
  | .distribute settings =>
    match settings.plan with
    | .error e => return { failure := some (.request e) }
    | .ok plan => return reportOn (← carryOut plan)

/-- What a command line comes to, as `reader` understands it. -/
def runAs (reader : List String → Except UsageError Request)
    (carryOut : (plan : Plan) → m (Plan.Course plan.count)) (arguments : List String) : m Report :=
  match reader arguments with
  | .error e => return { failure := some (.usage e) }
  | .ok request => perform carryOut request

end Commands

def run (arguments : List String) : StateM Machine Report :=
  runAs read Plan.carryOut arguments

end KeyBuckets.CommandLine
