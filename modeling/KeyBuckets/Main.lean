import KeyBuckets.CommandLine.Report

/-!
# The command

The command is tried out on a machine without files and without programs: it shows
how a command line is understood, and every request about keys ends as it does where
nothing is there yet. Programs are values here, so the command starts none and
changes no file.
-/

namespace KeyBuckets.CommandLine

def bareMachine : Machine := {}

/-- Prints a report. The answer is the exit status. -/
def Report.print (report : Report) : IO UInt32 := do
  IO.print report.stdout
  if let some failure := report.failure then
    IO.eprint failure.text
  return UInt32.ofNat report.status

end KeyBuckets.CommandLine

def main (arguments : List String) : IO UInt32 :=
  ((KeyBuckets.CommandLine.run arguments).run KeyBuckets.CommandLine.bareMachine).1.print
