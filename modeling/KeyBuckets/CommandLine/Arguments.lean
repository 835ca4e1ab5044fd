import KeyBuckets.Text.Numeral

/-!
# Command line — arguments

Three values have to be given, in order: the home of the keyring to split, the start
of the bucket homes and the number of buckets. Options may stand anywhere among them,
each at most once, with its value in the next argument or after an equals sign. After
a lone `--` everything is a value. Arguments are read from left to right, and the
first one that is wrong, or that asks for help or the version, settles the matter.

This is one reader of command lines. What a command does once its line is understood does
not depend on it.
-/

namespace KeyBuckets.CommandLine

inductive Positional where
  | inputHome
  | stem
  | count
  deriving DecidableEq, Repr

inductive Flag where
  | program
  | publicOnly
  | limit
  deriving DecidableEq, Repr

inductive UsageError where
  | unexpectedArgument (text : String)
  | repeatedOption (flag : Flag)
  | missingOptionValue (flag : Flag)
  /-- An option that takes no value has one. -/
  | superfluousValue (option value : String)
  | invalidValue (text name : String)
  | missingValues (positionals : List Positional)
  deriving DecidableEq, Repr

/-- What a distribution is told on the command line. -/
structure Settings where
  inputHome : String
  stem : String
  count : Nat
  program : String := "gpg"
  publicOnly : Bool := false
  limit : Option Nat := none
  deriving DecidableEq, Repr

inductive Request where
  | help
  | version
  | distribute (settings : Settings)
  deriving DecidableEq, Repr

/-- Whole numbers on the command line have 64 bits. -/
def numberBound : Nat := 18446744073709551616

/-! ## Spellings -/

def Positional.label : Positional → String
  | inputHome => "<INPUT_HOME>"
  | stem => "<OUTPUT_BASE>"
  | count => "<PARTITIONS>"

def Flag.label : Flag → String
  | program => "--gpg <GPG>"
  | publicOnly => "--public-only"
  | limit => "--timeout-secs <TIMEOUT_SECS>"

def UsageError.message : UsageError → String
  | unexpectedArgument text => "unexpected argument '" ++ text ++ "' found"
  | repeatedOption flag => "the argument '" ++ flag.label ++ "' cannot be used multiple times"
  | missingOptionValue flag =>
    "a value is required for '" ++ flag.label ++ "' but none was supplied"
  | superfluousValue option value =>
    "unexpected value '" ++ value ++ "' for '" ++ option ++ "' found; no more were expected"
  | invalidValue text name => "invalid value '" ++ text ++ "' for '" ++ name ++ "'"
  | missingValues positionals =>
    "the following required arguments were not provided:"
      ++ String.join (positionals.map fun p => "\n  " ++ p.label)

/-! ## Reading arguments -/

/-- What the arguments read so far have given. -/
structure Given where
  inputHome : Option String := none
  stem : Option String := none
  count : Option Nat := none
  program : Option String := none
  publicOnly : Bool := false
  limit : Option Nat := none

namespace Given

/-- A path, which must not be empty. -/
def path (positional : Positional) (text : String) : Except UsageError String :=
  if text = "" then .error (.invalidValue text positional.label) else .ok text

def number (name text : String) : Except UsageError Nat :=
  match Text.Numeral.read? numberBound text.toList with
  | some n => .ok n
  | none => .error (.invalidValue text name)

/-- The next of the three values. -/
def addValue (given : Given) (text : String) : Except UsageError Given :=
  if given.inputHome = none then
    (path .inputHome text).map fun value => { given with inputHome := some value }
  else if given.stem = none then
    (path .stem text).map fun value => { given with stem := some value }
  else if given.count = none then
    (number Positional.count.label text).map fun value => { given with count := some value }
  else .error (.unexpectedArgument text)

def addProgram (given : Given) (text : String) : Except UsageError Given :=
  if given.program = none then .ok { given with program := some text }
  else .error (.repeatedOption .program)

def addLimit (given : Given) (text : String) : Except UsageError Given :=
  if given.limit = none then
    (number Flag.limit.label text).map fun value => { given with limit := some value }
  else .error (.repeatedOption .limit)

def addPublicOnly (given : Given) : Except UsageError Given :=
  if given.publicOnly then .error (.repeatedOption .publicOnly)
  else .ok { given with publicOnly := true }

/-- The settings, once nothing is missing. -/
def settings (given : Given) : Except UsageError Settings :=
  match given.inputHome, given.stem, given.count with
  | some inputHome, some stem, some count =>
    .ok
      { inputHome, stem, count
        program := given.program.getD "gpg"
        publicOnly := given.publicOnly
        limit := given.limit }
  | inputHome, stem, count =>
    .error (.missingValues
      ((if inputHome = none then [.inputHome] else [])
        ++ (if stem = none then [.stem] else [])
        ++ (if count = none then [.count] else [])))

end Given

inductive Argument where
  | value (text : String)
  /-- The lone `--`. -/
  | separator
  /-- An option by name, with what stands after an equals sign. -/
  | named (name : String) (value : Option String)
  /-- Options by letter, of which only the first one counts. -/
  | letter (c : Char)

/-- The kind of an argument, by the hyphens that it starts with. -/
def Argument.ofText (text : String) : Argument :=
  match text.toList with
  | ['-', '-'] => .separator
  | '-' :: '-' :: cs =>
    match cs.span (· ≠ '=') with
    | (name, '=' :: rest) => .named (String.ofList name) (some (String.ofList rest))
    | (name, _) => .named (String.ofList name) none
  | '-' :: c :: _ => .letter c
  | _ => .value text

/-- Reads the arguments after the separator, all of which are values. -/
def readValues : List String → Given → Except UsageError Request
  | [], given => given.settings.map .distribute
  | text :: rest, given => do readValues rest (← given.addValue text)

/-- Reads arguments, given what those before them said. -/
def readFrom : List String → Given → Except UsageError Request
  | [], given => given.settings.map .distribute
  | text :: rest, given =>
    match Argument.ofText text with
    | .value value => do readFrom rest (← given.addValue value)
    | .separator => readValues rest given
    | .letter 'h' | .named "help" none => .ok .help
    | .letter 'V' | .named "version" none => .ok .version
    | .named "public-only" none => do readFrom rest (← given.addPublicOnly)
    | .named "gpg" (some value) => do readFrom rest (← given.addProgram value)
    | .named "timeout-secs" (some value) => do readFrom rest (← given.addLimit value)
    | .named "gpg" none => withValue .program rest given
    | .named "timeout-secs" none => withValue .limit rest given
    | .named name (some value) =>
      if name = "help" ∨ name = "version" ∨ name = "public-only" then
        .error (.superfluousValue ("--" ++ name) value)
      else .error (.unexpectedArgument text)
    | .named .. | .letter _ => .error (.unexpectedArgument text)
where
  /-- Reads an option whose value is the next argument. -/
  withValue (flag : Flag) (rest : List String) (given : Given) : Except UsageError Request :=
    match rest with
    | [] => .error (.missingOptionValue flag)
    | text :: rest =>
      match Argument.ofText text with
      | .value value => do
        readFrom rest (← if flag = .limit then given.addLimit value else given.addProgram value)
      | _ => .error (.missingOptionValue flag)

def read (arguments : List String) : Except UsageError Request :=
  readFrom arguments {}

end KeyBuckets.CommandLine
