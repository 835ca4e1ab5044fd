/-!
# Errors — what can go wrong, and how it is worded

An error is its cause with the values that belong to it. The wording is in the
`message` functions and nowhere else; values go into a message as they are, without
quoting or escaping.
-/

namespace KeyBuckets

/-- Why the operating system refuses a request. -/
inductive IoError where
  | notFound
  | argumentsTooLong
  | noChildProcesses
  | accessDenied
  | alreadyExists
  | notDirectory
  | brokenPipe
  | nameTooLong
  | tooManyLinks
  /-- A path holds a NUL, which no path can. -/
  | nulInPath
  /-- The name or an argument of a program holds a NUL. -/
  | nulInCommand
  /-- Something other than a directory is where a directory is wanted. -/
  | occupied
  | other (text : String)
  deriving DecidableEq, Repr

/-- The system's words for one of its numbered errors. -/
def IoError.numbered (text : String) (number : Nat) : String :=
  text ++ " (os error " ++ number.repr ++ ")"

def IoError.message : IoError → String
  | notFound => numbered "No such file or directory" 2
  | argumentsTooLong => numbered "Argument list too long" 7
  | noChildProcesses => numbered "No child processes" 10
  | accessDenied => numbered "Permission denied" 13
  | alreadyExists => numbered "File exists" 17
  | notDirectory => numbered "Not a directory" 20
  | brokenPipe => numbered "Broken pipe" 32
  | nameTooLong => numbered "File name too long" 36
  | tooManyLinks => numbered "Too many levels of symbolic links" 40
  | nulInPath => "file name contained an unexpected NUL byte"
  | nulInCommand => "nul byte found in provided data"
  | occupied => "path exists and is not a directory"
  | other text => text

/-- Why a text is not taken for a fingerprint. -/
inductive FingerprintFault where
  | empty
  | notHexadecimal
  | wrongLength (length : Nat)
  /-- The first character, which chooses the bucket, is no hexadecimal digit. -/
  | noLeadingDigit
  | other (reason : String)
  deriving DecidableEq, Repr

def FingerprintFault.message : FingerprintFault → String
  | empty => "fingerprint cannot be empty"
  | notHexadecimal => "fingerprint must contain only hexadecimal characters"
  | wrongLength length => "fingerprint must be 40 or 64 hex characters (got " ++ length.repr ++ ")"
  | noLeadingDigit => "fingerprint must start with a hexadecimal digit"
  | other reason => reason

/-- Why an operation on keys fails. -/
inductive Error where
  /-- A program could not be started, or its input not be written. -/
  | command (cause : IoError)
  /-- The program ran and reports a failure of its own. -/
  | gpg (status : Int) (stderr : String)
  | invalidFingerprint (text : String) (fault : FingerprintFault)
  | invalidBucketCount (count : Nat)
  /-- The home directory of a keyring cannot be made. -/
  | homeNotMade (path : String) (cause : IoError)
  | keyNotFound (fingerprint : String)
  /-- There is no keyring in the home directory. -/
  | noKeyring
  | permissionDenied
  | timedOut (seconds : Nat)
  /-- The standard input of a program cannot be reached. -/
  | noInputPipe
  deriving DecidableEq, Repr

namespace Error

def message : Error → String
  | command cause => "command execution failed: " ++ cause.message
  | gpg status stderr => "gpg exited with status " ++ status.repr ++ ": " ++ stderr
  | invalidFingerprint text fault => "invalid fingerprint '" ++ text ++ "': " ++ fault.message
  | invalidBucketCount count =>
    "invalid partition count " ++ count.repr ++ ": must be at least 1"
  | homeNotMade path cause =>
    "cannot create keyring directory '" ++ path ++ "': " ++ cause.message
  | keyNotFound fingerprint => "key not found: " ++ fingerprint
  | noKeyring => "keyring not initialized"
  | permissionDenied => "permission denied"
  | timedOut seconds => "operation timed out after " ++ seconds.repr ++ " seconds"
  | noInputPipe => "failed to open stdin of gpg subprocess"

/-- The refusal of the operating system behind an error, if that is its cause. -/
def source? : Error → Option IoError
  | command cause | homeNotMade _ cause => some cause
  | _ => none

end Error

end KeyBuckets
