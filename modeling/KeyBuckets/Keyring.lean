import KeyBuckets.Fingerprint
import KeyBuckets.Listing
import KeyBuckets.Machine.Basic
import KeyBuckets.Text.Search
import KeyBuckets.Text.Utf8
import KeyBuckets.Vault

/-!
# Keyrings — vaults behind a program

A keyring is a home directory and the program that looks after it. Each operation is
one invocation, or two for a listing, and `listAnswer`, `exportAnswer` and
`importAnswer` say what is made of a reply, whatever the program printed and however
it ended.
-/

namespace KeyBuckets

structure Keyring where
  home : String
  /-- The program that looks after keyrings. -/
  program : String := "gpg"
  /-- The seconds that an invocation may take, if there is a limit. -/
  limit : Option Nat := none
  deriving DecidableEq, Repr

namespace Keyring

open Machine Text

/-- The permissions of a home directory: all for its owner, none for others. -/
def homeMode : Nat := 0o700

/-- Makes the home directory, unless it is there. The parent has to be there. -/
def ensureHome (ring : Keyring) : StateM Machine (Except Error Unit) := fun machine =>
  match machine.tree.ensureDirectory machine.working ring.home homeMode with
  | .ok tree => (.ok (), { machine with tree })
  | .error cause => (.error (.homeNotMade ring.home cause), machine)

/-! ## Invocations -/

/-- A command to the program, about this keyring. Messages are asked for in plain
English, and nothing is asked of a terminal. -/
def invocation (ring : Keyring) (command : List String) (input : List UInt8) : Invocation where
  program := ring.program
  arguments := ["--homedir", ring.home, "--batch", "--no-tty"] ++ command
  environment := [("LC_ALL", "C")]
  input

def listPublicCommand : List String := ["--list-keys", "--with-colons", "--fixed-list-mode"]

def listSecretCommand : List String := ["--list-secret-keys", "--with-colons", "--fixed-list-mode"]

def exportPublicCommand (fingerprint : String) : List String := ["--export", fingerprint]

/-- The command that exports the secret half of a key, with an empty passphrase: a key
with another one fails instead of asking for it. -/
def exportSecretCommand (fingerprint : String) : List String :=
  ["--pinentry-mode", "loopback", "--passphrase", "", "--export-secret-keys", fingerprint]

/-- The command that imports keys and tells on its output what it did. -/
def importCommand : List String := ["--status-fd=1", "--import"]

/-- The reply to a command, if there is one in time. -/
def ask (ring : Keyring) (command : List String) (input : List UInt8) :
    StateM Machine (Except Error Reply) := do
  match ← invoke (ring.invocation command input) with
  | .error cause => return .error (.command cause)
  | .ok reply =>
    match reply.overruns, ring.limit with
    | true, some seconds => return .error (.timedOut seconds)
    | _, _ => return .ok reply

/-! ## What is made of a reply -/

/-- The error behind a reply that ended badly, by what the program printed about it. -/
def failure (ring : Keyring) (reply : Reply) : Error :=
  let said := Utf8.decode reply.stderr
  if occursIn "Permission denied".toList said || occursIn "permission denied".toList said then
    .permissionDenied
  else if occursIn "No such file or directory".toList said && occursIn ring.home.toList said then
    .noKeyring
  else .gpg reply.ending.status (String.ofList said)

/-- What a reply printed, if it ended well. -/
def output (ring : Keyring) (reply : Reply) : Except Error (List UInt8) :=
  if reply.ending.isSuccess then .ok reply.stdout else .error (ring.failure reply)

def listAnswer (ring : Keyring) (reply : Reply) : Except Error (List Key) :=
  (ring.output reply).map fun octets => Listing.keys (Utf8.decode octets)

/-- The material in the reply to an export. A reply without any means that there is no
such key. -/
def exportAnswer (ring : Keyring) (fingerprint : String) (reply : Reply) :
    Except Error (List UInt8) :=
  match ring.output reply with
  | .error e => .error e
  | .ok [] => .error (.keyNotFound fingerprint)
  | .ok material => .ok material

/-- What came of an import. Its own account is believed before anything else; without
one the ending decides, and then whether all input could be written. -/
def importAnswer (ring : Keyring) (reply : Reply) : Except Error ImportCounts :=
  match ImportCounts.read? (Utf8.decode reply.stdout) with
  | some counts => .ok counts
  | none =>
    if ¬ reply.ending.isSuccess then .error (ring.failure reply)
    else if ¬ reply.readsInput then .error (.command .brokenPipe)
    else .ok {}

/-! ## The four operations -/

def askList (ring : Keyring) (command : List String) :
    StateM Machine (Except Error (List Key)) := do
  match ← ring.ask command [] with
  | .error e => return .error e
  | .ok reply => return ring.listAnswer reply

/-- Lists public keys, and marks those that have their secret half. Where there is no
home directory the program is not asked, as it would make one. -/
def list (ring : Keyring) : StateM Machine (Except Error (List Key)) := do
  let machine ← get
  if machine.tree.leadsToDirectory machine.working ring.home then
    match ← ring.askList listPublicCommand with
    | .error e => return .error e
    | .ok publicKeys =>
      match ← ring.askList listSecretCommand with
      | .error e => return .error e
      | .ok secretKeys => return .ok (Key.markSecrets publicKeys secretKeys)
  else return .error .noKeyring

/-- Asks for an export of the key with a fingerprint. Only the canonical form of the
fingerprint gets into the command. -/
def askExport (ring : Keyring) (command : String → List String) (fingerprint : String) :
    StateM Machine (Except Error (List UInt8)) := do
  match Fingerprint.canonical fingerprint with
  | .error e => return .error e
  | .ok canonical =>
    match ← ring.ask (command canonical) [] with
    | .error e => return .error e
    | .ok reply => return ring.exportAnswer canonical reply

def exportPublic (ring : Keyring) (fingerprint : String) :
    StateM Machine (Except Error (List UInt8)) :=
  ring.askExport exportPublicCommand fingerprint

def exportSecret (ring : Keyring) (fingerprint : String) :
    StateM Machine (Except Error (List UInt8)) :=
  ring.askExport exportSecretCommand fingerprint

def importKeys (ring : Keyring) (material : List UInt8) :
    StateM Machine (Except Error ImportCounts) := do
  match ← ring.ask importCommand material with
  | .error e => return .error e
  | .ok reply => return ring.importAnswer reply

def vault (ring : Keyring) : Vault (StateM Machine) (List UInt8) where
  list := ring.list
  exportPublic := ring.exportPublic
  exportSecret := ring.exportSecret
  importKeys := ring.importKeys

end Keyring

end KeyBuckets
