import KeyBuckets.Keyring
import KeyBuckets.Trace

/-!
# Plans — a keyring to split, and where its parts go

A plan names the keyring to split and the start of the paths of its buckets. Carrying
it out makes the homes of the buckets that are missing, in order, and then distributes
the keys.
-/

namespace KeyBuckets

/-- A keyring to split into buckets. -/
structure Plan where
  inputHome : String
  /-- What the home of each bucket starts with. -/
  stem : String
  count : BucketCount
  program : String := "gpg"
  includeSecret : Bool := true
  /-- The seconds that an invocation may take, if there is a limit. -/
  limit : Option Nat := none

namespace Plan

def new? (inputHome stem : String) (n : Nat) : Except Error Plan :=
  (BucketCount.ofNat? n).map fun count => { inputHome, stem, count }

/-- The keyring in a home directory, as the plan sees it. -/
def keyring (plan : Plan) (home : String) : Keyring where
  home
  program := plan.program
  limit := plan.limit

def source (plan : Plan) : Keyring :=
  plan.keyring plan.inputHome

def home (plan : Plan) (number : Nat) : String :=
  Bucket.home plan.stem number

def homes (plan : Plan) : List String :=
  (List.range plan.count.value).map plan.home

def buckets (plan : Plan) : List Keyring :=
  plan.homes.map plan.keyring

/-- Makes the homes of keyrings in order, up to the first that cannot be made. -/
def ensureHomes : List Keyring → StateM Machine (Except Error Unit)
  | [] => return .ok ()
  | ring :: rings => do
    match ← ring.ensureHome with
    | .error e => return .error e
    | .ok () => ensureHomes rings

def prepare (plan : Plan) : StateM Machine (Except Error (List Keyring)) := do
  match ← ensureHomes plan.buckets with
  | .error e => return .error e
  | .ok () => return .ok plan.buckets

def distribution (plan : Plan) : Distribution (StateM Machine) (List UInt8) plan.count where
  source := plan.source.vault
  bucket i := (plan.keyring (plan.home i.val)).vault
  includeSecret := plan.includeSecret

/-- What carrying out a plan leads to. -/
structure Course (count : BucketCount) where
  result : Except Error Totals
  trace : List (Occurrence (List UInt8) count) := []
  /-- The buckets, if they could be made. -/
  buckets : List Keyring := []

def carryOut (plan : Plan) : StateM Machine (Course plan.count) := do
  match ← plan.prepare with
  | .error e => return { result := .error e }
  | .ok buckets =>
    let (result, trace) ← plan.distribution.runTraced
    return { result, trace, buckets }

/-- Carries out a plan with the check for overflows. Nothing comes of a distribution that it
stops. -/
def carryOutChecked (plan : Plan) : OptionT (StateM Machine) (Course plan.count) := do
  match ← plan.prepare with
  | .error e => return { result := .error e }
  | .ok buckets =>
    match ← plan.distribution.runChecked with
    | (some result, trace) => return { result, trace, buckets }
    | (none, _) => failure

end Plan

end KeyBuckets
