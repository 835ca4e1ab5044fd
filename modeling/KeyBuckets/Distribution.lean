import KeyBuckets.Bucket
import KeyBuckets.Outcome
import KeyBuckets.Vault

/-!
# Distribution — the keys of one vault, spread over others

A distribution lists its source once and then takes the keys one by one, in the order
of the listing. Each key goes to the bucket that its fingerprint chooses: the public
half first, and the secret half only if the public one arrived, the key has one and
secrets are to be moved. Whatever goes wrong with a key is reported with that key and
stops nothing; only a failure to list the source does.

Whether a bucket took a secret half is a sum of counters, and how the sum is taken is
up to the program: `accepts` is the action that tells.
-/

namespace KeyBuckets

/-- What a distribution reports while it runs. -/
inductive Event where
  | started (keys : Nat)
  /-- A key is about to be moved to a bucket. -/
  | moving (fingerprint : String) (bucket : Nat)
  /-- The secret half of a key that was moved is not in the bucket. -/
  | secretSkipped (fingerprint : String) (reason : String)
  | settled (fingerprint : String) (outcome : Outcome)
  | finished (totals : Totals)
  deriving DecidableEq, Repr

/-- A source, and the buckets that its keys are spread over. -/
structure Distribution (m : Type → Type) (Material : Type) (count : BucketCount) where
  source : Vault m Material
  bucket : Fin count.value → Vault m Material
  /-- Whether secret halves are moved too. -/
  includeSecret : Bool := true

namespace Distribution

variable {m n : Type → Type} {Material : Type} {count : BucketCount}

def mapM (f : {α : Type} → m α → n α) (d : Distribution m Material count) :
    Distribution n Material count where
  source := d.source.mapM f
  bucket i := (d.bucket i).mapM f
  includeSecret := d.includeSecret

variable [Monad m]

def movePublic (d : Distribution m Material count) (key : Key) (target : Vault m Material) :
    m Outcome := do
  match ← d.source.exportPublic key.fingerprint with
  | .error e => return .exportFailed e.message
  | .ok material =>
    match ← target.importKeys material with
    | .error e => return .importFailed e.message
    | .ok counts => return .ofCounts counts

/-- Moves the secret half of a key. The answer is the reason why it did not arrive, if
it did not. -/
def moveSecret (d : Distribution m Material count) (accepts : ImportCounts → m Bool) (key : Key)
    (target : Vault m Material) : m (Option String) := do
  match ← d.source.exportSecret key.fingerprint with
  | .error e => return some e.message
  | .ok material =>
    match ← target.importKeys material with
    | .error e => return some e.message
    | .ok counts =>
      return if ← accepts counts then none
        else some ("secret key not imported: " ++ counts.describe)

/-- Whether the secret half of a key is moved, after what became of its public half. -/
def wantsSecret (d : Distribution m Material count) (key : Key) (outcome : Outcome) : Bool :=
  outcome.isSuccess && d.includeSecret && key.hasSecret

/-- Lets the secret half of a key follow its public one where that is wanted. -/
def followUp (d : Distribution m Material count) (notify : Event → m Unit)
    (accepts : ImportCounts → m Bool) (key : Key) (target : Vault m Material) (outcome : Outcome) :
    m Unit :=
  if d.wantsSecret key outcome then do
    match ← d.moveSecret accepts key target with
    | some reason => notify (.secretSkipped key.fingerprint reason)
    | none => pure ()
  else pure ()

/-- Moves a key to the bucket that it chooses, if there is one. -/
def move (d : Distribution m Material count) (notify : Event → m Unit)
    (accepts : ImportCounts → m Bool) (key : Key) : m Outcome :=
  match Bucket.assign count key.fingerprint with
  | .error e => pure (.unassigned e.message)
  | .ok i => do
    notify (.moving key.fingerprint i.val)
    let outcome ← d.movePublic key (d.bucket i)
    d.followUp notify accepts key (d.bucket i) outcome
    return outcome

def settle (d : Distribution m Material count) (notify : Event → m Unit)
    (accepts : ImportCounts → m Bool) (key : Key) : m Outcome := do
  let outcome ← d.move notify accepts key
  notify (.settled key.fingerprint outcome)
  return outcome

/-- Settles keys one after the other, counting on from the totals so far. -/
def settleAll (d : Distribution m Material count) (notify : Event → m Unit)
    (accepts : ImportCounts → m Bool) : Totals → List Key → m Totals
  | totals, [] => pure totals
  | totals, key :: keys => do
    let outcome ← d.settle notify accepts key
    settleAll d notify accepts (totals.record outcome) keys

def run (d : Distribution m Material count) (notify : Event → m Unit)
    (accepts : ImportCounts → m Bool) : m (Except Error Totals) := do
  match ← d.source.list with
  | .error e => return .error e
  | .ok keys =>
    notify (.started keys.length)
    let totals ← d.settleAll notify accepts {} keys
    notify (.finished totals)
    return .ok totals

end Distribution

end KeyBuckets
