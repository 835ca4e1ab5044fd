/-!
# Keys
-/

namespace KeyBuckets

/-- A key as a listing shows it. -/
structure Key where
  fingerprint : String
  userId : String
  hasSecret : Bool
  deriving DecidableEq, Repr

namespace Key

def withSecret (key : Key) : Key :=
  { key with hasSecret := true }

/-- Marks the first key with the fingerprint of `key` as having its secret half. If
there is none, `key` is added at the end, marked. -/
def adoptSecret (key : Key) : List Key → List Key
  | [] => [key.withSecret]
  | k :: ks => if k.fingerprint = key.fingerprint then k.withSecret :: ks else k :: adoptSecret key ks

/-- A listing of public keys, completed by a listing of secret keys: the public one
decides the order, and secret keys unknown to it follow in their own order. -/
def markSecrets (publicKeys secretKeys : List Key) : List Key :=
  secretKeys.foldl (fun keys key => adoptSecret key keys) publicKeys

@[simp] theorem markSecrets_nil (keys : List Key) : markSecrets keys [] = keys := rfl

end Key

end KeyBuckets
