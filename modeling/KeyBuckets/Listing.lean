import KeyBuckets.Key
import KeyBuckets.Text.Pieces
import KeyBuckets.Text.Uppercase

/-!
# Listings — keys in a colon-separated listing

A listing has one record a line, with fields between colons; the first field names
the kind of the record, and fingerprints and user ids stand in the tenth. A record
of a primary key opens a key, and the records up to the next one belong to it. The
fingerprint of a key is the first one before any of its subkeys, and its user id is
the first one of all. A key without a fingerprint is left out.

`keysOf_append_primary` states that keys do not depend on what stands before their
primary record.
-/

namespace KeyBuckets.Listing

open Text

/-- A line of a listing, as far as it matters for keys. -/
inductive Record where
  /-- A primary key, from a listing of secret keys or of public ones. -/
  | primary (secret : Bool)
  | subkey
  | fingerprint (text : List Char)
  | userId (text : List Char)
  | other
  deriving DecidableEq

/-- Where fingerprints and user ids stand, counted from zero. -/
def textField : Nat := 9

/-- The record on a line. A fingerprint has to be there and is put in upper case; a
user id may be empty. -/
def Record.ofLine (line : List Char) : Record :=
  let fs := fields line
  let tag := fs.headD []
  if tag = ['p', 'u', 'b'] then .primary false
  else if tag = ['s', 'e', 'c'] then .primary true
  else if tag = ['s', 'u', 'b'] ∨ tag = ['s', 's', 'b'] then .subkey
  else match fs[textField]? with
    | none => .other
    | some text =>
      if tag = ['f', 'p', 'r'] ∧ text ≠ [] then .fingerprint (upperCase text)
      else if tag = ['u', 'i', 'd'] then .userId text
      else .other

/-- A key whose records are being read. -/
structure Draft where
  hasSecret : Bool
  fingerprint : Option (List Char) := none
  userId : Option (List Char) := none
  /-- Whether a subkey has begun, whose fingerprints are not the key's. -/
  inSubkey : Bool := false

namespace Draft

/-- The draft after one more of its records. -/
def note (draft : Draft) : Record → Draft
  | .subkey => { draft with inSubkey := true }
  | .fingerprint text =>
    if draft.inSubkey then draft
    else { draft with fingerprint := draft.fingerprint.or (some text) }
  | .userId text => { draft with userId := draft.userId.or (some text) }
  | .primary _ | .other => draft

/-- The key that the draft has become, unless its fingerprint is missing. -/
def key? (draft : Draft) : Option Key :=
  draft.fingerprint.map fun fingerprint =>
    { fingerprint := String.ofList fingerprint
      userId := String.ofList (draft.userId.getD [])
      hasSecret := draft.hasSecret }

end Draft

/-- The keys that the rest of the records complete, given the key in progress. -/
def keysFrom : Option Draft → List Record → List Key
  | draft, [] => (draft.bind Draft.key?).toList
  | draft, .primary secret :: rest =>
    (draft.bind Draft.key?).toList ++ keysFrom (some { hasSecret := secret }) rest
  | draft, record :: rest => keysFrom (draft.map (·.note record)) rest

def keysOf (records : List Record) : List Key :=
  keysFrom none records

def keys (text : List Char) : List Key :=
  keysOf ((lines text).map Record.ofLine)

/-! ## A primary record is a clean cut -/

theorem keysFrom_append_primary (draft : Option Draft) (before : List Record) (secret : Bool)
    (rest : List Record) :
    keysFrom draft (before ++ .primary secret :: rest)
      = keysFrom draft before ++ keysFrom none (.primary secret :: rest) := by
  induction before generalizing draft with
  | nil => simp [keysFrom]
  | cons record before ih =>
    cases record <;> simp [keysFrom, ih]

/-- What stands before a primary record and what starts with it are read apart. -/
theorem keysOf_append_primary (before : List Record) (secret : Bool) (rest : List Record) :
    keysOf (before ++ .primary secret :: rest)
      = keysOf before ++ keysOf (.primary secret :: rest) :=
  keysFrom_append_primary none before secret rest

end KeyBuckets.Listing
