import KeyBuckets.Text.Pieces
import KeyBuckets.Vault

/-!
# Shelves — vaults held in memory

A shelf is a list of keys, and a key travels as a text: `PUB:` or `SEC:` and its
fingerprint, or several of these with semicolons between them. What a shelf answers
can be overruled, key by key for exports and request by request for imports, so that
any course of a run can be staged.
-/

namespace KeyBuckets.Memory

open Text

/-- A vault in memory, with its keys and the answers that overrule its own. -/
structure Shelf where
  keys : List Key := []
  /-- The error that listing ends with. -/
  listError : Option Error := none
  /-- Answers to exports of public halves, by fingerprint. -/
  publicExports : List (String × Except Error String) := []
  /-- Answers to exports of secret halves, by fingerprint. -/
  secretExports : List (String × Except Error String) := []
  /-- Answers to the next imports, where `none` leaves an import to the shelf. -/
  imports : List (Option (Except Error ImportCounts)) := []

def publicText (fingerprint : String) : String :=
  "PUB:" ++ fingerprint

def secretText (fingerprint : String) : String :=
  "SEC:" ++ fingerprint

/-! ## What an import takes in -/

/-- One key in the material of an import. -/
structure Block where
  secret : Bool
  fingerprint : String
  deriving DecidableEq, Repr

/-- The key in a block: the kind stands before the first colon, the fingerprint after
it. -/
def Block.read? (cs : List Char) : Option Block :=
  match cs.span (· ≠ ':') with
  | (kind, ':' :: rest) =>
    if kind = ['P', 'U', 'B'] then some ⟨false, String.ofList rest⟩
    else if kind = ['S', 'E', 'C'] then some ⟨true, String.ofList rest⟩
    else none
  | _ => none

/-- What the import of one block does to a list of keys: nothing for a key that is
there, apart from a secret half that it lacked; else the key is added at the end. -/
def Block.addTo (block : Block) : List Key → List Key
  | [] => [⟨block.fingerprint, "", block.secret⟩]
  | k :: ks =>
    if k.fingerprint = block.fingerprint then
      { k with hasSecret := k.hasSecret || block.secret } :: ks
    else k :: block.addTo ks

/-- The counters with the import of one block into a list of keys added. -/
def Block.count (block : Block) (keys : List Key) (counts : ImportCounts) : ImportCounts :=
  let considered := counts.considered + 1
  match keys.find? (·.fingerprint = block.fingerprint) with
  | none =>
    { counts with
      considered
      imported := counts.imported + 1
      secretImported := counts.secretImported + if block.secret then 1 else 0 }
  | some key =>
    { counts with
      considered
      unchanged := counts.unchanged + 1
      secretImported := counts.secretImported + if block.secret && !key.hasSecret then 1 else 0
      secretUnchanged := counts.secretUnchanged + if block.secret && key.hasSecret then 1 else 0 }

/-- What an import of material without any key in it ends with. -/
def noKeyData : Error :=
  .gpg 2 "gpg: no valid OpenPGP data found."

/-- Imports blocks one by one, and stops at the first that is none. What came before
it stays imported. -/
def takeBlocks : List (List Char) → ImportCounts → List Key → Except Error ImportCounts × List Key
  | [], counts, keys => (.ok counts, keys)
  | cs :: rest, counts, keys =>
    match Block.read? cs with
    | none => (.error noKeyData, keys)
    | some block => takeBlocks rest (block.count keys counts) (block.addTo keys)

namespace Shelf

/-! ## The four operations -/

def list (shelf : Shelf) : Except Error (List Key) :=
  match shelf.listError with
  | some e => .error e
  | none => .ok shelf.keys

def exportPublic (shelf : Shelf) (fingerprint : String) : Except Error String :=
  match shelf.publicExports.lookup fingerprint with
  | some answer => answer
  | none =>
    if shelf.keys.any (·.fingerprint = fingerprint) then .ok (publicText fingerprint)
    else .error (.keyNotFound fingerprint)

def exportSecret (shelf : Shelf) (fingerprint : String) : Except Error String :=
  match shelf.secretExports.lookup fingerprint with
  | some answer => answer
  | none =>
    match shelf.keys.find? (·.fingerprint = fingerprint) with
    | some key =>
      if key.hasSecret then .ok (secretText fingerprint) else .error (.keyNotFound fingerprint)
    | none => .error (.keyNotFound fingerprint)

/-- Takes in the keys of a text, unless an answer is set for this import. -/
def importKeys (shelf : Shelf) (material : String) : Except Error ImportCounts × Shelf :=
  let rest := { shelf with imports := shelf.imports.tail }
  match shelf.imports.head?.join with
  | some answer => (answer, rest)
  | none =>
    let (answer, keys) := takeBlocks (pieces (· == ';') material.toList) {} shelf.keys
    (answer, { rest with keys })

def vault : Vault (StateM Shelf) String where
  list := return (← get).list
  exportPublic fingerprint := return (← get).exportPublic fingerprint
  exportSecret fingerprint := return (← get).exportSecret fingerprint
  importKeys material := fun shelf => shelf.importKeys material

end Shelf

end KeyBuckets.Memory
