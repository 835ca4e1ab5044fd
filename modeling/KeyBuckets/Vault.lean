import KeyBuckets.Error
import KeyBuckets.ImportCounts
import KeyBuckets.Key

/-!
# Vaults — places that hold keys

A vault is known by four operations, each of which may fail, and nothing is assumed
about how their answers hang together. The operations run in a monad of the vault's
choosing, and `Material` is what a key looks like on its way from one vault to
another.
-/

namespace KeyBuckets

/-- A place that holds keys. -/
structure Vault (m : Type → Type) (Material : Type) where
  list : m (Except Error (List Key))
  /-- The public half of the key with a fingerprint. -/
  exportPublic : String → m (Except Error Material)
  /-- The secret half of the key with a fingerprint. -/
  exportSecret : String → m (Except Error Material)
  /-- Takes in keys, and tells what came of it. -/
  importKeys : Material → m (Except Error ImportCounts)

namespace Vault

variable {m n : Type → Type} {Material : Type}

def mapM (f : {α : Type} → m α → n α) (vault : Vault m Material) : Vault n Material where
  list := f vault.list
  exportPublic fingerprint := f (vault.exportPublic fingerprint)
  exportSecret fingerprint := f (vault.exportSecret fingerprint)
  importKeys material := f (vault.importKeys material)

inductive Request (Material : Type) where
  | list
  | exportPublic (fingerprint : String)
  | exportSecret (fingerprint : String)
  | importKeys (material : Material)
  deriving DecidableEq, Repr

/-- The same vault, where each request is noted before it is answered. -/
def noting [Monad m] (note : Request Material → m Unit) (vault : Vault m Material) :
    Vault m Material where
  list := do
    note .list
    vault.list
  exportPublic fingerprint := do
    note (.exportPublic fingerprint)
    vault.exportPublic fingerprint
  exportSecret fingerprint := do
    note (.exportSecret fingerprint)
    vault.exportSecret fingerprint
  importKeys material := do
    note (.importKeys material)
    vault.importKeys material

end Vault

end KeyBuckets
