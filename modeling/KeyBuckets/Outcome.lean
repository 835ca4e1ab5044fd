import KeyBuckets.ImportCounts

/-!
# Outcomes and totals

What became of one key, and how many keys fared well or badly. A key counts as moved
only if the import of its public half speaks of exactly one key: imported, or already
there and unchanged.
-/

namespace KeyBuckets

inductive Outcome where
  | imported
  | unchanged
  /-- The import went through without error and did not take the key. -/
  | rejected (counts : ImportCounts)
  /-- No bucket is responsible for the key. -/
  | unassigned (reason : String)
  | exportFailed (reason : String)
  | importFailed (reason : String)
  deriving DecidableEq, Repr

namespace Outcome

/-- What the counters of an import of one public key say about that key. -/
def ofCounts (counts : ImportCounts) : Outcome :=
  if counts.imported = 1 then imported
  else if counts.unchanged = 1 then unchanged
  else rejected counts

/-- Whether the key is in its bucket. -/
def isSuccess : Outcome → Bool
  | imported | unchanged => true
  | _ => false

theorem isSuccess_ofCounts {counts : ImportCounts} :
    (ofCounts counts).isSuccess = true ↔ counts.imported = 1 ∨ counts.unchanged = 1 := by
  unfold ofCounts
  grind [isSuccess]

end Outcome

/-- How many keys were moved and how many were not. -/
structure Totals where
  moved : Nat := 0
  failed : Nat := 0
  deriving DecidableEq, Repr

namespace Totals

def record (totals : Totals) (outcome : Outcome) : Totals :=
  if outcome.isSuccess then { totals with moved := totals.moved + 1 }
  else { totals with failed := totals.failed + 1 }

def keys (totals : Totals) : Nat :=
  totals.moved + totals.failed

def describe (totals : Totals) : String :=
  "Success: " ++ totals.moved.repr ++ "\nFailure: " ++ totals.failed.repr

end Totals

end KeyBuckets
