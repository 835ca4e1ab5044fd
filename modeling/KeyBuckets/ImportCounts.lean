import KeyBuckets.Text.Blank
import KeyBuckets.Text.Numeral

/-!
# Import counts — what an import did, by its own account

An import ends with a line of counters on its status output. Five of them say what
happened to the key that was handed over; `ImportCounts.read?` finds the last such
line of an output and takes each counter from its own place on the line, so that a
counter that cannot be read is zero and disturbs no other.

Counters are 32-bit numbers, and so is the sum of two of them: it wraps, unless the
program checks for overflows, which then stops where it would add them.
-/

namespace KeyBuckets

instance numberOfCounter : CoeOut UInt32 Nat := ⟨UInt32.toNat⟩

/-- A number stands for the counter that it is the value of, modulo 2 to the 32nd. -/
instance counterOfNumber : CoeTail Nat UInt32 := ⟨UInt32.ofNat⟩

structure ImportCounts where
  considered : UInt32 := 0
  imported : UInt32 := 0
  unchanged : UInt32 := 0
  secretImported : UInt32 := 0
  secretUnchanged : UInt32 := 0
  deriving DecidableEq, Repr

namespace ImportCounts

/-- Whether a secret key was taken, or was there before, going by a sum that may wrap. -/
def secretAccepted (counts : ImportCounts) : Bool :=
  0 < counts.secretImported + counts.secretUnchanged

/-- Whether the sum of the two secret counters leaves the range of counters. -/
def overflows (counts : ImportCounts) : Bool :=
  UInt32.size ≤ counts.secretImported.toNat + counts.secretUnchanged.toNat

def describe (counts : ImportCounts) : String :=
  "ImportSummary \x7b considered: " ++ counts.considered.toNat.repr
    ++ ", imported: " ++ counts.imported.toNat.repr
    ++ ", unchanged: " ++ counts.unchanged.toNat.repr
    ++ ", secret_imported: " ++ counts.secretImported.toNat.repr
    ++ ", secret_unchanged: " ++ counts.secretUnchanged.toNat.repr ++ " \x7d"

/-! ## Reading a status output -/

open Text

def statusTag : List Char :=
  "[GNUPG:] IMPORT_RES ".toList

/-- The value of a word that is not a 32-bit number is zero. -/
def counter (word : List Char) : UInt32 :=
  (Numeral.read? UInt32.size word).getD 0

/-- The counters on a line, after its tag. A missing one is zero. -/
def ofWords (ws : List (List Char)) : ImportCounts :=
  let counterAt (place : Nat) := ((ws[place]?).map counter).getD 0
  { considered := counterAt 0
    imported := counterAt 2
    unchanged := counterAt 4
    secretImported := counterAt 10
    secretUnchanged := counterAt 11 }

/-- The counters of the last status line that has any. -/
def read? (output : List Char) : Option ImportCounts :=
  ((lines output).filterMap (statusTag.isPrefixOf? ·)).getLast?.map (ofWords <| words ·)

end ImportCounts

end KeyBuckets
