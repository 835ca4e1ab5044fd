import KeyBuckets.Memory.Shelf
import KeyBuckets.Parts

/-!
# Worlds of shelves — distributions in memory, run after run

A world has one shelf as the source and some as buckets. Between runs its shelves and
the treatment of secret halves can be changed; `World.step` does one such thing and
`World.after` any number of them.
-/

namespace KeyBuckets.Memory

/-- All shelves of a distribution, and whether it moves secret halves. -/
structure World (count : BucketCount) where
  shelves : Parts Shelf Shelf count
  includeSecret : Bool := true

/-- What a run leads to: its result, and all that happened in it. -/
structure RunReport (count : BucketCount) where
  result : Except Error Totals
  trace : List (Occurrence String count)

namespace World

variable {count : BucketCount}

def ofShelves (count : BucketCount) (source : Shelf) (buckets : List Shelf) : World count where
  shelves := { source, buckets := Vector.ofFn fun i => buckets.getD i.val {} }

def distribution (includeSecret : Bool) :
    Distribution (StateM (Parts Shelf Shelf count)) String count :=
  .ofParts Shelf.vault (fun _ => Shelf.vault) includeSecret

def run (world : World count) : RunReport count × World count :=
  let ((result, trace), shelves) := (distribution world.includeSecret).runTraced world.shelves
  ({ result, trace }, { world with shelves })

end World

/-! ## Histories -/

/-- A change of what a shelf holds or answers. -/
inductive Change where
  | addKey (key : Key)
  /-- Takes away all keys with a fingerprint. -/
  | removeKeys (fingerprint : String)
  | keys (keys : List Key)
  | listError (error : Option Error)
  | publicExports (answers : List (String × Except Error String))
  | secretExports (answers : List (String × Except Error String))
  | imports (answers : List (Option (Except Error ImportCounts)))

def Shelf.change (shelf : Shelf) : Change → Shelf
  | .addKey key => { shelf with keys := shelf.keys ++ [key] }
  | .removeKeys fingerprint =>
    { shelf with keys := shelf.keys.filter (·.fingerprint ≠ fingerprint) }
  | .keys keys => { shelf with keys }
  | .listError listError => { shelf with listError }
  | .publicExports publicExports => { shelf with publicExports }
  | .secretExports secretExports => { shelf with secretExports }
  | .imports imports => { shelf with imports }

/-- Something that happens to a world. -/
inductive Step (count : BucketCount) where
  | run
  | includeSecret (value : Bool)
  | change (place : Place count) (change : Change)

namespace World

variable {count : BucketCount}

def change (world : World count) (place : Place count) (c : Change) : World count :=
  match place with
  | .source => { world with shelves := world.shelves.mapSource (·.change c) }
  | .bucket i => { world with shelves := world.shelves.mapBucket i (·.change c) }

def step (world : World count) : Step count → World count
  | .run => world.run.2
  | .includeSecret includeSecret => { world with includeSecret }
  | .change place c => world.change place c

def after (world : World count) (steps : List (Step count)) : World count :=
  steps.foldl step world

end World

end KeyBuckets.Memory
