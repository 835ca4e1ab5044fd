import KeyBuckets.Distribution

/-!
# Traces — a run as an outsider sees it

The reports of a run and the requests that its vaults get, in the order in which they
happen. A request is noted before it is answered. A run is traced as it is, with sums of
counters that wrap, or with the check for overflows that stops it at such a sum.
-/

namespace KeyBuckets

inductive Place (count : BucketCount) where
  | source
  | bucket (i : Fin count.value)
  deriving DecidableEq

/-- Something that happens in a run. -/
inductive Occurrence (Material : Type) (count : BucketCount) where
  | event (event : Event)
  | request (place : Place count) (request : Vault.Request Material)
  deriving DecidableEq

def Occurrence.event? {Material : Type} {count : BucketCount} :
    Occurrence Material count → Option Event
  | event e => some e
  | request .. => none

namespace Distribution

variable {m : Type → Type} {Material : Type} {count : BucketCount}

/-- The same distribution, where each request to a vault is noted. -/
def noting [Monad m] (note : Place count → Vault.Request Material → m Unit)
    (d : Distribution m Material count) : Distribution m Material count where
  source := d.source.noting (note .source)
  bucket i := (d.bucket i).noting (note (.bucket i))
  includeSecret := d.includeSecret

def jot [Monad m] (occurrence : Occurrence Material count) :
    StateT (List (Occurrence Material count)) m Unit :=
  modify (· ++ [occurrence])

/-- The same distribution, where each request is noted in a trace before it is answered. -/
def traced [Monad m] (d : Distribution m Material count) :
    Distribution (StateT (List (Occurrence Material count)) m) Material count :=
  (d.mapM StateT.lift).noting fun place request => jot (.request place request)

def report [Monad m] (event : Event) : StateT (List (Occurrence Material count)) m Unit :=
  jot (.event event)

def runTraced [Monad m] (d : Distribution m Material count) :
    m (Except Error Totals × List (Occurrence Material count)) :=
  (d.traced.run report fun counts => pure counts.secretAccepted).run []

/-- A sum of counters where overflows are checked: one that does not fit is never told. -/
def acceptsChecked [Monad m] (counts : ImportCounts) : OptionT m Bool :=
  if counts.overflows then failure else pure counts.secretAccepted

/-- The run of a program that checks for overflows. The first sum that does not fit stops
it: then it has no result, and what happened until then stays noted. -/
def runChecked [Monad m] (d : Distribution m Material count) :
    m (Option (Except Error Totals) × List (Occurrence Material count)) :=
  (((d.traced.mapM OptionT.lift).run (fun event => OptionT.lift (report event))
    acceptsChecked).run).run []

end Distribution

def eventsOf {Material : Type} {count : BucketCount} (trace : List (Occurrence Material count)) :
    List Event :=
  trace.filterMap Occurrence.event?

end KeyBuckets
