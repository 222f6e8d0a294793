import DerivedTelemetry.Evaluation.Machine

/-!
# Recorded series

The store in memory keeps one series of samples for each metric of each device.  A
series is in the order of time, and samples of one time are in the order in which
they arrived.  Both orders are kept by putting a new sample behind every sample that
is not later.  A window is then a stretch of the series.

Places in a series are found by halving.  That finds the right place only in a series
that is in order, so every insertion relies on the order that the ones before it kept.
-/

namespace DerivedTelemetry

/-- A device and one of its metrics. -/
structure SeriesKey where
  device : String
  metric : String
  deriving DecidableEq

/-- The place from which on samples are no longer `early`, sought among `size` places
from `low` on. -/
def partitionFrom (early : Sample → Bool) (series : List Sample) (low size : Nat) : Nat :=
  if size = 0 then low
  else
    let half := size / 2
    match series[low + half]? with
    | some sample =>
      if early sample then partitionFrom early series (low + half + 1) (size - half - 1)
      else partitionFrom early series low half
    | none => low
termination_by size

/-- The number of early samples of a series that has all of them first. -/
def partitionPoint (early : Sample → Bool) (series : List Sample) : Nat :=
  partitionFrom early series 0 series.length

/-- Puts a sample behind every sample that is not later. -/
def insertSample (sample : Sample) (series : List Sample) : List Sample :=
  let index :=
    partitionPoint (fun other => decide (other.timestamp ≤ sample.timestamp)) series
  series.take index ++ sample :: series.drop index

/-- The samples of a series from `start` to `stop`, both included. -/
def stretch (start stop : Timestamp) (series : List Sample) : List Sample :=
  let first := partitionPoint (fun sample => decide (sample.timestamp < start)) series
  let past := partitionPoint (fun sample => decide (sample.timestamp ≤ stop)) series
  if past ≤ first then [] else (series.take past).drop first

/-- Series by key, at most one for each. -/
structure MemoryStore where
  series : List (SeriesKey × List Sample)

namespace MemoryStore

def empty : MemoryStore := ⟨[]⟩

/-- The samples recorded under a key, none for a key that was never used. -/
def samples (store : MemoryStore) (key : SeriesKey) : List Sample :=
  (store.series.lookup key).getD []

/-- Changes the series under a key, which begins as an empty one. -/
def change (key : SeriesKey) (f : List Sample → List Sample) :
    List (SeriesKey × List Sample) → List (SeriesKey × List Sample)
  | [] => [(key, f [])]
  | (other, series) :: rest =>
    if key = other then (other, f series) :: rest
    else (other, series) :: change key f rest

theorem lookup_change (key other : SeriesKey) (f : List Sample → List Sample)
    (series : List (SeriesKey × List Sample)) :
    ((change key f series).lookup other).getD [] =
      if other = key then f ((series.lookup key).getD [])
      else (series.lookup other).getD [] := by
  induction series with
  | nil =>
    by_cases h : other = key
    · simp [change, h]
    · simp [change, List.lookup_cons, h, beq_false_of_ne h]
  | cons first rest ih =>
    obtain ⟨k, samples⟩ := first
    by_cases same : key = k
    · subst same
      by_cases h : other = key
      · simp [change, h]
      · simp [change, List.lookup_cons, h, beq_false_of_ne h]
    · by_cases here : other = k
      · subst here
        simp [change, same, Ne.symm same]
      · simp [change, List.lookup_cons, same, beq_false_of_ne here, beq_false_of_ne same, ih]

def record (store : MemoryStore) (key : SeriesKey) (sample : Sample) : MemoryStore :=
  ⟨change key (insertSample sample) store.series⟩

/-- Recording a sample changes the series of its key and no other. -/
theorem samples_record (store : MemoryStore) (key other : SeriesKey) (sample : Sample) :
    (store.record key sample).samples other =
      if other = key then insertSample sample (store.samples key) else store.samples other :=
  lookup_change key other (insertSample sample) store.series

def recordAll (store : MemoryStore) (key : SeriesKey) (samples : List Sample) :
    MemoryStore :=
  samples.foldl (fun store sample => store.record key sample) store

def length (store : MemoryStore) (key : SeriesKey) : Nat := (store.samples key).length

/-- Forgets the samples of every key. -/
def clear (_ : MemoryStore) : MemoryStore := empty

/-- The samples of a request.  A window that ends before it begins is empty. -/
def fetch (store : MemoryStore) (request : Request) : List Sample :=
  stretch request.start request.stop (store.samples ⟨request.device, request.metric⟩)

def toStore (store : MemoryStore) : Store := fun request => .ok (store.fetch request)

end MemoryStore

end DerivedTelemetry
