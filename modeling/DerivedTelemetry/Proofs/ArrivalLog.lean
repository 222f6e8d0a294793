import DerivedTelemetry.Proofs.Chronology
import Mathlib.Data.List.Induction

/-!
# The store and the log of arrivals

A store is changed by recording samples under keys and by clearing it.  Instead of a
store one could keep the plain log of these operations and look through it for every
answer.  This module proves that a store answers as that log does after any run of
operations: what counts for a key is what was recorded under it since the store was last
cleared, and nothing else.
-/

namespace DerivedTelemetry.MemoryStore

/-- The operations that change a store. -/
inductive Operation where
  | record (key : SeriesKey) (sample : Sample)
  | recordAll (key : SeriesKey) (samples : List Sample)
  | clear

def perform (store : MemoryStore) : Operation → MemoryStore
  | .record key sample => store.record key sample
  | .recordAll key samples => store.recordAll key samples
  | .clear => store.clear

/-- The store after a run of operations, which begins with an empty one. -/
def replay (operations : List Operation) : MemoryStore := operations.foldl perform empty

def Operation.isClear : Operation → Bool
  | .clear => true
  | _ => false

/-- The operations after the last one that clears the store. -/
def sinceClear (operations : List Operation) : List Operation :=
  (operations.reverse.takeWhile (!·.isClear)).reverse

/-- The samples that an operation records under a key, in the order of their arrival. -/
def Operation.arrivals (key : SeriesKey) : Operation → List Sample
  | .record other sample => if other = key then [sample] else []
  | .recordAll other samples => if other = key then samples else []
  | .clear => []

/-- The samples recorded under a key since the last clearing. -/
def arrivals (key : SeriesKey) (operations : List Operation) : List Sample :=
  (sinceClear operations).flatMap (·.arrivals key)

/-- Whether an operation may be seen under a key at all. -/
def Operation.concerns (key : SeriesKey) : Operation → Bool
  | .record other _ => decide (other = key)
  | .recordAll other _ => decide (other = key)
  | .clear => true

/-! ### The log after one more operation -/

theorem arrivals_append_of_isClear {operation : Operation} (h : operation.isClear = true)
    (key : SeriesKey) (operations : List Operation) :
    arrivals key (operations ++ [operation]) = [] := by
  simp [arrivals, sinceClear, h]

theorem arrivals_append_of_not_isClear {operation : Operation} (h : operation.isClear = false)
    (key : SeriesKey) (operations : List Operation) :
    arrivals key (operations ++ [operation]) =
      arrivals key operations ++ operation.arrivals key := by
  simp [arrivals, sinceClear, h]

/-- An operation that does not concern a key leaves no trace under it. -/
theorem arrivals_append_of_not_concerns {key : SeriesKey} {operation : Operation}
    (h : operation.concerns key = false) (operations : List Operation) :
    arrivals key (operations ++ [operation]) = arrivals key operations := by
  cases operation with
  | record other sample =>
    rw [arrivals_append_of_not_isClear rfl]
    simp [Operation.arrivals, of_decide_eq_false h]
  | recordAll other samples =>
    rw [arrivals_append_of_not_isClear rfl]
    simp [Operation.arrivals, of_decide_eq_false h]
  | clear => cases h

theorem arrivals_filter_concerns (key : SeriesKey) (operations : List Operation) :
    arrivals key (operations.filter (·.concerns key)) = arrivals key operations := by
  induction operations using List.reverseRecOn with
  | nil => rfl
  | append_singleton operations operation ih =>
    rw [List.filter_append]
    cases hconcerns : operation.concerns key with
    | false =>
      rw [arrivals_append_of_not_concerns hconcerns, ← ih]
      simp [hconcerns]
    | true =>
      have hkept : [operation].filter (·.concerns key) = [operation] := by simp [hconcerns]
      rw [hkept]
      cases hclear : operation.isClear with
      | true => rw [arrivals_append_of_isClear hclear, arrivals_append_of_isClear hclear]
      | false =>
        rw [arrivals_append_of_not_isClear hclear, arrivals_append_of_not_isClear hclear, ih]

/-! ### The store after one more operation -/

theorem samples_record_chronological {store : MemoryStore} {key : SeriesKey}
    {log : List Sample} (h : store.samples key = chronological log) (other : SeriesKey)
    (sample : Sample) :
    (store.record other sample).samples key =
      chronological (log ++ if other = key then [sample] else []) := by
  rw [samples_record]
  by_cases hkey : other = key
  · subst hkey
    rw [if_pos rfl, if_pos rfl, h, insertSample_chronological]
  · rw [if_neg (Ne.symm hkey), if_neg hkey, List.append_nil, h]

theorem samples_recordAll_chronological {store : MemoryStore} {key : SeriesKey}
    {log : List Sample} (h : store.samples key = chronological log) (other : SeriesKey)
    (samples : List Sample) :
    (store.recordAll other samples).samples key =
      chronological (log ++ if other = key then samples else []) := by
  induction samples generalizing store log with
  | nil => simpa [recordAll] using h
  | cons sample samples ih =>
    calc
      (store.recordAll other (sample :: samples)).samples key =
          chronological ((log ++ if other = key then [sample] else []) ++
            if other = key then samples else []) :=
        ih (samples_record_chronological h other sample)
      _ = chronological (log ++ if other = key then sample :: samples else []) := by
        by_cases hkey : other = key
        · simp [hkey]
        · simp [hkey]

/-- One operation changes the series of a key as it changes the log. -/
theorem samples_perform {operations : List Operation} {key : SeriesKey} {store : MemoryStore}
    (h : store.samples key = chronological (arrivals key operations)) (operation : Operation) :
    (store.perform operation).samples key =
      chronological (arrivals key (operations ++ [operation])) := by
  cases operation with
  | record other sample =>
    rw [arrivals_append_of_not_isClear rfl]
    exact samples_record_chronological h other sample
  | recordAll other samples =>
    rw [arrivals_append_of_not_isClear rfl]
    exact samples_recordAll_chronological h other samples
  | clear =>
    rw [arrivals_append_of_isClear rfl]
    simp [perform, clear, empty, samples, chronological]

/-- After any run the series of a key is the stable sort of what arrived under it. -/
theorem samples_replay (key : SeriesKey) (operations : List Operation) :
    (replay operations).samples key = chronological (arrivals key operations) := by
  induction operations using List.reverseRecOn with
  | nil => simp [replay, empty, samples, arrivals, sinceClear, chronological]
  | append_singleton operations operation ih =>
    rw [replay, List.foldl_append]
    exact samples_perform ih operation

/-- A store answers like the log of its operations.  A window holds the samples of the
log that lie in it, in the order of time and, within one time, in the order of arrival:
the stable sort of the filtered log.  A series is as long as its part of the log.  Both
stay as they are when all operations on other keys are left out. -/
theorem replay_answers_as_log (operations : List Operation) (key : SeriesKey)
    (start stop : Timestamp) :
    let log := (arrivals key operations).filter (between start stop)
    let request : Request := ⟨key.device, key.metric, start, stop⟩
    let alone := replay (operations.filter (·.concerns key))
    (replay operations).toStore request =
        .ok (log.mergeSort fun a b => decide (a.timestamp ≤ b.timestamp)) ∧
      Ordered ((replay operations).fetch request) ∧
      ((replay operations).fetch request).Perm log ∧
      (∀ time, atTime time ((replay operations).fetch request) = atTime time log) ∧
      (replay operations).length key = (arrivals key operations).length ∧
      alone.fetch request = (replay operations).fetch request ∧
      alone.length key = (replay operations).length key := by
  intro log request alone
  have hfetch : (replay operations).fetch request = chronological log := by
    calc
      (replay operations).fetch request =
          stretch start stop (chronological (arrivals key operations)) := by
        rw [fetch, samples_replay]
      _ = (chronological (arrivals key operations)).filter (between start stop) :=
        stretch_eq_filter (ordered_chronological _) start stop
      _ = chronological log := filter_chronological _ _
  have hsamples : alone.samples key = (replay operations).samples key := by
    rw [samples_replay, samples_replay, arrivals_filter_concerns]
  refine ⟨congrArg Except.ok hfetch, ?_, ?_, ?_, ?_, ?_, ?_⟩
  · rw [hfetch]
    exact ordered_chronological log
  · rw [hfetch]
    exact List.mergeSort_perm log inOrder
  · intro time
    rw [hfetch, atTime_chronological]
  · rw [length, samples_replay]
    exact List.length_mergeSort _
  · exact congrArg (stretch start stop) hsamples
  · exact congrArg List.length hsamples

end DerivedTelemetry.MemoryStore
