import DerivedTelemetry.Decimal.Checked
import DerivedTelemetry.Sample

/-!
# Statistics of a window

A statistical function reduces the samples of one window to a number; the samples
come oldest first.  Only the count and the sum of no samples have a value: every
other reduction of an empty window is a fault that names the function and the
window.
-/

namespace DerivedTelemetry.Statistics

/-- The samples of one window, and the significant digits that divisions keep. -/
structure Series where
  samples : List Sample
  window : Window
  precision : Nat

/-- A reduction of a window, with the numeric arguments of its call. -/
abbrev Reduction := Series → List Decimal → Except Fault Decimal

def Series.values (series : Series) : List Decimal := series.samples.map (·.value)

/-- The values in ascending order; equal ones keep the order they came in. -/
def Series.sorted (series : Series) : List Decimal :=
  series.values.mergeSort fun a b => decide (a ≤ b)

def Series.count (series : Series) : Decimal := Decimal.ofNat series.samples.length

def Series.emptyFault (series : Series) (function : String) : Fault :=
  .arithmetic (.noSamples function series.window)

/-- The first and the last value of a window that is not empty. -/
def Series.ends (series : Series) (function : String) : Except Fault (Decimal × Decimal) :=
  match series.values.head?, series.values.getLast? with
  | some first, some last => .ok (first, last)
  | _, _ => .error (series.emptyFault function)

/-- The sum over the count. -/
def Series.mean (series : Series) (function : String) : Except Fault Decimal := do
  let _ ← series.ends function
  Checked.div (← Checked.sum series.values) series.count series.precision

/-- The end of the range of values that is looked for. -/
inductive Extremum where
  | least
  | greatest
  deriving DecidableEq

/-- Whether a value lies further towards that end than another. -/
def Extremum.prefers (which : Extremum) (candidate best : Decimal) : Bool :=
  match which with
  | .least => decide (candidate < best)
  | .greatest => decide (best < candidate)

/-- The sample at one end of the range of values, the earliest of several. -/
def extremum? (which : Extremum) : List Sample → Option Sample
  | [] => none
  | first :: rest => some (rest.foldl (fun best candidate =>
      if which.prefers candidate.value best.value then candidate else best) first)

def average : Reduction := fun series _ => series.mean "avg"

/-- The same number as the average, under the name used for smoothing. -/
def movingAverage : Reduction := fun series _ => series.mean "movingAvg"

def sum : Reduction := fun series _ => Checked.sum series.values

def count : Reduction := fun series _ => .ok series.count

/-- One more squared deviation from the mean. -/
def addSquare (mean total value : Decimal) : Except Fault Decimal := do
  let deviation ← Checked.sub value mean
  Checked.add total (← Checked.mul deviation deviation)

/-- The population standard deviation, which of a single sample is zero. -/
def deviation : Reduction := fun series _ => do
  let mean ← series.mean "stddev"
  if series.samples.length = 1 then return Decimal.zero
  let squares ← series.values.foldlM (addSquare mean) Decimal.zero
  let variance ← Checked.div squares series.count series.precision
  let root ← Checked.sqrt "stddev" variance
  return root.roundSignificant series.precision

/-- The middle value, or half the sum of the two middle values. -/
def median : Reduction := fun series _ => do
  let _ ← series.ends "median"
  let values := series.sorted
  let middle := values.length / 2
  if values.length % 2 = 1 then return values.getD middle Decimal.zero
  else
    let pair ← Checked.add (values.getD (middle - 1) Decimal.zero)
      (values.getD middle Decimal.zero)
    Checked.div pair (Decimal.ofNat 2) series.precision

/-- The value of an extreme sample. -/
def extremeValue (which : Extremum) (function : String) : Reduction := fun series _ =>
  match extremum? which series.samples with
  | some sample => .ok sample.value
  | none => .error (series.emptyFault function)

def minimum : Reduction := extremeValue .least "minTime"

def maximum : Reduction := extremeValue .greatest "maxTime"

def minutesPerHour : Nat := 60

/-- The change from the first value to the last, per hour of the window. -/
def rate : Reduction := fun series _ => do
  let (first, last) ← series.ends "rate"
  let change ← Checked.sub last first
  let total ← Checked.mul change (Decimal.ofNat minutesPerHour)
  Checked.div total (Decimal.ofNat series.window.minutes) series.precision

def hundred : Decimal := Decimal.ofNat 100

/-- The change from the first value to the last, in percent of the first. -/
def percentChange : Reduction := fun series _ => do
  let (first, last) ← series.ends "percentChange"
  if first.isZero then throw (.arithmetic (.zeroReference series.window))
  let change ← Checked.sub last first
  Checked.div (← Checked.mul change hundred) first series.precision

/-- The position, counted from one, of the value of a rank among `count` values:
the least one that leaves no more than that share of them below it. -/
def rankPosition (rank count : Decimal) : Except Fault Nat := do
  let product ← Checked.mul rank count
  match product.div? hundred with
  | some share => return share.ceil.mantissa
  | none => throw (.arithmetic .rankOutOfRange)

/-- The nearest-rank percentile.  Its call has two more arguments, the variable and
the window, which a wrong argument count includes. -/
def percentile : Reduction := fun series arguments =>
  match arguments with
  | [rank] => do
    if rank < Decimal.zero ∨ hundred < rank then
      throw (.arithmetic (.rankOutside rank))
    let _ ← series.ends "percentile"
    let values := series.sorted
    let position ← rankPosition rank series.count
    return values.getD (min (position - 1) (values.length - 1)) Decimal.zero
  | _ => .error (.argumentCount "percentile" (.exact 3) (arguments.length + 2))

end DerivedTelemetry.Statistics
