import InfixCalc.Metrics
import InfixCalc.ParseError

/-!
# Measuring functions

A measure is a counter of successes, a counter of failures and a histogram of durations. A function
that runs under it is timed, and counted when it ends: as a failure if it ends in an error that is
judged to be one, and as a success otherwise. Functions under a measure may use other measures, and
the same one again, and so may the judgement of an error.
-/

namespace InfixCalc

/-! ## Measures of a registry -/

namespace Registry

variable {R : Registry}

/-- A measure, by its children of the three families. -/
structure Measure (R : Registry) where
  success : R.Child
  failure : R.Child
  timer : R.Child

/-- A measure for the labels of a function. -/
def newMeasure (R : Registry) (l : Labels) : StateM R.Store R.Measure := do
  let success ← R.child .success l
  let failure ← R.child .failure l
  let timer ← R.child .timer l
  return ⟨success, failure, timer⟩

/-- Runs a function that takes a duration, in nanoseconds. The duration is counted before an error
is judged, and the end of the function after that. -/
def Measure.stats {ε α : Type} (measure : R.Measure) (duration : Nat)
    (judge : ε → StateM R.Store Bool) (inner : StateM R.Store (Except ε α)) :
    StateM R.Store (Except ε α) := do
  let result ← inner
  modify (R.observe measure.timer duration)
  match result with
  | .ok _ => modify (R.inc measure.success)
  | .error e =>
    if ← judge e then modify (R.inc measure.failure)
    else modify (R.inc measure.success)
  return result

/-- The text of all metrics, or why there is none. -/
def encoded (R : Registry) (s : R.Store) : Except String String := R.encode (R.gather s)

end Registry

/-! ## Errors and failures -/

/-- Errors, some of which count as failures of the program; all do unless it is said otherwise. -/
class Fallible (ε : Type) where
  isFailure : ε → Bool := fun _ => true

/-- What cannot happen does not fail. -/
instance : Fallible Empty where
  isFailure e := nomatch e

/-- Errors in a text that was to be parsed are the caller's. -/
instance : Fallible ParseError where
  isFailure := ParseError.isFailure

/-- Errors that are judged by themselves alone. -/
def Fallible.judge {σ ε : Type} [Fallible ε] (e : ε) : StateM σ Bool := pure (isFailure e)

/-! ## Measures of the metrics in memory -/

/-- A measure of the metrics in memory. -/
def Measure : Type := Metrics.registry.Measure

/-- A measure for a function in a layer. -/
def Measure.new (layer function : String) : StateM Metrics Measure :=
  Metrics.registry.newMeasure ⟨layer, function⟩

/-- Runs a function that takes a duration, in nanoseconds, and counts how it ends. -/
def Measure.stats {ε α : Type} [Fallible ε] (measure : Measure) (duration : Nat)
    (inner : StateM Metrics (Except ε α)) : StateM Metrics (Except ε α) :=
  Registry.Measure.stats measure duration Fallible.judge inner

/-- The text of metrics. -/
def Metrics.text (m : Metrics) : String :=
  match registry.encoded m with
  | .ok text => text
  | .error _ => ""

end InfixCalc
