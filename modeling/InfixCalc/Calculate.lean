import InfixCalc.Metrics.Measure
import InfixCalc.Parser

/-!
# Calculating

A text is parsed under the default settings and evaluated. Each calculation is measured.
-/

namespace InfixCalc

/-- The labels of calculations. -/
def calculateLabels : Labels := ⟨"expression", "calculate"⟩

/-- The value of the expression that a text is, counted as a call of `calculate` that takes the
given duration in nanoseconds. -/
def Registry.calculate (R : Registry) (duration : Nat) (text : String) :
    StateM R.Store (Except ParseError Binary64) := do
  let measure ← R.newMeasure calculateLabels
  measure.stats duration Fallible.judge (pure ((parse text).map Expr.evaluate))

/-- A calculation that is counted in the metrics in memory. -/
def calculate (duration : Nat) (text : String) : StateM Metrics (Except ParseError Binary64) :=
  Metrics.registry.calculate duration text

end InfixCalc
