import InfixCalc.Json.Codec

/-!
# Expressions as JSON

Operators and expressions in the values of the library with which programs run.
-/

namespace InfixCalc

/-- Reads a stored operator. -/
def Operator.ofJson? (j : Json) : Option Operator := Json.codec.ofJson? j

namespace Expr

/-- The value that an expression is stored as. -/
def toJson (e : Expr) : Json := Json.codec.toJson e

/-- Reads a stored expression. -/
def ofJson? (j : Json) : Option Expr := Json.codec.ofJson? j

end Expr

end InfixCalc
