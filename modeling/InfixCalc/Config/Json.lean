import InfixCalc.Json.Codec

/-!
# Settings as JSON

Settings in the values of the library with which programs run.
-/

namespace InfixCalc

namespace Config

/-- The value that settings are stored as. -/
def toJson (c : Config) : Json := Json.codec.toJson c

/-- Reads stored settings. -/
def ofJson? (j : Json) : Option Config := Json.codec.ofJson? j

end Config

end InfixCalc
