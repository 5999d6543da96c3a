/-!
# Errors of the parser

Why a text has no tree, one constructor for each cause, with the message that a user sees.
-/

namespace InfixCalc

/-- Why a text is not an expression. -/
inductive ParseError where
  /-- The text does not follow the grammar; `rest` is all of it from the point of failure on. -/
  | unexpectedToken (rest : String)
  /-- A literal has no finite value or more than one sign. -/
  | badLiteral (literal : String)
  /-- Something that no text causes. -/
  | internal (detail : String)
  /-- More than `limit` groups are open at once. -/
  | nestedTooDeep (limit : Nat)
  /-- The tree has more than `limit` levels. -/
  | treeTooDeep (limit : Nat)
  deriving DecidableEq, Repr

namespace ParseError

/-- The message of an error; texts stand in it as they are. -/
def message : ParseError → String
  | unexpectedToken rest => "Unexpected token at \"" ++ rest ++ "\""
  | badLiteral literal => "Failed parsing value \"" ++ literal ++ "\""
  | internal detail => "Unknown Error: " ++ detail
  | nestedTooDeep limit => "Expression nested deeper than " ++ toString limit ++ " levels"
  | treeTooDeep limit => "Expression tree deeper than " ++ toString limit ++ " levels"

/-- Whether an error is a failure of the program; a text that is refused is not one. -/
def isFailure : ParseError → Bool
  | internal _ => true
  | _ => false

end ParseError

end InfixCalc
