import InfixCalc.Parser

/-!
# The log of the parser

Each text that is parsed leaves one record: of its tree where there is one, and of the error where
there is none. A record is kept if its level is not above the most verbose level asked for.
-/

namespace InfixCalc

/-- How much a record matters, most first; `off` is the level of no record. -/
inductive Level where
  | off
  | error
  | warn
  | info
  | debug
  | trace
  deriving DecidableEq, Repr

/-- The number of less verbose levels. -/
def Level.verbosity : Level → Nat
  | off => 0
  | error => 1
  | warn => 2
  | info => 3
  | debug => 4
  | trace => 5

/-- An entry of the log. -/
structure LogRecord where
  level : Level
  message : String
  deriving DecidableEq, Repr

/-- The record of a text and what became of it. -/
def LogRecord.ofResult (text : String) : Except ParseError Expr → LogRecord
  | .ok e => ⟨.trace, "Parsed \"" ++ text ++ "\" as " ++ toString e⟩
  | .error e => ⟨.debug, "Rejected \"" ++ text ++ "\": " ++ e.message⟩

/-- What parsing a text gives, with the records of it up to a level. -/
def parseLogged (c : Config) (level : Level) (text : String) :
    Except ParseError Expr × List LogRecord :=
  let result := parseWith c text
  let record := LogRecord.ofResult text result
  (result, if record.level.verbosity ≤ level.verbosity then [record] else [])

end InfixCalc
