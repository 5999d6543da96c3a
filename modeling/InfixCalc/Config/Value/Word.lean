import InfixCalc.Config.Value

/-!
# Words

A word that is written without quotes is a number if it has the form of one: with a point it may
be a binary64 number, without one a whole number that fits into sixty-four bits. Any other word is
a text.
-/

namespace InfixCalc

namespace Config

namespace Value

/-- Reads decimal digits, at least one. -/
def natural? (ds : List Char) : Option Nat :=
  if ds ≠ [] ∧ ds.all Decimal.isDigit then some (Decimal.ofDigits ds) else none

/-- Takes a sign off the front: whether it is a minus sign, and what is left. -/
def takeSign : List Char → Bool × List Char
  | '-' :: rest => (true, rest)
  | '+' :: rest => (false, rest)
  | rest => (false, rest)

/-- Reads a number with a point: digits on at least one side of it, a sign before them and an
exponent behind them if there is one. -/
def float? (word : List Char) : Option Binary64 :=
  let (negative, bare) := takeSign word
  let whole := bare.takeWhile Decimal.isDigit
  match bare.dropWhile Decimal.isDigit with
  | '.' :: rest =>
    let fraction := rest.takeWhile Decimal.isDigit
    let behind := rest.dropWhile Decimal.isDigit
    let digits := whole ++ fraction
    let number (exponent : Int) : Binary64 :=
      Decimal.nearest ⟨negative, Decimal.ofDigits digits, exponent - fraction.length⟩
    if digits = [] then none
    else if behind = [] then some (number 0)
    else
      match Decimal.takeExponent behind with
      | some (exponent, []) => some (number exponent)
      | _ => none
  | _ => none

/-- Reads a whole number of sixty-four bits, without a minus sign. -/
def unsigned? (word : List Char) : Option Nat :=
  let (negative, digits) := takeSign word
  match natural? digits with
  | some n => if ¬ negative ∧ n < 1 <<< 64 then some n else none
  | none => none

/-- Reads a whole number of sixty-four bits with a minus sign. -/
def signed? (word : List Char) : Option Int :=
  let (negative, digits) := takeSign word
  match natural? digits with
  | some n => if negative ∧ n ≤ 1 <<< 63 then some (-(n : Int)) else none
  | none => none

/-- The value of a word: a number if it has the form of one, and a text otherwise. -/
def ofWord (word : List Char) : Value :=
  match if word.contains '.' then float? word else none with
  | some x => .float x
  | none =>
    match unsigned? word with
    | some n => .unsigned n
    | none =>
      match signed? word with
      | some n => .signed n
      | none => .text (String.ofList word)

end Value

end Config

end InfixCalc
