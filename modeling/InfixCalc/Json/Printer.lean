import InfixCalc.Json
import InfixCalc.Text.Hex

/-!
# Printing JSON

A JSON value is written without blanks. Whole numbers are written as their digits. Decimals have a
point or an exponent, and mostly read back as they are: a decimal without digits behind its point
gets one.
-/

namespace InfixCalc

namespace Json

/-! ## Strings -/

/-- A character inside quotes: quotes, backslashes and control characters are escaped. -/
def escaped (c : Char) : List Char :=
  if c = '"' then ['\\', '"']
  else if c = '\\' then ['\\', '\\']
  else if c = '\n' then ['\\', 'n']
  else if c = '\r' then ['\\', 'r']
  else if c = '\t' then ['\\', 't']
  else if c.val < 32 then ['\\', 'u', '0', '0', Text.hexDigit (c.toNat / 16), Text.hexDigit c.toNat]
  else [c]

/-- Writes a string in quotes in front of a text. -/
def quotedOnto (s : List Char) (tail : List Char) : List Char :=
  '"' :: s.foldr (fun c text => escaped c ++ text) ('"' :: tail)

/-! ## Numbers -/

/-- The text of a whole number. -/
def wholeText (n : Int) : List Char :=
  if n < 0 then '-' :: Decimal.digits n.natAbs else Decimal.digits n.natAbs

/-- A sign in front of a text, or none. -/
def signed (negative : Bool) (text : List Char) : List Char :=
  if negative then '-' :: text else text

/-- The digits of a decimal with a point behind the first of them, if there are more, and an
exponent for where the point belongs. -/
def scientificText (d : Decimal) : List Char :=
  let ds := Decimal.digits d.significand
  ds.take 1 ++ (if ds.drop 1 = [] then [] else '.' :: ds.drop 1)
    ++ 'e' :: wholeText (ds.length + d.exponent - 1)

/-- The text of a decimal without its sign. It is positional if its point belongs at most sixteen
places behind its first digit, and at most four in front of it; there is always a digit behind the
point. -/
def decimalText (d : Decimal) : List Char :=
  let place := (Decimal.digits d.significand).length + d.exponent
  if d.significand = 0 then ['0', '.', '0']
  else if place ≤ -5 ∨ 16 < place then scientificText d
  else if d.exponent < 0 then d.magnitudeText
  else d.magnitudeText ++ ['.', '0']

/-- The text of a number. -/
def Number.text : Number → List Char
  | whole n => wholeText n
  | decimal d => signed d.negative (decimalText d)

/-! ## Values -/

mutual

/-- Writes a value in front of a text. -/
def textOnto : Json → List Char → List Char
  | null, tail => 'n' :: 'u' :: 'l' :: 'l' :: tail
  | bool true, tail => 't' :: 'r' :: 'u' :: 'e' :: tail
  | bool false, tail => 'f' :: 'a' :: 'l' :: 's' :: 'e' :: tail
  | number n, tail => n.text ++ tail
  | string s, tail => quotedOnto s.toList tail
  | array elements, tail => '[' :: elementsOnto true elements (']' :: tail)
  | object fields, tail => '{' :: fieldsOnto true fields ('}' :: tail)

/-- Writes the elements of an array in front of a text, a comma before each but the first. -/
def elementsOnto (first : Bool) : List Json → List Char → List Char
  | [], tail => tail
  | element :: elements, tail =>
    (if first then [] else [',']) ++ element.textOnto (elementsOnto false elements tail)

/-- Writes the fields of an object in front of a text, a comma before each but the first. -/
def fieldsOnto (first : Bool) : List (String × Json) → List Char → List Char
  | [], tail => tail
  | field :: fields, tail =>
    (if first then [] else [',']) ++
      quotedOnto field.1.toList (':' :: field.2.textOnto (fieldsOnto false fields tail))

end

/-- The text of a value. -/
def text (j : Json) : String := String.ofList (j.textOnto [])

instance : ToString Json := ⟨text⟩

end Json

end InfixCalc
