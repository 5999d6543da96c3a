/-!
# Decimals

A decimal is a whole number of powers of ten with a sign, as literals, number texts and the numbers
of JSON write it. Main statement: the digits of a whole number read back as that number
(`ofDigits_digits`).
-/

namespace InfixCalc

/-- A signed decimal `± significand · 10 ^ exponent`; the sign is kept on zero too. -/
structure Decimal where
  negative : Bool
  significand : Nat
  exponent : Int
  deriving DecidableEq, Repr, Inhabited

namespace Decimal

/-- A power of ten. -/
def powerOfTen (exponent : Nat) : Nat := Nat.pow 10 exponent

/-! ## Digits -/

/-- The decimal digits of a whole number, without leading zeros; zero has the one digit `0`. -/
def digits (n : Nat) : List Char :=
  Nat.toDigits 10 n

/-- The whole number that a list of decimal digits stands for. -/
def ofDigits (ds : List Char) : Nat :=
  Nat.ofDigitChars 10 ds 0

/-- The digits of a whole number read back as that number. -/
theorem ofDigits_digits (n : Nat) : ofDigits (digits n) = n :=
  Nat.ofDigitChars_toDigits (by decide) (by decide)

/-! ## Reading digits -/

/-- A decimal digit; other alphabets' digits are not digits here. -/
def isDigit (c : Char) : Bool := '0' ≤ c && c ≤ '9'

/-- Takes the digits behind a point, if a point with at least one digit behind it comes next. -/
def takeFraction : List Char → List Char × List Char
  | '.' :: rest =>
    if rest.takeWhile isDigit = [] then ([], '.' :: rest)
    else (rest.takeWhile isDigit, rest.dropWhile isDigit)
  | rest => ([], rest)

/-- Takes an exponent: a letter `e`, a sign if there is one, and digits. -/
def takeExponent (text : List Char) : Option (Int × List Char) :=
  match text with
  | [] => none
  | e :: rest =>
    if e = 'e' ∨ e = 'E' then
      let negative := rest.head? = some '-'
      let unsigned := if negative ∨ rest.head? = some '+' then rest.tail else rest
      let ds := unsigned.takeWhile isDigit
      if ds = [] then none
      else
        let magnitude := (ofDigits ds : Int)
        some (if negative then -magnitude else magnitude, unsigned.dropWhile isDigit)
    else none

/-- Digits behind a point are taken off, with the point, or nothing is. -/
theorem append_takeFraction (text : List Char) :
    (if (takeFraction text).1 = [] then [] else '.' :: (takeFraction text).1)
      ++ (takeFraction text).2 = text := by
  unfold takeFraction
  split
  · split
    · simp
    · simp_all [List.takeWhile_append_dropWhile]
  · simp

/-! ## Positional text -/

/-- The text of `significand · 10 ^ (-places)`: a point stands before the last `places` digits,
and at least one digit stands before the point. -/
def withPoint (places : Nat) (ds : List Char) : List Char :=
  let padded := List.replicate (places + 1 - ds.length) '0' ++ ds
  let whole := padded.length - places
  padded.take whole ++ '.' :: padded.drop whole

/-- The digits of a decimal in positional form, without its sign: zeros in place of a positive
exponent, a point in place of a negative one. -/
def magnitudeText (d : Decimal) : List Char :=
  match d.exponent with
  | .ofNat zeros => digits d.significand ++ List.replicate zeros '0'
  | .negSucc places => withPoint (places + 1) (digits d.significand)

/-- The positional text of a decimal: a minus sign if it is negative, then its digits. -/
def text (d : Decimal) : List Char :=
  if d.negative then '-' :: d.magnitudeText else d.magnitudeText

end Decimal

end InfixCalc
