import InfixCalc.Binary64.Nearest

/-!
# The shortest decimal of a number

Of all decimals that read back as a number, its text shows one with the fewest digits, and of these
the nearest. It is found on grids of powers of ten, from coarse to fine: the first grid on which a
neighbour of the number reads back as that number gives the digits.
-/

namespace InfixCalc

namespace Binary64

/-! ## Grids of powers of ten -/

/-- The numerator of `units · 2 ^ -1074 / 10 ^ exponent`. -/
def gridNumerator (x : Binary64) (exponent : Int) : Nat :=
  x.units * Decimal.powerOfTen (-exponent).toNat

/-- The denominator of `units · 2 ^ -1074 / 10 ^ exponent`. -/
def gridDenominator (exponent : Int) : Nat :=
  Decimal.powerOfTen exponent.toNat <<< 1074

/-- Of the two neighbours of a number among the multiples of `10 ^ exponent`, the one that reads
back as the number; of two, the nearer, and the greater in magnitude if both are as near. -/
def onGrid? (x : Binary64) (exponent : Int) : Option Decimal :=
  let num := x.gridNumerator exponent
  let den := gridDenominator exponent
  let lower : Decimal := ⟨x.negative, num / den, exponent⟩
  let upper : Decimal := ⟨x.negative, num / den + 1, exponent⟩
  let lowerNearer := decide (2 * (num % den) < den)
  if lower.nearest = x ∧ (lowerNearer ∨ upper.nearest ≠ x) then some lower
  else if upper.nearest = x then some upper
  else none

/-- An exponent not below the decimal exponent of the number: `units` has `topBit + 1` bits, and
`30103 / 100000` is a little above the decimal logarithm of two. -/
def coarsestExponent (x : Binary64) : Int :=
  ((topBit 12 x.units + 1 : Nat) - 1074 : Int) * 30103 / 100000 + 1

/-- The number as a decimal, without any rounding: a power of ten is divided by the same power of
two. -/
def exact (x : Binary64) : Decimal :=
  ⟨x.negative, (x.units * Decimal.powerOfTen 1074) >>> 1074, -1074⟩

/-- The decimal with the fewest digits that reads back as a finite number. Seventeen digits always
do, so twenty grids are enough. -/
def shortest (x : Binary64) : Decimal :=
  if x.units = 0 then ⟨x.negative, 0, 0⟩
  else
    let grids := (List.range 20).map fun (step : Nat) => x.coarsestExponent - step
    match grids.findSome? x.onGrid? with
    | some d => d
    | none => x.exact

/-! ## The text of a number -/

/-- The text of a number: its shortest decimal in positional form, whatever its length. -/
def text (x : Binary64) : List Char :=
  if x.isNaN then ['N', 'a', 'N']
  else if x.isInfinite then
    if x.negative then ['-', 'i', 'n', 'f'] else ['i', 'n', 'f']
  else x.shortest.text

end Binary64

end InfixCalc
