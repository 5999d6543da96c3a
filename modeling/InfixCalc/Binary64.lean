/-!
# Binary64 numbers

A number of the binary64 format is its sixty-four bits. Its bits without the sign are its *rank*:
on numbers of one sign the ranks are ordered as the magnitudes are, and each finite magnitude is a
whole number of units `2 ^ -1074`, the smallest positive number of the format.
-/

namespace InfixCalc

/-- A number of the binary64 format, given by its bits. Equality of bits tells the two zeros apart
and makes a number that is not a number equal to itself; `Binary64.equals` compares as arithmetic
does. -/
structure Binary64 where
  bits : UInt64
  deriving DecidableEq, Repr, Inhabited

namespace Binary64

/-! ## Sign and rank -/

/-- The rank of infinity; greater ranks are not numbers. -/
def infinityRank : Nat := 2047 <<< 52

/-- The bits without the sign. -/
def rank (x : Binary64) : Nat := x.bits.toNat % (1 <<< 63)

/-- The sign bit. -/
def negative (x : Binary64) : Bool := decide (1 <<< 63 ≤ x.bits.toNat)

/-- The number with a given sign and rank. -/
def ofRank (negative : Bool) (rank : Nat) : Binary64 :=
  ⟨UInt64.ofNat (if negative then (1 <<< 63) + rank else rank)⟩

/-- A number is finite if it is neither infinite nor a NaN. -/
def isFinite (x : Binary64) : Bool := decide (x.rank < infinityRank)

/-- Positive or negative infinity. -/
def isInfinite (x : Binary64) : Bool := decide (x.rank = infinityRank)

/-- Not a number. -/
def isNaN (x : Binary64) : Bool := decide (infinityRank < x.rank)

/-- The sign and the rank are all there is. -/
theorem ofRank_negative_rank (x : Binary64) : ofRank x.negative x.rank = x := by
  have hx : x.bits.toNat < 1 <<< 64 := x.bits.toNat_lt
  have h63 : (1 <<< 63 : Nat) = 9223372036854775808 := rfl
  have h64 : (1 <<< 64 : Nat) = 18446744073709551616 := rfl
  have hbits : (if x.negative then (1 <<< 63) + x.rank else x.rank) = x.bits.toNat := by
    simp only [negative, rank, h63, h64] at hx ⊢
    split
    · next h =>
      have := of_decide_eq_true h
      omega
    · next h =>
      have := of_decide_eq_false (Bool.eq_false_iff.2 h)
      omega
  simp only [ofRank, hbits, UInt64.ofNat_toNat]

/-! ## Magnitude -/

/-- The magnitude at a finite rank in units of `2 ^ -1074`. Below `2 ^ 52` the rank itself is the
magnitude; above, each block of `2 ^ 52` ranks has twice the spacing of the block before it. -/
def unitsAt (rank : Nat) : Nat :=
  let block := rank >>> 52
  let offset := rank % (1 <<< 52)
  if block = 0 then offset else ((1 <<< 52) + offset) <<< (block - 1)

/-- The magnitude of a finite number in units of `2 ^ -1074`. -/
def units (x : Binary64) : Nat := unitsAt x.rank

/-! ## Arithmetic -/

/-- The machine number with these bits. -/
def toFloat (x : Binary64) : Float := Float.ofBits x.bits

/-- The bits of a machine number. -/
def ofFloat (f : Float) : Binary64 := ⟨f.toBits⟩

/-- The sum, rounded to nearest. -/
def add (x y : Binary64) : Binary64 := ofFloat (x.toFloat + y.toFloat)

/-- The difference, rounded to nearest. -/
def sub (x y : Binary64) : Binary64 := ofFloat (x.toFloat - y.toFloat)

/-- The product, rounded to nearest. -/
def mul (x y : Binary64) : Binary64 := ofFloat (x.toFloat * y.toFloat)

/-- The quotient, rounded to nearest; a division by zero gives an infinity or a NaN. -/
def div (x y : Binary64) : Binary64 := ofFloat (x.toFloat / y.toFloat)

/-- The power; a power that no real number is gives a NaN. -/
def pow (x y : Binary64) : Binary64 := ofFloat (x.toFloat.pow y.toFloat)

/-- Equality as arithmetic has it: the two zeros are equal, and a NaN equals nothing. -/
def equals (x y : Binary64) : Bool :=
  !x.isNaN && !y.isNaN && (decide (x = y) || decide (x.rank = 0 ∧ y.rank = 0))

end Binary64

end InfixCalc
