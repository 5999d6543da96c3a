import InfixCalc.Binary64
import InfixCalc.Decimal

/-!
# The nearest number

Reading a decimal: the binary64 number nearest to it, where a decimal half-way between two numbers
goes to the one with even rank. Magnitudes below the smallest positive number round to it or to
zero, and those at or above `2 ^ 1024 - 2 ^ 970` round to infinity.
-/

namespace InfixCalc

namespace Binary64

/-! ## The highest bit -/

/-- The place of the highest bit of a number, found by halving: of a number below `2 ^ 2 ^ steps`,
it is first decided in which half of the places its highest bit lies. -/
def topBit : (steps n : Nat) → Nat
  | 0, _ => 0
  | steps + 1, n =>
    let high := n >>> (1 <<< steps)
    if high = 0 then topBit steps n else (1 <<< steps) + topBit steps high

/-- The number of places doubles with each step. -/
theorem places_succ (steps : Nat) : 1 <<< (steps + 1) = (1 <<< steps) + (1 <<< steps) := by
  rw [Nat.shiftLeft_succ, Nat.two_mul]

/-- Halving finds the logarithm. -/
theorem topBit_eq_log2 {steps n : Nat} (h : n < 1 <<< (1 <<< steps)) :
    topBit steps n = n.log2 := by
  induction steps generalizing n with
  | zero =>
    have : n = 0 ∨ n = 1 := by simp at h; omega
    rcases this with rfl | rfl <;> simp [topBit, Nat.log2_def]
  | succ steps ih =>
    rw [places_succ] at h
    simp only [Nat.one_shiftLeft (1 <<< steps + 1 <<< steps), Nat.pow_add] at h
    simp only [Nat.one_shiftLeft (1 <<< steps)] at ih
    have hpos : 0 < 2 ^ (1 <<< steps) := Nat.pow_pos (by decide)
    simp only [topBit, Nat.shiftRight_eq_div_pow]
    split
    · next hzero => exact ih ((Nat.div_eq_zero_iff_lt hpos).1 hzero)
    · next hne =>
      rw [ih (Nat.div_lt_of_lt_mul h)]
      have hn : n ≠ 0 := fun e => hne (by rw [e, Nat.zero_div])
      refine ((Nat.log2_eq_iff hn).2 ⟨?_, ?_⟩).symm
      · rw [Nat.pow_add, Nat.mul_comm]
        exact (Nat.le_div_iff_mul_le hpos).1 (Nat.log2_self_le hne)
      · rw [Nat.add_assoc, Nat.pow_add, Nat.mul_comm]
        exact (Nat.div_lt_iff_lt_mul hpos).1 Nat.lt_log2_self

/-- A number that is too great for the steps has its highest bit beyond all places that they
reach. -/
theorem le_topBit {steps n : Nat} (h : 1 <<< (1 <<< steps) ≤ n) :
    (1 <<< steps) - 1 ≤ topBit steps n := by
  induction steps generalizing n with
  | zero => simp
  | succ steps ih =>
    rw [places_succ] at h ⊢
    simp only [Nat.one_shiftLeft (1 <<< steps + 1 <<< steps), Nat.pow_add] at h
    simp only [Nat.one_shiftLeft (1 <<< steps)] at ih
    have hpos : 0 < 2 ^ (1 <<< steps) := Nat.pow_pos (by decide)
    have hhigh : 2 ^ (1 <<< steps) ≤ n / 2 ^ (1 <<< steps) := (Nat.le_div_iff_mul_le hpos).2 h
    have hne : n / 2 ^ (1 <<< steps) ≠ 0 := by omega
    simp only [topBit, Nat.shiftRight_eq_div_pow, if_neg hne]
    have hplaces := ih hhigh
    generalize 1 <<< steps = places at hplaces ⊢
    omega

/-! ## Rounding a quotient -/

/-- The whole number nearest to `num / den`; a half goes to the even neighbour. -/
def roundQuotient (num den : Nat) : Nat :=
  let below := num / den
  let left := num % den
  if 2 * left < den ∨ (2 * left = den ∧ below % 2 = 0) then below else below + 1

/-- The rank of the magnitude nearest to `num / den` units. With fifty-three significant bits
kept, the ranks of a block follow each other as the whole numbers do, so a carry into the next
block needs no care. A quotient of more than `2 ^ 12` bits is beyond all finite magnitudes. -/
def nearestRank (num den : Nat) : Nat :=
  let shift := topBit 12 (num / den) - 52
  min infinityRank ((shift <<< 52) + roundQuotient num (den <<< shift))

end Binary64

namespace Decimal

/-- The rank of the magnitude nearest to that of a decimal. A decimal above `10 ^ 400` rounds to
infinity and one below `10 ^ -400` to zero, however great its exponent. -/
def rank (d : Decimal) : Nat :=
  if d.significand = 0 ∨ d.exponent + d.significand.log2 + 401 < 0 then 0
  else if 400 < d.exponent then Binary64.infinityRank
  else Binary64.nearestRank ((d.significand * powerOfTen d.exponent.toNat) <<< 1074)
    (powerOfTen (-d.exponent).toNat)

/-- The binary64 number nearest to a decimal, ties to even; its sign is that of the decimal. -/
def nearest (d : Decimal) : Binary64 :=
  Binary64.ofRank d.negative d.rank

end Decimal

end InfixCalc
