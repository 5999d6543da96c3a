import Mathlib
import InfixCalc.Proofs.Binary64

/-!
# Rounding to the nearest number

What the nearest number to a rational magnitude is, said without reference to how it is found: no
finite number is nearer, and where another one is as near, the last bit is zero. From half a spacing
above the greatest finite number on, nothing finite is nearest.

The magnitudes of the format form blocks of one spacing each. A rational is divided by the spacing
of its block and rounded to a whole number of spacings; a carry leads to the first magnitude of the
block above.

Main statements: a decimal is rounded to the nearest number (`Decimal.isNearest_nearest`), which is
finite just below the bound of infinity (`Decimal.isFinite_nearest_iff`), and there is only one such
number of each sign (`Binary64.IsNearest.unique`).
-/

namespace InfixCalc

namespace Binary64

/-- A shift multiplies by a power of two. -/
theorem cast_shiftLeft (n shift : Nat) : ((n <<< shift : ℕ) : ℚ) = n * 2 ^ shift := by
  rw [Nat.shiftLeft_eq, Nat.cast_mul, Nat.cast_pow, Nat.cast_two]

/-! ## Rounding a quotient -/

/-- **Rounding a quotient.** A quotient is rounded by a half at most; where it is rounded by a half,
to an even number. -/
theorem abs_sub_roundQuotient (num : Nat) {den : Nat} (h : 0 < den) :
    |(num / den : ℚ) - roundQuotient num den| ≤ 1 / 2
      ∧ (|(num / den : ℚ) - roundQuotient num den| = 1 / 2 → Even (roundQuotient num den)) := by
  have hden : (0 : ℚ) < den := by exact_mod_cast h
  obtain ⟨part, hpart⟩ : ∃ part : ℚ, part = (num % den : ℕ) / den := ⟨_, rfl⟩
  have hquotient : (num / den : ℚ) = (num / den : ℕ) + part := by
    rw [hpart, div_eq_iff hden.ne', add_mul, div_mul_cancel₀ _ hden.ne']
    exact_mod_cast (Nat.div_add_mod' num den).symm
  have hnonneg : 0 ≤ part := by
    rw [hpart]
    positivity
  have hlt : part < 1 := by
    rw [hpart, div_lt_one hden]
    exact_mod_cast Nat.mod_lt num h
  have hbelow : 2 * (num % den) < den ↔ part < 1 / 2 := by
    rw [hpart, div_lt_div_iff₀ hden two_pos, one_mul, mul_comm]
    norm_cast
  have hhalf : 2 * (num % den) = den ↔ part = 1 / 2 := by
    rw [hpart, div_eq_div_iff hden.ne' two_ne_zero, one_mul, mul_comm]
    norm_cast
  rw [hquotient, roundQuotient]
  simp only [hbelow, hhalf, ← Nat.even_iff]
  split
  · next hdown =>
    have hle : part ≤ 1 / 2 := by
      rcases hdown with hdown | hdown
      · exact hdown.le
      · exact hdown.1.le
    rw [add_sub_cancel_left, abs_of_nonneg hnonneg]
    refine ⟨hle, fun htie => ?_⟩
    rcases hdown with hdown | hdown
    · exact absurd htie hdown.ne
    · exact hdown.2
  · next hup =>
    rw [not_or, not_lt, not_and] at hup
    have habs : |((num / den : ℕ) : ℚ) + part - ((num / den + 1 : ℕ) : ℚ)| = 1 - part := by
      rw [Nat.cast_add_one, add_sub_add_left_eq_sub, abs_sub_comm, abs_of_pos (by linarith)]
    rw [habs]
    refine ⟨by linarith [hup.1], fun htie => ?_⟩
    exact (Nat.not_even_iff_odd.1 (hup.2 (by linarith))).add_one

/-! ## Magnitudes and their ranks -/

/-- A significand of at most fifty-three bits, or the number that follows them, stands at the rank
that counts its shifts above it; a significand that is shifted has all of these bits. -/
theorem unitsAt_add {significand shift : Nat} (hle : significand ≤ 2 ^ 53)
    (hshift : shift = 0 ∨ 2 ^ 52 ≤ significand) :
    unitsAt (shift * 2 ^ 52 + significand) = significand * 2 ^ shift := by
  simp only [unitsAt, Nat.shiftRight_eq_div_pow, Nat.shiftLeft_eq, Nat.one_mul]
  -- The first bit of the significand is not stored: it counts as a block, and a carry as two.
  rcases Nat.lt_or_ge significand (2 ^ 52) with hsmall | hlarge
  · obtain rfl : shift = 0 := by omega
    rw [if_pos (by omega)]
    omega
  · rcases hle.lt_or_eq with hlt | rfl
    · have hblock : (shift * 2 ^ 52 + significand) / 2 ^ 52 = shift + 1 := by omega
      have hoffset : (shift * 2 ^ 52 + significand) % 2 ^ 52 = significand - 2 ^ 52 := by omega
      rw [hblock, hoffset, if_neg (by omega), Nat.add_sub_cancel' hlarge, Nat.add_sub_cancel]
    · have hblock : (shift * 2 ^ 52 + 2 ^ 53) / 2 ^ 52 = shift + 2 := by omega
      have hoffset : (shift * 2 ^ 52 + 2 ^ 53) % 2 ^ 52 = 0 := by omega
      have hexponent : shift + 2 - 1 = shift + 1 := by omega
      rw [hblock, hoffset, if_neg (by omega), hexponent, Nat.add_zero, Nat.pow_succ' (n := shift)]
      ring

/-- From the block of a shift on, all magnitudes are multiples of its spacing. -/
theorem unitsAt_lt_or_dvd (rank shift : Nat) :
    unitsAt rank < 2 ^ (52 + shift) ∨ 2 ^ shift ∣ unitsAt rank := by
  obtain ⟨significand, shift', hunits, -, hlt, -⟩ := exists_significand rank
  rw [hunits]
  rcases Nat.lt_or_ge shift' shift with hless | hge
  · left
    calc significand * 2 ^ shift' < 2 ^ 53 * 2 ^ shift' :=
          Nat.mul_lt_mul_of_pos_right hlt (by positivity)
      _ = 2 ^ (53 + shift') := (Nat.pow_add 2 53 shift').symm
      _ ≤ 2 ^ (52 + shift) := Nat.pow_le_pow_right (by decide) (by omega)
  · exact .inr ((pow_dvd_pow 2 hge).mul_left significand)

/-- A greater rank has a greater magnitude. -/
theorem unitsAt_strictMono : StrictMono unitsAt := by
  refine strictMono_nat_of_lt_succ fun rank => ?_
  obtain ⟨significand, shift, hunits, hrank, hlt, hshift⟩ := exists_significand rank
  have hnext : unitsAt (rank + 1) = (significand + 1) * 2 ^ shift := by
    rw [hrank, Nat.add_assoc]
    exact unitsAt_add (by omega) (by omega)
  rw [hunits, hnext]
  exact Nat.mul_lt_mul_of_pos_right (Nat.lt_succ_self _) (by positivity)

/-! ## Rounding inside a block -/

/-- Of all magnitudes, those beyond the finite ones included, that at a rank is nearest to `q`
units; where another one is as near, the rank is even. -/
structure RoundsTo (q : ℚ) (rank : Nat) : Prop where
  nearest : ∀ r, |q - unitsAt rank| ≤ |q - unitsAt r|
  even_of_tie : ∀ r, r ≠ rank → |q - unitsAt rank| = |q - unitsAt r| → Even rank

/-- A number of units is `y` times the spacing `2 ^ shift` of its block, and `m` is `y` rounded to a
whole number, a tie to an even one. The first block starts at zero. -/
structure InBlock (y : ℚ) (m shift : Nat) : Prop where
  half : |y - m| ≤ 1 / 2
  even : |y - m| = 1 / 2 → Even m
  low : shift = 0 ∨ 2 ^ 52 ≤ y
  high : y < 2 ^ 53

namespace InBlock

variable {y : ℚ} {m shift : Nat}

/-- Where one whole number is at most a half away, all others are at least a half away. -/
theorem half_le (h : InBlock y m shift) {k : Nat} (hk : k ≠ m) : 1 / 2 ≤ |y - k| := by
  have hone : (1 : ℚ) ≤ |(m : ℚ) - k| := by
    have hint : (1 : ℤ) ≤ |(m : ℤ) - k| := Int.one_le_abs (by omega)
    exact_mod_cast hint
  have htriangle : |(m : ℚ) - k| ≤ |y - m| + |y - k| := by
    rw [abs_sub_comm y m]
    exact abs_sub_le _ _ _
  linarith [h.half]

/-- No whole number of spacings is nearer. -/
theorem abs_sub_le (h : InBlock y m shift) (k : Nat) : |y - m| ≤ |y - k| := by
  rcases eq_or_ne k m with rfl | hk
  · exact le_rfl
  · exact h.half.trans (h.half_le hk)

/-- What is rounded has at most fifty-three bits, or a bit is carried. -/
theorem le (h : InBlock y m shift) : m ≤ 2 ^ 53 := by
  have hlt : (m : ℚ) < (2 ^ 53 + 1 : ℕ) := by
    have := (abs_le.1 h.half).1
    have := h.high
    push_cast
    linarith
  exact Nat.lt_succ_iff.1 (by exact_mod_cast hlt)

/-- What is rounded has fifty-three bits, unless the block is the first one. -/
theorem ge (h : InBlock y m shift) : shift = 0 ∨ 2 ^ 52 ≤ m := by
  refine h.low.imp_right fun hlow => ?_
  have hlt : ((2 ^ 52 : ℕ) : ℚ) < (m + 1 : ℕ) := by
    have := (abs_le.1 h.half).2
    push_cast
    linarith
  exact Nat.lt_succ_iff.1 (by exact_mod_cast hlt)

/-- A magnitude below the block is farther away: the bottom of the block lies between. -/
theorem abs_sub_lt_of_below (h : InBlock y m shift) (hlow : 2 ^ 52 ≤ y) {units : Nat}
    (hunits : units < 2 ^ (52 + shift)) : |y - m| * 2 ^ shift < |y * 2 ^ shift - units| := by
  have hbottom : |y - m| ≤ y - 2 ^ 52 := by
    have h := h.abs_sub_le (2 ^ 52)
    rwa [Nat.cast_pow, Nat.cast_ofNat, abs_of_nonneg (sub_nonneg.2 hlow)] at h
  have hlt : (units : ℚ) < 2 ^ 52 * 2 ^ shift := by
    rw [← pow_add]
    exact_mod_cast hunits
  calc |y - m| * 2 ^ shift ≤ (y - 2 ^ 52) * 2 ^ shift := by gcongr
    _ < y * 2 ^ shift - units := by linarith
    _ ≤ |y * 2 ^ shift - units| := le_abs_self _

/-- **Rounding inside a block.** The magnitude of `m` spacings is the nearest one to `y` spacings.
-/
theorem roundsTo (h : InBlock y m shift) : RoundsTo (y * 2 ^ shift) (shift * 2 ^ 52 + m) := by
  have hspacing : (0 : ℚ) < 2 ^ shift := by positivity
  have hdist : ∀ k : Nat, |y * 2 ^ shift - (k * 2 ^ shift : ℕ)| = |y - k| * 2 ^ shift := by
    intro k
    push_cast
    rw [← sub_mul, abs_mul, abs_of_pos hspacing]
  have hunits : unitsAt (shift * 2 ^ 52 + m) = m * 2 ^ shift := unitsAt_add h.le h.ge
  -- A magnitude is a whole number of spacings, or it lies below the block.
  have hcases : ∀ r, (∃ k : Nat, unitsAt r = k * 2 ^ shift)
      ∨ |y - m| * 2 ^ shift < |y * 2 ^ shift - unitsAt r| := by
    intro r
    rcases h.low with rfl | hlow
    · exact .inl ⟨unitsAt r, by rw [Nat.pow_zero, Nat.mul_one]⟩
    · rcases unitsAt_lt_or_dvd r shift with hlt | ⟨k, hk⟩
      · exact .inr (h.abs_sub_lt_of_below hlow hlt)
      · exact .inl ⟨k, by rw [hk, Nat.mul_comm]⟩
  constructor
  · intro r
    rw [hunits, hdist]
    rcases hcases r with ⟨k, hk⟩ | hlt
    · rw [hk, hdist]
      exact mul_le_mul_of_nonneg_right (h.abs_sub_le k) hspacing.le
    · exact hlt.le
  · intro r hr htie
    rw [hunits, hdist] at htie
    rcases hcases r with ⟨k, hk⟩ | hlt
    · rw [hk, hdist, mul_left_inj' hspacing.ne'] at htie
      have hne : k ≠ m := by
        rintro rfl
        exact hr (unitsAt_strictMono.injective (hk.trans hunits.symm))
      have hm : Even m := h.even (h.half.antisymm (htie ▸ h.half_le hne))
      exact (Even.mul_left (by decide) shift).add hm
    · exact absurd htie hlt.ne

end InBlock

/-! ## Where infinity begins -/

/-- From this number of units on, a magnitude is rounded to infinity: it is half a spacing above the
greatest finite one. -/
def overflowUnits : ℚ := (2 ^ 53 - 1 / 2) * 2 ^ 2045

/-- The bound is below the next power of two. -/
theorem overflowUnits_le : overflowUnits ≤ 2 ^ 2098 := by
  calc overflowUnits ≤ 2 ^ 53 * 2 ^ 2045 := by
        unfold overflowUnits
        gcongr
        linarith
    _ = 2 ^ 2098 := (pow_add 2 53 2045).symm

/-- The bound as a magnitude. -/
theorem overflowUnits_eq : overflowUnits = (2 ^ 1024 - 2 ^ 970) * 2 ^ 1074 := by
  have hhigh : (2 : ℚ) ^ 1024 = 2 ^ 53 * 2 ^ 971 := pow_add 2 53 971
  have hlow : (2 : ℚ) ^ 971 = 2 ^ 970 * 2 := pow_succ 2 970
  have hlast : (2 : ℚ) ^ 2045 = 2 ^ 971 * 2 ^ 1074 := pow_add 2 971 1074
  rw [overflowUnits, hlast, hhigh, hlow]
  generalize (2 : ℚ) ^ 970 = low
  generalize (2 : ℚ) ^ 1074 = units
  ring

namespace InBlock

variable {y : ℚ} {m shift : Nat}

/-- All bits are kept just up to half a spacing below the next block; the number of spacings before
that is odd, so the half itself is carried. -/
theorem lt_iff (h : InBlock y m shift) : m < 2 ^ 53 ↔ y < 2 ^ 53 - 1 / 2 := by
  have hcast : ((2 ^ 53 : ℕ) : ℚ) = 2 ^ 53 := by norm_num
  obtain ⟨hge, hle⟩ := abs_le.1 h.half
  constructor
  · intro hlt
    have hm : (m : ℚ) + 1 ≤ 2 ^ 53 := by
      rw [← hcast]
      exact_mod_cast hlt
    by_contra hnot
    have hy : y - m = 1 / 2 := by linarith
    have hlast : m + 1 = 2 ^ 53 := by
      have hlast : ((m + 1 : ℕ) : ℚ) = (2 ^ 53 : ℕ) := by
        rw [hcast]
        push_cast
        linarith
      exact_mod_cast hlast
    have heven := h.even (by rw [hy]; norm_num)
    rw [Nat.even_iff] at heven
    omega
  · intro hlt
    have hm : (m : ℚ) < (2 ^ 53 : ℕ) := by
      rw [hcast]
      linarith
    exact_mod_cast hm

/-- **Where infinity begins.** A number of units is rounded to a finite magnitude just below the
bound. -/
theorem lt_infinityRank_iff (h : InBlock y m shift) :
    shift * 2 ^ 52 + m < infinityRank ↔ y * 2 ^ shift < overflowUnits := by
  have hinf : infinityRank = 2047 * 2 ^ 52 := rfl
  have hlast : (0 : ℚ) < 2 ^ 2045 := by positivity
  have hle := h.le
  rw [hinf, overflowUnits]
  rcases Nat.lt_trichotomy shift 2045 with hless | rfl | hmore
  · refine iff_of_true (by omega) ?_
    have hpow : (2 : ℚ) ^ shift * 2 ≤ 2 ^ 2045 := by
      rw [← pow_succ]
      exact pow_le_pow_right₀ one_le_two hless
    have hy : y * 2 ^ shift < 2 ^ 53 * 2 ^ shift := mul_lt_mul_of_pos_right h.high (by positivity)
    generalize (2 : ℚ) ^ 2045 = last at hlast hpow ⊢
    linarith
  · rw [mul_lt_mul_iff_left₀ hlast, ← h.lt_iff]
    omega
  · have hge := h.ge
    refine iff_of_false (by omega) (not_lt.2 ?_)
    have hpow : (2 : ℚ) ^ 2045 * 2 ≤ 2 ^ shift := by
      rw [← pow_succ]
      exact pow_le_pow_right₀ one_le_two hmore
    have hlow : 2 ^ 52 ≤ y := h.low.resolve_left (by omega)
    have hy : 2 ^ 52 * 2 ^ shift ≤ y * 2 ^ shift := mul_le_mul_of_nonneg_right hlow (by positivity)
    generalize (2 : ℚ) ^ 2045 = last at hlast hpow ⊢
    linarith

end InBlock

/-! ## Rounding a number of units -/

section Units

variable {num den : Nat}

/-- The shift of the block in which a number of units lies. -/
def blockShift (num den : Nat) : Nat := (num / den).log2 - 52

/-- A number of units lies in its block. -/
theorem inBlock (num : Nat) (hden : 0 < den) :
    InBlock (num / (den * 2 ^ blockShift num den : ℕ))
      (roundQuotient num (den * 2 ^ blockShift num den)) (blockShift num den) := by
  have hpow : ∀ k : Nat, ((2 ^ k : ℕ) : ℚ) = 2 ^ k := fun k => by push_cast; rfl
  have hdenq : (0 : ℚ) < den := by exact_mod_cast hden
  have hnonneg : (0 : ℚ) ≤ num / den := by positivity
  have hfloor : ⌊(num / den : ℚ)⌋₊ = num / den := Nat.floor_div_eq_div num den
  have hspacing : (0 : ℚ) < 2 ^ blockShift num den := by positivity
  have hy : (num / (den * 2 ^ blockShift num den : ℕ) : ℚ)
      = num / den / 2 ^ blockShift num den := by
    push_cast
    rw [div_div]
  have hpos : 0 < den * 2 ^ blockShift num den := by positivity
  obtain ⟨hhalf, heven⟩ := abs_sub_roundQuotient num hpos
  refine ⟨hhalf, heven, ?_, ?_⟩
  · rw [or_iff_not_imp_left]
    intro hshift
    have hne : num / den ≠ 0 := by
      intro h
      rw [blockShift, h, Nat.log2_zero] at hshift
      exact hshift rfl
    rw [hy, le_div_iff₀ hspacing, ← pow_add, ← hpow, ← Nat.le_floor_iff hnonneg, hfloor,
      ← Nat.le_log2 hne]
    unfold blockShift at hshift ⊢
    omega
  · rw [hy, div_lt_iff₀ hspacing, ← pow_add, ← hpow, ← Nat.floor_lt hnonneg, hfloor]
    rcases eq_or_ne (num / den) 0 with h | h
    · rw [h]
      positivity
    · rw [← Nat.log2_lt h, blockShift]
      omega

/-- A number of units in spacings of a block. -/
theorem div_eq_mul_spacing (num den shift : Nat) :
    (num / den : ℚ) = num / (den * 2 ^ shift : ℕ) * 2 ^ shift := by
  push_cast
  rw [← div_div, div_mul_cancel₀ _ (by positivity)]

/-- A number of units of at most `2 ^ 12` bits is rounded inside its block, but not beyond
infinity. -/
theorem nearestRank_eq_min (h : num / den < 1 <<< (1 <<< 12)) :
    nearestRank num den = min infinityRank
      (blockShift num den * 2 ^ 52 + roundQuotient num (den * 2 ^ blockShift num den)) := by
  rw [nearestRank, topBit_eq_log2 h, Nat.shiftLeft_eq, Nat.shiftLeft_eq]
  rfl

/-- A number of units of more bits is beyond the bound of infinity, and is rounded to infinity. -/
theorem nearestRank_of_large (h : 1 <<< (1 <<< 12) ≤ num / den) :
    nearestRank num den = infinityRank ∧ overflowUnits ≤ num / den := by
  have htop : (1 <<< 12) - 1 ≤ topBit 12 (num / den) := le_topBit h
  constructor
  · have hinf : infinityRank = 2047 * 2 ^ 52 := rfl
    have hplaces : (1 <<< 12 : Nat) = 4096 := rfl
    rw [nearestRank, Nat.shiftLeft_eq]
    exact Nat.min_eq_left (by omega)
  · have hbits : ((1 <<< (1 <<< 12) : ℕ) : ℚ) = 2 ^ (1 <<< 12) := by
      rw [Nat.one_shiftLeft (1 <<< 12), Nat.cast_pow 2 (1 <<< 12), Nat.cast_two]
    have hdiv : ((num / den : ℕ) : ℚ) ≤ num / den := Nat.cast_div_le
    calc overflowUnits ≤ 2 ^ 2098 := overflowUnits_le
      _ ≤ 2 ^ (1 <<< 12) := pow_le_pow_right₀ one_le_two (by decide)
      _ ≤ ((num / den : ℕ) : ℚ) := by
          rw [← hbits]
          exact_mod_cast h
      _ ≤ num / den := hdiv

/-- **The nearest magnitude.** A number of units is rounded to infinity from the bound on; below it,
to the nearest of all magnitudes. -/
theorem nearestRank_cases (hden : 0 < den) :
    ((num / den : ℚ) < overflowUnits ∧ nearestRank num den < infinityRank
        ∧ RoundsTo (num / den) (nearestRank num den))
      ∨ (overflowUnits ≤ (num / den : ℚ) ∧ nearestRank num den = infinityRank) := by
  rcases Nat.lt_or_ge (num / den) (1 <<< (1 <<< 12)) with hsmall | hlarge
  · have hblock := inBlock num hden
    have hfinite := hblock.lt_infinityRank_iff
    have hrounds := hblock.roundsTo
    rw [← div_eq_mul_spacing] at hfinite hrounds
    rw [nearestRank_eq_min hsmall]
    rcases lt_or_ge (num / den : ℚ) overflowUnits with hlt | hge
    · have hrank := hfinite.2 hlt
      rw [min_eq_right hrank.le]
      exact .inl ⟨hlt, hrank, hrounds⟩
    · have hrank := not_lt.1 (mt hfinite.1 (not_lt.2 hge))
      exact .inr ⟨hge, min_eq_left hrank⟩
  · obtain ⟨hrank, hge⟩ := nearestRank_of_large hlarge
    exact .inr ⟨hge, hrank⟩

end Units

/-- Less than half a unit is rounded to zero. -/
theorem roundsTo_zero {q : ℚ} (hnonneg : 0 ≤ q) (hlt : q < 1 / 2) : RoundsTo q 0 := by
  have hzero : unitsAt 0 = 0 := rfl
  have habs : |q - unitsAt 0| < 1 / 2 := by
    rwa [hzero, Nat.cast_zero, sub_zero, abs_of_nonneg hnonneg]
  have hblock : InBlock q 0 0 := by
    refine ⟨?_, fun _ => Even.zero, .inl rfl, by linarith⟩
    rw [Nat.cast_zero, sub_zero, abs_of_nonneg hnonneg]
    exact hlt.le
  simpa using hblock.roundsTo

/-! ## Nearest numbers -/

/-- The magnitude of a finite number. -/
def magnitude (x : Binary64) : ℚ := x.units / 2 ^ 1074

/-- A finite number is nearest to a magnitude: no other finite number is nearer, and where another
one is as near, the last bit of the number is zero. -/
structure IsNearest (x : Binary64) (q : ℚ) : Prop where
  finite : x.isFinite = true
  nearest : ∀ y : Binary64, y.isFinite = true → |q - x.magnitude| ≤ |q - y.magnitude|
  even_of_tie : ∀ y : Binary64, y.isFinite = true → y.magnitude ≠ x.magnitude →
    |q - x.magnitude| = |q - y.magnitude| → Even x.rank

/-- The distance from a magnitude, in units. -/
theorem abs_sub_magnitude (q : ℚ) (x : Binary64) :
    |q - x.magnitude| = |q * 2 ^ 1074 - unitsAt x.rank| / 2 ^ 1074 := by
  have hpos : (0 : ℚ) < 2 ^ 1074 := by positivity
  rw [magnitude, units, ← abs_of_pos hpos, ← abs_div, abs_of_pos hpos, sub_div,
    mul_div_cancel_right₀ _ hpos.ne']

/-- What is rounded to the rank of a finite number has that number as a nearest one. -/
theorem RoundsTo.isNearest {q : ℚ} {x : Binary64} (h : RoundsTo (q * 2 ^ 1074) x.rank)
    (hfinite : x.isFinite = true) : x.IsNearest q := by
  have hpos : (0 : ℚ) < 2 ^ 1074 := by positivity
  refine ⟨hfinite, fun y _ => ?_, fun y _ hne htie => ?_⟩
  · rw [abs_sub_magnitude, abs_sub_magnitude]
    exact div_le_div_of_nonneg_right (h.nearest y.rank) hpos.le
  · rw [abs_sub_magnitude, abs_sub_magnitude, div_left_inj' hpos.ne'] at htie
    refine h.even_of_tie y.rank ?_ htie
    intro hrank
    exact hne (by rw [magnitude, magnitude, units, units, hrank])

/-- Of two finite numbers, the one with the greater rank has the greater magnitude. -/
theorem magnitude_lt {x y : Binary64} (h : x.rank < y.rank) : x.magnitude < y.magnitude := by
  have hunits : (x.units : ℚ) < y.units := by exact_mod_cast unitsAt_strictMono h
  exact div_lt_div_of_pos_right hunits (by positivity)

/-- Of two nearest numbers, none has the greater rank: both ranks would be even, and a number
between the two would be nearer. -/
theorem IsNearest.not_rank_lt {q : ℚ} {x y : Binary64} (hx : x.IsNearest q) (hy : y.IsNearest q) :
    ¬ x.rank < y.rank := by
  intro hlt
  have hmag := magnitude_lt hlt
  have htie : |q - x.magnitude| = |q - y.magnitude| :=
    (hx.nearest y hy.finite).antisymm (hy.nearest x hx.finite)
  have hmiddle : q - x.magnitude = y.magnitude - q := by
    rcases abs_eq_abs.1 htie with h | h
    · exact absurd h (by intro h; linarith)
    · linarith
  have hevenx := hx.even_of_tie y hy.finite hmag.ne' htie
  have heveny := hy.even_of_tie x hx.finite hmag.ne htie.symm
  rw [Nat.even_iff] at hevenx heveny
  have hyfinite : y.rank < infinityRank := of_decide_eq_true hy.finite
  -- The rank after that of `x` is odd, so it is not that of `y`.
  have hrank : (ofRank false (x.rank + 1)).rank = x.rank + 1 := rank_ofRank false (by omega)
  have hxz := magnitude_lt (x := x) (y := ofRank false (x.rank + 1)) (by omega)
  have hzy := magnitude_lt (x := ofRank false (x.rank + 1)) (y := y) (by omega)
  have hz : (ofRank false (x.rank + 1)).isFinite = true := decide_eq_true (by omega)
  have hle := hx.nearest _ hz
  rw [abs_of_pos (by linarith : 0 < q - x.magnitude), le_abs] at hle
  rcases hle with hle | hle <;> linarith

/-- **There is one nearest number of each sign.** -/
theorem IsNearest.unique {q : ℚ} {x y : Binary64} (hx : x.IsNearest q) (hy : y.IsNearest q)
    (hsign : x.negative = y.negative) : x = y := by
  have hrank : x.rank = y.rank :=
    Nat.le_antisymm (Nat.le_of_not_lt (hy.not_rank_lt hx)) (Nat.le_of_not_lt (hx.not_rank_lt hy))
  rw [← ofRank_negative_rank x, ← ofRank_negative_rank y, hsign, hrank]

/-- A rank up to infinity and a sign make up a number with that sign. -/
theorem negative_ofRank (negative : Bool) {rank : Nat} (h : rank ≤ infinityRank) :
    (ofRank negative rank).negative = negative := by
  have hinf : infinityRank = 9218868437227405312 := rfl
  have h63 : (1 <<< 63 : Nat) = 9223372036854775808 := rfl
  cases negative <;> simp only [Binary64.negative, ofRank, UInt64.toNat_ofNat', h63] <;>
    simp <;> omega

end Binary64

/-! ## Rounding a decimal -/

namespace Decimal

open Binary64

/-- The magnitude of a decimal. -/
def magnitude (d : Decimal) : ℚ := d.significand * 10 ^ d.exponent

/-- The sign is kept. -/
theorem negative_nearest (d : Decimal) : d.nearest.negative = d.negative :=
  negative_ofRank d.negative d.rank_le_infinityRank

/-- A power of ten as a rational. -/
theorem cast_powerOfTen (n : Nat) : (powerOfTen n : ℚ) = 10 ^ n := by
  change ((10 ^ n : ℕ) : ℚ) = 10 ^ n
  rw [Nat.cast_pow, Nat.cast_ofNat]

/-- The units of a decimal as a quotient: a positive exponent multiplies, a negative one divides. -/
theorem magnitude_eq_div (d : Decimal) :
    d.magnitude * (2 : ℚ) ^ 1074
      = ((d.significand * powerOfTen d.exponent.toNat) <<< 1074 : ℕ)
          / (powerOfTen (-d.exponent).toNat : ℕ) := by
  have hpower : (10 : ℚ) ^ d.exponent
      = 10 ^ d.exponent.toNat / 10 ^ (-d.exponent).toNat := by
    obtain ⟨n, hn | hn⟩ := d.exponent.eq_nat_or_neg
    · simp [hn]
    · simp [hn]
  rw [magnitude, hpower, cast_shiftLeft, Nat.cast_mul, cast_powerOfTen, cast_powerOfTen,
    ← mul_div_assoc, div_mul_eq_mul_div]

/-- Ten has more than three bits. -/
theorem two_pow_lt_ten_pow : (2 : ℚ) ^ 1075 < 10 ^ 401 := by
  calc (2 : ℚ) ^ 1075 < 2 ^ (3 * 401) := pow_lt_pow_right₀ one_lt_two (by decide)
    _ = 8 ^ 401 := by
        rw [pow_mul]
        norm_num only
    _ ≤ 10 ^ 401 := pow_le_pow_left₀ (by norm_num) (by norm_num) 401

/-- A decimal with a very small exponent is below half a unit, whatever its digits. -/
theorem magnitude_lt_of_small {d : Decimal} (h : d.exponent + d.significand.log2 + 401 < 0) :
    d.magnitude * 2 ^ 1074 < 1 / 2 := by
  have hsignificand : (d.significand : ℚ) < 10 ^ ((d.significand.log2 + 1 : ℕ) : ℤ) := by
    have hlt : d.significand < 10 ^ (d.significand.log2 + 1) :=
      Nat.lt_log2_self.trans_le (Nat.pow_le_pow_left (by decide) _)
    rw [zpow_natCast]
    exact_mod_cast hlt
  have hmagnitude : d.magnitude < (10 ^ 401)⁻¹ := by
    calc d.magnitude
        < 10 ^ ((d.significand.log2 + 1 : ℕ) : ℤ) * 10 ^ d.exponent :=
          mul_lt_mul_of_pos_right hsignificand (by positivity)
      _ = 10 ^ (((d.significand.log2 + 1 : ℕ) : ℤ) + d.exponent) :=
          (zpow_add₀ (by norm_num) _ _).symm
      _ ≤ 10 ^ (-401 : ℤ) := zpow_le_zpow_right₀ (by norm_num) (by push_cast; omega)
      _ = (10 ^ 401)⁻¹ := by rw [zpow_neg, zpow_ofNat]
  calc d.magnitude * 2 ^ 1074 ≤ (10 ^ 401)⁻¹ * 2 ^ 1074 :=
        mul_le_mul_of_nonneg_right hmagnitude.le (by positivity)
    _ < (2 ^ 1075)⁻¹ * 2 ^ 1074 := by
        refine mul_lt_mul_of_pos_right ?_ (by positivity)
        exact inv_strictAnti₀ (by positivity) two_pow_lt_ten_pow
    _ = 1 / 2 := by
        rw [pow_succ, mul_inv_rev, inv_mul_cancel_right₀ (by positivity), one_div]

/-- A decimal with a great exponent is beyond the bound of infinity. -/
theorem overflowUnits_le_of_large {d : Decimal} (hne : d.significand ≠ 0) (h : 400 < d.exponent) :
    overflowUnits ≤ d.magnitude * 2 ^ 1074 := by
  have hone : (1 : ℚ) ≤ d.significand := by exact_mod_cast Nat.one_le_iff_ne_zero.2 hne
  have hmagnitude : (2 : ℚ) ^ 1075 ≤ d.magnitude := by
    calc (2 : ℚ) ^ 1075 ≤ 10 ^ 401 := two_pow_lt_ten_pow.le
      _ = 10 ^ (401 : ℤ) := (zpow_ofNat 10 401).symm
      _ ≤ 10 ^ d.exponent := zpow_le_zpow_right₀ (by norm_num) (by omega)
      _ ≤ d.significand * 10 ^ d.exponent := le_mul_of_one_le_left (by positivity) hone
  calc overflowUnits ≤ 2 ^ 2098 := overflowUnits_le
    _ ≤ 2 ^ (1075 + 1074) := pow_le_pow_right₀ one_le_two (by decide)
    _ = 2 ^ 1075 * 2 ^ 1074 := pow_add 2 1075 1074
    _ ≤ d.magnitude * 2 ^ 1074 := mul_le_mul_of_nonneg_right hmagnitude (by positivity)

/-- **The rank of a decimal.** A decimal is rounded to infinity from the bound on; below it, to the
nearest of all magnitudes. -/
theorem rank_cases (d : Decimal) :
    (d.magnitude * 2 ^ 1074 < overflowUnits ∧ d.rank < infinityRank
        ∧ RoundsTo (d.magnitude * 2 ^ 1074) d.rank)
      ∨ (overflowUnits ≤ d.magnitude * 2 ^ 1074 ∧ d.rank = infinityRank) := by
  have hnonneg : 0 ≤ d.magnitude * 2 ^ 1074 := by
    unfold magnitude
    positivity
  unfold rank
  split
  · next hsmall =>
    have hlt : d.magnitude * 2 ^ 1074 < 1 / 2 := by
      rcases hsmall with hzero | hsmall
      · rw [magnitude, hzero, Nat.cast_zero, zero_mul, zero_mul]
        norm_num
      · exact magnitude_lt_of_small hsmall
    refine .inl ⟨hlt.trans ?_, by decide, roundsTo_zero hnonneg hlt⟩
    have hlast : (1 : ℚ) ≤ 2 ^ 2045 := one_le_pow₀ one_le_two
    rw [overflowUnits]
    generalize (2 : ℚ) ^ 2045 = last at hlast ⊢
    linarith
  · next hsmall =>
    rw [not_or] at hsmall
    split
    · next hlarge => exact .inr ⟨overflowUnits_le_of_large hsmall.1 hlarge, rfl⟩
    · rw [magnitude_eq_div]
      exact nearestRank_cases (powerOfTen_pos _)

/-- **A decimal has a finite nearest number just below the bound of infinity.** -/
theorem isFinite_nearest_iff (d : Decimal) :
    d.nearest.isFinite = true ↔ d.magnitude < 2 ^ 1024 - 2 ^ 970 := by
  have hpos : (0 : ℚ) < 2 ^ 1074 := by positivity
  rw [← mul_lt_mul_iff_left₀ hpos, ← overflowUnits_eq, Binary64.isFinite, rank_nearest,
    decide_eq_true_eq]
  rcases d.rank_cases with ⟨hlt, hrank, -⟩ | ⟨hge, hrank⟩
  · exact iff_of_true hrank hlt
  · exact iff_of_false hrank.not_lt hge.not_gt

/-- **A decimal is rounded to the nearest number.** -/
theorem isNearest_nearest {d : Decimal} (h : d.nearest.isFinite = true) :
    d.nearest.IsNearest d.magnitude := by
  have hrank : d.rank < infinityRank := by
    rw [← rank_nearest]
    exact of_decide_eq_true h
  rcases d.rank_cases with ⟨-, -, hrounds⟩ | ⟨-, hinfinite⟩
  · rw [← rank_nearest] at hrounds
    exact hrounds.isNearest h
  · exact absurd hinfinite hrank.ne

/-- Decimals of one sign and one magnitude are rounded to one number. -/
theorem nearest_eq_of_magnitude {d d' : Decimal} (hsign : d.negative = d'.negative)
    (hmagnitude : d.magnitude = d'.magnitude) (hfinite : d.nearest.isFinite = true) :
    d.nearest = d'.nearest := by
  have hfinite' : d'.nearest.isFinite = true := by
    rw [isFinite_nearest_iff, ← hmagnitude, ← isFinite_nearest_iff]
    exact hfinite
  refine (isNearest_nearest hfinite).unique (hmagnitude ▸ isNearest_nearest hfinite') ?_
  rw [negative_nearest, negative_nearest, hsign]

end Decimal

end InfixCalc
