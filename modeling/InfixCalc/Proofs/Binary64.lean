import Mathlib
import InfixCalc.Proofs.Literal
import InfixCalc.Binary64.Shortest

/-!
# The text of a number

A finite number is written as a literal that reads back as that number: each decimal that is tried
on a grid is read back before it is taken, and where no grid has one, the number is written without
any rounding.

Main statements: a whole number of units that is a magnitude of the format is rounded to itself
(`nearestRank_unitsAt_mul`), so the shortest decimal of a finite number is read as that number
(`nearest_shortest`), and so is its text (`exists_denotes_text`).
-/

namespace InfixCalc

namespace Binary64

/-! ## Ranks -/

/-- A rank up to infinity and a sign make up a number with that rank. -/
theorem rank_ofRank (negative : Bool) {rank : Nat} (h : rank ≤ infinityRank) :
    (ofRank negative rank).rank = rank := by
  have hinf : infinityRank = 9218868437227405312 := rfl
  have h63 : (1 <<< 63 : Nat) = 9223372036854775808 := rfl
  simp only [Binary64.rank, ofRank, UInt64.toNat_ofNat', h63]
  split <;> omega

/-- A magnitude is a significand of at most fifty-three bits, shifted to the left; a significand
that is shifted has all of these bits. The rank counts the shifts above the significand. -/
theorem exists_significand (rank : Nat) : ∃ significand shift : Nat,
    unitsAt rank = significand * 2 ^ shift ∧ rank = shift * 2 ^ 52 + significand
      ∧ significand < 2 ^ 53 ∧ (shift = 0 ∨ 2 ^ 52 ≤ significand) := by
  have hunits : unitsAt rank = if rank / 2 ^ 52 = 0 then rank % 2 ^ 52
      else (2 ^ 52 + rank % 2 ^ 52) * 2 ^ (rank / 2 ^ 52 - 1) := by
    simp only [unitsAt, Nat.shiftRight_eq_div_pow, Nat.shiftLeft_eq, Nat.one_mul]
  have hblock : 2 ^ 52 * (rank / 2 ^ 52) + rank % 2 ^ 52 = rank := Nat.div_add_mod rank (2 ^ 52)
  have hoffset : rank % 2 ^ 52 < 2 ^ 52 := Nat.mod_lt _ (by decide)
  rw [hunits]
  by_cases h : rank / 2 ^ 52 = 0
  · refine ⟨rank % 2 ^ 52, 0, ?_, by omega, by omega, .inl rfl⟩
    rw [if_pos h, Nat.pow_zero, Nat.mul_one]
  · refine ⟨2 ^ 52 + rank % 2 ^ 52, rank / 2 ^ 52 - 1, if_neg h, by omega, by omega, .inr ?_⟩
    exact Nat.le_add_right _ _

/-- Only zero has rank zero. -/
theorem rank_eq_zero_of_unitsAt {rank : Nat} (h : unitsAt rank = 0) : rank = 0 := by
  obtain ⟨significand, shift, hunits, hrank, -, hshift⟩ := exists_significand rank
  rw [h] at hunits
  have hzero : significand = 0 := by
    rcases Nat.mul_eq_zero.1 hunits.symm with hs | hs
    · exact hs
    · exact absurd hs (by positivity)
  rw [hzero] at hrank hshift
  rcases hshift with rfl | hle
  · simpa using hrank
  · omega

/-! ## Rounding what needs no rounding -/

/-- A quotient that is whole is rounded to itself. -/
theorem roundQuotient_mul (n : Nat) {den : Nat} (h : 0 < den) :
    roundQuotient (n * den) den = n := by
  simp only [roundQuotient, Nat.mul_mod_left, Nat.mul_div_cancel n h]
  rw [if_pos (Or.inl (by omega))]

/-- The highest bit of a significand of at most fifty-three bits is at most the fifty-second; it is
that one if none of the bits is missing, and a shift moves it up. -/
theorem log2_significand {significand shift : Nat} (hlt : significand < 2 ^ 53)
    (hshift : shift = 0 ∨ 2 ^ 52 ≤ significand) :
    (significand * 2 ^ shift).log2 - 52 = shift := by
  rcases hshift with rfl | hle
  · rw [Nat.pow_zero, Nat.mul_one]
    by_cases h : significand = 0
    · rw [h, Nat.log2_zero]
    · have := (Nat.log2_lt h).2 hlt
      omega
  · have hne : significand * 2 ^ shift ≠ 0 := by positivity
    have hlog : (significand * 2 ^ shift).log2 = 52 + shift := by
      rw [Nat.log2_eq_iff hne, Nat.add_right_comm, Nat.pow_add, Nat.pow_add]
      exact ⟨Nat.mul_le_mul_right _ hle, Nat.mul_lt_mul_of_pos_right hlt (by positivity)⟩
    omega

/-- The shift of a finite magnitude is found by halving the places. -/
theorem topBit_significand {significand shift : Nat} (hlt : significand < 2 ^ 53)
    (hshift : shift = 0 ∨ 2 ^ 52 ≤ significand) (hbound : shift < 2046) :
    topBit 12 (significand * 2 ^ shift) - 52 = shift := by
  have hplaces : significand * 2 ^ shift < 1 <<< (1 <<< 12) := by
    have hexponent : 53 + shift ≤ 1 <<< 12 := by
      have : (1 <<< 12 : Nat) = 4096 := rfl
      omega
    rw [Nat.one_shiftLeft (1 <<< 12)]
    calc significand * 2 ^ shift
        < 2 ^ 53 * 2 ^ shift := Nat.mul_lt_mul_of_pos_right hlt (by positivity)
      _ = 2 ^ (53 + shift) := (Nat.pow_add 2 53 shift).symm
      _ ≤ 2 ^ (1 <<< 12) := Nat.pow_le_pow_right (by decide) hexponent
  rw [topBit_eq_log2 hplaces, log2_significand hlt hshift]

/-- **A magnitude of the format is rounded to itself.** -/
theorem nearestRank_unitsAt_mul {rank den : Nat} (hfinite : rank < infinityRank) (hden : 0 < den) :
    nearestRank (unitsAt rank * den) den = rank := by
  obtain ⟨significand, shift, hunits, hrank, hlt, hshift⟩ := exists_significand rank
  have hinf : infinityRank = 9218868437227405312 := rfl
  have hbound : shift < 2046 := by omega
  have hquotient : unitsAt rank * den = significand * (den <<< shift) := by
    rw [hunits, Nat.shiftLeft_eq, Nat.mul_assoc, Nat.mul_comm (2 ^ shift)]
  have hden' : 0 < den <<< shift := by
    rw [Nat.shiftLeft_eq]
    positivity
  rw [nearestRank, Nat.mul_div_cancel _ hden]
  simp only [hunits, topBit_significand hlt hshift hbound]
  rw [← hunits, hquotient, roundQuotient_mul _ hden', Nat.shiftLeft_eq, ← hrank]
  exact Nat.min_eq_right hfinite.le

end Binary64

/-! ## Decimals that read back -/

namespace Decimal

/-- No decimal is nearer to something beyond infinity. -/
theorem rank_le_infinityRank (d : Decimal) : d.rank ≤ Binary64.infinityRank := by
  unfold Decimal.rank
  split
  · exact Nat.zero_le _
  · split
    · exact le_rfl
    · exact Nat.min_le_left _ _

/-- The nearest number has the rank of the decimal. -/
theorem rank_nearest (d : Decimal) : d.nearest.rank = d.rank :=
  Binary64.rank_ofRank d.negative d.rank_le_infinityRank

/-- A decimal whose nearest number is not finite is rounded to infinity. -/
theorem isInfinite_nearest_iff {d : Decimal} :
    d.nearest.isInfinite = true ↔ ¬ d.nearest.isFinite = true := by
  have hle := d.rank_le_infinityRank
  simp only [Binary64.isInfinite, Binary64.isFinite, rank_nearest, decide_eq_true_eq]
  omega

/-- The first power of ten is one. -/
theorem powerOfTen_zero : powerOfTen 0 = 1 := rfl

/-- A power of ten is positive. -/
theorem powerOfTen_pos (n : Nat) : 0 < powerOfTen n := Nat.pow_pos (by decide)

/-- A power of ten is a multiple of the same power of two, so that no bit gets lost when it is
divided by that. -/
theorem shiftLeft_shiftRight_powerOfTen (m n : Nat) :
    ((m * powerOfTen n) >>> n) <<< n = m * powerOfTen n := by
  have hdvd : 2 ^ n ∣ m * powerOfTen n := (pow_dvd_pow_of_dvd (by decide) n).mul_left m
  rw [Nat.shiftRight_eq_div_pow, Nat.shiftLeft_eq]
  exact Nat.div_mul_cancel hdvd

/-- A power of ten is divided by the same power of two to one of five, which has still more bits
than there are places. -/
theorem le_log2_shiftRight_powerOfTen {m : Nat} (hm : 0 < m) (n : Nat) :
    n ≤ ((m * powerOfTen n) >>> n).log2 := by
  have hle : 2 ^ n ≤ (m * powerOfTen n) >>> n := by
    rw [Nat.shiftRight_eq_div_pow, Nat.le_div_iff_mul_le (by positivity), ← Nat.mul_pow]
    calc (2 * 2) ^ n ≤ powerOfTen n := Nat.pow_le_pow_left (by decide) n
      _ ≤ m * powerOfTen n := Nat.le_mul_of_pos_left _ hm
  have hne : (m * powerOfTen n) >>> n ≠ 0 := by
    have : 0 < 2 ^ n := by positivity
    omega
  exact (Nat.le_log2 hne).2 hle

end Decimal

namespace Binary64

open Decimal

/-- The number without any rounding is read as the number. -/
theorem nearest_exact {x : Binary64} (hfinite : x.isFinite = true) (hunits : x.units ≠ 0) :
    x.exact.nearest = x := by
  have hlog := le_log2_shiftRight_powerOfTen (Nat.pos_of_ne_zero hunits) 1074
  have hsignificand : x.exact.significand = (x.units * powerOfTen 1074) >>> 1074 := rfl
  have hexponent : x.exact.exponent = -1074 := rfl
  have hsmall : ¬ (x.exact.significand = 0
      ∨ x.exact.exponent + x.exact.significand.log2 + 401 < 0) := by
    rw [hsignificand, hexponent]
    rintro (h | h)
    · rw [h, Nat.log2_zero] at hlog
      omega
    · omega
  have hrank : x.exact.rank = x.rank := by
    rw [Decimal.rank, if_neg hsmall, hexponent, if_neg (by decide), hsignificand]
    have hden : (-(-1074) : Int).toNat = 1074 := rfl
    have hnum : (-1074 : Int).toNat = 0 := rfl
    rw [hden, hnum, powerOfTen_zero, Nat.mul_one, shiftLeft_shiftRight_powerOfTen]
    exact nearestRank_unitsAt_mul (of_decide_eq_true hfinite) (powerOfTen_pos 1074)
  rw [nearest, hrank]
  exact ofRank_negative_rank x

/-- A decimal that is taken from a grid is read as the number. -/
theorem nearest_of_onGrid? {x : Binary64} {exponent : Int} {d : Decimal}
    (h : x.onGrid? exponent = some d) : d.nearest = x := by
  simp only [onGrid?] at h
  split at h
  · next hlower =>
    obtain rfl := Option.some.inj h
    exact hlower.1
  · split at h
    · next hupper =>
      obtain rfl := Option.some.inj h
      exact hupper
    · cases h

/-- **The shortest decimal of a finite number is read as that number.** -/
theorem nearest_shortest {x : Binary64} (hfinite : x.isFinite = true) : x.shortest.nearest = x := by
  unfold shortest
  split
  · next hunits =>
    -- Both zeros are written with the digit zero, so that only the sign tells them apart.
    have hrank : (⟨x.negative, 0, 0⟩ : Decimal).rank = x.rank := by
      rw [rank_eq_zero_of_unitsAt hunits]
      rfl
    rw [nearest, hrank]
    exact ofRank_negative_rank x
  · next hunits =>
    dsimp only
    split
    · next d hd =>
      obtain ⟨exponent, -, hgrid⟩ := List.exists_of_findSome?_eq_some hd
      exact nearest_of_onGrid? hgrid
    · exact nearest_exact hfinite hunits

end Binary64

/-! ## The digits of a decimal -/

namespace Decimal

/-- The digits of a whole number are digits. -/
theorem isDigit_of_mem_digits {n : Nat} {c : Char} (h : c ∈ digits n) : isDigit c = true := by
  have hdigit := Nat.isDigit_of_mem_toDigits (by decide) (by decide) h
  simpa [isDigit, Char.isDigit, Char.le_def] using hdigit

/-- Digits that are joined stand for the sum, the first ones moved up by the places of the
others. -/
theorem ofDigits_append (ds ds' : List Char) :
    ofDigits (ds ++ ds') = powerOfTen ds'.length * ofDigits ds + ofDigits ds' := by
  simp only [ofDigits, Nat.ofDigitChars_eq_foldl, List.foldl_append]
  rw [← Nat.ofDigitChars_eq_foldl, Nat.ofDigitChars_eq_ofDigitChars_zero]
  rfl

/-- Zeros stand for nothing. -/
theorem ofDigits_zeros (n : Nat) : ofDigits (List.replicate n '0') = 0 := by
  induction n with
  | zero => rfl
  | succ n ih =>
      rw [List.replicate_succ, ← List.singleton_append, ofDigits_append, ih]
      rfl

/-- Digits with zeros in front of them, so that a point can stand before the last `places` of them
and a digit before the point. -/
def padded (places : Nat) (ds : List Char) : List Char :=
  List.replicate (places + 1 - ds.length) '0' ++ ds

/-- There are more digits than places. -/
theorem lt_length_padded (places : Nat) (ds : List Char) : places < (padded places ds).length := by
  simp only [padded, List.length_append, List.length_replicate]
  omega

/-- The point stands before the last digits of them. -/
theorem withPoint_eq (places : Nat) (ds : List Char) :
    withPoint places ds = (padded places ds).take ((padded places ds).length - places)
      ++ '.' :: (padded places ds).drop ((padded places ds).length - places) := rfl

/-- The zeros in front stand for nothing. -/
theorem ofDigits_padded (places n : Nat) : ofDigits (padded places (digits n)) = n := by
  rw [padded, ofDigits_append, ofDigits_zeros, Nat.mul_zero, Nat.zero_add, ofDigits_digits]

/-- Digits with zeros in front of them are digits. -/
theorem isDigit_of_mem_padded {places n : Nat} {c : Char} (h : c ∈ padded places (digits n)) :
    isDigit c = true := by
  rcases List.mem_append.1 h with hzero | hdigit
  · rw [List.eq_of_mem_replicate hzero]
    decide
  · exact isDigit_of_mem_digits hdigit

/-- The literal that a decimal is written as. -/
def literal (d : Decimal) : Literal.Parts :=
  let signs := if d.negative then 1 else 0
  match d.exponent with
  | .ofNat zeros => ⟨signs, digits d.significand ++ List.replicate zeros '0', []⟩
  | .negSucc places =>
    let ds := padded (places + 1) (digits d.significand)
    let whole := ds.length - (places + 1)
    ⟨signs, ds.take whole, ds.drop whole⟩

/-- The text of the literal is that of the decimal. -/
theorem text_literal (d : Decimal) : d.literal.text = d.text := by
  obtain ⟨negative, significand, exponent⟩ := d
  cases exponent with
  | ofNat zeros => cases negative <;> simp [literal, Literal.Parts.text, text, magnitudeText]
  | negSucc places =>
      -- Behind the point stands at least one digit.
      have hpos := Nat.zero_lt_of_lt (lt_length_padded (places + 1) (digits significand))
      simp only [literal, Literal.Parts.text, text, magnitudeText, withPoint_eq]
      cases negative <;> simp [hpos]

/-- A decimal is written as a well-formed literal. -/
theorem wellFormed_literal (d : Decimal) : d.literal.WellFormed := by
  obtain ⟨negative, significand, exponent⟩ := d
  cases exponent with
  | ofNat zeros =>
      refine ⟨?_, ?_, ?_⟩
      · simp [literal, digits]
      · intro c hc
        rcases List.mem_append.1 hc with hdigit | hzero
        · exact isDigit_of_mem_digits hdigit
        · rw [List.eq_of_mem_replicate hzero]
          decide
      · intro c hc
        exact absurd hc List.not_mem_nil
  | negSucc places =>
      have hlt := lt_length_padded (places + 1) (digits significand)
      refine ⟨?_, ?_, ?_⟩
      · simp only [literal, ne_eq, List.take_eq_nil_iff, not_or]
        refine ⟨by omega, fun h => ?_⟩
        rw [h] at hlt
        exact absurd hlt (Nat.not_lt_zero _)
      · exact fun c hc => isDigit_of_mem_padded (List.mem_of_mem_take hc)
      · exact fun c hc => isDigit_of_mem_padded (List.mem_of_mem_drop hc)

/-- Zeros that are written out in place of an exponent leave a finite rank as it is. -/
theorem rank_zeros {negative : Bool} {significand zeros : Nat}
    (hfinite : (⟨negative, significand, zeros⟩ : Decimal).rank < Binary64.infinityRank) :
    (⟨negative, significand * powerOfTen zeros, 0⟩ : Decimal).rank
      = (⟨negative, significand, zeros⟩ : Decimal).rank := by
  by_cases hzero : significand = 0
  · simp [Decimal.rank, hzero]
  · have hne : significand * powerOfTen zeros ≠ 0 :=
      Nat.mul_ne_zero hzero (powerOfTen_pos zeros).ne'
    have hsmall : ¬ (significand = 0 ∨ (zeros : Int) + significand.log2 + 401 < 0) := by omega
    have hsmall' : ¬ (significand * powerOfTen zeros = 0
        ∨ (0 : Int) + (significand * powerOfTen zeros).log2 + 401 < 0) := by omega
    simp only [Decimal.rank, if_neg hsmall] at hfinite ⊢
    rw [if_neg hsmall', if_neg (by decide)]
    split at hfinite
    · exact absurd hfinite (lt_irrefl _)
    · next hbound =>
      have hden : (-(zeros : Int)).toNat = 0 := by omega
      rw [if_neg hbound, hden, Int.toNat_natCast]
      simp only [Int.toNat_zero, Int.neg_zero, powerOfTen_zero, Nat.mul_one]

/-- The literal of a decimal without places behind its point has its exponent written out as zeros.
-/
theorem decimal_literal_ofNat (negative : Bool) (significand zeros : Nat) :
    (literal ⟨negative, significand, .ofNat zeros⟩).decimal
      = ⟨negative, significand * powerOfTen zeros, 0⟩ := by
  simp only [literal, Literal.Parts.decimal, List.append_nil, ofDigits_append,
    ofDigits_zeros, ofDigits_digits, List.length_replicate, Nat.mul_comm, Nat.add_zero]
  cases negative <;> rfl

/-- The literal of a decimal with places behind its point is that decimal. -/
theorem decimal_literal_negSucc (negative : Bool) (significand places : Nat) :
    (literal ⟨negative, significand, .negSucc places⟩).decimal
      = ⟨negative, significand, .negSucc places⟩ := by
  have hlt := lt_length_padded (places + 1) (digits significand)
  simp only [literal, Literal.Parts.decimal, List.take_append_drop, ofDigits_padded,
    List.length_drop, Nat.sub_sub_self hlt.le]
  cases negative <;> rfl

/-- **The literal of a decimal is rounded as the decimal is,** if the number is finite. -/
theorem nearest_literal {d : Decimal} (hfinite : d.nearest.isFinite = true) :
    d.literal.decimal.nearest = d.nearest := by
  have hrank : d.rank < Binary64.infinityRank := by
    rw [← rank_nearest]
    exact of_decide_eq_true hfinite
  obtain ⟨negative, significand, exponent⟩ := d
  cases exponent with
  | ofNat zeros =>
      rw [decimal_literal_ofNat, nearest, nearest, rank_zeros hrank]
      rfl
  | negSucc places => rw [decimal_literal_negSucc]

/-- A decimal whose nearest number is finite is written as a literal that denotes that number. -/
theorem denotes_literal {d : Decimal} {x : Binary64} (hd : d.nearest = x)
    (hfinite : x.isFinite = true) : d.literal.Denotes x := by
  refine ⟨d.wellFormed_literal, ?_, ?_, hfinite⟩
  · obtain ⟨negative, significand, exponent⟩ := d
    cases exponent <;> cases negative <;> simp [literal]
  · rw [nearest_literal (by rw [hd]; exact hfinite), hd]

end Decimal

/-- A literal has no value just if it has more than one sign or is rounded to infinity. -/
theorem Literal.Parts.number?_eq_none_iff {q : Literal.Parts} :
    q.number? = none ↔ 2 ≤ q.signs ∨ q.decimal.nearest.isInfinite = true := by
  rw [Decimal.isInfinite_nearest_iff, Parts.number?, ite_eq_right_iff]
  constructor
  · intro h
    by_contra hnot
    have hcond : q.signs ≤ 1 ∧ q.decimal.nearest.isFinite = true := by
      rw [not_or, not_not] at hnot
      exact ⟨by omega, hnot.2⟩
    cases h hcond
  · rintro (hsigns | hinfinite) ⟨hle, hfinite⟩
    · omega
    · exact absurd hfinite hinfinite

/-! ## The text of a number -/

/-- **The text of a finite number is a literal that denotes the number.** -/
theorem Binary64.exists_denotes_text {x : Binary64} (hfinite : x.isFinite = true) :
    ∃ p : Literal.Parts, p.text = x.text ∧ p.Denotes x := by
  refine ⟨x.shortest.literal, ?_, Decimal.denotes_literal (nearest_shortest hfinite) hfinite⟩
  have hlt : x.rank < infinityRank := of_decide_eq_true hfinite
  have hnan : ¬ x.isNaN = true := by
    simp only [isNaN, decide_eq_true_eq]
    omega
  have hinfinite : ¬ x.isInfinite = true := by
    simp only [isInfinite, decide_eq_true_eq]
    omega
  rw [Decimal.text_literal, Binary64.text, if_neg hnan, if_neg hinfinite]

end InfixCalc
