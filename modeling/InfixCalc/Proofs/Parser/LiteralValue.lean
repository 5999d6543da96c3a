import Mathlib
import InfixCalc.Proofs.Rounding
import InfixCalc.Proofs.Parser.Acceptance

/-!
# The value of a literal

The digits of a literal stand for a rational, whatever their number. A literal has a value just if
it has at most one sign and that rational is below the bound of infinity; the value is the nearest
number, with the sign of the literal on zero too.

Main statements: the number that is computed for a literal is the nearest one
(`number?_eq_some_iff`), and at the front of a text the longest literal is read with it, or refused
(`literals_are_read_exactly`).
-/

namespace InfixCalc

namespace Literal

open Decimal

/-! ## Digits as a rational -/

/-- The rational that a literal stands for without its signs. -/
def Parts.unsigned (p : Parts) : ℚ :=
  ofDigits p.whole + ofDigits p.fraction / 10 ^ p.fraction.length

/-- The magnitude of the decimal of a literal is the rational that its digits stand for. -/
theorem Parts.magnitude_decimal (p : Parts) : p.decimal.magnitude = p.unsigned := by
  have hten : (10 : ℚ) ^ p.fraction.length ≠ 0 := by positivity
  rw [Decimal.magnitude, Parts.decimal, ofDigits_append, Nat.cast_add, Nat.cast_mul,
    cast_powerOfTen, zpow_neg, zpow_natCast, Parts.unsigned, add_mul, mul_right_comm,
    mul_inv_cancel₀ hten, one_mul, div_eq_mul_inv]

/-! ## The nearest number to a literal -/

/-- A number is the rounded value of a literal: it is nearest to the rational that the digits stand
for, and negative just if there is one minus sign. -/
structure Parts.RoundsTo (p : Parts) (x : Binary64) : Prop where
  sign : x.negative = decide (p.signs = 1)
  nearest : x.IsNearest p.unsigned

/-- A literal is rounded to one number only. -/
theorem Parts.RoundsTo.unique {p : Parts} {x y : Binary64} (hx : p.RoundsTo x)
    (hy : p.RoundsTo y) : x = y :=
  hx.nearest.unique hy.nearest (hx.sign.trans hy.sign.symm)

/-- A literal below the bound of infinity is rounded to the number that is nearest to its decimal.
-/
theorem Parts.roundsTo_nearest {p : Parts} (h : p.unsigned < 2 ^ 1024 - 2 ^ 970) :
    p.RoundsTo p.decimal.nearest := by
  rw [← p.magnitude_decimal, ← isFinite_nearest_iff] at h
  refine ⟨negative_nearest _, ?_⟩
  rw [← p.magnitude_decimal]
  exact isNearest_nearest h

/-- **The number of a literal.** A literal has a number just if it has at most one sign and is below
the bound of infinity, and then the number is the nearest one. -/
theorem Parts.number?_eq_some_iff {p : Parts} {x : Binary64} :
    p.number? = some x ↔ p.signs ≤ 1 ∧ p.unsigned < 2 ^ 1024 - 2 ^ 970 ∧ p.RoundsTo x := by
  have hfinite : p.decimal.nearest.isFinite = true ↔ p.unsigned < 2 ^ 1024 - 2 ^ 970 := by
    rw [isFinite_nearest_iff, p.magnitude_decimal]
  rw [Parts.number?]
  constructor
  · intro h
    split at h
    · next hcond =>
      obtain rfl := Option.some.inj h
      have hlt := hfinite.1 hcond.2
      exact ⟨hcond.1, hlt, roundsTo_nearest hlt⟩
    · cases h
  · rintro ⟨hsigns, hlt, hx⟩
    rw [if_pos ⟨hsigns, hfinite.2 hlt⟩, (roundsTo_nearest hlt).unique hx]

/-- A literal with more than one sign, or from the bound of infinity on, has no number. -/
theorem Parts.number?_eq_none {p : Parts}
    (h : 2 ≤ p.signs ∨ 2 ^ 1024 - 2 ^ 970 ≤ p.unsigned) : p.number? = none := by
  rw [Option.eq_none_iff_forall_ne_some]
  intro x hx
  obtain ⟨hsigns, hlt, -⟩ := number?_eq_some_iff.1 hx
  rcases h with h | h
  · omega
  · exact absurd hlt h.not_gt

/-! ## Reading a literal -/

/-- A literal is found at the front of a text just if some beginning of the text is one. -/
theorem exists_read_eq_absent_iff {text : List Char} :
    (∃ rest, read text = .absent rest) ↔ ∀ w, w <+: text → ¬ IsLiteral w := by
  have hfinds := finds_read text
  constructor
  · rintro ⟨rest, h⟩ w hbegins hw
    obtain ⟨p, rest, hl⟩ := exists_longest?_of_isLiteral hw hbegins
    rw [h] at hfinds
    cases hfinds with
    | absent hnone => cases hnone.symm.trans hl
  · intro h
    refine ⟨_, read_of_none (Option.eq_none_iff_forall_ne_some.2 ?_)⟩
    rintro ⟨p, rest⟩ hl
    obtain ⟨hp, htext, -⟩ := longest?_eq_some_iff.1 hl
    exact h p.text ⟨rest, htext.symm⟩ ⟨p, hp, rfl⟩

/-- The longest literal at the front of a text is the one that the scan finds. -/
theorem LongestLiteral.longest?_eq {p : Parts} {text : List Char} (h : LongestLiteral p.text text)
    (hp : p.WellFormed) : ∃ rest, text = p.text ++ rest ∧ longest? text = some (p, rest) := by
  obtain ⟨q, rest, hl, hq⟩ := longestLiteral_iff.1 h
  obtain ⟨hwell, htext, -⟩ := longest?_eq_some_iff.1 hl
  obtain rfl := hwell.eq_of_text_eq hp hq
  exact ⟨rest, htext, hl⟩

/-- A literal alone is an expression with its number as the value. -/
theorem parseWith_text {p : Parts} (hp : p.WellFormed) {x : Binary64} (hx : p.number? = some x)
    (c : Config) : parseWith c (String.ofList p.text) = .ok (.value x) := by
  rw [Parser.parseWith_ofList_iff]
  have hderives : Derives c.strictDelimiters none p.text (.value x) :=
    .literal (hp.denotes_iff.2 hx)
  exact ⟨hderives.of_atom _, opensAtMost_of_plain hp.plain, .inl rfl⟩

/-- **Literals are read maximally and exactly.** No literal is found just where none begins the
text. Otherwise the longest one is taken. With more than one sign, or from `2 ^ 1024 - 2 ^ 970` on,
it is refused; if not, it is read as the one number that its digits are rounded to, and what stands
behind it is left. So a literal alone is evaluated to that number. -/
theorem literals_are_read_exactly :
    (∀ text, (∃ rest, read text = .absent rest) ↔ ∀ w, w <+: text → ¬ IsLiteral w)
      ∧ (∀ text, (∀ rest, read text ≠ .absent rest) →
          ∃ p : Parts, p.WellFormed ∧ LongestLiteral p.text text)
      ∧ (∀ (p : Parts) text, p.WellFormed → LongestLiteral p.text text →
          (2 ≤ p.signs ∨ 2 ^ 1024 - 2 ^ 970 ≤ p.unsigned → read text = .refused p.text)
            ∧ (p.signs ≤ 1 → p.unsigned < 2 ^ 1024 - 2 ^ 970 →
                ∃ x rest hlt, text = p.text ++ rest ∧ read text = .read ⟨x, rest, hlt⟩
                  ∧ ∀ y, p.RoundsTo y ↔ y = x))
      ∧ ∀ p : Parts, p.WellFormed → p.signs ≤ 1 → p.unsigned < 2 ^ 1024 - 2 ^ 970 →
          ∃ x, (∀ y, p.RoundsTo y ↔ y = x)
            ∧ ∀ c, (parseWith c (String.ofList p.text)).map Expr.evaluate = .ok x := by
  have hunique : ∀ {p : Parts} {x : Binary64}, p.RoundsTo x → ∀ y, p.RoundsTo y ↔ y = x := by
    intro p x hx y
    constructor
    · exact fun hy => hy.unique hx
    · rintro rfl
      exact hx
  refine ⟨fun text => exists_read_eq_absent_iff, fun text h => ?_,
    fun p text hp hlongest => ⟨?_, ?_⟩, ?_⟩
  · rcases hl : longest? text with _ | ⟨p, rest⟩
    · exact absurd (read_of_none hl) (h _)
    · exact ⟨p, wellFormed_of_longest? hl, longestLiteral_iff.2 ⟨p, rest, hl, rfl⟩⟩
  · intro h
    obtain ⟨rest, -, hl⟩ := hlongest.longest?_eq hp
    exact read_of_refused hl (Parts.number?_eq_none h)
  · intro hsigns hlt
    obtain ⟨rest, htext, hl⟩ := hlongest.longest?_eq hp
    have hx := Parts.roundsTo_nearest hlt
    have hread := read_of_value hl (Parts.number?_eq_some_iff.2 ⟨hsigns, hlt, hx⟩)
    exact ⟨_, rest, _, htext, hread, hunique hx⟩
  · intro p hp hsigns hlt
    have hx := Parts.roundsTo_nearest hlt
    refine ⟨_, hunique hx, fun c => ?_⟩
    rw [parseWith_text hp (Parts.number?_eq_some_iff.2 ⟨hsigns, hlt, hx⟩)]
    rfl

/-- Minus a half, with a zero too many before the point and a second point behind the digits; and a
one with two signs. -/
theorem literals_are_read_exactly_half :
    (∃ hlt, read "-00.5.5".toList = .read ⟨⟨0xbfe0000000000000⟩, ['.', '5'], hlt⟩)
      ∧ (parse "-00.5").map Expr.evaluate = .ok ⟨0xbfe0000000000000⟩
      ∧ read "--1+2".toList = .refused ['-', '-', '1'] := by
  obtain ⟨-, -, hlongest, halone⟩ := literals_are_read_exactly
  have hhalf : longest? "-00.5.5".toList = some (⟨1, ['0', '0'], ['5']⟩, ['.', '5']) := by decide
  have hone : longest? "--1+2".toList = some (⟨2, ['1'], []⟩, ['+', '2']) := by decide
  have hnumber : (⟨1, ['0', '0'], ['5']⟩ : Parts).number? = some ⟨0xbfe0000000000000⟩ := by
    decide +kernel
  obtain ⟨hsigns, hlt, hrounds⟩ := Parts.number?_eq_some_iff.1 hnumber
  refine ⟨?_, ?_, ?_⟩
  · obtain ⟨x, rest, hshorter, htext, hread, hx⟩ := (hlongest _ _ (wellFormed_of_longest? hhalf)
      (longestLiteral_iff.2 ⟨_, _, hhalf, rfl⟩)).2 hsigns hlt
    obtain rfl := (hx _).1 hrounds
    have htext : "-00.5".toList ++ ['.', '5'] = "-00.5".toList ++ rest := htext
    obtain rfl := List.append_cancel_left htext
    exact ⟨hshorter, hread⟩
  · obtain ⟨x, hx, hvalue⟩ := halone _ (wellFormed_of_longest? hhalf) hsigns hlt
    obtain rfl := (hx _).1 hrounds
    exact hvalue Config.default
  · exact (hlongest _ _ (wellFormed_of_longest? hone)
      (longestLiteral_iff.2 ⟨_, _, hone, rfl⟩)).1 (.inl le_rfl)

end Literal

end InfixCalc
