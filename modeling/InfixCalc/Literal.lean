import InfixCalc.Binary64.Nearest
import InfixCalc.Reading

/-!
# Literals

A literal is any number of minus signs, then digits, then optionally a point with digits behind
it, taken as far as it goes. Its value is the nearest binary64 number. A literal with more than
one sign, or with a value that is not finite, is refused.

Main statement: the literal and what is left make up the text (`append_of_longest?`).
-/

namespace InfixCalc

namespace Literal

/-! ## The longest literal -/

/-- The parts of a literal. -/
structure Parts where
  /-- The number of minus signs. -/
  signs : Nat
  /-- The digits before the point. -/
  whole : List Char
  /-- The digits behind the point; none if there is no point. -/
  fraction : List Char
  deriving DecidableEq, Repr

/-- The text of a literal. -/
def Parts.text (p : Parts) : List Char :=
  List.replicate p.signs '-' ++ p.whole ++ (if p.fraction = [] then [] else '.' :: p.fraction)

/-- The longest literal at the front of a text, and the text behind it. -/
def longest? (text : List Char) : Option (Parts × List Char) :=
  let unsigned := text.dropWhile (· = '-')
  let whole := unsigned.takeWhile Decimal.isDigit
  if whole = [] then none
  else
    let (fraction, rest) := Decimal.takeFraction (unsigned.dropWhile Decimal.isDigit)
    some (⟨(text.takeWhile (· = '-')).length, whole, fraction⟩, rest)

/-- Characters that are all one are that one, repeated. -/
theorem takeWhile_eq_replicate (c : Char) (text : List Char) :
    text.takeWhile (· = c) = List.replicate (text.takeWhile (· = c)).length c := by
  induction text with
  | nil => rfl
  | cons a rest ih =>
    by_cases h : a = c
    · simp [h, List.replicate_succ, ← ih]
    · simp [h]

/-- The literal and what is left make up the text. -/
theorem append_of_longest? {text rest : List Char} {p : Parts}
    (h : longest? text = some (p, rest)) : p.text ++ rest = text := by
  unfold longest? at h
  dsimp only at h
  split at h
  · exact nomatch h
  · obtain ⟨rfl, rfl⟩ := by simpa using h
    simp only [Parts.text, ← takeWhile_eq_replicate, List.append_assoc, Decimal.append_takeFraction,
      List.takeWhile_append_dropWhile]

/-- A literal holds at least one digit, so what is left is shorter than the text. -/
theorem length_lt_of_longest? {text rest : List Char} {p : Parts}
    (h : longest? text = some (p, rest)) : rest.length < text.length := by
  have hne : p.whole ≠ [] := by
    unfold longest? at h
    dsimp only at h
    split at h
    · exact nomatch h
    · next hw =>
      obtain ⟨rfl, _⟩ := by simpa using h
      exact hw
  have hpos : 0 < p.whole.length := List.length_pos_iff.2 hne
  rw [← append_of_longest? h]
  simp only [Parts.text, List.length_append]
  omega

/-! ## The value of a literal -/

/-- The decimal that a literal with at most one sign stands for. -/
def Parts.decimal (p : Parts) : Decimal :=
  ⟨p.signs = 1, Decimal.ofDigits (p.whole ++ p.fraction), -(p.fraction.length : Int)⟩

/-- The nearest number to a literal, if it has at most one sign and the number is finite. -/
def Parts.number? (p : Parts) : Option Binary64 :=
  if p.signs ≤ 1 ∧ p.decimal.nearest.isFinite then some p.decimal.nearest else none

/-- What the front of a text is, read as a literal. -/
inductive Outcome (text : List Char) where
  /-- No literal stands there: no digit stands where the signs end, at `rest`. -/
  | absent (rest : List Char)
  /-- A literal stands there that has no value. -/
  | refused (literal : List Char)
  /-- A literal stands there that has a value. -/
  | read (reading : Reading Binary64 text)

/-- Reads the longest literal at the front of a text. -/
def read (text : List Char) : Outcome text :=
  match h : longest? text with
  | none => .absent (text.dropWhile (· = '-'))
  | some (p, rest) =>
    match p.number? with
    | none => .refused p.text
    | some x => .read ⟨x, rest, length_lt_of_longest? h⟩

end Literal

end InfixCalc
