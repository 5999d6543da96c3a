import InfixCalc.Binary64.Shortest
import InfixCalc.Operator

/-!
# Expression trees

A tree of operators over numbers, its depth, its value and its comparison with another tree.
-/

namespace InfixCalc

/-- An expression: a number, or an operator between two expressions. -/
inductive Expr where
  | value (number : Binary64)
  | binary (op : Operator) (left right : Expr)
  deriving DecidableEq, Repr, Inhabited

namespace Expr

/-- The number of levels; a number alone is one level. -/
def depth : Expr → Nat
  | value _ => 1
  | binary _ left right => 1 + max left.depth right.depth

/-- The value of an expression. Nothing fails: overflow and what has no value are an infinity or a
NaN. -/
def evaluate : Expr → Binary64
  | value number => number
  | binary op left right => op.apply left.evaluate right.evaluate

/-- Whether two expressions have one shape and one operator at each place, and numbers that are
equal in arithmetic. -/
def equals : Expr → Expr → Bool
  | value x, value y => x.equals y
  | binary op left right, binary op' left' right' =>
    decide (op = op') && left.equals left' && right.equals right'
  | _, _ => false

/-- The numbers of an expression, from left to right. -/
def leaves : Expr → List Binary64
  | value number => [number]
  | binary _ left right => left.leaves ++ right.leaves

/-- Whether an expression is a number alone. -/
def isValue : Expr → Bool
  | value _ => true
  | binary _ _ _ => false

/-! ## Display -/

/-- Writes an expression in front of a text: a number as its shortest text, an operator between its
operands with a blank on each side, in round delimiters. -/
def textOnto : Expr → List Char → List Char
  | value number, tail => number.text ++ tail
  | binary op left right, tail =>
    '(' :: left.textOnto (' ' :: op.symbol :: ' ' :: right.textOnto (')' :: tail))

/-- The text of an expression. -/
def text (e : Expr) : List Char := e.textOnto []

/-- What is written in front of a text is the text of the expression. -/
theorem textOnto_eq (e : Expr) (tail : List Char) : e.textOnto tail = e.text ++ tail := by
  induction e generalizing tail with
  | value number => simp [text, textOnto]
  | binary op left right ihl ihr =>
    simp only [text, textOnto]
    rw [ihl, ihr, ihl, ihr]
    simp

/-- A number alone is written as the number is. -/
@[simp] theorem text_value (number : Binary64) : (value number).text = number.text := by
  simp [text, textOnto]

/-- An operator is written between its operands, inside round delimiters. -/
@[simp] theorem text_binary (op : Operator) (left right : Expr) :
    (binary op left right).text =
      '(' :: left.text ++ ' ' :: op.symbol :: ' ' :: right.text ++ [')'] := by
  rw [text, textOnto, textOnto_eq, textOnto_eq]
  simp

instance : ToString Expr where
  toString e := String.ofList e.text

end Expr

end InfixCalc
