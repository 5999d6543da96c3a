import Mathlib
import InfixCalc.Parser

/-!
# Reading by descent

The parser read off the grammar: an expression of a tier is an operand and, where an operator of the
tier follows, that operator and all of what is left, read as an expression of the same tier. No
chain is collected, and the depth of a tree is looked up in the tree.
-/

namespace InfixCalc

/-- The number of levels below a level; below the tightest tier stand only atoms. -/
def Tier.levelsBelow : Option Tier → Nat
  | none => 0
  | some t => t.looseness + 1

/-- Operands stand one level below their tier. -/
theorem Tier.levelsBelow_tighter (t : Tier) : levelsBelow t.tighter < levelsBelow (some t) := by
  cases t <;> decide

namespace Parser

/-- Reads an expression of a tier, or an atom where no tier is given, inside `nesting` open
groups. -/
def descend (c : Config) (level : Option Tier) (nesting : Nat) (text : List Char) :
    Except ParseError (Reading Expr text) :=
  match level with
  | some t =>
    match descend c t.tighter nesting text with
    | .error e => .error e
    | .ok left =>
      match operator t left.rest with
      | none => .ok left
      | some op =>
        have := Nat.lt_trans op.shorter left.shorter
        match descend c (some t) nesting op.rest with
        | .error e => .error e
        | .ok right =>
          let tree := Expr.binary op.value left.value right.value
          if c.maxTreeDepth < tree.depth then .error (.treeTooDeep c.maxTreeDepth)
          else .ok (left.after (op.after (right.map fun _ => tree)))
  | none =>
    match Literal.read text with
    | .refused literal => .error (.badLiteral (String.ofList literal))
    | .read number => .ok (number.map .value)
    | .absent _ =>
      match text with
      | [] => .error (unexpected [])
      | first :: inside =>
        match Delimiter.ofOpener? first with
        | none => .error (unexpected (first :: inside))
        | some opened =>
          if c.maxDepth ≤ nesting then .error (.nestedTooDeep c.maxDepth)
          else
            match descend c (some .additive) (nesting + 1) inside with
            | .error e => .error e
            | .ok inner =>
              match closer c opened inner.rest with
              | none => .error (unexpected inner.rest)
              | some last => .ok ((inner.after (last.map fun _ => inner.value)).behind first)
termination_by (text.length, Tier.levelsBelow level)
decreasing_by
  · exact Prod.Lex.right _ (Tier.levelsBelow_tighter t)
  · exact Prod.Lex.left _ _ this
  · exact Prod.Lex.left _ _ (Nat.lt_succ_self inside.length)

end Parser

end InfixCalc
