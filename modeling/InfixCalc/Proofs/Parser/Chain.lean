import Mathlib
import InfixCalc.Parser

/-!
# Chains folded to the right

The fold shifts all operands of a chain onto a stack and unwinds the stack afterwards. Here it is
described link by link, as a recursion over the chain.

Main statements: a chain of one operand folds to that operand (`foldRight_nil`), and in front of a
chain one more operand is joined to what the chain folds to (`foldRight_cons`).
-/

namespace InfixCalc

namespace Parser

/-- Joins two nodes by an operator, if the tree has at most `limit` levels. -/
def join (limit : Nat) (op : Operator) (left right : Node) : Except ParseError Node :=
  if limit < 1 + max right.depth left.depth then .error (.treeTooDeep limit)
  else .ok ⟨.binary op left.tree right.tree, 1 + max right.depth left.depth⟩

/-- What was pending before a shift stays at the bottom of the stack. -/
theorem shift_eq_append (last : Node) (pending : List Pending) (links : List Link) :
    shift last pending links = ((shift last [] links).1, (shift last [] links).2 ++ pending) := by
  induction links generalizing last pending with
  | nil => rfl
  | cons link links ih =>
      rw [shift, shift, ih, ih link.operand [⟨last, link.op⟩]]
      simp only [List.append_assoc, List.singleton_append]

/-- A stack is unwound from its top, and what lies deeper around the result of that. -/
theorem unwind_append (limit : Nat) (right : Node) (top bottom : List Pending) :
    unwind limit right (top ++ bottom)
      = (unwind limit right top).bind fun node => unwind limit node bottom := by
  induction top generalizing right with
  | nil => rfl
  | cons p top ih =>
      rw [List.cons_append, unwind, unwind]
      split
      · rfl
      · exact ih _

/-- An operand alone folds to itself. -/
theorem foldRight_nil (limit : Nat) (first : Node) : foldRight limit first [] = .ok first := rfl

/-- **The fold as a recursion.** The first operand is joined to what the rest of the chain folds
to; where that fails, the whole fold does. -/
theorem foldRight_cons (limit : Nat) (first : Node) (link : Link) (links : List Link) :
    foldRight limit first (link :: links)
      = (foldRight limit link.operand links).bind (join limit link.op first) := by
  -- The first operand is shifted before all others, so it lies at the bottom of the stack.
  rw [foldRight, shift, shift_eq_append]
  dsimp only
  rw [unwind_append]
  rfl

/-- What a chain of more than one operand folds to: the first operand, joined to what the rest folds
to, within the limit. -/
theorem foldRight_cons_eq_ok_iff {limit : Nat} {first node : Node} {link : Link}
    {links : List Link} :
    foldRight limit first (link :: links) = .ok node
      ↔ ∃ right, foldRight limit link.operand links = .ok right
          ∧ 1 + max right.depth first.depth ≤ limit
          ∧ node = ⟨.binary link.op first.tree right.tree, 1 + max right.depth first.depth⟩ := by
  rw [foldRight_cons]
  cases foldRight limit link.operand links with
  | error err => simp [Except.bind]
  | ok right =>
      rw [Except.bind, join]
      split
      · next hlt => simp [Nat.not_le_of_lt hlt]
      · next hle => simp [Nat.le_of_not_lt hle, eq_comm]

end Parser

end InfixCalc
