import Mathlib
import InfixCalc.Proofs.Parser.Chain

/-!
# The tree of a chain

A chain of operands with operators between them stands for one tree, in which each operator has the
operand before it on its left and all of what stands behind it on its right. An operand is the
deeper in this tree, the further to the right it stands.

Main statement: the fold finds this tree and its depth, or is refused, just by its depth
(`fold_is_tree_of_chain`).
-/

namespace InfixCalc

/-! ## Numbers and operators in their order -/

/-- A number or an operator of an expression. -/
inductive Expr.Item where
  | number (x : Binary64)
  | operator (op : Operator)
  deriving DecidableEq, Repr

/-- The numbers and operators of an expression, from left to right. -/
def Expr.items : Expr → List Expr.Item
  | value x => [.number x]
  | binary op left right => left.items ++ .operator op :: right.items

namespace Parser

/-! ## Chains -/

/-- The operands of a chain, from left to right. -/
def operands (first : Node) (links : List Link) : List Node := first :: links.map Link.operand

/-- The tree of a chain. -/
def chainTree (first : Expr) : List Link → Expr
  | [] => first
  | link :: links => .binary link.op first (chainTree link.operand.tree links)

/-- The depth that a chain has by those of its operands. In front of `n` operators the operand at
place `i` stands below `i + 1` of them, and the last operand below all. -/
def chainDepth (first : Node) (links : List Link) : Nat :=
  let depth (i : Nat) : Nat := ((operands first links).map Node.depth).getD i 0
  max (depth links.length + links.length)
    ((Finset.range links.length).sup fun i => depth i + i + 1)

variable {first : Node} {links : List Link}

/-- An operand alone has its own depth. -/
@[simp] theorem chainDepth_nil (first : Node) : chainDepth first [] = first.depth := by
  simp [chainDepth, operands]

/-- A chain is within a bound just if each of its operands is, at its place. -/
theorem chainDepth_le_iff {bound : Nat} :
    chainDepth first links ≤ bound
      ↔ ((operands first links).map Node.depth).getD links.length 0 + links.length ≤ bound
        ∧ ∀ i < links.length,
            ((operands first links).map Node.depth).getD i 0 + i + 1 ≤ bound := by
  simp only [chainDepth, max_le_iff, Finset.sup_le_iff, Finset.mem_range]

/-- One more operator in front of a chain adds a level to what stands on both sides of it. -/
theorem chainDepth_cons (first : Node) (link : Link) (links : List Link) :
    chainDepth first (link :: links) = 1 + max (chainDepth link.operand links) first.depth := by
  -- Both are compared with any bound: the places of the chain behind are one further in the whole.
  apply eq_of_forall_ge_iff
  intro bound
  cases bound with
  | zero =>
      rw [chainDepth_le_iff, List.length_cons]
      omega
  | succ bound =>
      rw [Nat.add_comm 1, Nat.add_le_add_iff_right, max_le_iff, chainDepth_le_iff,
        chainDepth_le_iff]
      simp only [operands, List.map_cons, List.length_cons, Nat.forall_lt_succ_left,
        List.getD_cons_zero, List.getD_cons_succ, ← Nat.add_assoc, Nat.add_le_add_iff_right,
        Nat.add_zero]
      tauto

/-- Where operands have their depths beside them, the depth of a chain is that of its tree. -/
theorem depth_chainTree (h : ∀ a ∈ operands first links, a.depth = a.tree.depth) :
    (chainTree first.tree links).depth = chainDepth first links := by
  induction links generalizing first with
  | nil => rw [chainTree, chainDepth_nil, h first (by simp [operands])]
  | cons link links ih =>
      have hfirst : first.depth = first.tree.depth := h first (by simp [operands])
      have hbehind : ∀ a ∈ operands link.operand links, a.depth = a.tree.depth :=
        fun a ha => h a (List.mem_cons_of_mem first ha)
      rw [chainTree, Expr.depth, ih hbehind, chainDepth_cons, hfirst, Nat.max_comm]

/-- The tree of a chain holds the operands and the operators of the chain, each once and in their
order. -/
theorem items_chainTree (first : Expr) (links : List Link) :
    (chainTree first links).items
      = first.items ++ links.flatMap fun link => .operator link.op :: link.operand.tree.items := by
  induction links generalizing first with
  | nil => simp [chainTree]
  | cons link links ih => rw [chainTree, Expr.items, ih, List.flatMap_cons, List.cons_append]

/-! ## The fold of a chain -/

/-- **The fold finds the tree of a chain, and its depth.** A chain with an operator is refused just
if its depth is beyond the limit, whatever the depths on the way to it. -/
theorem foldRight_eq (limit : Nat) (first : Node) (links : List Link) :
    foldRight limit first links
      = if 0 < links.length ∧ limit < chainDepth first links then .error (.treeTooDeep limit)
        else .ok ⟨chainTree first.tree links, chainDepth first links⟩ := by
  induction links generalizing first with
  | nil => simp [foldRight_nil, chainTree]
  | cons link links ih =>
      rw [foldRight_cons, ih, chainDepth_cons]
      split
      · next hdeep =>
        -- What stands behind the operator is too deep already.
        have hwhole : limit < 1 + max (chainDepth link.operand links) first.depth := by omega
        rw [if_pos ⟨Nat.succ_pos links.length, hwhole⟩]
        rfl
      · simp only [Except.bind, join, List.length_cons, Nat.succ_pos, true_and, chainTree]

/-- **What folding a chain comes to.** A chain is refused just if it has an operator and is deeper
than the limit. Otherwise it is folded to its tree, with the depth of the chain beside it, which is
that of the tree where the operands have theirs beside them. In the tree stand all operands and
operators of the chain, each once and in their order. -/
theorem fold_is_tree_of_chain (limit : Nat) (first : Node) (links : List Link) :
    (foldRight limit first links = .error (.treeTooDeep limit)
        ↔ 0 < links.length ∧ limit < chainDepth first links)
      ∧ (¬ (0 < links.length ∧ limit < chainDepth first links) →
          foldRight limit first links
            = .ok ⟨chainTree first.tree links, chainDepth first links⟩)
      ∧ (chainTree first.tree links).items
          = first.tree.items
            ++ links.flatMap (fun link => .operator link.op :: link.operand.tree.items)
      ∧ ((∀ a ∈ operands first links, a.depth = a.tree.depth) →
          (chainTree first.tree links).depth = chainDepth first links) := by
  rw [foldRight_eq]
  refine ⟨?_, fun h => if_neg h, items_chainTree first.tree links, depth_chainTree⟩
  constructor
  · intro h
    by_contra hfits
    rw [if_neg hfits] at h
    cases h
  · exact fun h => if_pos h

/-- A difference of three operands, the second of them a sum, has four levels: three are not enough
for it, though each of its operands alone and what stands behind the first operator would fit. -/
theorem fold_is_tree_of_chain_inner_sum :
    let one : Expr := .value ⟨0x3ff0000000000000⟩
    let sum : Expr := .binary .add one one
    let links : List Link := [⟨.sub, ⟨sum, 2⟩⟩, ⟨.sub, ⟨one, 1⟩⟩]
    let tree : Expr := .binary .sub one (.binary .sub sum one)
    foldRight 3 ⟨one, 1⟩ links = .error (.treeTooDeep 3)
      ∧ foldRight 4 ⟨one, 1⟩ links = .ok ⟨tree, 4⟩ ∧ tree.depth = 4 := by
  intro one sum links tree
  have hdepth : chainDepth ⟨one, 1⟩ links = 4 := by decide
  have htrue : ∀ a ∈ operands ⟨one, 1⟩ links, a.depth = a.tree.depth := by decide
  obtain ⟨hrefused, -, -, -⟩ := fold_is_tree_of_chain 3 ⟨one, 1⟩ links
  obtain ⟨-, hfolded, -, htree⟩ := fold_is_tree_of_chain 4 ⟨one, 1⟩ links
  rw [hdepth] at hrefused hfolded htree
  exact ⟨hrefused.2 (by decide), hfolded (by decide), htree htrue⟩

end Parser

end InfixCalc
