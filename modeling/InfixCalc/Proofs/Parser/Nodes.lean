import Mathlib
import InfixCalc.Proofs.Tokens
import InfixCalc.Proofs.Parser.Acceptance

/-!
# The nodes that the parser carries

A node goes from reader to reader, waits as an operand in a chain and on the stack of its fold, and
becomes a part of another node. All the way it stands for the piece of the text that it has been
read from: the depth beside its tree is that of the tree, the tree is within the limit in each of
its parts, its numbers are finite, and its numbers and operators are those of the piece in their
order.

Main statement: so it is with each node that a reader returns, that is read as an operand of a
chain, and that a fold puts together (`nodes_stand_for_text`).
-/

namespace InfixCalc

namespace Expr

/-- The trees in an expression: the expression and those in its operands. -/
def subtrees : Expr → List Expr
  | value x => [value x]
  | binary op left right => binary op left right :: (left.subtrees ++ right.subtrees)

/-- A tree that fits has only trees in it that fit. -/
theorem Fits.of_mem_subtrees {limit : Nat} {e part : Expr} (h : e.Fits limit)
    (hpart : part ∈ e.subtrees) : part.Fits limit := by
  induction e with
  | value x =>
      obtain rfl := List.mem_singleton.1 hpart
      exact h
  | binary op left right ihl ihr =>
      obtain ⟨hleft, hright⟩ := h.of_binary
      rcases List.mem_cons.1 hpart with rfl | hpart
      · exact h
      · rcases List.mem_append.1 hpart with hpart | hpart
        · exact ihl hleft hpart
        · exact ihr hright hpart

end Expr

namespace Parser

variable {c : Config} {level : Option Tier} {t : Tier} {n limit : Nat} {text : List Char}
  {first node : Node}

/-! ## Nodes and their texts -/

/-- A node stands for a piece of a text, within the limit of the settings. -/
structure Node.StandsFor (c : Config) (s : List Char) (node : Node) : Prop where
  /-- The depth beside the tree is that of the tree. -/
  depth : node.depth = node.tree.depth
  /-- No operator stands in a tree of more levels than allowed. -/
  fits : ∀ part ∈ node.tree.subtrees, part.Fits c.maxTreeDepth
  /-- All numbers are finite. -/
  finite : ∀ x ∈ node.tree.leaves, x.isFinite = true
  /-- The literals and operators of the piece denote the numbers and operators of the tree. -/
  items : List.Forall₂ Token.Denotes (literalsAndOperators s) node.tree.items

/-- A result that follows the rules stands for what has been taken from the text. -/
theorem Follows.standsFor {rest : List Char} (h : Follows c level n text (.ok (node, rest))) :
    ∃ s, text = s ++ rest ∧ node.StandsFor c s := by
  obtain ⟨s, hs, hderives, hdepth, hfits⟩ := h.exists_derives
  exact ⟨s, hs, hdepth, fun part => hfits.of_mem_subtrees, hderives.finite, hderives.denotes_items⟩

/-- A group that is read begins with an opener. -/
theorem exists_opener_of_group {r : Reading Node text} (h : group c n text = .ok r) :
    ∃ (d : Delimiter) (inside : List Char), text = d.opener :: inside := by
  cases text with
  | nil =>
      rw [group] at h
      cases h
  | cons a inside =>
      rw [group] at h
      cases ho : Delimiter.ofOpener? a with
      | none =>
          rw [ho] at h
          cases h
      | some d => exact ⟨d, inside, by rw [Delimiter.ofOpener?_eq_some_iff.1 ho]⟩

/-! ## Nodes in a chain -/

/-- Folding a chain, the parser carries a node: it is an operand of the chain, or what the top of
the stack has been unwound to. -/
def FoldCarries (limit : Nat) (first : Node) (links : List Link) (node : Node) : Prop :=
  node ∈ operands first links
    ∨ ∃ top bottom, (shift first [] links).2 = top ++ bottom
        ∧ unwind limit (shift first [] links).1 top = .ok node

/-- Of one operand only that operand is carried. -/
theorem FoldCarries.eq_of_nil (h : FoldCarries limit first [] node) : node = first := by
  rcases h with hmem | ⟨top, bottom, hstack, hnode⟩
  · exact List.mem_singleton.1 hmem
  · obtain ⟨rfl, -⟩ := List.append_eq_nil_iff.1 hstack.symm
    exact (Except.ok.inj hnode).symm

/-- Of a chain with an operator the first operand is carried, all that is carried of what stands
behind the operator, and at the end what the whole is folded to. -/
theorem FoldCarries.cons {link : Link} {links : List Link}
    (h : FoldCarries limit first (link :: links) node) :
    node = first ∨ FoldCarries limit link.operand links node
      ∨ foldRight limit first (link :: links) = .ok node := by
  rcases h with hmem | ⟨top, bottom, hstack, hnode⟩
  · rcases List.mem_cons.1 hmem with hfirst | hmem
    · exact .inl hfirst
    · exact .inr (.inl (.inl hmem))
  · -- The first operand lies at the bottom of the stack: the top is all of that, or ends above it.
    rw [shift, shift_eq_append] at hstack hnode
    have htop : top <+: (shift link.operand [] links).2 ++ [⟨first, link.op⟩] :=
      ⟨bottom, hstack.symm⟩
    rcases List.prefix_concat_iff.1 htop with rfl | ⟨below, hbelow⟩
    · right
      right
      rw [foldRight, shift, shift_eq_append]
      exact hnode
    · exact .inr (.inl (.inr ⟨top, below, hbelow.symm, hnode⟩))

/-- **What is carried of a chain stands for a piece of the text.** The chain is read behind an
operand that has been read from the start of the text. -/
theorem FoldCarries.standsFor (text : List Char) {start : List Char} {first : Node}
    {r : Scan (List Link) text} (hfirst : Follows c t.tighter n start (.ok (first, text)))
    (hlinks : links c t n text = .ok r) (h : FoldCarries c.maxTreeDepth first r.value node) :
    ∃ s, s <:+: start ∧ node.StandsFor c s := by
  obtain ⟨s, hs, hstands⟩ := hfirst.standsFor
  have hpiece : s <:+: start := ⟨[], text, hs.symm⟩
  have hwhole := links_follow c t n text hfirst
  rcases links_cases hlinks with rfl | ⟨op, next, more, hop, hnext, hmore, hvalue, hrest⟩
  · obtain rfl := h.eq_of_nil
    exact ⟨s, hpiece, hstands⟩
  · rw [hlinks, folded, hvalue] at hwhole
    rw [hvalue] at h
    -- It is the first operand, is carried of the chain behind, or is what the whole is folded to.
    rcases h.cons with rfl | h | hfold
    · exact ⟨s, hpiece, hstands⟩
    · obtain ⟨s', hs', hstands'⟩ := FoldCarries.standsFor next.rest
        ((operand_follows c t n op.rest).of_eq_ok hnext) hmore h
      have htext : text = op.value.symbol :: op.rest := (of_operator_eq_some hop).2
      have hbehind : op.rest <:+ start := ⟨s ++ [op.value.symbol], by simp [hs, ← htext]⟩
      exact ⟨s', hs'.trans hbehind.isInfix, hstands'⟩
    · rw [hfold] at hwhole
      obtain ⟨s', hs', hstands'⟩ := hwhole.standsFor
      exact ⟨s', ⟨[], r.rest, hs'.symm⟩, hstands'⟩
termination_by text.length
decreasing_by
  · exact Nat.lt_trans next.shorter op.shorter

/-! ## All nodes -/

/-- **Each node stands for its piece of the text.** All of a text is in its tokens. At each tier, at
each nesting and on each text: a node that is read as an expression of the tier, as an atom or as a
group has the depth of its tree beside it; no operator in it stands in a tree that is too deep; its
numbers are finite; and its numbers and operators are those for which the literals and operators of
the text stand that has been taken, each one once and in their order. So it is also with the
operands of a chain, and with what a fold puts together of them, each for a piece of the text. -/
theorem nodes_stand_for_text (c : Config) :
    (∀ behind s, (tokensFrom behind s).flatMap Token.text = s)
      ∧ (∀ t n text r, tier c t n text = .ok r →
          ∃ s, text = s ++ r.rest ∧ r.value.StandsFor c s)
      ∧ (∀ n text r, atom c n text = .ok r → ∃ s, text = s ++ r.rest ∧ r.value.StandsFor c s)
      ∧ (∀ n text r, group c n text = .ok r → ∃ s, text = s ++ r.rest ∧ r.value.StandsFor c s)
      ∧ ∀ t n text (first : Reading Node text) (rest : Scan (List Link) first.rest) node,
          operand c t n text = .ok first → links c t n first.rest = .ok rest →
            FoldCarries c.maxTreeDepth first.value rest.value node →
              ∃ s, s <:+: text ∧ node.StandsFor c s := by
  refine ⟨flatMap_text_tokensFrom, ?_, ?_, ?_, ?_⟩
  · exact fun t n text r h => ((tier_follows c t n text).of_eq_ok h).standsFor
  · exact fun n text r h => ((atom_follows c n text).of_eq_ok h).standsFor
  · intro n text r h
    obtain ⟨d, inside, rfl⟩ := exists_opener_of_group h
    exact ((group_follows c n _ (longest?_opener d inside)).of_eq_ok h).standsFor
  · intro t n text first rest node hfirst hlinks hnode
    exact hnode.standsFor first.rest ((operand_follows c t n text).of_eq_ok hfirst) hlinks

/-- In a group that a closer of another kind ends, two by minus three; behind it, less four less
five, and a closer that is left. The tree and the group stand for what has been taken from the text,
and four less five, which the fold puts together first, for a piece of it. -/
theorem nodes_stand_for_text_mixed_group :
    let c : Config := ⟨1, 3, false⟩
    let four : Expr := .value ⟨0x4010000000000000⟩
    let five : Expr := .value ⟨0x4014000000000000⟩
    let product : Expr := .binary .mul (.value ⟨0x4000000000000000⟩) (.value ⟨0xc008000000000000⟩)
    let difference : Expr := .binary .sub four five
    let whole : Expr := .binary .sub product difference
    let text := "[2*-3)-4-5)".toList
    (∃ r, tier c .additive 0 text = .ok r ∧ r.value = ⟨whole, 3⟩ ∧ r.rest = [')'])
      ∧ Node.StandsFor c "[2*-3)-4-5".toList ⟨whole, 3⟩
      ∧ (∃ r, atom c 0 text = .ok r ∧ group c 0 text = .ok r ∧ r.value = ⟨product, 2⟩)
      ∧ Node.StandsFor c "[2*-3)".toList ⟨product, 2⟩
      ∧ ∃ s, s <:+: text ∧ Node.StandsFor c s ⟨difference, 2⟩ := by
  intro c four five product difference whole text
  have htier : ∃ h, tier ⟨1, 3, false⟩ .additive 0
      ['[', '2', '*', '-', '3', ')', '-', '4', '-', '5', ')'] = .ok ⟨⟨whole, 3⟩, [')'], h⟩ := by
    refine ⟨by decide, ?_⟩
    cbv
  have hgroup : ∃ h, group ⟨1, 3, false⟩ 0
      ['[', '2', '*', '-', '3', ')', '-', '4', '-', '5', ')']
        = .ok ⟨⟨product, 2⟩, ['-', '4', '-', '5', ')'], h⟩ := by
    refine ⟨by decide, ?_⟩
    cbv
  have hfirst : ∃ h, operand ⟨1, 3, false⟩ .additive 0
      ['[', '2', '*', '-', '3', ')', '-', '4', '-', '5', ')']
        = .ok ⟨⟨product, 2⟩, ['-', '4', '-', '5', ')'], h⟩ := by
    refine ⟨by decide, ?_⟩
    cbv
  have hlinks : ∃ h, links ⟨1, 3, false⟩ .additive 0 ['-', '4', '-', '5', ')']
      = .ok ⟨[⟨.sub, ⟨four, 1⟩⟩, ⟨.sub, ⟨five, 1⟩⟩], [')'], h⟩ := by
    refine ⟨by decide, ?_⟩
    cbv
  obtain ⟨_, htier⟩ := htier
  obtain ⟨hshorter, hgroup⟩ := hgroup
  obtain ⟨_, hfirst⟩ := hfirst
  obtain ⟨_, hlinks⟩ := hlinks
  have hatom : atom c 0 text = .ok ⟨⟨product, 2⟩, ['-', '4', '-', '5', ')'], hshorter⟩ := by
    rw [atom, Literal.read_of_none (by decide)]
    exact hgroup
  have hcarries : FoldCarries 3 ⟨product, 2⟩ [⟨.sub, ⟨four, 1⟩⟩, ⟨.sub, ⟨five, 1⟩⟩]
      ⟨difference, 2⟩ := .inr ⟨[⟨⟨four, 1⟩, .sub⟩], [⟨⟨product, 2⟩, .sub⟩], rfl, rfl⟩
  obtain ⟨-, htiers, hatoms, -, hchains⟩ := nodes_stand_for_text c
  obtain ⟨s, hs, hwhole⟩ := htiers _ _ _ _ htier
  obtain rfl : s = "[2*-3)-4-5".toList := List.append_cancel_right hs.symm
  obtain ⟨s', hs', hproduct⟩ := hatoms _ _ _ hatom
  obtain rfl : s' = "[2*-3)".toList := List.append_cancel_right hs'.symm
  exact ⟨⟨_, htier, rfl, rfl⟩, hwhole, ⟨_, hatom, hgroup, rfl⟩, hproduct,
    hchains _ _ _ _ _ _ hfirst hlinks hcarries⟩

end Parser

end InfixCalc
