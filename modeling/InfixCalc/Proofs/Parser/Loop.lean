import Mathlib
import InfixCalc.Proofs.Parser.Chain
import InfixCalc.Proofs.Parser.Reads

/-!
# The parser that collects chains

The parser reads all links of a chain before it folds them, and carries the depth of a tree beside
the tree. It follows the same rules as the reader by descent.

Main statements: each reader of the parser follows the rules (`tier_follows`, `atom_follows`,
`group_follows`); so collecting chains and descending come to the same in all respects, and what a
whole text comes to is said by the rules (`parseWith_eq_ok_iff`, `parseWith_eq_error_iff`).
-/

namespace InfixCalc

namespace Parser

/-! ## Results with nodes -/

/-- A tree with its depth beside it. -/
def Node.ofTree (e : Expr) : Node := ⟨e, e.depth⟩

/-- A reading as a node and the text that is left. -/
def seenNode {text : List Char} (r : Reading Node text) : Node × List Char := (r.value, r.rest)

/-- A result of the parser is what the rules allow, and a tree has its own depth beside it. -/
def Follows (c : Config) (level : Option Tier) (n : Nat) (text : List Char) :
    Except ParseError (Node × List Char) → Prop
  | .error err => Reads c level n text (.error err)
  | .ok (node, rest) => Reads c level n text (.ok (node.tree, rest)) ∧ node = .ofTree node.tree

/-- What the links of a chain come to, with the operand in front of them. -/
def folded (limit : Nat) (first : Node) {text : List Char} :
    Except ParseError (Scan (List Link) text) → Except ParseError (Node × List Char)
  | .error err => .error err
  | .ok links => (foldRight limit first links.value).map fun node => (node, links.rest)

variable {c : Config} {t : Tier} {n : Nat} {text : List Char}

/-- A success that follows the rules is what the rules allow. -/
theorem Follows.of_eq_ok {level : Option Tier} {x : Except ParseError (Reading Node text)}
    {r : Reading Node text} (h : Follows c level n text (x.map seenNode)) (hr : x = .ok r) :
    Follows c level n text (.ok (r.value, r.rest)) := by
  rw [hr] at h
  exact h

/-- An expression of a tier is an operand with the links behind it. -/
theorem map_tier (c : Config) (t : Tier) (n : Nat) (text : List Char) :
    (tier c t n text).map seenNode
      = (operand c t n text).bind fun first =>
          folded c.maxTreeDepth first.value (links c t n first.rest) := by
  rw [tier]
  cases operand c t n text with
  | error err => rfl
  | ok first =>
      simp only [Except.bind]
      cases links c t n first.rest with
      | error err => rfl
      | ok rest =>
          simp only [folded]
          cases foldRight c.maxTreeDepth first.value rest.value with
          | error err => rfl
          | ok node => rfl

/-- An operand of a tier is an expression of the next tighter one, or an atom. -/
theorem operand_eq (c : Config) (t : Tier) (n : Nat) (text : List Char) :
    operand c t n text
      = match t.tighter with
        | some tighter => tier c tighter n text
        | none => atom c n text := by
  cases t <;> rw [operand] <;> rfl

/-- Links that are read are none, where no operator of the tier follows, or begin with an operator
and the operand behind it. -/
theorem links_cases {r : Scan (List Link) text} (h : links c t n text = .ok r) :
    r = .nothing [] text
      ∨ ∃ (op : Reading Operator text) (next : Reading Node op.rest)
          (more : Scan (List Link) next.rest),
        operator t text = some op ∧ operand c t n op.rest = .ok next
          ∧ links c t n next.rest = .ok more ∧ r.value = ⟨op.value, next.value⟩ :: more.value
          ∧ r.rest = more.rest := by
  rw [links] at h
  cases hop : operator t text with
  | none =>
      rw [hop] at h
      exact .inl (Except.ok.inj h).symm
  | some op =>
      rw [hop] at h
      simp only at h
      cases hnext : operand c t n op.rest with
      | error err =>
          rw [hnext] at h
          cases h
      | ok next =>
          rw [hnext] at h
          simp only at h
          cases hmore : links c t n next.rest with
          | error err =>
              rw [hmore] at h
              cases h
          | ok more =>
              rw [hmore] at h
              obtain rfl := Except.ok.inj h
              exact .inr ⟨op, next, more, rfl, hnext, hmore, rfl, rfl⟩

/-- **Links as a recursion.** Where no operator of the tier follows, the operand stands alone;
where one follows, the operand is joined to what the next operand and its links come to. -/
theorem folded_links (c : Config) (t : Tier) (n : Nat) (text : List Char) (first : Node) :
    folded c.maxTreeDepth first (links c t n text)
      = match operator t text with
        | none => .ok (first, text)
        | some op => (operand c t n op.rest).bind fun next =>
            (folded c.maxTreeDepth next.value (links c t n next.rest)).bind fun right =>
              (join c.maxTreeDepth op.value first right.1).map fun node => (node, right.2) := by
  rw [links]
  cases operator t text with
  | none => rfl
  | some op =>
      simp only
      cases operand c t n op.rest with
      | error err => rfl
      | ok next =>
          simp only [Except.bind]
          cases links c t n next.rest with
          | error err => rfl
          | ok more =>
              -- The fold joins the first operand last, as the recursion here does.
              change (foldRight c.maxTreeDepth first (⟨op.value, next.value⟩ :: more.value)).map
                (fun node => (node, more.rest)) = _
              rw [foldRight_cons]
              simp only [folded]
              cases foldRight c.maxTreeDepth next.value more.value with
              | error err => rfl
              | ok right => rfl

/-! ## The parser follows the rules -/

/-- Joining an operand to what stands behind the operator follows the rules. -/
theorem follows_join {op : Operator} {left right : Node} {rest rest' : List Char}
    (h₁ : Follows c op.tier.tighter n text (.ok (left, op.symbol :: rest)))
    (h₂ : Follows c (some op.tier) n rest (.ok (right, rest'))) :
    Follows c (some op.tier) n text
      ((join c.maxTreeDepth op left right).map fun node => (node, rest')) := by
  obtain ⟨hleft, hleft'⟩ := h₁
  obtain ⟨hright, hright'⟩ := h₂
  have hdepth : 1 + max right.depth left.depth = (Expr.binary op left.tree right.tree).depth := by
    rw [hleft', hright', Expr.depth, Nat.max_comm]
    rfl
  rw [join, hdepth]
  split
  · next hd => exact .treeTooDeep hleft hright hd
  · next hd => exact ⟨.binary hleft hright (Nat.le_of_not_lt hd), rfl⟩

mutual

/-- Reading an expression of a tier follows the rules. -/
theorem tier_follows (c : Config) (t : Tier) (n : Nat) (text : List Char) :
    Follows c (some t) n text ((tier c t n text).map seenNode) := by
  rw [map_tier]
  have ih := operand_follows c t n text
  cases h : operand c t n text with
  | error err =>
      rw [h] at ih
      exact .left ih
  | ok first =>
      rw [h] at ih
      exact links_follow c t n first.rest ih
termination_by (text.length, 3 * t.looseness + 4)
decreasing_by
  · exact Prod.Lex.right _ (by omega)
  · exact Prod.Lex.left _ _ first.shorter

/-- Reading links behind an operand follows the rules, from where the operand began. The operand
comes as a hypothesis, since the rules read it together with what stands behind it. -/
theorem links_follow (c : Config) (t : Tier) (n : Nat) (text : List Char) {start : List Char}
    {first : Node} (h : Follows c t.tighter n start (.ok (first, text))) :
    Follows c (some t) n start (folded c.maxTreeDepth first (links c t n text)) := by
  rw [folded_links]
  cases hop : operator t text with
  | none => exact ⟨.operand h.1 (operator_eq_none_iff.1 hop), h.2⟩
  | some op =>
      obtain ⟨rfl, hleft⟩ := h.1.of_operator hop
      have ih := operand_follows c op.value.tier n op.rest
      simp only
      cases hnext : operand c op.value.tier n op.rest with
      | error err =>
          rw [hnext] at ih
          exact .right hleft (.left ih)
      | ok next =>
          rw [hnext] at ih
          have ih' := links_follow c op.value.tier n next.rest ih
          simp only [Except.bind]
          cases hright : folded c.maxTreeDepth next.value (links c op.value.tier n next.rest) with
          | error err =>
              rw [hright] at ih'
              exact .right hleft ih'
          | ok right =>
              rw [hright] at ih'
              exact follows_join ⟨hleft, h.2⟩ ih'
termination_by (text.length, 3 * t.looseness + 3)
decreasing_by
  · exact Prod.Lex.left _ _ op.shorter
  · exact Prod.Lex.left _ _ (Nat.lt_trans next.shorter op.shorter)

/-- Reading an operand follows the rules. -/
theorem operand_follows (c : Config) (t : Tier) (n : Nat) (text : List Char) :
    Follows c t.tighter n text ((operand c t n text).map seenNode) := by
  rw [operand_eq]
  cases h : t.tighter with
  | some tighter => exact tier_follows c tighter n text
  | none => exact atom_follows c n text
termination_by (text.length, 3 * t.looseness + 2)
decreasing_by
  · exact Prod.Lex.right _ (by omega)
  · exact Prod.Lex.right _ (by have := Tier.looseness_eq_of_tighter h; omega)

/-- Reading an atom follows the rules. -/
theorem atom_follows (c : Config) (n : Nat) (text : List Char) :
    Follows c none n text ((atom c n text).map seenNode) := by
  rw [atom]
  have hfinds := Literal.finds_read text
  generalize Literal.read text = outcome at hfinds
  cases hfinds with
  | absent hl => exact group_follows c n text hl
  | refused hl hx => exact .badLiteral hl hx
  | read hl hx => exact ⟨.literal hl hx, rfl⟩
termination_by (text.length, 1)
decreasing_by
  · exact Prod.Lex.right _ Nat.one_pos

/-- Reading a group, where no literal stands, follows the rules. -/
theorem group_follows (c : Config) (n : Nat) : (text : List Char) →
    Literal.longest? text = none → Follows c none n text ((group c n text).map seenNode)
  | [], hl => by
      rw [group]
      exact .noAtom hl (by simp)
  | first :: inside, hl => by
      rw [group]
      cases ho : Delimiter.ofOpener? first with
      | none => exact .noAtom hl fun d hd => ofOpener?_eq_none_iff.1 ho d (Option.some.inj hd)
      | some d =>
          obtain rfl := Delimiter.ofOpener?_eq_some_iff.1 ho
          simp only
          split
          · next hn => exact .nestedTooDeep d hn
          · next hn =>
            have ih := tier_follows c .additive (n + 1) inside
            cases h : tier c .additive (n + 1) inside with
            | error err =>
                rw [h] at ih
                exact .inside d (Nat.lt_of_not_le hn) ih
            | ok inner =>
                rw [h] at ih
                simp only
                cases hc : closer c d inner.rest with
                | none =>
                    exact .unclosed d (Nat.lt_of_not_le hn) ih.1 (closer_eq_none_iff.1 hc)
                | some last =>
                    obtain ⟨hlast, hinner⟩ := ih.1.of_closer hc
                    exact ⟨.group d (Nat.lt_of_not_le hn) hinner hlast, ih.2⟩
termination_by text => (text.length, 0)
decreasing_by
  · exact Prod.Lex.left _ _ (Nat.lt_succ_self inside.length)

end

/-- **Collecting chains and descending come to the same.** At each tier, at each nesting and on each
text they leave the same text behind the same tree, with its depth beside it, or fail with the same
error. -/
theorem tier_eq_map_descend (c : Config) (t : Tier) (n : Nat) (text : List Char) :
    tier c t n text = (descend c (some t) n text).map (Reading.map Node.ofTree) := by
  have h := tier_follows c t n text
  cases htier : tier c t n text with
  | error err =>
      rw [htier] at h
      rw [eq_error_of_seen (Reads.descend_eq h)]
      rfl
  | ok r =>
      rw [htier] at h
      obtain ⟨value, rest, hlt⟩ := r
      obtain ⟨hreads, hnode⟩ := h
      obtain ⟨_, hdescend⟩ := eq_ok_of_seen hreads.descend_eq
      dsimp only at hdescend hnode
      rw [hdescend]
      simp only [Except.map, Reading.map, ← hnode]

/-! ## Whole texts -/

variable {input : String} {e : Expr} {err : ParseError}

/-- What is wrong in a text is what the parser answers. -/
theorem parseWith_of_reads_error (h : Reads c (some .additive) 0 input.toList (.error err)) :
    parseWith c input = .error err := by
  have hf := tier_follows c .additive 0 input.toList
  rw [parseWith]
  cases htier : tier c .additive 0 input.toList with
  | error err' =>
      rw [htier] at hf
      obtain rfl := Except.error.inj (Reads.unique hf h)
      rfl
  | ok r =>
      rw [htier] at hf
      cases hf.1.unique h

/-- An expression has to be the whole of a text. -/
theorem parseWith_of_reads_ok {rest : List Char}
    (h : Reads c (some .additive) 0 input.toList (.ok (e, rest))) :
    parseWith c input = if rest = [] then .ok e else .error (unexpected rest) := by
  have hf := tier_follows c .additive 0 input.toList
  rw [parseWith]
  cases htier : tier c .additive 0 input.toList with
  | error err =>
      rw [htier] at hf
      cases Reads.unique hf h
  | ok r =>
      rw [htier] at hf
      obtain ⟨rfl, rfl⟩ : r.value.tree = e ∧ r.rest = rest := by simpa using hf.1.unique h
      rfl

/-- A text is accepted just if all of it is read. -/
theorem parseWith_eq_ok_iff :
    parseWith c input = .ok e ↔ Reads c (some .additive) 0 input.toList (.ok (e, [])) := by
  constructor
  · intro h
    obtain ⟨err | ⟨e', rest⟩, hreads⟩ := exists_reads c (some .additive) 0 input.toList
    · rw [parseWith_of_reads_error hreads] at h
      cases h
    · rw [parseWith_of_reads_ok hreads] at h
      split at h
      · next hrest =>
        obtain rfl := Except.ok.inj h
        rw [← hrest]
        exact hreads
      · cases h
  · intro h
    rw [parseWith_of_reads_ok h, if_pos rfl]

/-- A text is refused for what is wrong in it, or for what is left behind an expression. -/
theorem parseWith_eq_error_iff :
    parseWith c input = .error err
      ↔ Reads c (some .additive) 0 input.toList (.error err)
        ∨ ∃ e rest, Reads c (some .additive) 0 input.toList (.ok (e, rest)) ∧ rest ≠ []
            ∧ err = unexpected rest := by
  constructor
  · intro h
    obtain ⟨err' | ⟨e, rest⟩, hreads⟩ := exists_reads c (some .additive) 0 input.toList
    · rw [parseWith_of_reads_error hreads] at h
      obtain rfl := Except.error.inj h
      exact .inl hreads
    · rw [parseWith_of_reads_ok hreads] at h
      split at h
      · cases h
      · next hrest => exact .inr ⟨e, rest, hreads, hrest, (Except.error.inj h).symm⟩
  · rintro (h | ⟨e, rest, h, hrest, rfl⟩)
    · exact parseWith_of_reads_error h
    · rw [parseWith_of_reads_ok h, if_neg hrest]

end Parser

end InfixCalc
