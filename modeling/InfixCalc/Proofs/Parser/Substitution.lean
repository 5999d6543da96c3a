import Mathlib
import InfixCalc.Proofs.Parser.Calls

/-!
# A group in the place of a literal

A literal of an accepted text may be replaced by a group around any accepted text: the tree of that
text takes the place of the literal's leaf, and nothing else of the tree moves. Which leaf that is
is said by the number of operators in front of the literal.

Main statements: a derivation that has a literal at a place of operands has any atom there
(`Derives.replace`), so a group in the place of a literal is a substitution in the tree, and groups
around a literal or around the whole text change nothing (`group_substitutes`).
-/

namespace InfixCalc

/-! ## Replacing a leaf -/

namespace Expr

/-- An expression with another one in the place of its leaf with a given number, from the left. -/
def replaceLeaf : Expr → Nat → Expr → Expr
  | value number, i, e => if i = 0 then e else value number
  | binary op left right, i, e =>
    if i < left.leaves.length then binary op (left.replaceLeaf i e) right
    else binary op left (right.replaceLeaf (i - left.leaves.length) e)

/-- A leaf of the left operand is replaced there. -/
theorem replaceLeaf_left {op : Operator} {left right e : Expr} {i : Nat}
    (h : i < left.leaves.length) :
    (binary op left right).replaceLeaf i e = binary op (left.replaceLeaf i e) right := by
  rw [replaceLeaf, if_pos h]

/-- A leaf of the right operand is replaced there. -/
theorem replaceLeaf_right (op : Operator) (left right e : Expr) (i : Nat) :
    (binary op left right).replaceLeaf (left.leaves.length + i) e
      = binary op left (right.replaceLeaf i e) := by
  rw [replaceLeaf, if_neg (Nat.not_lt_of_le (Nat.le_add_right _ i)), Nat.add_sub_cancel_left]

/-- The leaves of the other expression take the place of the one leaf, and no other leaf moves. -/
theorem leaves_replaceLeaf {e e' : Expr} {i : Nat} (h : i < e.leaves.length) :
    (e.replaceLeaf i e').leaves = e.leaves.take i ++ e'.leaves ++ e.leaves.drop (i + 1) := by
  induction e generalizing i with
  | value number =>
      obtain rfl : i = 0 := by simpa [leaves] using h
      simp [replaceLeaf, leaves]
  | binary op left right ihl ihr =>
      rw [leaves] at h ⊢
      rcases Nat.lt_or_ge i left.leaves.length with hlt | hge
      · rw [replaceLeaf_left hlt, leaves, ihl hlt, List.take_append_of_le_length hlt.le,
          List.drop_append_of_le_length hlt]
        simp only [List.append_assoc]
      · obtain ⟨j, rfl⟩ := Nat.exists_eq_add_of_le hge
        have hj : j < right.leaves.length := by
          rw [List.length_append] at h
          omega
        rw [replaceLeaf_right, leaves, ihr hj, Nat.add_assoc, List.take_length_add_append,
          List.drop_length_add_append]
        simp only [List.append_assoc]

/-- A leaf that is replaced by itself leaves the expression as it is. -/
theorem replaceLeaf_self {e : Expr} {i : Nat} {x : Binary64} (h : e.leaves[i]? = some x) :
    e.replaceLeaf i (value x) = e := by
  induction e generalizing i with
  | value number =>
      obtain ⟨hi, rfl⟩ := List.getElem?_eq_some_iff.1 h
      obtain rfl : i = 0 := by simpa [leaves] using hi
      rfl
  | binary op left right ihl ihr =>
      rw [leaves] at h
      rcases Nat.lt_or_ge i left.leaves.length with hlt | hge
      · rw [List.getElem?_append_left hlt] at h
        rw [replaceLeaf_left hlt, ihl h]
      · obtain ⟨j, rfl⟩ := Nat.exists_eq_add_of_le hge
        rw [List.getElem?_append_right hge, Nat.add_sub_cancel_left] at h
        rw [replaceLeaf_right, ihr h]

end Expr

/-! ## Counting operators -/

/-- The number of operators in a text, signs apart; `behind` tells whether an operand ends in front
of the text. -/
def operatorsFrom (behind : Bool) : List Char → Nat
  | [] => 0
  | c :: s =>
    (if behind && (Operator.ofSymbol? c).isSome then 1 else 0) + operatorsFrom (isOperandEnd c) s

/-- The number of operators in a text: those symbols that stand behind an operand. -/
def operatorCount (s : List Char) : Nat := operatorsFrom false s

/-- Behind an operand the first symbol is an operator, and no operand ends with it. -/
theorem operatorsFrom_symbol (op : Operator) (s : List Char) :
    operatorsFrom true (op.symbol :: s) = 1 + operatorCount s := by
  rw [operatorsFrom, Operator.ofSymbol?_symbol, isOperandEnd_symbol]
  rfl

/-- An opener is no operator, and no operand ends with it. -/
theorem operatorsFrom_opener (d : Delimiter) (s : List Char) :
    operatorCount (d.opener :: s) = operatorCount s := by
  rw [operatorCount, operatorsFrom, isOperandEnd_opener]
  exact Nat.zero_add _

/-- What stands behind an operand is counted apart from it. -/
theorem operatorsFrom_append {s : List Char} (h : EndsOperand s) (behind : Bool)
    (s' : List Char) :
    operatorsFrom behind (s ++ s') = operatorsFrom behind s + operatorsFrom true s' := by
  induction s generalizing behind with
  | nil => exact absurd h not_endsOperand_nil
  | cons c s ih =>
      rw [List.cons_append, operatorsFrom, operatorsFrom, Nat.add_assoc]
      congr 1
      rcases h.cons_cases with ⟨rfl, hc⟩ | hend
      · rw [hc]
        exact (Nat.zero_add _).symm
      · exact ih hend _

/-- An operator behind an operand is counted, and what stands behind it apart from that. -/
theorem operatorCount_binary {s : List Char} (h : EndsOperand s) (op : Operator) (s' : List Char) :
    operatorCount (s ++ op.symbol :: s') = operatorCount s + 1 + operatorCount s' := by
  unfold operatorCount
  rw [operatorsFrom_append h, operatorsFrom_symbol, ← Nat.add_assoc]
  rfl

/-- In a text without symbols there are no operators. -/
theorem operatorsFrom_eq_zero {s : List Char} (h : ∀ c ∈ s, Operator.ofSymbol? c = none)
    (behind : Bool) : operatorsFrom behind s = 0 := by
  induction s generalizing behind with
  | nil => rfl
  | cons c s ih =>
      rw [operatorsFrom, h c List.mem_cons_self, ih fun a ha => h a (List.mem_cons_of_mem c ha)]
      simp

/-- Signs in front of a text are no operators. -/
theorem operatorCount_signs (n : Nat) (s : List Char) :
    operatorCount (List.replicate n '-' ++ s) = operatorCount s := by
  induction n with
  | zero => rfl
  | succ n ih =>
      rw [List.replicate_succ, List.cons_append, operatorCount, operatorsFrom]
      exact (Nat.zero_add _).trans ih

/-- A literal has no operators. -/
theorem Literal.Parts.WellFormed.operatorCount_eq_zero {l : Literal.Parts} (hl : l.WellFormed) :
    operatorCount l.text = 0 := by
  rw [Literal.Parts.text, List.append_assoc, operatorCount_signs]
  exact operatorsFrom_eq_zero hl.ofSymbol?_unsigned _

/-- An expression has one leaf more than operators. -/
theorem Derives.operatorCount_add_one {strict : Bool} {level : Option Tier} {s : List Char}
    {e : Expr} (h : Derives strict level s e) : operatorCount s + 1 = e.leaves.length := by
  induction h with
  | literal h => rw [h.wellFormed.operatorCount_eq_zero, Expr.leaves, List.length_singleton]
  | @group inside e opened closing _ h ih =>
      have hclosing : operatorsFrom true [closing.closer] = 0 := by cases closing <;> decide
      rw [operatorsFrom_opener, operatorCount, operatorsFrom_append h.endsOperand, hclosing]
      exact ih
  | operand _ ih => exact ih
  | @binary op s₁ s₂ e₁ e₂ h₁ _ ih₁ ih₂ =>
      rw [operatorCount_binary h₁.endsOperand, Expr.leaves, List.length_append, ← ih₁, ← ih₂]
      exact Nat.add_assoc _ _ _

/-! ## A literal in a text -/

variable {p s : List Char} {l : Literal.Parts}

/-- In a literal only the whole of it stands at a place of operands. -/
theorem eq_of_text_eq_append {q : Literal.Parts} (hq : q.WellFormed) (hplace : OperandPlace p)
    (hl : l.WellFormed) (hend : l.EndsBefore s) (h : q.text = p ++ l.text ++ s) :
    p = [] ∧ l = q ∧ s = [] := by
  have hp : p = [] := by
    rcases hplace with hnil | ⟨r, d, rfl⟩ | ⟨r, op, rfl, hr⟩
    · exact hnil
    · exact absurd (hq.plain d.opener (by rw [h]; simp)) (not_plain_opener d)
    · have hsymbol : q.text = r ++ op.symbol :: (l.text ++ s) := by simp [h]
      exact absurd hr (hq.not_endsOperand_of_symbol hsymbol)
  rw [hp, List.nil_append] at h
  -- Both are the literal at the front of the text.
  obtain ⟨rfl, rfl⟩ := hq.eq_of_append_eq q.endsBefore_nil hl hend (by rw [h, List.append_nil])
  exact ⟨hp, rfl, rfl⟩

/-- A literal of a group stands inside it. -/
theorem exists_inside_of_group {inside : List Char} {opened closing : Delimiter}
    (hplace : OperandPlace p) (hl : l.WellFormed) (hend : l.EndsBefore s)
    (h : opened.opener :: (inside ++ [closing.closer]) = p ++ l.text ++ s) :
    ∃ p' s', p = opened.opener :: p' ∧ s = s' ++ [closing.closer] ∧ inside = p' ++ l.text ++ s'
      ∧ OperandPlace p' ∧ l.EndsBefore s' := by
  have hopener : opened.opener ∉ l.text := fun hmem => not_plain_opener opened (hl.plain _ hmem)
  have hcloser : closing.closer ∉ l.text := fun hmem => not_plain_closer closing (hl.plain _ hmem)
  have hne := hl.endsOperand.ne_nil
  cases p with
  | nil =>
      obtain ⟨a, w, hw⟩ := List.exists_cons_of_ne_nil hne
      rw [hw] at h hopener
      obtain ⟨rfl, -⟩ := List.cons.inj h
      exact absurd List.mem_cons_self hopener
  | cons a p =>
      rw [List.cons_append, List.cons_append] at h
      obtain ⟨rfl, hinside⟩ := List.cons.inj h
      rcases List.eq_nil_or_concat' s with rfl | ⟨s, b, rfl⟩
      · obtain ⟨w, b, hw⟩ := (List.eq_nil_or_concat' l.text).resolve_left hne
        rw [hw, List.append_nil, ← List.append_assoc] at hinside
        obtain ⟨-, hb⟩ := List.append_inj' hinside rfl
        rw [hw, List.singleton_inj.1 hb] at hcloser
        exact absurd (List.mem_append_right w List.mem_cons_self) hcloser
      · rw [← List.append_assoc] at hinside
        obtain ⟨rfl, hb⟩ := List.append_inj' hinside rfl
        refine ⟨p, s, rfl, by rw [List.singleton_inj.1 hb], rfl, ?_, hend.of_append⟩
        exact (operandPlace_append_cons (s := []) (operandPlace_opener [] opened)).1 hplace

/-- A literal of a text that is divided by an operator stands before it or behind it. -/
theorem exists_operand_of_binary {s₁ s₂ : List Char} {op : Operator} (hs₁ : EndsOperand s₁)
    (hplace : OperandPlace p) (hl : l.WellFormed) (hend : l.EndsBefore s)
    (h : s₁ ++ op.symbol :: s₂ = p ++ l.text ++ s) :
    (∃ s', s = s' ++ op.symbol :: s₂ ∧ s₁ = p ++ l.text ++ s' ∧ l.EndsBefore s')
      ∨ ∃ p', p = s₁ ++ op.symbol :: p' ∧ s₂ = p' ++ l.text ++ s ∧ OperandPlace p' := by
  rw [List.append_assoc] at h
  rcases List.append_eq_append_iff.1 h with ⟨r, rfl, hr⟩ | ⟨r, rfl, hr⟩
  · cases r with
    | nil =>
        rw [List.append_nil] at hplace
        exact absurd hs₁ hplace.not_endsOperand
    | cons c r =>
        obtain ⟨rfl, rfl⟩ := List.cons.inj hr
        refine .inr ⟨r, rfl, by simp, ?_⟩
        exact (operandPlace_append_cons (operandPlace_symbol hs₁ op)).1 hplace
  · rcases List.append_eq_append_iff.1 hr with ⟨r', rfl, rfl⟩ | ⟨r', htext, hr'⟩
    · exact .inl ⟨r', rfl, by simp, hend.of_append⟩
    · cases r' with
      | nil =>
          rw [List.append_nil] at htext
          have hend' : l.EndsBefore ([] ++ s) := hend
          exact .inl ⟨[], hr'.symm, by rw [htext]; simp, hend'.of_append⟩
      | cons c r' =>
          -- The operator would be among the signs of the literal, where no operand ends.
          obtain ⟨rfl, -⟩ := List.cons.inj hr'
          have hr := hl.not_endsOperand_of_symbol htext
          cases r with
          | nil =>
              rw [List.append_nil] at hs₁
              exact absurd hs₁ hplace.not_endsOperand
          | cons a r => exact absurd ((endsOperand_append (List.cons_ne_nil a r)).1 hs₁) hr

/-! ## Substitution in a derivation -/

/-- **A literal may be replaced by any atom.** Where a text of the grammar has a literal at a place
of operands, the leaf of its tree with as many leaves in front of it as there are operators in front
of the literal has the literal's value, and with an atom in place of the literal, the tree of the
atom stands in place of that leaf. -/
theorem Derives.replace {strict : Bool} {level : Option Tier} {text : List Char} {e : Expr}
    {x : Binary64} (h : Derives strict level text e) (htext : text = p ++ l.text ++ s)
    (hplace : OperandPlace p) (hl : l.Denotes x) (hend : l.EndsBefore s) :
    e.leaves[operatorCount p]? = some x ∧ ∀ {a e'}, Derives strict none a e' →
      Derives strict level (p ++ a ++ s) (e.replaceLeaf (operatorCount p) e') := by
  induction h generalizing p s with
  | @literal q y hq =>
      obtain ⟨rfl, rfl, rfl⟩ := eq_of_text_eq_append hq.wellFormed hplace hl.wellFormed hend htext
      obtain rfl : y = x := hq.nearest.symm.trans hl.nearest
      refine ⟨rfl, fun {a e'} ha => ?_⟩
      rw [List.nil_append, List.append_nil]
      exact ha
  | @group inside e opened closing hkind _ ih =>
      obtain ⟨p, s, rfl, rfl, hinside, hplace, hend⟩ :=
        exists_inside_of_group hplace hl.wellFormed hend htext
      obtain ⟨hleaf, hreplace⟩ := ih hinside hplace hend
      rw [operatorsFrom_opener]
      refine ⟨hleaf, fun {a e'} ha => ?_⟩
      have hgroup := Derives.group opened closing hkind (hreplace ha)
      simpa using hgroup
  | operand _ ih =>
      obtain ⟨hleaf, hreplace⟩ := ih htext hplace hend
      exact ⟨hleaf, fun {a e'} ha => .operand (hreplace ha)⟩
  | @binary op s₁ s₂ e₁ e₂ h₁ h₂ ih₁ ih₂ =>
      rcases exists_operand_of_binary h₁.endsOperand hplace hl.wellFormed hend htext
        with ⟨s, rfl, hleft, hend⟩ | ⟨p, rfl, hright, hplace⟩
      · obtain ⟨hleaf, hreplace⟩ := ih₁ hleft hplace hend
        obtain ⟨hlt, -⟩ := List.getElem?_eq_some_iff.1 hleaf
        refine ⟨?_, fun {a e'} ha => ?_⟩
        · rw [Expr.leaves, List.getElem?_append_left hlt]
          exact hleaf
        · rw [Expr.replaceLeaf_left hlt, ← List.append_assoc]
          exact .binary (hreplace ha) h₂
      · obtain ⟨hleaf, hreplace⟩ := ih₂ hright hplace hend
        -- The leaves of the first operand stand in front of those of the second one.
        have hcount : operatorCount (s₁ ++ op.symbol :: p)
            = e₁.leaves.length + operatorCount p := by
          rw [operatorCount_binary h₁.endsOperand, h₁.operatorCount_add_one]
        rw [hcount]
        refine ⟨?_, fun {a e'} ha => ?_⟩
        · rw [Expr.leaves, List.getElem?_append_right (Nat.le_add_right _ _),
            Nat.add_sub_cancel_left]
          exact hleaf
        · rw [Expr.replaceLeaf_right, List.append_assoc, List.append_assoc, List.cons_append,
            ← List.append_assoc p]
          exact .binary h₁ (hreplace ha)

/-! ## Groups around a text -/

/-- A text inside groups of given kinds, the first of them outermost. -/
def grouped : List Delimiter → List Char → List Char
  | [], s => s
  | d :: ds, s => d.opener :: (grouped ds s ++ [d.closer])

/-- Groups around an atom are an atom with the same tree. -/
theorem Derives.grouped {strict : Bool} {e : Expr} (h : Derives strict none s e)
    (ds : List Delimiter) : Derives strict none (grouped ds s) e := by
  induction ds with
  | nil => exact h
  | cons d ds ih => exact .group d d (fun _ => rfl) (ih.of_atom _)

/-- Groups around an expression are an expression with the same tree. -/
theorem Derives.grouped_of_loosest {strict : Bool} {e : Expr}
    (h : Derives strict (some .additive) s e) (ds : List Delimiter) :
    Derives strict (some .additive) (InfixCalc.grouped ds s) e := by
  induction ds with
  | nil => exact h
  | cons d ds ih => exact (Derives.group d d (fun _ => rfl) ih).of_atom _

/-! ## Whole texts -/

namespace Parser

variable {c : Config} {e e' : Expr} {x : Binary64} {lit t : List Char}

/-- The leaf of a literal that is read has its value, and an atom may take its place. -/
theorem ReadsLiteral.replace (hread : ReadsLiteral c p lit s x)
    (h : parseWith c (String.ofList (p ++ lit ++ s)) = .ok e) :
    e.leaves[operatorCount p]? = some x ∧ ∀ {a e'}, Derives c.strictDelimiters none a e' →
      Derives c.strictDelimiters (some .additive) (p ++ a ++ s)
        (e.replaceLeaf (operatorCount p) e') := by
  obtain ⟨q, rfl, hq, hend, hplace⟩ := hread.exists_denotes
  obtain ⟨hderives, -, -⟩ := parseWith_ofList_iff.1 h
  exact hderives.replace rfl hplace hq hend

/-- A literal that is read is an atom. -/
theorem ReadsLiteral.derives (hread : ReadsLiteral c p lit s x) :
    Derives c.strictDelimiters none lit (.value x) := by
  obtain ⟨q, rfl, hq, -, -⟩ := hread.exists_denotes
  exact .literal hq

/-- **A group in the place of a literal is a substitution.** In an accepted text the literal that is
read behind `p` is the leaf with as many leaves in front of it as there are operators in `p`. A
group around an accepted text may stand in its place, as far as the limits allow it, and has the
effect that the tree of that text takes the place of this leaf. So groups around a literal, or
around the whole text, change nothing. -/
theorem group_substitutes (c : Config) (u : List Char) (e : Expr)
    (h : parseWith c (String.ofList u) = .ok e) :
    (∀ (p lit s : List Char) (x : Binary64), u = p ++ lit ++ s → ReadsLiteral c p lit s x →
        e.leaves[operatorCount p]? = some x
          ∧ (∀ (t : List Char) (e' : Expr) (d : Delimiter), parseWith c (String.ofList t) = .ok e' →
              OpensAtMost c.maxDepth (p ++ grouped [d] t ++ s) →
              (e.replaceLeaf (operatorCount p) e').Fits c.maxTreeDepth →
              parseWith c (String.ofList (p ++ grouped [d] t ++ s))
                = .ok (e.replaceLeaf (operatorCount p) e'))
          ∧ ∀ ds, OpensAtMost c.maxDepth (p ++ grouped ds lit ++ s) →
              parseWith c (String.ofList (p ++ grouped ds lit ++ s)) = .ok e)
      ∧ ∀ ds, OpensAtMost c.maxDepth (grouped ds u) →
          parseWith c (String.ofList (grouped ds u)) = .ok e := by
  obtain ⟨hderives, -, hfits⟩ := parseWith_ofList_iff.1 h
  refine ⟨?_, fun ds hopens =>
    parseWith_ofList_iff.2 ⟨hderives.grouped_of_loosest ds, hopens, hfits⟩⟩
  rintro p lit s x rfl hread
  obtain ⟨hleaf, hreplace⟩ := hread.replace h
  refine ⟨hleaf, ?_, ?_⟩
  · intro t e' d ht hopens hfits'
    obtain ⟨hinside, -, -⟩ := parseWith_ofList_iff.1 ht
    have hgroup := hreplace (.group d d (fun _ => rfl) hinside)
    exact parseWith_ofList_iff.2 ⟨hgroup, hopens, hfits'⟩
  · intro ds hopens
    have hgroups := hreplace (hread.derives.grouped ds)
    rw [Expr.replaceLeaf_self hleaf] at hgroups
    exact parseWith_ofList_iff.2 ⟨hgroups, hopens, hfits⟩

/-- In a product of ones a difference takes the place of the second factor. -/
theorem group_substitutes_second_factor :
    let one : Expr := .value ⟨0x3ff0000000000000⟩
    parseWith ⟨1, 3, true⟩ "1*1" = .ok (.binary .mul one one)
      ∧ ReadsLiteral ⟨1, 3, true⟩ ['1', '*'] ['1'] [] ⟨0x3ff0000000000000⟩
      ∧ parseWith ⟨1, 3, true⟩ "1-1" = .ok (.binary .sub one one)
      ∧ parseWith ⟨1, 3, true⟩ "1*[1-1]" = .ok (.binary .mul one (.binary .sub one one)) := by
  intro one
  have hone := derives_one true
  have hproduct : parseWith ⟨1, 3, true⟩ "1*1" = .ok (.binary .mul one one) :=
    parseWith_ofList_iff.2 ⟨(hone.operation .mul hone).loosest, by decide, by decide⟩
  have hdifference : parseWith ⟨1, 3, true⟩ "1-1" = .ok (.binary .sub one one) :=
    parseWith_ofList_iff.2 ⟨(hone.operation .sub hone).loosest, by decide, by decide⟩
  have hread : ReadsLiteral ⟨1, 3, true⟩ ['1', '*'] ['1'] [] ⟨0x3ff0000000000000⟩ := by
    -- The first factor is read, then the operator, and behind it an operand.
    have hfirst := reads_of_derives (c := ⟨1, 3, true⟩) (n := 0) (hone.of_atom (some .power))
      (by decide) (by decide) (stops_symbol .mul ['1'])
    obtain ⟨⟨node, rest, hlt⟩, hoperand, rfl⟩ :=
      exists_operand_of_reads (t := .multiplicative) hfirst
    have hcall : Calls ⟨1, 3, true⟩ ['1', '*', '1'] (.operand .multiplicative) 0 ['1'] :=
      (((Calls.start.made .first).made (.tighter rfl)).made (.links hoperand)).made
        (.next (operator_symbol .mul ['1']))
    refine ⟨0, Nat.one_pos, hcall.atom_of_operand, ?_⟩
    exact Literal.read_of_value (p := ⟨0, ['1'], []⟩) (by decide) (by decide +kernel)
  have hsubst := ((group_substitutes ⟨1, 3, true⟩ ['1', '*', '1'] _ hproduct).1 ['1', '*'] ['1'] []
    _ rfl hread).2.1 ['1', '-', '1'] _ .square hdifference (by decide) (by decide)
  exact ⟨hproduct, hread, hdifference, hsubst⟩

end Parser

end InfixCalc
