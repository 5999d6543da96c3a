import Mathlib
import InfixCalc.Proofs.Grammar
import InfixCalc.Proofs.Parser.Loop

/-!
# Which texts are accepted

What the parser reads is what the grammar derives, as far as the limits allow it: a derivation
becomes a reading by taking each literal and each chain as far as it goes, since what stands behind
them cannot continue them.

Main statements: what is read is derived (`Reads.derives`), what is derived is read
(`reads_of_derives`), and the grammar derives a text with one tree only (`derives_unique`); so a
text is accepted with a tree just if the grammar derives it with that tree, within the limits
(`derives_of_parseWith`, `parseWith_of_derives`).
-/

namespace InfixCalc

/-! ## Limits -/

/-- A tree has at least one level. -/
theorem Expr.depth_pos (e : Expr) : 0 < e.depth := by
  cases e with
  | value number => exact Nat.one_pos
  | binary op left right => exact Nat.lt_of_lt_of_le Nat.one_pos (Nat.le_add_right 1 _)

/-- A tree has at most `limit` levels, or is a number alone, which no limit keeps out. -/
def Expr.Fits (limit : Nat) (e : Expr) : Prop := e.isValue = true ∨ e.depth ≤ limit

instance (limit : Nat) (e : Expr) : Decidable (e.Fits limit) :=
  inferInstanceAs (Decidable (_ ∨ _))

/-- A tree with an operator fits just if it is not too deep. -/
theorem Expr.fits_binary {limit : Nat} {op : Operator} {e₁ e₂ : Expr} :
    (Expr.binary op e₁ e₂).Fits limit ↔ (Expr.binary op e₁ e₂).depth ≤ limit := by
  simp [Fits, isValue]

/-- A tree fits into the limit that is its own depth, and into all greater ones. -/
theorem Expr.fits_of_depth_le {limit : Nat} {e : Expr} (h : e.depth ≤ limit) : e.Fits limit :=
  .inr h

/-- The operands of a tree that fits fit too. -/
theorem Expr.Fits.of_binary {limit : Nat} {op : Operator} {e₁ e₂ : Expr}
    (h : (Expr.binary op e₁ e₂).Fits limit) : e₁.Fits limit ∧ e₂.Fits limit := by
  have hd := Expr.fits_binary.1 h
  rw [Expr.depth] at hd
  exact ⟨fits_of_depth_le (by omega), fits_of_depth_le (by omega)⟩

namespace Delimiter

/-- A group is closed by a closer, of its own kind where kinds matter. -/
theorem closes_eq_true_iff {strict : Bool} {opened : Delimiter} {c : Char} :
    closes strict opened c = true
      ↔ ∃ closing : Delimiter, c = closing.closer ∧ (strict = true → closing = opened) := by
  unfold closes
  constructor
  · intro h
    split at h
    · cases h
    · next closing hc =>
      refine ⟨closing, ofCloser?_eq_some_iff.1 hc, ?_⟩
      rintro rfl
      simpa using h
  · rintro ⟨closing, rfl, hkind⟩
    rw [ofCloser?_eq_some_iff.2 rfl]
    cases strict with
    | false => rfl
    | true => simp [hkind rfl]

end Delimiter

namespace Parser

/-! ## What is read is derived -/

/-- **Soundness.** What is read of a text is an expression of the level, with the tree that was
built, within the limits. -/
theorem Reads.derives {c : Config} {level : Option Tier} {n : Nat} {text : List Char}
    {o : Except ParseError (Expr × List Char)} (h : Reads c level n text o) :
    ∀ {e rest}, o = .ok (e, rest) → ∃ s, text = s ++ rest ∧ Derives c.strictDelimiters level s e
      ∧ OpensAtMost (c.maxDepth - n) s ∧ e.Fits c.maxTreeDepth := by
  induction h with
  | @literal n text rest p x hl hx =>
      rintro _ _ ⟨⟩
      obtain ⟨hp, rfl, -⟩ := Literal.longest?_eq_some_iff.1 hl
      exact ⟨p.text, rfl, .literal (hp.denotes_iff.2 hx), opensAtMost_of_plain hp.plain, .inl rfl⟩
  | @group n inside rest last e d hn _ hc ih =>
      rintro _ _ ⟨⟩
      obtain ⟨s, rfl, hs, hopens, hfits⟩ := ih rfl
      obtain ⟨closing, rfl, hkind⟩ := Delimiter.closes_eq_true_iff.1 hc
      exact ⟨d.opener :: (s ++ [closing.closer]), by simp, .group d closing hkind hs,
        (opensAtMost_group_of_lt hs.balanced d closing hn).2 hopens, hfits⟩
  | operand _ _ ih =>
      rintro _ _ ⟨⟩
      obtain ⟨s, rfl, hs, hopens, hfits⟩ := ih rfl
      exact ⟨s, rfl, .operand hs, hopens, hfits⟩
  | @binary n op text rest rest' e₁ e₂ _ _ hd ih₁ ih₂ =>
      rintro _ _ ⟨⟩
      obtain ⟨s₁, rfl, hs₁, hopens₁, -⟩ := ih₁ rfl
      obtain ⟨s₂, rfl, hs₂, hopens₂, -⟩ := ih₂ rfl
      exact ⟨s₁ ++ op.symbol :: s₂, by simp, .binary hs₁ hs₂,
        (opensAtMost_binary hs₁.balanced op).2 ⟨hopens₁, hopens₂⟩, Expr.fits_of_depth_le hd⟩
  | _ => rintro _ _ ⟨⟩

/-- What the parser takes of a text is an expression of the level, with its tree and the depth of
that, within the limit of the tree. -/
theorem Follows.exists_derives {c : Config} {level : Option Tier} {n : Nat} {text rest : List Char}
    {node : Node} (h : Follows c level n text (.ok (node, rest))) :
    ∃ s, text = s ++ rest ∧ Derives c.strictDelimiters level s node.tree
      ∧ node.depth = node.tree.depth ∧ node.tree.Fits c.maxTreeDepth := by
  obtain ⟨hreads, hnode⟩ := h
  obtain ⟨s, hs, hderives, -, hfits⟩ := hreads.derives rfl
  exact ⟨s, hs, hderives, congrArg Node.depth hnode, hfits⟩

/-! ## What is derived is read -/

/-- What stands at the front of a text continues no expression of a level: neither a literal at its
end nor a chain of the level or a tighter one. -/
structure Stops (level : Option Tier) (rest : List Char) : Prop where
  noDigit : StartsOutside Decimal.isDigit rest
  noFraction : Decimal.NoFraction rest
  noOperator : ∀ op : Operator, Tier.levelsBelow (some op.tier) ≤ Tier.levelsBelow level →
    rest.head? ≠ some op.symbol

/-- A closer is not a point. -/
theorem closer_ne_point (d : Delimiter) : d.closer ≠ '.' := by
  cases d <;> decide

/-- The symbol of an operator is not a point. -/
theorem symbol_ne_point (op : Operator) : op.symbol ≠ '.' := by
  cases op <;> decide

/-- Nothing continues an expression at the end of a text. -/
theorem stops_nil (level : Option Tier) : Stops level [] := by
  refine ⟨startsOutside_nil _, ?_, by simp⟩
  intro rest h
  cases h

/-- A closer ends all expressions of the group. -/
theorem stops_closer (level : Option Tier) (d : Delimiter) (rest : List Char) :
    Stops level (d.closer :: rest) := by
  refine ⟨?_, ?_, fun op _ => ?_⟩
  · rw [startsOutside_cons]
    cases d <;> rfl
  · intro rest' h
    exact absurd (List.cons.inj h).1 (closer_ne_point d)
  · cases d <;> cases op <;> simp [Delimiter.closer, Operator.symbol]

/-- No two operators have one symbol. -/
theorem symbol_injective : Function.Injective Operator.symbol := fun op op' h => by
  have := Operator.ofSymbol?_symbol op
  rw [h, Operator.ofSymbol?_symbol] at this
  exact (Option.some.inj this).symm

/-- An operator of a tier ends the operand in front of it. -/
theorem stops_symbol (op : Operator) (rest : List Char) :
    Stops op.tier.tighter (op.symbol :: rest) := by
  refine ⟨?_, ?_, fun op' hop' h => ?_⟩
  · rw [startsOutside_cons]
    cases op <;> rfl
  · intro rest' h
    exact absurd (List.cons.inj h).1 (symbol_ne_point op)
  · obtain rfl := symbol_injective (Option.some.inj h)
    exact absurd (Tier.levelsBelow_tighter op.tier) (Nat.not_lt_of_le hop')

/-- What ends an expression of a tier ends its operands. -/
theorem Stops.tighter {t : Tier} {rest : List Char} (h : Stops (some t) rest) :
    Stops t.tighter rest :=
  ⟨h.noDigit, h.noFraction, fun op hop =>
    h.noOperator op (hop.trans (Tier.levelsBelow_tighter t).le)⟩

/-- **Completeness.** An expression within the limits is read with its tree, in front of any text
that does not continue it. -/
theorem reads_of_derives {c : Config} {level : Option Tier} {s : List Char}
    {e : Expr} (h : Derives c.strictDelimiters level s e) {n : Nat} {rest : List Char}
    (hopens : OpensAtMost (c.maxDepth - n) s) (hfits : e.Fits c.maxTreeDepth)
    (hstops : Stops level rest) : Reads c level n (s ++ rest) (.ok (e, rest)) := by
  induction h generalizing n rest with
  | @literal p x h =>
      -- What stands behind is neither a digit nor a fraction, so the longest literal is this one.
      have hend : p.EndsBefore rest := ⟨hstops.noDigit, fun _ => hstops.noFraction⟩
      exact .literal (Literal.longest?_text_append h.wellFormed hend)
        (h.wellFormed.denotes_iff.1 h)
  | @group inside e opened closing hkind h ih =>
      rw [opensAtMost_group h.balanced, Nat.sub_sub] at hopens
      rw [List.cons_append, List.append_assoc]
      exact .group opened (Nat.lt_of_sub_pos hopens.1)
        (ih hopens.2 hfits (stops_closer (some .additive) closing rest))
        (Delimiter.closes_eq_true_iff.2 ⟨closing, rfl, hkind⟩)
  | operand _ ih =>
      -- No operator of the tier stands behind, so the chain ends with this operand.
      exact .operand (ih hopens hfits hstops.tighter)
        fun op ht => hstops.noOperator op (by rw [ht])
  | @binary op s₁ s₂ e₁ e₂ h₁ h₂ ih₁ ih₂ =>
      rw [opensAtMost_binary h₁.balanced] at hopens
      obtain ⟨hfits₁, hfits₂⟩ := hfits.of_binary
      rw [List.append_assoc]
      exact .binary (ih₁ hopens.1 hfits₁ (stops_symbol op (s₂ ++ rest)))
        (ih₂ hopens.2 hfits₂ hstops) (Expr.fits_binary.1 hfits)

/-- No text opens more groups than it has characters. -/
theorem opensAtMost_length (s : List Char) : OpensAtMost s.length s := by
  intro p hp
  calc openers p ≤ p.length := List.countP_le_length
    _ ≤ s.length := hp.length_le
    _ ≤ closers p + s.length := Nat.le_add_left _ _

/-- **The grammar is unambiguous.** A text is an expression of a level with one tree only: with
limits that are great enough, both trees are what reading it comes to. -/
theorem derives_unique {strict : Bool} {level : Option Tier} {s : List Char} {e e' : Expr}
    (h : Derives strict level s e) (h' : Derives strict level s e') : e = e' := by
  let c : Config := ⟨s.length, max e.depth e'.depth, strict⟩
  have hreads : ∀ {e}, Derives strict level s e → e.depth ≤ c.maxTreeDepth →
      Reads c level 0 (s ++ []) (.ok (e, [])) := fun hd hdepth =>
    reads_of_derives hd (opensAtMost_length s) (Expr.fits_of_depth_le hdepth) (stops_nil level)
  have heq := (hreads h (Nat.le_max_left _ _)).unique (hreads h' (Nat.le_max_right _ _))
  exact (Prod.mk.inj (Except.ok.inj heq)).1

/-! ## Whole texts -/

variable {c : Config} {input : String} {e : Expr}

/-- An accepted text is derived with its tree, within the limits. -/
theorem derives_of_parseWith (h : parseWith c input = .ok e) :
    Derives c.strictDelimiters (some .additive) input.toList e
      ∧ OpensAtMost c.maxDepth input.toList ∧ e.Fits c.maxTreeDepth := by
  obtain ⟨s, hs, hderives, hopens, hfits⟩ := (parseWith_eq_ok_iff.1 h).derives rfl
  rw [hs, List.append_nil]
  exact ⟨hderives, hopens, hfits⟩

/-- A text that is derived within the limits is accepted. -/
theorem parseWith_of_derives (h : Derives c.strictDelimiters (some .additive) input.toList e)
    (hopens : OpensAtMost c.maxDepth input.toList) (hfits : e.Fits c.maxTreeDepth) :
    parseWith c input = .ok e := by
  have hreads := reads_of_derives h (n := 0) hopens hfits (stops_nil _)
  rw [List.append_nil] at hreads
  exact parseWith_eq_ok_iff.2 hreads

/-- Characters make up an accepted text just if they are derived within the limits. -/
theorem parseWith_ofList_iff {t : List Char} :
    parseWith c (String.ofList t) = .ok e
      ↔ Derives c.strictDelimiters (some .additive) t e ∧ OpensAtMost c.maxDepth t
        ∧ e.Fits c.maxTreeDepth := by
  constructor
  · intro h
    have hderives := derives_of_parseWith h
    rw [String.toList_ofList] at hderives
    exact hderives
  · rintro ⟨hderives, hopens, hfits⟩
    apply parseWith_of_derives
    · rwa [String.toList_ofList]
    · rwa [String.toList_ofList]
    · exact hfits

/-- **The parser accepts the grammar.** A text is accepted with a tree just if the grammar derives
it with that tree, at no point more groups are open than allowed, and the tree fits; and the grammar
derives no text with two trees. -/
theorem parseWith_eq_ok_iff_derives (c : Config) (input : String) :
    (∀ e, parseWith c input = .ok e
        ↔ Derives c.strictDelimiters (some .additive) input.toList e
          ∧ OpensAtMost c.maxDepth input.toList ∧ e.Fits c.maxTreeDepth)
      ∧ Set.Subsingleton {e | Derives c.strictDelimiters (some .additive) input.toList e} := by
  refine ⟨fun e => ⟨derives_of_parseWith, ?_⟩, fun e h e' h' => derives_unique h h'⟩
  rintro ⟨hderives, hopens, hfits⟩
  exact parseWith_of_derives hderives hopens hfits

/-- A product in front of a sum is the left operand of the sum, whatever stands to the right:
`2*3+4` is derived as the sum of `2*3` and `4`, and so it is neither accepted nor derived as the
product of `2` and `3+4`. -/
theorem parseWith_product_add :
    let two : Expr := .value ⟨0x4000000000000000⟩
    let three : Expr := .value ⟨0x4008000000000000⟩
    let four : Expr := .value ⟨0x4010000000000000⟩
    let sum : Expr := .binary .add (.binary .mul two three) four
    let product : Expr := .binary .mul two (.binary .add three four)
    Derives true (some .additive) "2*3+4".toList sum ∧ parseWith ⟨0, 3, true⟩ "2*3+4" = .ok sum
      ∧ ¬ Derives true (some .additive) "2*3+4".toList product
      ∧ parseWith ⟨0, 3, true⟩ "2*3+4" ≠ .ok product := by
  intro two three four sum product
  have hliteral : ∀ {c : Char} {x : Binary64}, (⟨0, [c], []⟩ : Literal.Parts).Denotes x →
      Derives true none [c] (.value x) := fun h => .literal h
  have htwo : Derives true none ['2'] two := hliteral
    ⟨⟨by simp, by simp [Decimal.isDigit], by simp⟩, Nat.zero_le 1, by decide +kernel,
      by decide +kernel⟩
  have hthree : Derives true none ['3'] three := hliteral
    ⟨⟨by simp, by simp [Decimal.isDigit], by simp⟩, Nat.zero_le 1, by decide +kernel,
      by decide +kernel⟩
  have hfour : Derives true none ['4'] four := hliteral
    ⟨⟨by simp, by simp [Decimal.isDigit], by simp⟩, Nat.zero_le 1, by decide +kernel,
      by decide +kernel⟩
  have hleft :
      Derives true (some .multiplicative) (['2'] ++ '*' :: ['3']) (.binary .mul two three) :=
    .joined .mul (.single htwo) (.single (.single hthree))
  have hsum : Derives true (some .additive) (['2', '*', '3'] ++ '+' :: ['4']) sum :=
    .joined .add hleft (.single (.single (.single hfour)))
  obtain ⟨hiff, hunique⟩ := parseWith_eq_ok_iff_derives ⟨0, 3, true⟩ "2*3+4"
  have hne : sum ≠ product := by decide
  refine ⟨hsum, (hiff sum).2 ⟨hsum, by decide, by decide⟩, ?_, ?_⟩
  · intro hproduct
    exact hne (hunique hsum hproduct)
  · intro hproduct
    exact hne (hunique hsum ((hiff product).1 hproduct).1)

end Parser

end InfixCalc
