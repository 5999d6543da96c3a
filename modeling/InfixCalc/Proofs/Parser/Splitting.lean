import Mathlib
import InfixCalc.Proofs.Places
import InfixCalc.Proofs.Parser.Acceptance

/-!
# Splitting a text at an operator

An expression can be defined without any tiers of a grammar: of the operators outside all groups
take the loosest ones, of these the first, and split the text there. The parser, which reads from
left to right, builds the same trees.

Main statements: the first of the loosest operators outside all groups is where the grammar splits
an expression (`firstLoosest_of_derives`), an expression without any is an atom
(`Derives.not_topLevelAt_of_atom`), and the parser splits accepted texts there and joins them again
(`splits_at_first_loosest`).
-/

namespace InfixCalc

/-! ## Levels -/

namespace Tier

/-- A tier has one level more below it than its operands. -/
theorem levelsBelow_some (t : Tier) : levelsBelow (some t) = levelsBelow t.tighter + 1 := by
  cases t <;> rfl

/-- Below the operands of a tier are as many levels as there are tighter tiers. -/
theorem levelsBelow_tighter_eq (t : Tier) : levelsBelow t.tighter = t.looseness := by
  cases t <;> rfl

/-- Tiers that bind equally loosely are one tier. -/
theorem looseness_injective : Function.Injective looseness := by
  intro t t' h
  cases t <;> cases t' <;> first | rfl | cases h

/-- Only atoms have no level below them. -/
theorem levelsBelow_eq_zero {level : Option Tier} (h : levelsBelow level = 0) : level = none := by
  cases level with
  | none => rfl
  | some t => exact absurd h (Nat.succ_ne_zero _)

end Tier

/-- An expression of a level is one of every looser level. -/
theorem Derives.mono {strict : Bool} {level level' : Option Tier} {s : List Char} {e : Expr}
    (h : Derives strict level s e) (hle : Tier.levelsBelow level ≤ Tier.levelsBelow level') :
    Derives strict level' s e := by
  induction hn : Tier.levelsBelow level' generalizing level' with
  | zero =>
      rw [hn] at hle
      obtain rfl := Tier.levelsBelow_eq_zero hn
      obtain rfl := Tier.levelsBelow_eq_zero (Nat.le_zero.1 hle)
      exact h
  | succ n ih =>
      cases level' with
      | none => cases hn
      | some t =>
          rcases Nat.lt_or_eq_of_le hle with hlt | heq
          · rw [Tier.levelsBelow_some] at hlt hn
            exact .operand (ih (Nat.le_of_lt_succ hlt) (Nat.succ.inj hn))
          · cases level with
            | none => exact h.of_atom _
            | some t' =>
                obtain rfl := Tier.looseness_injective (Nat.succ.inj heq)
                exact h

/-- An expression is an atom, or an operator between its operands. -/
theorem Derives.atom_or_binary {strict : Bool} {level : Option Tier} {s : List Char} {e : Expr}
    (h : Derives strict level s e) :
    Derives strict none s e ∨ ∃ op s₁ s₂ e₁ e₂, s = s₁ ++ Operator.symbol op :: s₂
      ∧ Derives strict op.tier.tighter s₁ e₁ ∧ Derives strict (some op.tier) s₂ e₂
      ∧ e = .binary op e₁ e₂ := by
  induction h with
  | literal h => exact .inl (.literal h)
  | group opened closing hkind h _ => exact .inl (.group opened closing hkind h)
  | operand _ ih => exact ih
  | @binary op s₁ s₂ e₁ e₂ h₁ h₂ _ _ => exact .inr ⟨op, s₁, s₂, e₁, e₂, rfl, h₁, h₂, rfl⟩

/-! ## Operators outside all groups -/

/-- An operator stands outside all groups at a position of a text: as many closers as openers stand
before it, and an operand ends there, so that it is not a sign. -/
structure TopLevelAt (s : List Char) (k : Nat) (op : Operator) : Prop where
  symbol : s[k]? = some op.symbol
  balanced : Balanced (s.take k)
  behindOperand : EndsOperand (s.take k)

/-- Of the operators outside all groups, the first one of the loosest tier among them. -/
structure FirstLoosest (s : List Char) (k : Nat) (op : Operator) : Prop where
  topLevel : TopLevelAt s k op
  loosest : ∀ k' op', TopLevelAt s k' op' → op'.tier.looseness ≤ op.tier.looseness
  first : ∀ k' op', TopLevelAt s k' op' → op'.tier = op.tier → k ≤ k'

/-- A position with an operator divides a text. -/
theorem topLevelAt_append_cons {p q : List Char} {op : Operator} (hbalanced : Balanced p)
    (hend : EndsOperand p) : TopLevelAt (p ++ op.symbol :: q) p.length op := by
  refine ⟨by simp, ?_, ?_⟩
  · rw [List.take_left]
    exact hbalanced
  · rw [List.take_left]
    exact hend

/-- A text is divided by an operator outside all groups. -/
theorem TopLevelAt.exists_eq_append {s : List Char} {k : Nat} {op : Operator}
    (h : TopLevelAt s k op) : ∃ p q, s = p ++ op.symbol :: q ∧ p.length = k ∧ Balanced p
      ∧ EndsOperand p := by
  obtain ⟨hk, hsymbol⟩ := List.getElem?_eq_some_iff.1 h.symbol
  refine ⟨s.take k, s.drop (k + 1), ?_, List.length_take_of_le hk.le, h.balanced, h.behindOperand⟩
  rw [← hsymbol, List.getElem_cons_drop, List.take_append_drop]

/-- **Operators of an expression.** Outside all groups an expression of a level has only operators
of that level or a tighter one. -/
theorem Derives.levelsBelow_le {strict : Bool} {level : Option Tier} {s : List Char} {e : Expr}
    (h : Derives strict level s e) {p q : List Char} {op : Operator} (hs : s = p ++ op.symbol :: q)
    (hbalanced : Balanced p) (hend : EndsOperand p) :
    Tier.levelsBelow (some op.tier) ≤ Tier.levelsBelow level := by
  induction h generalizing p q with
  | literal h => exact absurd hend (h.wellFormed.not_endsOperand_of_symbol hs)
  | @group inside e opened closing _ h _ =>
      -- Inside the group one more has been opened than closed, at every point.
      rcases List.cons_eq_append_iff.1 hs with ⟨rfl, -⟩ | ⟨p, rfl, hinside⟩
      · exact absurd hend not_endsOperand_nil
      · have hprefix : p <+: inside := by
          rcases List.prefix_concat_iff.1 ⟨_, hinside.symm⟩ with rfl | hprefix
          · simp at hinside
          · exact hprefix
        have hle := h.closers_le_openers hprefix
        rw [Balanced, openers_cons_opener, closers_cons_opener] at hbalanced
        omega
  | @operand t _ _ _ ih => exact (ih hs hbalanced hend).trans (Tier.levelsBelow_tighter t).le
  | @binary op' s₁ s₂ _ _ h₁ _ ih₁ ih₂ =>
      rcases append_cons_eq_append_cons hs with ⟨-, hsymbol, -⟩ | ⟨r, rfl⟩ | ⟨r, rfl, rfl⟩
      · rw [Parser.symbol_injective hsymbol]
      · exact (ih₁ rfl hbalanced hend).trans (Tier.levelsBelow_tighter _).le
      · rw [endsOperand_append_cons (isOperandEnd_symbol op')] at hend
        exact ih₂ rfl ((balanced_binary h₁.balanced op').1 hbalanced) hend

/-- An atom has no operator outside all groups. -/
theorem Derives.not_topLevelAt_of_atom {strict : Bool} {s : List Char} {e : Expr}
    (h : Derives strict none s e) (k : Nat) (op : Operator) : ¬ TopLevelAt s k op := by
  intro htop
  obtain ⟨p, q, hs, -, hbalanced, hend⟩ := htop.exists_eq_append
  exact absurd (h.levelsBelow_le hs hbalanced hend) (Nat.not_succ_le_zero _)

/-- **The grammar splits at the first of the loosest operators.** The operator between the operands
of an expression is the first of the loosest ones outside all groups. -/
theorem firstLoosest_of_derives {strict : Bool} {op : Operator} {s₁ s₂ : List Char} {e₁ e₂ : Expr}
    (h₁ : Derives strict op.tier.tighter s₁ e₁) (h₂ : Derives strict (some op.tier) s₂ e₂) :
    FirstLoosest (s₁ ++ op.symbol :: s₂) s₁.length op := by
  refine ⟨topLevelAt_append_cons h₁.balanced h₁.endsOperand, ?_, ?_⟩
  · intro k op' htop
    obtain ⟨p, q, hs, -, hbalanced, hend⟩ := htop.exists_eq_append
    exact Nat.le_of_succ_le_succ ((Derives.binary h₁ h₂).levelsBelow_le hs hbalanced hend)
  · intro k op' htop htier
    obtain ⟨p, q, hs, rfl, hbalanced, hend⟩ := htop.exists_eq_append
    rcases append_cons_eq_append_cons hs with ⟨rfl, -, -⟩ | ⟨r, hleft⟩ | ⟨r, rfl, -⟩
    · exact le_rfl
    · -- The first operand has tighter operators only.
      have hle := h₁.levelsBelow_le hleft hbalanced hend
      rw [htier] at hle
      exact absurd (Tier.levelsBelow_tighter op.tier) (Nat.not_lt_of_le hle)
    · rw [List.length_append]
      exact Nat.le_add_right _ _

/-- There is one first operator of the loosest tier only. -/
theorem FirstLoosest.unique {s : List Char} {k k' : Nat} {op op' : Operator}
    (h : FirstLoosest s k op) (h' : FirstLoosest s k' op') : k = k' ∧ op = op' := by
  have htier : op.tier = op'.tier := Tier.looseness_injective
    (Nat.le_antisymm (h'.loosest k op h.topLevel) (h.loosest k' op' h'.topLevel))
  obtain rfl : k = k' := Nat.le_antisymm (h.first k' op' h'.topLevel htier.symm)
    (h'.first k op h.topLevel htier)
  have hsymbol := h.topLevel.symbol.symm.trans h'.topLevel.symbol
  exact ⟨rfl, Parser.symbol_injective (Option.some.inj hsymbol)⟩

/-- An expression whose operators outside all groups are tight enough is one of a tighter level. -/
theorem Derives.tighten {strict : Bool} {level level' : Option Tier} {s : List Char} {e : Expr}
    (h : Derives strict level s e) (htight : ∀ k op, TopLevelAt s k op →
      Tier.levelsBelow (some op.tier) ≤ Tier.levelsBelow level') : Derives strict level' s e := by
  rcases h.atom_or_binary with hatom | ⟨op, s₁, s₂, e₁, e₂, rfl, h₁, h₂, rfl⟩
  · exact hatom.of_atom _
  · exact (Derives.binary h₁ h₂).mono (htight _ _ (firstLoosest_of_derives h₁ h₂).topLevel)

/-! ## Whole texts -/

namespace Parser

variable {c : Config} {input : String} {e : Expr}

/-- An accepted text with an operator outside all groups has a first one of the loosest tier. -/
theorem exists_firstLoosest (h : parseWith c input = .ok e)
    (htop : ∃ k op, TopLevelAt input.toList k op) : ∃ k op, FirstLoosest input.toList k op := by
  obtain ⟨hderives, -, -⟩ := derives_of_parseWith h
  rcases hderives.atom_or_binary with hatom | ⟨op, s₁, s₂, e₁, e₂, hs, h₁, h₂, -⟩
  · obtain ⟨k, op, hk⟩ := htop
    exact absurd hk (hatom.not_topLevelAt_of_atom k op)
  · rw [hs]
    exact ⟨s₁.length, op, firstLoosest_of_derives h₁ h₂⟩

/-- An accepted text is split by the first of its loosest operators into two accepted texts. -/
theorem parseWith_operands (h : parseWith c input = .ok e) {k : Nat} {op : Operator}
    (hk : FirstLoosest input.toList k op) : ∃ l r,
      parseWith c (String.ofList (input.toList.take k)) = .ok l
        ∧ parseWith c (String.ofList (input.toList.drop (k + 1))) = .ok r
        ∧ e = .binary op l r := by
  obtain ⟨hderives, hopens, hfits⟩ := derives_of_parseWith h
  rcases hderives.atom_or_binary with hatom | ⟨op', s₁, s₂, l, r, hs, h₁, h₂, rfl⟩
  · exact absurd hk.topLevel (hatom.not_topLevelAt_of_atom k op)
  · rw [hs] at hk hopens ⊢
    obtain ⟨rfl, rfl⟩ := hk.unique (firstLoosest_of_derives h₁ h₂)
    obtain ⟨hopens₁, hopens₂⟩ := (opensAtMost_binary h₁.balanced op).1 hopens
    obtain ⟨hfits₁, hfits₂⟩ := hfits.of_binary
    have hright : (s₁ ++ op.symbol :: s₂).drop (s₁.length + 1) = s₂ := by simp
    rw [List.take_left, hright]
    refine ⟨l, r, ?_, ?_, rfl⟩
    · exact parseWith_ofList_iff.2 ⟨h₁.loosest, hopens₁, hfits₁⟩
    · exact parseWith_ofList_iff.2 ⟨h₂.loosest, hopens₂, hfits₂⟩

/-- An accepted text without operators outside its groups is a literal or one group. -/
theorem parseWith_atom (h : parseWith c input = .ok e)
    (hnone : ¬ ∃ k op, TopLevelAt input.toList k op) :
    (∃ p x, input.toList = Literal.Parts.text p ∧ p.Denotes x ∧ e = .value x)
      ∨ ∃ (opened closing : Delimiter) (inside : List Char),
          input.toList = opened.opener :: (inside ++ [closing.closer])
            ∧ (c.strictDelimiters = true → closing = opened) ∧ 0 < c.maxDepth
            ∧ parseWith { c with maxDepth := c.maxDepth - 1 } (String.ofList inside) = .ok e := by
  obtain ⟨hderives, hopens, hfits⟩ := derives_of_parseWith h
  rcases hderives.atom_or_binary with hatom | ⟨op, s₁, s₂, l, r, hs, h₁, h₂, -⟩
  · generalize hs : input.toList = s at hatom hopens
    cases hatom with
    | @literal p x hp => exact .inl ⟨p, x, rfl, hp, rfl⟩
    | @group inside _ opened closing hkind hinside =>
        obtain ⟨hpos, hopens⟩ := (opensAtMost_group hinside.balanced opened closing).1 hopens
        refine .inr ⟨opened, closing, inside, rfl, hkind, hpos, ?_⟩
        exact parseWith_ofList_iff.2 ⟨hinside, hopens, hfits⟩
  · rw [hs] at hnone
    exact absurd ⟨_, _, (firstLoosest_of_derives h₁ h₂).topLevel⟩ hnone

/-- Two accepted texts are joined by an operator that is looser than all of the first one outside
groups, and as loose as those of the second one. -/
theorem parseWith_join {s₁ s₂ : String} {op : Operator} {l r : Expr}
    (h₁ : parseWith c s₁ = .ok l) (h₂ : parseWith c s₂ = .ok r)
    (htight₁ : ∀ k op', TopLevelAt s₁.toList k op' → op'.tier.looseness < op.tier.looseness)
    (htight₂ : ∀ k op', TopLevelAt s₂.toList k op' → op'.tier.looseness ≤ op.tier.looseness)
    (hdepth : 1 + max l.depth r.depth ≤ c.maxTreeDepth) :
    parseWith c (s₁ ++ String.singleton op.symbol ++ s₂) = .ok (.binary op l r) := by
  obtain ⟨hderives₁, hopens₁, -⟩ := derives_of_parseWith h₁
  obtain ⟨hderives₂, hopens₂, -⟩ := derives_of_parseWith h₂
  have hoperand : Derives c.strictDelimiters op.tier.tighter s₁.toList l := by
    apply hderives₁.tighten
    intro k op' htop
    rw [Tier.levelsBelow_tighter_eq]
    exact htight₁ k op' htop
  have hright : Derives c.strictDelimiters (some op.tier) s₂.toList r := by
    apply hderives₂.tighten
    intro k op' htop
    exact Nat.succ_le_succ (htight₂ k op' htop)
  have htoList : (s₁ ++ String.singleton op.symbol ++ s₂).toList
      = s₁.toList ++ op.symbol :: s₂.toList := by simp
  apply parseWith_of_derives
  · rw [htoList]
    exact (Derives.binary hoperand hright).loosest
  · rw [htoList]
    exact (opensAtMost_binary hderives₁.balanced op).2 ⟨hopens₁, hopens₂⟩
  · exact Expr.fits_of_depth_le hdepth

/-- **The parser splits a text at the first of its loosest operators.** An accepted text with an
operator outside all groups has a first one of the loosest tier, what stands before and behind it is
accepted too, and the tree joins the two trees by it; an accepted text without any is a literal or
one group. And two accepted texts are joined to one with that tree by any operator that becomes the
first of the loosest ones, if the tree is not too deep. -/
theorem splits_at_first_loosest (c : Config) :
    (∀ (input : String) (e : Expr), parseWith c input = .ok e →
        ((∃ k op, TopLevelAt input.toList k op) → ∃ k op, FirstLoosest input.toList k op)
          ∧ (∀ k op, FirstLoosest input.toList k op → ∃ l r,
              parseWith c (String.ofList (input.toList.take k)) = .ok l
                ∧ parseWith c (String.ofList (input.toList.drop (k + 1))) = .ok r
                ∧ e = .binary op l r)
          ∧ ((¬ ∃ k op, TopLevelAt input.toList k op) →
              (∃ p x, input.toList = Literal.Parts.text p ∧ p.Denotes x ∧ e = .value x)
                ∨ ∃ (opened closing : Delimiter) (inside : List Char),
                    input.toList = opened.opener :: (inside ++ [closing.closer])
                      ∧ (c.strictDelimiters = true → closing = opened) ∧ 0 < c.maxDepth
                      ∧ parseWith { c with maxDepth := c.maxDepth - 1 } (String.ofList inside)
                          = .ok e))
      ∧ ∀ (s₁ s₂ : String) (op : Operator) (l r : Expr),
          parseWith c s₁ = .ok l → parseWith c s₂ = .ok r →
          (∀ k op', TopLevelAt s₁.toList k op' → op'.tier.looseness < op.tier.looseness) →
          (∀ k op', TopLevelAt s₂.toList k op' → op'.tier.looseness ≤ op.tier.looseness) →
          1 + max l.depth r.depth ≤ c.maxTreeDepth →
          parseWith c (s₁ ++ String.singleton op.symbol ++ s₂) = .ok (.binary op l r) := by
  refine ⟨fun input e h => ⟨exists_firstLoosest h, ?_, parseWith_atom h⟩, ?_⟩
  · intro k op hk
    exact parseWith_operands h hk
  · intro s₁ s₂ op l r h₁ h₂ htight₁ htight₂ hdepth
    exact parseWith_join h₁ h₂ htight₁ htight₂ hdepth

/-- A product less a difference, joined at the first of two minus signs and split there again. -/
theorem splits_at_first_minus :
    let one : Expr := .value ⟨0x3ff0000000000000⟩
    let e : Expr := .binary .sub (.binary .mul one one) (.binary .sub one one)
    parseWith ⟨1, 3, true⟩ "1*1-(1)-1" = .ok e
      ∧ FirstLoosest "1*1-(1)-1".toList 3 .sub
      ∧ ∃ l r, parseWith ⟨1, 3, true⟩ "1*1" = .ok l ∧ parseWith ⟨1, 3, true⟩ "(1)-1" = .ok r
        ∧ e = .binary .sub l r := by
  intro one e
  have hone := derives_one true
  have hgroup := Derives.group .round .round (fun _ => rfl) (hone.of_atom _)
  have hfactor : ∀ op : Operator, Derives true op.tier.tighter ['1'] one :=
    fun op => hone.of_atom _
  have hproduct : Derives true (some Operator.mul.tier) "1*1".toList (.binary .mul one one) :=
    hone.operation .mul hone
  have hdifference : Derives true (some Operator.sub.tier) "(1)-1".toList (.binary .sub one one) :=
    hgroup.operation .sub hone
  have hterm : Derives true Operator.sub.tier.tighter "1*1".toList (.binary .mul one one) :=
    hproduct
  have hfirst : FirstLoosest "1*1-(1)-1".toList 3 .sub := firstLoosest_of_derives hterm hdifference
  obtain ⟨hsplits, hjoins⟩ := splits_at_first_loosest ⟨1, 3, true⟩
  have haccepted : parseWith ⟨1, 3, true⟩ "1*1-(1)-1" = .ok e := by
    apply hjoins "1*1" "(1)-1" .sub
    · exact parseWith_of_derives hproduct.loosest (by decide) (by decide)
    · exact parseWith_of_derives hdifference.loosest (by decide) (by decide)
    · intro k op htop
      have hle := (firstLoosest_of_derives (hfactor .mul) (hone.of_atom _)).loosest k op htop
      exact Nat.lt_of_le_of_lt hle (by decide)
    · intro k op htop
      have hleft : Derives true Operator.sub.tier.tighter "(1)".toList one := hgroup.of_atom _
      exact (firstLoosest_of_derives hleft (hone.of_atom _)).loosest k op htop
    · decide
  exact ⟨haccepted, hfirst, (hsplits _ _ haccepted).2.1 3 .sub hfirst⟩

end Parser

end InfixCalc
