import Mathlib
import InfixCalc.Proofs.Literal
import InfixCalc.Delimiter
import InfixCalc.Expr

/-!
# The grammar of expressions

Which texts are expressions, and of which tree, said by rules and without any order of reading: at
each tier an expression is an operand, or an operand, an operator of the tier and an expression of
the same tier; below the tightest tier stand literals and groups.

Main statements: the numbers of an expression are finite (`Derives.finite`), and outside of its
groups it opens and closes nothing (`Derives.balanced`).
-/

namespace InfixCalc

/-! ## Operators of a tier -/

/-- The operators of each tier, with the characters that stand for them: sums and differences are
loosest, then come products and quotients, and powers are tightest. -/
inductive Joins : Tier → Char → Operator → Prop
  | add : Joins .additive '+' .add
  | sub : Joins .additive '-' .sub
  | mul : Joins .multiplicative '*' .mul
  | div : Joins .multiplicative '/' .div
  | pow : Joins .power '^' .pow

/-- What the operands of a tier are: expressions of the next one, and atoms at the tightest. -/
def Tier.operands : Tier → Option Tier
  | additive => some .multiplicative
  | multiplicative => some .power
  | power => none

/-- The parser's table of operators is that of the grammar. -/
theorem joins_iff {t : Tier} {c : Char} {op : Operator} :
    Joins t c op ↔ op.tier = t ∧ op.symbol = c := by
  constructor
  · intro h
    cases h <;> decide
  · rintro ⟨rfl, rfl⟩
    cases op with
    | add => exact .add
    | sub => exact .sub
    | mul => exact .mul
    | div => exact .div
    | pow => exact .pow

/-- The parser's order of tiers is that of the grammar. -/
theorem Tier.operands_eq_tighter (t : Tier) : t.operands = t.tighter := by
  cases t <;> rfl

/-! ## Derivations -/

/-- A text is an expression of a tier, or an atom where no tier is given, with a tree. With `strict`
delimiters a group closes with a delimiter of the kind that opened it. -/
inductive Derives (strict : Bool) : Option Tier → List Char → Expr → Prop
  /-- A literal is an atom; its tree is its value. -/
  | literal {p : Literal.Parts} {x : Binary64} (h : p.Denotes x) :
      Derives strict none p.text (.value x)
  /-- A group is an atom; its tree is that of the expression inside. -/
  | group {inside : List Char} {e : Expr} (opened closing : Delimiter)
      (hkind : strict = true → closing = opened)
      (h : Derives strict (some .additive) inside e) :
      Derives strict none (opened.opener :: (inside ++ [closing.closer])) e
  /-- An operand of a tier is an expression of the tier. -/
  | single {t : Tier} {s : List Char} {e : Expr} (h : Derives strict t.operands s e) :
      Derives strict (some t) s e
  /-- An operator of a tier stands between an operand and an expression of the tier. -/
  | joined {t : Tier} {c : Char} {op : Operator} {s₁ s₂ : List Char} {e₁ e₂ : Expr}
      (hop : Joins t c op) (h₁ : Derives strict t.operands s₁ e₁)
      (h₂ : Derives strict (some t) s₂ e₂) :
      Derives strict (some t) (s₁ ++ c :: s₂) (.binary op e₁ e₂)

/-- An operand, in the terms of the parser's tables. -/
theorem Derives.operand {strict : Bool} {t : Tier} {s : List Char} {e : Expr}
    (h : Derives strict t.tighter s e) : Derives strict (some t) s e :=
  .single (t.operands_eq_tighter ▸ h)

/-- An operator between its operands, in the terms of the parser's tables. -/
theorem Derives.binary {strict : Bool} {op : Operator} {s₁ s₂ : List Char} {e₁ e₂ : Expr}
    (h₁ : Derives strict op.tier.tighter s₁ e₁) (h₂ : Derives strict (some op.tier) s₂ e₂) :
    Derives strict (some op.tier) (s₁ ++ op.symbol :: s₂) (.binary op e₁ e₂) :=
  .joined (joins_iff.2 ⟨rfl, rfl⟩) (op.tier.operands_eq_tighter ▸ h₁) h₂

/-- Induction over derivations, in the terms of the parser's tables. -/
@[elab_as_elim, induction_eliminator]
theorem Derives.inductionOn {strict : Bool}
    {motive : (level : Option Tier) → (s : List Char) → (e : Expr) →
      Derives strict level s e → Prop}
    (literal : ∀ {p : Literal.Parts} {x : Binary64} (h : p.Denotes x),
      motive none p.text (.value x) (.literal h))
    (group : ∀ {inside : List Char} {e : Expr} (opened closing : Delimiter)
      (hkind : strict = true → closing = opened) (h : Derives strict (some .additive) inside e),
      motive (some .additive) inside e h →
        motive none (opened.opener :: (inside ++ [closing.closer])) e
          (.group opened closing hkind h))
    (operand : ∀ {t : Tier} {s : List Char} {e : Expr} (h : Derives strict t.tighter s e),
      motive t.tighter s e h → motive (some t) s e h.operand)
    (binary : ∀ {op : Operator} {s₁ s₂ : List Char} {e₁ e₂ : Expr}
      (h₁ : Derives strict op.tier.tighter s₁ e₁) (h₂ : Derives strict (some op.tier) s₂ e₂),
      motive op.tier.tighter s₁ e₁ h₁ → motive (some op.tier) s₂ e₂ h₂ →
        motive (some op.tier) (s₁ ++ op.symbol :: s₂) (.binary op e₁ e₂) (h₁.binary h₂))
    {level : Option Tier} {s : List Char} {e : Expr} (h : Derives strict level s e) :
    motive level s e h := by
  induction h using Derives.rec with
  | literal h => exact literal h
  | group opened closing hkind h ih => exact group opened closing hkind h ih
  | @single t s e h ih =>
      -- Tier by tier both tables say the same.
      cases t with
      | additive => exact @operand .additive s e h ih
      | multiplicative => exact @operand .multiplicative s e h ih
      | power => exact @operand .power s e h ih
  | @joined t c op s₁ s₂ e₁ e₂ hop h₁ h₂ ih₁ ih₂ =>
      cases hop with
      | add => exact @binary .add s₁ s₂ e₁ e₂ h₁ h₂ ih₁ ih₂
      | sub => exact @binary .sub s₁ s₂ e₁ e₂ h₁ h₂ ih₁ ih₂
      | mul => exact @binary .mul s₁ s₂ e₁ e₂ h₁ h₂ ih₁ ih₂
      | div => exact @binary .div s₁ s₂ e₁ e₂ h₁ h₂ ih₁ ih₂
      | pow => exact @binary .pow s₁ s₂ e₁ e₂ h₁ h₂ ih₁ ih₂

/-- An atom is an expression of every tier. -/
theorem Derives.of_atom {strict : Bool} {s : List Char} {e : Expr} (h : Derives strict none s e)
    (level : Option Tier) : Derives strict level s e := by
  rcases level with _ | t
  · exact h
  · cases t with
    | additive => exact .operand (.operand (.operand h))
    | multiplicative => exact .operand (.operand h)
    | power => exact .operand h

/-- An expression of any tier is one of the loosest tier. -/
theorem Derives.loosest {strict : Bool} {level : Option Tier} {s : List Char} {e : Expr}
    (h : Derives strict level s e) : Derives strict (some .additive) s e := by
  rcases level with _ | t
  · exact h.of_atom _
  · cases t with
    | additive => exact h
    | multiplicative => exact .operand h
    | power => exact .operand (.operand h)

/-- Between two atoms an operator of any tier may stand. -/
theorem Derives.operation {strict : Bool} {s₁ s₂ : List Char} {e₁ e₂ : Expr}
    (h₁ : Derives strict none s₁ e₁) (op : Operator) (h₂ : Derives strict none s₂ e₂) :
    Derives strict (some op.tier) (s₁ ++ op.symbol :: s₂) (.binary op e₁ e₂) :=
  .binary (h₁.of_atom _) (h₂.of_atom _)

/-- The digit one is an atom. -/
theorem derives_one (strict : Bool) :
    Derives strict none ['1'] (.value ⟨0x3ff0000000000000⟩) := by
  have hdigit : ∀ c ∈ ['1'], Decimal.isDigit c = true := by simp [Decimal.isDigit]
  exact .literal (p := ⟨0, ['1'], []⟩)
    ⟨⟨by simp, hdigit, by simp⟩, Nat.zero_le 1, by decide +kernel, by decide +kernel⟩

/-- All numbers of an operation are of a kind just if those of its operands are. -/
theorem Expr.forall_leaves_binary {op : Operator} {left right : Expr} {p : Binary64 → Prop} :
    (∀ x ∈ (binary op left right).leaves, p x)
      ↔ (∀ x ∈ left.leaves, p x) ∧ ∀ x ∈ right.leaves, p x := by
  simp only [leaves, List.mem_append, or_imp, forall_and]

/-- The numbers of a tree that is derived are those of its literals, which are finite. -/
theorem Derives.finite {strict : Bool} {level : Option Tier} {s : List Char} {e : Expr}
    (h : Derives strict level s e) : ∀ x ∈ e.leaves, x.isFinite = true := by
  induction h with
  | literal h =>
      rw [Expr.leaves, List.forall_mem_singleton]
      exact h.finite
  | group opened closing hkind h ih => exact ih
  | operand h ih => exact ih
  | binary h₁ h₂ ih₁ ih₂ => exact Expr.forall_leaves_binary.2 ⟨ih₁, ih₂⟩

/-! ## Groups that are open -/

/-- The number of openers in a text. -/
def openers (s : List Char) : Nat := s.countP fun c => (Delimiter.ofOpener? c).isSome

/-- The number of closers in a text. -/
def closers (s : List Char) : Nat := s.countP fun c => (Delimiter.ofCloser? c).isSome

/-- At no point of a text are more than `k` groups open. -/
def OpensAtMost (k : Nat) (s : List Char) : Prop :=
  ∀ p, p <+: s → openers p ≤ closers p + k

instance (k : Nat) (s : List Char) : Decidable (OpensAtMost k s) :=
  decidable_of_iff (∀ p ∈ s.inits, openers p ≤ closers p + k) (by simp [OpensAtMost])

/-- A text closes as many groups as it opens. -/
def Balanced (s : List Char) : Prop := openers s = closers s

@[simp] theorem openers_append (s s' : List Char) : openers (s ++ s') = openers s + openers s' :=
  List.countP_append

@[simp] theorem closers_append (s s' : List Char) : closers (s ++ s') = closers s + closers s' :=
  List.countP_append

/-- Behind a balanced text as many groups are open as before it. -/
theorem opensAtMost_append {k : Nat} {s s' : List Char} (h : Balanced s) :
    OpensAtMost k (s ++ s') ↔ OpensAtMost k s ∧ OpensAtMost k s' := by
  unfold Balanced at h
  constructor
  · intro hk
    refine ⟨fun p hp => hk p (hp.trans (List.prefix_append s s')), fun p hp => ?_⟩
    have := hk (s ++ p) ((List.prefix_append_right_inj s).2 hp)
    simp only [openers_append, closers_append] at this
    omega
  · -- A beginning of the whole ends in the first text or in the second one.
    rintro ⟨hs, hs'⟩ p hp
    rcases List.prefix_or_prefix_of_prefix hp (List.prefix_append s s') with hps | ⟨p', rfl⟩
    · exact hs p hps
    · have := hs' p' ((List.prefix_append_right_inj s).1 hp)
      simp only [openers_append, closers_append]
      omega

/-! ### Texts without delimiters -/

/-- A character that opens and closes nothing. -/
def Plain (c : Char) : Prop := Delimiter.ofOpener? c = none ∧ Delimiter.ofCloser? c = none

instance (c : Char) : Decidable (Plain c) := inferInstanceAs (Decidable (_ ∧ _))

/-- A digit is no delimiter. -/
theorem plain_of_isDigit {c : Char} (h : Decimal.isDigit c = true) : Plain c := by
  constructor
  · rw [Option.eq_none_iff_forall_ne_some]
    intro d hd
    obtain rfl := Delimiter.ofOpener?_eq_some_iff.1 hd
    cases d <;> exact absurd h (by decide)
  · rw [Option.eq_none_iff_forall_ne_some]
    intro d hd
    obtain rfl := Delimiter.ofCloser?_eq_some_iff.1 hd
    cases d <;> exact absurd h (by decide)

/-- The symbol of an operator is no delimiter. -/
theorem plain_symbol (op : Operator) : Plain op.symbol := by
  cases op <;> decide

/-- A text without delimiters opens nothing. -/
theorem openers_eq_zero {s : List Char} (h : ∀ c ∈ s, Plain c) : openers s = 0 := by
  rw [openers, List.countP_eq_zero]
  intro c hc
  simp [(h c hc).1]

/-- A text without delimiters closes nothing. -/
theorem closers_eq_zero {s : List Char} (h : ∀ c ∈ s, Plain c) : closers s = 0 := by
  rw [closers, List.countP_eq_zero]
  intro c hc
  simp [(h c hc).2]

/-- In a text without delimiters no group is open at any point. -/
theorem opensAtMost_of_plain {k : Nat} {s : List Char} (h : ∀ c ∈ s, Plain c) :
    OpensAtMost k s := by
  intro p hp
  rw [openers_eq_zero fun c hc => h c (hp.subset hc)]
  exact Nat.zero_le _

/-- A character that is no delimiter opens nothing. -/
theorem openers_cons_of_plain {c : Char} (h : Plain c) (s : List Char) :
    openers (c :: s) = openers s := by
  rw [← List.singleton_append, openers_append, openers_eq_zero (by simpa using h), Nat.zero_add]

/-- A character that is no delimiter closes nothing. -/
theorem closers_cons_of_plain {c : Char} (h : Plain c) (s : List Char) :
    closers (c :: s) = closers s := by
  rw [← List.singleton_append, closers_append, closers_eq_zero (by simpa using h), Nat.zero_add]

/-- A text without delimiters is balanced. -/
theorem balanced_of_plain {s : List Char} (h : ∀ c ∈ s, Plain c) : Balanced s := by
  rw [Balanced, openers_eq_zero h, closers_eq_zero h]

/-- A literal has no delimiters. -/
theorem Literal.Parts.WellFormed.plain {p : Literal.Parts} (h : p.WellFormed) :
    ∀ c ∈ p.text, Plain c := by
  intro c hc
  rcases h.mem_text hc with rfl | hdigit | rfl
  · decide
  · exact plain_of_isDigit hdigit
  · decide

/-! ### Groups -/

/-- An opener is a delimiter. -/
theorem not_plain_opener (d : Delimiter) : ¬ Plain d.opener := by cases d <;> decide

/-- A closer is a delimiter. -/
theorem not_plain_closer (d : Delimiter) : ¬ Plain d.closer := by cases d <;> decide

@[simp] theorem openers_opener (d : Delimiter) : openers [d.opener] = 1 := by cases d <;> rfl

@[simp] theorem closers_opener (d : Delimiter) : closers [d.opener] = 0 := by cases d <;> rfl

@[simp] theorem openers_closer (d : Delimiter) : openers [d.closer] = 0 := by cases d <;> rfl

@[simp] theorem closers_closer (d : Delimiter) : closers [d.closer] = 1 := by cases d <;> rfl

/-- An opener opens one group more. -/
theorem openers_cons_opener (d : Delimiter) (s : List Char) :
    openers (d.opener :: s) = 1 + openers s := by
  rw [← List.singleton_append, openers_append, openers_opener]

/-- An opener closes nothing. -/
theorem closers_cons_opener (d : Delimiter) (s : List Char) :
    closers (d.opener :: s) = closers s := by
  rw [← List.singleton_append, closers_append, closers_opener, Nat.zero_add]

/-- A group around a balanced text is balanced. -/
theorem Balanced.group {s : List Char} (h : Balanced s) (opened closing : Delimiter) :
    Balanced (opened.opener :: (s ++ [closing.closer])) := by
  unfold Balanced at h ⊢
  rw [openers_cons_opener, closers_cons_opener, openers_append, closers_append, openers_closer,
    closers_closer]
  omega

/-- Inside a group one group more is open. -/
theorem opensAtMost_group {k : Nat} {s : List Char} (h : Balanced s) (opened closing : Delimiter) :
    OpensAtMost k (opened.opener :: (s ++ [closing.closer])) ↔ 0 < k ∧ OpensAtMost (k - 1) s := by
  have hgroup := h.group opened closing
  constructor
  · intro hk
    have hfirst := hk [opened.opener] (by simp)
    simp only [openers_opener, closers_opener] at hfirst
    refine ⟨by omega, fun p hp => ?_⟩
    have := hk (opened.opener :: p)
      ((List.prefix_cons_inj _).2 (hp.trans (List.prefix_append s [closing.closer])))
    rw [openers_cons_opener, closers_cons_opener] at this
    omega
  · -- A beginning of the group is empty, ends inside it, or is the whole of it.
    rintro ⟨hpos, hk⟩ p hp
    rcases List.prefix_cons_iff.1 hp with rfl | ⟨p, rfl, hinside⟩
    · simp [openers]
    · rcases List.prefix_concat_iff.1 hinside with rfl | hinside
      · exact hgroup.le.trans (Nat.le_add_right _ _)
      · have := hk p hinside
        rw [openers_cons_opener, closers_cons_opener]
        omega

/-- Where `n` of `k` groups are open already, a group leaves one less for its inside. -/
theorem opensAtMost_group_of_lt {k n : Nat} {s : List Char} (h : Balanced s)
    (opened closing : Delimiter) (hn : n < k) :
    OpensAtMost (k - n) (opened.opener :: (s ++ [closing.closer]))
      ↔ OpensAtMost (k - (n + 1)) s := by
  rw [opensAtMost_group h, Nat.sub_sub]
  exact and_iff_right (Nat.sub_pos_of_lt hn)

/-- An operator behind a balanced text leaves the balance to what stands behind it. -/
theorem balanced_binary {s₁ s₂ : List Char} (h : Balanced s₁) (op : Operator) :
    Balanced (s₁ ++ op.symbol :: s₂) ↔ Balanced s₂ := by
  unfold Balanced at h ⊢
  rw [openers_append, closers_append, openers_cons_of_plain (plain_symbol op),
    closers_cons_of_plain (plain_symbol op), h]
  omega

/-- An operator behind a balanced text leaves the groups on both sides as they are. -/
theorem opensAtMost_binary {k : Nat} {s₁ s₂ : List Char} (h : Balanced s₁) (op : Operator) :
    OpensAtMost k (s₁ ++ op.symbol :: s₂) ↔ OpensAtMost k s₁ ∧ OpensAtMost k s₂ := by
  have hop : ∀ c ∈ [op.symbol], Plain c := by simp [plain_symbol]
  rw [opensAtMost_append h, ← List.singleton_append, opensAtMost_append (balanced_of_plain hop)]
  exact and_congr_right fun _ => and_iff_right (opensAtMost_of_plain hop)

/-- **An expression is balanced.** It closes as many groups as it opens. -/
theorem Derives.balanced {strict : Bool} {level : Option Tier} {s : List Char} {e : Expr}
    (h : Derives strict level s e) : Balanced s := by
  induction h with
  | literal h => exact balanced_of_plain h.wellFormed.plain
  | group opened closing _ _ ih => exact ih.group opened closing
  | operand _ ih => exact ih
  | @binary op _ _ _ _ _ _ ih₁ ih₂ => exact (balanced_binary ih₁ op).2 ih₂

end InfixCalc
