import Mathlib
import InfixCalc.Proofs.Grammar

/-!
# Where operands and operators stand

A minus sign may be an operator or the sign of a literal; the character before it tells which. Here
it is said by the characters of a text alone where an operand ends, so that an operator can follow,
where one can begin, and which groups are open there.

Main statements: an expression ends as an operand does (`Derives.endsOperand`), it leaves the groups
around it as they are (`Derives.foldl_track`), and at no point of it have more groups been closed
than opened (`Derives.closers_le_openers`).
-/

namespace InfixCalc

/-- One text is divided at two places: they are one, or one of them is before the other. -/
theorem append_cons_eq_append_cons {α : Type} {s₁ s₂ p q : List α} {x y : α}
    (h : s₁ ++ x :: s₂ = p ++ y :: q) :
    (p = s₁ ∧ y = x ∧ q = s₂) ∨ (∃ r, s₁ = p ++ y :: r)
      ∨ ∃ r, p = s₁ ++ x :: r ∧ s₂ = r ++ y :: q := by
  rcases List.append_eq_append_iff.1 h with ⟨r, rfl, hr⟩ | ⟨r, rfl, hr⟩
  · cases r with
    | nil =>
        obtain ⟨rfl, rfl⟩ := List.cons.inj hr
        exact .inl ⟨List.append_nil _, rfl, rfl⟩
    | cons a r =>
        obtain ⟨rfl, rfl⟩ := List.cons.inj hr
        exact .inr (.inr ⟨r, rfl, rfl⟩)
  · cases r with
    | nil =>
        obtain ⟨rfl, rfl⟩ := List.cons.inj hr
        exact .inl ⟨(List.append_nil _).symm, rfl, rfl⟩
    | cons a r =>
        obtain ⟨rfl, rfl⟩ := List.cons.inj hr
        exact .inr (.inl ⟨r, rfl⟩)

/-! ## Where an operand ends -/

/-- A character with which an operand ends: a digit or a closer. -/
def isOperandEnd (c : Char) : Bool := Decimal.isDigit c || (Delimiter.ofCloser? c).isSome

/-- The last character of a text is one with which an operand ends. -/
def EndsOperand (s : List Char) : Prop := ∃ c, s.getLast? = some c ∧ isOperandEnd c = true

instance (s : List Char) : Decidable (EndsOperand s) :=
  decidable_of_iff (s.getLast?.any isOperandEnd = true) (by simp [EndsOperand, Option.any_eq_true])

/-- No operand ends where nothing stands. -/
theorem not_endsOperand_nil : ¬ EndsOperand [] := by
  rintro ⟨c, hc, -⟩
  cases hc

/-- Where an operand ends, something stands. -/
theorem EndsOperand.ne_nil {s : List Char} (h : EndsOperand s) : s ≠ [] := by
  rintro rfl
  exact not_endsOperand_nil h

/-- The last character decides. -/
@[simp] theorem endsOperand_concat {s : List Char} {c : Char} :
    EndsOperand (s ++ [c]) ↔ isOperandEnd c = true := by
  simp [EndsOperand]

/-- Where something stands behind a text, only that decides. -/
theorem endsOperand_append {s s' : List Char} (h : s' ≠ []) :
    EndsOperand (s ++ s') ↔ EndsOperand s' := by
  rw [EndsOperand, EndsOperand, List.getLast?_append_of_ne_nil s h]

/-- Where an operand ends, its last character is the first one, or it ends behind that. -/
theorem EndsOperand.cons_cases {c : Char} {s : List Char} (h : EndsOperand (c :: s)) :
    (s = [] ∧ isOperandEnd c = true) ∨ EndsOperand s := by
  have hend : EndsOperand ([c] ++ s) := h
  by_cases hs : s = []
  · subst hs
    exact .inl ⟨rfl, (endsOperand_concat (s := [])).1 hend⟩
  · exact .inr ((endsOperand_append hs).1 hend)

/-- A character with which no operand ends separates what stands behind it from what stands before
it. -/
theorem endsOperand_append_cons {s s' : List Char} {c : Char} (hc : isOperandEnd c = false) :
    EndsOperand (s ++ c :: s') ↔ EndsOperand s' := by
  cases s' with
  | nil => simp [hc, not_endsOperand_nil]
  | cons a s' =>
      have hassoc : s ++ c :: a :: s' = (s ++ [c]) ++ a :: s' := by simp
      rw [hassoc, endsOperand_append (List.cons_ne_nil a s')]

/-- No operand ends with an operator. -/
theorem isOperandEnd_symbol (op : Operator) : isOperandEnd op.symbol = false := by
  cases op <;> decide

/-- No operand ends with an opener. -/
theorem isOperandEnd_opener (d : Delimiter) : isOperandEnd d.opener = false := by
  cases d <;> decide

/-- A group ends as an operand does. -/
theorem isOperandEnd_closer (d : Delimiter) : isOperandEnd d.closer = true := by
  cases d <;> decide

/-- Digits end as an operand does. -/
theorem endsOperand_of_digits {ds : List Char} (hne : ds ≠ [])
    (hds : ∀ c ∈ ds, Decimal.isDigit c = true) : EndsOperand ds := by
  refine ⟨ds.getLast hne, List.getLast?_eq_some_getLast hne, ?_⟩
  rw [isOperandEnd, hds _ (List.getLast_mem hne), Bool.true_or]

/-- A literal ends with a digit. -/
theorem Literal.Parts.WellFormed.endsOperand {p : Literal.Parts} (hp : p.WellFormed) :
    EndsOperand p.text := by
  unfold Literal.Parts.text
  split
  · rw [List.append_nil, endsOperand_append hp.whole_ne_nil]
    exact endsOperand_of_digits hp.whole_ne_nil hp.whole_digits
  · next hf =>
    rw [endsOperand_append_cons (by decide)]
    exact endsOperand_of_digits hf hp.fraction_digits

/-- A digit is the symbol of no operator. -/
theorem ofSymbol?_of_isDigit {c : Char} (h : Decimal.isDigit c = true) :
    Operator.ofSymbol? c = none := by
  rw [Option.eq_none_iff_forall_ne_some]
  intro op hop
  obtain rfl := Operator.symbol_eq_of_ofSymbol? hop
  cases op <;> exact absurd h (by decide)

/-- Behind its signs a literal has no symbols of operators. -/
theorem Literal.Parts.WellFormed.ofSymbol?_unsigned {l : Literal.Parts} (hl : l.WellFormed) :
    ∀ c ∈ l.whole ++ (if l.fraction = [] then [] else '.' :: l.fraction),
      Operator.ofSymbol? c = none := by
  intro c hc
  rcases List.mem_append.1 hc with hwhole | hfraction
  · exact ofSymbol?_of_isDigit (hl.whole_digits c hwhole)
  · split at hfraction
    · exact absurd hfraction List.not_mem_nil
    · rcases List.mem_cons.1 hfraction with rfl | hmem
      · decide
      · exact ofSymbol?_of_isDigit (hl.fraction_digits c hmem)

/-- No operand ends among the signs of a literal, the only operators in it. -/
theorem Literal.Parts.WellFormed.not_endsOperand_of_symbol {l : Literal.Parts} (hl : l.WellFormed)
    {p q : List Char} {op : Operator} (h : l.text = p ++ op.symbol :: q) : ¬ EndsOperand p := by
  have hsymbol : op.symbol = '-' := by
    rcases hl.mem_text (c := op.symbol) (by rw [h]; simp) with hminus | hdigit | hpoint
    · exact hminus
    · cases op <;> exact absurd hdigit (by decide)
    · cases op <;> exact absurd hpoint (by decide)
  rw [hsymbol, Literal.Parts.text, List.append_assoc] at h
  rcases List.append_eq_append_iff.1 h with ⟨r, rfl, hr⟩ | ⟨r, hsigns, -⟩
  · -- Behind the signs stands no other one.
    have hminus : '-' ∈ l.whole ++ if l.fraction = [] then [] else '.' :: l.fraction := by
      rw [hr]
      simp
    exact absurd (hl.ofSymbol?_unsigned _ hminus) (by decide)
  · rintro ⟨c, hc, hend⟩
    have hmem : c ∈ List.replicate l.signs '-' := by
      rw [hsigns]
      exact List.mem_append_left _ (List.mem_of_getLast? hc)
    rw [List.eq_of_mem_replicate hmem] at hend
    exact absurd hend (by decide)

/-- **An expression ends as an operand does.** -/
theorem Derives.endsOperand {strict : Bool} {level : Option Tier} {s : List Char} {e : Expr}
    (h : Derives strict level s e) : EndsOperand s := by
  induction h with
  | literal h => exact h.wellFormed.endsOperand
  | @group inside e opened closing _ _ _ =>
      rw [← List.cons_append, endsOperand_concat]
      exact isOperandEnd_closer closing
  | operand _ ih => exact ih
  | @binary op s₁ s₂ _ _ _ _ _ ih₂ =>
      rw [endsOperand_append_cons (isOperandEnd_symbol op)]
      exact ih₂

/-! ## Where an operand begins -/

/-- An operand can begin behind a text: the text is empty, or ends with an opener, or with an
operator behind an operand. -/
def OperandPlace (p : List Char) : Prop :=
  p = [] ∨ (∃ q d, p = q ++ [Delimiter.opener d])
    ∨ ∃ q op, p = q ++ [Operator.symbol op] ∧ EndsOperand q

/-- The last characters of a text decide whether an operand can begin behind it. -/
theorem operandPlace_concat {q : List Char} {a : Char} :
    OperandPlace (q ++ [a])
      ↔ (∃ d, a = Delimiter.opener d) ∨ ∃ op, a = Operator.symbol op ∧ EndsOperand q := by
  constructor
  · rintro (hnil | ⟨q', d, hq⟩ | ⟨q', op, hq, hend⟩)
    · exact absurd hnil (by simp)
    · exact .inl ⟨d, by simpa using (List.append_inj' hq rfl).2⟩
    · obtain ⟨rfl, ha⟩ := List.append_inj' hq rfl
      exact .inr ⟨op, by simpa using ha, hend⟩
  · rintro (⟨d, rfl⟩ | ⟨op, rfl, hend⟩)
    · exact .inr (.inl ⟨q, d, rfl⟩)
    · exact .inr (.inr ⟨q, op, rfl, hend⟩)

/-- An operand can begin behind an opener. -/
theorem operandPlace_opener (q : List Char) (d : Delimiter) : OperandPlace (q ++ [d.opener]) :=
  operandPlace_concat.2 (.inl ⟨d, rfl⟩)

/-- An operand can begin behind an operator that stands behind an operand. -/
theorem operandPlace_symbol {q : List Char} (h : EndsOperand q) (op : Operator) :
    OperandPlace (q ++ [op.symbol]) :=
  operandPlace_concat.2 (.inr ⟨op, rfl, h⟩)

/-- No operand begins where one ends. -/
theorem OperandPlace.not_endsOperand {p : List Char} (h : OperandPlace p) : ¬ EndsOperand p := by
  rcases h with rfl | ⟨q, d, rfl⟩ | ⟨q, op, rfl, -⟩
  · exact not_endsOperand_nil
  · rw [endsOperand_concat, isOperandEnd_opener]
    exact Bool.false_ne_true
  · rw [endsOperand_concat, isOperandEnd_symbol]
    exact Bool.false_ne_true

/-- Behind a character where an operand can begin, the places of operands are those of what stands
there. -/
theorem operandPlace_append_cons {s p : List Char} {c : Char} (hc : OperandPlace (s ++ [c])) :
    OperandPlace (s ++ c :: p) ↔ OperandPlace p := by
  have hend : isOperandEnd c = false := by
    simpa using hc.not_endsOperand
  rcases List.eq_nil_or_concat' p with rfl | ⟨q, a, rfl⟩
  · exact iff_of_true hc (.inl rfl)
  · rw [← List.cons_append, ← List.append_assoc, operandPlace_concat, operandPlace_concat,
      endsOperand_append_cons hend]

/-! ## Groups that are open -/

/-- The groups that are open, from the inside out, after one character more: an opener opens a
group, and a closer closes the innermost one, of whatever kind it is. -/
def track (opened : List Delimiter) (c : Char) : List Delimiter :=
  match Delimiter.ofOpener? c with
  | some d => d :: opened
  | none => if (Delimiter.ofCloser? c).isSome then opened.tail else opened

/-- The groups that are open behind a text, from the inside out. -/
def openGroups (p : List Char) : List Delimiter := p.foldl track []

/-- An opener opens a group of its kind. -/
@[simp] theorem track_opener (opened : List Delimiter) (d : Delimiter) :
    track opened d.opener = d :: opened := by
  rw [track, Delimiter.ofOpener?_eq_some_iff.2 rfl]

/-- A closer closes the innermost group. -/
@[simp] theorem track_closer (opened : List Delimiter) (d : Delimiter) :
    track opened d.closer = opened.tail := by
  cases d <;> rfl

/-- A character that is no delimiter leaves the groups as they are. -/
theorem track_of_plain {c : Char} (h : Plain c) (opened : List Delimiter) :
    track opened c = opened := by
  rw [track, h.1, h.2]
  rfl

/-- A text without delimiters leaves the groups as they are. -/
theorem foldl_track_of_plain {s : List Char} (h : ∀ c ∈ s, Plain c) (opened : List Delimiter) :
    s.foldl track opened = opened := by
  induction s with
  | nil => rfl
  | cons c s ih =>
      rw [List.foldl_cons, track_of_plain (h c List.mem_cons_self)]
      exact ih fun a ha => h a (List.mem_cons_of_mem c ha)

/-- **An expression leaves the groups around it as they are.** -/
theorem Derives.foldl_track {strict : Bool} {level : Option Tier} {s : List Char} {e : Expr}
    (h : Derives strict level s e) (opened : List Delimiter) : s.foldl track opened = opened := by
  induction h generalizing opened with
  | literal h => exact foldl_track_of_plain h.wellFormed.plain opened
  | group d closing _ _ ih =>
      rw [List.foldl_cons, track_opener, List.foldl_concat, ih, track_closer, List.tail_cons]
  | operand _ ih => exact ih opened
  | @binary op s₁ s₂ _ _ _ _ ih₁ ih₂ =>
      rw [List.foldl_append, ih₁, List.foldl_cons, track_of_plain (plain_symbol op), ih₂]

/-! ## Groups that have been closed -/

/-- **At no point of an expression have more groups been closed than opened.** -/
theorem Derives.closers_le_openers {strict : Bool} {level : Option Tier} {s p : List Char}
    {e : Expr} (h : Derives strict level s e) (hp : p <+: s) : closers p ≤ openers p := by
  induction h generalizing p with
  | literal h =>
      rw [closers_eq_zero fun c hc => h.wellFormed.plain c (hp.subset hc)]
      exact Nat.zero_le _
  | @group inside e opened closing _ h ih =>
      -- A beginning of the group is empty, ends inside it, or is the whole of it.
      rcases List.prefix_cons_iff.1 hp with rfl | ⟨p, rfl, hinside⟩
      · exact le_rfl
      · rcases List.prefix_concat_iff.1 hinside with rfl | hinside
        · exact (h.balanced.group opened closing).ge
        · have := ih hinside
          rw [openers_cons_opener, closers_cons_opener]
          omega
  | operand _ ih => exact ih hp
  | @binary op s₁ s₂ _ _ h₁ _ ih₁ ih₂ =>
      rcases List.prefix_or_prefix_of_prefix hp (List.prefix_append s₁ _) with hps | ⟨p', rfl⟩
      · exact ih₁ hps
      · have hbalanced : openers s₁ = closers s₁ := h₁.balanced
        rcases List.prefix_cons_iff.1 ((List.prefix_append_right_inj s₁).1 hp)
          with rfl | ⟨p, rfl, hp₂⟩
        · rw [List.append_nil, hbalanced]
        · have := ih₂ hp₂
          rw [openers_append, closers_append, openers_cons_of_plain (plain_symbol op),
            closers_cons_of_plain (plain_symbol op)]
          omega

end InfixCalc
