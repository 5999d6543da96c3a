import Mathlib
import InfixCalc.Proofs.Literal
import InfixCalc.Proofs.Parser.Descent

/-!
# What reading a text comes to

All ways in which reading can end, as rules: with a tree and the text that is left, or with an
error. Facts about all readings are proved by induction over these rules, and the outcome on a given
text is found by applying them.

Main statements: the rules describe the reader by descent (`reads_iff`), so each text has exactly
one outcome (`Reads.unique`).
-/

namespace InfixCalc

namespace Parser

/-! ## The front of a text -/

/-- Another character than the symbols of a tier is read as no operator of it. -/
theorem operator_eq_none_iff {t : Tier} {text : List Char} :
    operator t text = none ↔ ∀ op : Operator, op.tier = t → text.head? ≠ some op.symbol := by
  cases text with
  | nil => simp [operator]
  | cons c rest =>
      rw [operator, Option.map_eq_none_iff, Option.eq_none_iff_forall_ne_some]
      constructor
      · intro h op ht hc
        exact h op (Tier.operator?_eq_some_iff.2 ⟨(Option.some.inj hc).symm, ht⟩)
      · intro h op hop
        obtain ⟨rfl, ht⟩ := Tier.operator?_eq_some_iff.1 hop
        exact h op ht rfl

/-- The symbol of an operator is read as that operator. -/
theorem operator_symbol (op : Operator) (rest : List Char) :
    operator op.tier (op.symbol :: rest) = some (.first op op.symbol rest) := by
  rw [operator, Tier.operator?_eq_some_iff.2 ⟨rfl, rfl⟩, Option.map_some]

/-- An operator that is read belongs to the tier and its symbol stands at the front. -/
theorem of_operator_eq_some {t : Tier} {text : List Char} {r : Reading Operator text}
    (h : operator t text = some r) : r.value.tier = t ∧ text = r.value.symbol :: r.rest := by
  cases text with
  | nil => cases h
  | cons c rest =>
      obtain ⟨op, hop, rfl⟩ := Option.map_eq_some_iff.1 h
      obtain ⟨rfl, rfl⟩ := Tier.operator?_eq_some_iff.1 hop
      exact ⟨rfl, rfl⟩

/-- No closer is read where none may end the group. -/
theorem closer_eq_none_iff {c : Config} {d : Delimiter} {text : List Char} :
    closer c d text = none
      ↔ ∀ last, text.head? = some last → Delimiter.closes c.strictDelimiters d last = false := by
  cases text with
  | nil => simp [closer]
  | cons last rest => simp [closer]

/-- A closer that may end the group is read. -/
theorem closer_cons {c : Config} {d : Delimiter} {last : Char} (rest : List Char)
    (h : Delimiter.closes c.strictDelimiters d last = true) :
    closer c d (last :: rest) = some (.first last last rest) := by
  rw [closer, if_pos h]

/-- A closer that is read stands at the front and may end the group. -/
theorem of_closer_eq_some {c : Config} {d : Delimiter} {text : List Char} {r : Reading Char text}
    (h : closer c d text = some r) :
    Delimiter.closes c.strictDelimiters d r.value = true ∧ text = r.value :: r.rest := by
  cases text with
  | nil => cases h
  | cons last rest =>
      rw [closer] at h
      split at h
      · next hlast =>
        obtain rfl := Option.some.inj h
        exact ⟨hlast, rfl⟩
      · cases h

/-- An opener is not the beginning of a literal. -/
theorem longest?_opener (d : Delimiter) (inside : List Char) :
    Literal.longest? (d.opener :: inside) = none := by
  rw [Literal.longest?_eq_none_iff]
  cases d <;> simp [Delimiter.opener] <;> decide

/-- A character is no opener just if it opens neither kind of group. -/
theorem ofOpener?_eq_none_iff {c : Char} :
    Delimiter.ofOpener? c = none ↔ ∀ d : Delimiter, c ≠ d.opener := by
  simp only [Option.eq_none_iff_forall_ne_some, ne_eq, Delimiter.ofOpener?_eq_some_iff]

/-! ## Outcomes -/

/-- What reading a text at a level comes to, inside `nesting` open groups: a tree and the text that
is left, or an error. -/
inductive Reads (c : Config) :
    Option Tier → Nat → List Char → Except ParseError (Expr × List Char) → Prop
  /-- A literal with a value is read. -/
  | literal {n : Nat} {text rest : List Char} {p : Literal.Parts} {x : Binary64}
      (hl : Literal.longest? text = some (p, rest)) (hx : p.number? = some x) :
      Reads c none n text (.ok (.value x, rest))
  /-- A literal without a value is refused. -/
  | badLiteral {n : Nat} {text rest : List Char} {p : Literal.Parts}
      (hl : Literal.longest? text = some (p, rest)) (hx : p.number? = none) :
      Reads c none n text (.error (.badLiteral (String.ofList p.text)))
  /-- Neither a literal nor a group stands at the front. -/
  | noAtom {n : Nat} {text : List Char} (hl : Literal.longest? text = none)
      (ho : ∀ d : Delimiter, text.head? ≠ some d.opener) :
      Reads c none n text (.error (unexpected text))
  /-- A group is opened where no more may be. -/
  | nestedTooDeep {n : Nat} {inside : List Char} (d : Delimiter) (hn : c.maxDepth ≤ n) :
      Reads c none n (d.opener :: inside) (.error (.nestedTooDeep c.maxDepth))
  /-- Inside a group something is wrong. -/
  | inside {n : Nat} {inside : List Char} {err : ParseError} (d : Delimiter) (hn : n < c.maxDepth)
      (h : Reads c (some .additive) (n + 1) inside (.error err)) :
      Reads c none n (d.opener :: inside) (.error err)
  /-- A group is not closed where its expression ends. -/
  | unclosed {n : Nat} {inside rest : List Char} {e : Expr} (d : Delimiter) (hn : n < c.maxDepth)
      (h : Reads c (some .additive) (n + 1) inside (.ok (e, rest)))
      (hc : ∀ last, rest.head? = some last → Delimiter.closes c.strictDelimiters d last = false) :
      Reads c none n (d.opener :: inside) (.error (unexpected rest))
  /-- A group is read. -/
  | group {n : Nat} {inside rest : List Char} {last : Char} {e : Expr} (d : Delimiter)
      (hn : n < c.maxDepth) (h : Reads c (some .additive) (n + 1) inside (.ok (e, last :: rest)))
      (hc : Delimiter.closes c.strictDelimiters d last = true) :
      Reads c none n (d.opener :: inside) (.ok (e, rest))
  /-- Something is wrong with the first operand. -/
  | left {n : Nat} {t : Tier} {text : List Char} {err : ParseError}
      (h : Reads c t.tighter n text (.error err)) : Reads c (some t) n text (.error err)
  /-- An operand is read that no operator of the tier follows. -/
  | operand {n : Nat} {t : Tier} {text rest : List Char} {e : Expr}
      (h : Reads c t.tighter n text (.ok (e, rest)))
      (hop : ∀ op : Operator, op.tier = t → rest.head? ≠ some op.symbol) :
      Reads c (some t) n text (.ok (e, rest))
  /-- Something is wrong behind an operator. -/
  | right {n : Nat} {op : Operator} {text rest : List Char} {e : Expr} {err : ParseError}
      (h₁ : Reads c op.tier.tighter n text (.ok (e, op.symbol :: rest)))
      (h₂ : Reads c (some op.tier) n rest (.error err)) :
      Reads c (some op.tier) n text (.error err)
  /-- The operands of an operator would be too deep in the tree. -/
  | treeTooDeep {n : Nat} {op : Operator} {text rest rest' : List Char} {e₁ e₂ : Expr}
      (h₁ : Reads c op.tier.tighter n text (.ok (e₁, op.symbol :: rest)))
      (h₂ : Reads c (some op.tier) n rest (.ok (e₂, rest')))
      (hd : c.maxTreeDepth < (Expr.binary op e₁ e₂).depth) :
      Reads c (some op.tier) n text (.error (.treeTooDeep c.maxTreeDepth))
  /-- An operator is read with its operands. -/
  | binary {n : Nat} {op : Operator} {text rest rest' : List Char} {e₁ e₂ : Expr}
      (h₁ : Reads c op.tier.tighter n text (.ok (e₁, op.symbol :: rest)))
      (h₂ : Reads c (some op.tier) n rest (.ok (e₂, rest')))
      (hd : (Expr.binary op e₁ e₂).depth ≤ c.maxTreeDepth) :
      Reads c (some op.tier) n text (.ok (.binary op e₁ e₂, rest'))

variable {c : Config} {level : Option Tier} {n : Nat} {text : List Char}

/-- Behind an operand stands the operator that is read there. -/
theorem Reads.of_operator {t : Tier} {rest : List Char} {e : Expr} {op : Reading Operator rest}
    (h : Reads c t.tighter n text (.ok (e, rest))) (hop : operator t rest = some op) :
    op.value.tier = t ∧ Reads c t.tighter n text (.ok (e, op.value.symbol :: op.rest)) := by
  obtain ⟨ht, hrest⟩ := of_operator_eq_some hop
  refine ⟨ht, ?_⟩
  rw [← hrest]
  exact h

/-- Behind the expression inside a group stands the closer that is read there. -/
theorem Reads.of_closer {d : Delimiter} {rest : List Char} {e : Expr} {last : Reading Char rest}
    (h : Reads c level n text (.ok (e, rest))) (hlast : closer c d rest = some last) :
    Delimiter.closes c.strictDelimiters d last.value = true
      ∧ Reads c level n text (.ok (e, last.value :: last.rest)) := by
  obtain ⟨hc, hrest⟩ := of_closer_eq_some hlast
  refine ⟨hc, ?_⟩
  rw [← hrest]
  exact h

/-- A reading as a tree and the text that is left. -/
def seen (r : Reading Expr text) : Expr × List Char := (r.value, r.rest)

/-- The reader by descent follows the rules. -/
theorem reads_descend (c : Config) (level : Option Tier) (n : Nat) (text : List Char) :
    Reads c level n text ((descend c level n text).map seen) := by
  fun_induction descend c level n text with
  | case1 n text t err h ih =>
      rw [h] at ih
      exact .left ih
  | case2 n text t left h hop ih =>
      rw [h] at ih
      exact .operand ih (operator_eq_none_iff.1 hop)
  | case3 n text t left h op hop _ err h' ih ih' =>
      rw [h] at ih
      rw [h'] at ih'
      obtain ⟨rfl, ih⟩ := ih.of_operator hop
      exact .right ih ih'
  | case4 n text t left h op hop _ right h' tree hd ih ih' =>
      rw [h] at ih
      rw [h'] at ih'
      obtain ⟨rfl, ih⟩ := ih.of_operator hop
      exact .treeTooDeep ih ih' hd
  | case5 n text t left h op hop _ right h' tree hd ih ih' =>
      rw [h] at ih
      rw [h'] at ih'
      obtain ⟨rfl, ih⟩ := ih.of_operator hop
      exact .binary ih ih' (Nat.le_of_not_lt hd)
  | case6 n text literal h =>
      have hfinds := Literal.finds_read text
      rw [h] at hfinds
      cases hfinds with
      | refused hl hx => exact .badLiteral hl hx
  | case7 n text number h =>
      have hfinds := Literal.finds_read text
      rw [h] at hfinds
      cases hfinds with
      | read hl hx => exact .literal hl hx
  | case8 n _ _ => exact .noAtom rfl (by simp)
  | case9 n _ first inside ho h =>
      have hfinds := Literal.finds_read (first :: inside)
      rw [h] at hfinds
      cases hfinds with
      | absent hl =>
          exact .noAtom hl fun d hd => ofOpener?_eq_none_iff.1 ho d (Option.some.inj hd)
  | case10 n _ first inside d ho hn _ =>
      obtain rfl := Delimiter.ofOpener?_eq_some_iff.1 ho
      exact .nestedTooDeep d hn
  | case11 n _ first inside d ho hn err h _ ih =>
      rw [h] at ih
      obtain rfl := Delimiter.ofOpener?_eq_some_iff.1 ho
      exact .inside d (Nat.lt_of_not_le hn) ih
  | case12 n _ first inside d ho hn inner h hc _ ih =>
      rw [h] at ih
      obtain rfl := Delimiter.ofOpener?_eq_some_iff.1 ho
      exact .unclosed d (Nat.lt_of_not_le hn) ih (closer_eq_none_iff.1 hc)
  | case13 n _ first inside d ho hn inner h last hc _ ih =>
      rw [h] at ih
      obtain rfl := Delimiter.ofOpener?_eq_some_iff.1 ho
      obtain ⟨hlast, ih⟩ := ih.of_closer hc
      exact .group d (Nat.lt_of_not_le hn) ih hlast

/-- An error is seen as it is. -/
theorem eq_error_of_seen {x : Except ParseError (Reading Expr text)} {err : ParseError}
    (h : x.map seen = .error err) : x = .error err := by
  cases x with
  | error err' => simpa [Except.map] using h
  | ok r => cases h

/-- What is seen of a reading is all there is. -/
theorem eq_ok_of_seen {x : Except ParseError (Reading Expr text)} {e : Expr} {rest : List Char}
    (h : x.map seen = .ok (e, rest)) : ∃ hlt, x = .ok ⟨e, rest, hlt⟩ := by
  cases x with
  | error err => cases h
  | ok r =>
      obtain ⟨rfl, rfl⟩ : r.value = e ∧ r.rest = rest := by simpa [Except.map, seen] using h
      exact ⟨r.shorter, rfl⟩

/-- What the rules allow is what the reader by descent finds. -/
theorem Reads.descend_eq {o : Except ParseError (Expr × List Char)} (h : Reads c level n text o) :
    (descend c level n text).map seen = o := by
  induction h with
  | literal hl hx =>
      rw [descend.eq_def, Literal.read_of_value hl hx]
      rfl
  | badLiteral hl hx =>
      rw [descend.eq_def, Literal.read_of_refused hl hx]
      rfl
  | @noAtom n text hl ho =>
      rw [descend.eq_def, Literal.read_of_none hl]
      cases text with
      | nil => rfl
      | cons first inside =>
          have hfirst : Delimiter.ofOpener? first = none :=
            ofOpener?_eq_none_iff.2 fun d hd => ho d (congrArg some hd)
          simp only [hfirst]
          rfl
  | @nestedTooDeep n inside d hn =>
      rw [descend.eq_def, Literal.read_of_none (longest?_opener d inside)]
      simp only [Delimiter.ofOpener?_eq_some_iff.2 rfl, if_pos hn]
      rfl
  | @inside n inside err d hn _ ih =>
      rw [descend.eq_def, Literal.read_of_none (longest?_opener d inside)]
      simp only [Delimiter.ofOpener?_eq_some_iff.2 rfl, if_neg (Nat.not_le_of_lt hn),
        eq_error_of_seen ih]
      rfl
  | @unclosed n inside rest e d hn _ hc ih =>
      obtain ⟨hlt, h⟩ := eq_ok_of_seen ih
      rw [descend.eq_def, Literal.read_of_none (longest?_opener d inside)]
      simp only [Delimiter.ofOpener?_eq_some_iff.2 rfl, if_neg (Nat.not_le_of_lt hn), h,
        closer_eq_none_iff.2 hc]
      rfl
  | @group n inside rest last e d hn _ hc ih =>
      obtain ⟨hlt, h⟩ := eq_ok_of_seen ih
      rw [descend.eq_def, Literal.read_of_none (longest?_opener d inside)]
      simp only [Delimiter.ofOpener?_eq_some_iff.2 rfl, if_neg (Nat.not_le_of_lt hn), h,
        closer_cons rest hc]
      rfl
  | left _ ih =>
      rw [descend, eq_error_of_seen ih]
      rfl
  | operand _ hop ih =>
      obtain ⟨hlt, h⟩ := eq_ok_of_seen ih
      rw [descend, h]
      simp only [operator_eq_none_iff.2 hop]
      rfl
  | right _ _ ih₁ ih₂ =>
      obtain ⟨hlt, h⟩ := eq_ok_of_seen ih₁
      rw [descend, h]
      simp only [operator_symbol, Reading.first, eq_error_of_seen ih₂]
      rfl
  | treeTooDeep _ _ hd ih₁ ih₂ =>
      obtain ⟨hlt, h⟩ := eq_ok_of_seen ih₁
      obtain ⟨hlt', h'⟩ := eq_ok_of_seen ih₂
      rw [descend, h]
      simp only [operator_symbol, Reading.first, h', if_pos hd]
      rfl
  | binary _ _ hd ih₁ ih₂ =>
      obtain ⟨hlt, h⟩ := eq_ok_of_seen ih₁
      obtain ⟨hlt', h'⟩ := eq_ok_of_seen ih₂
      rw [descend, h]
      simp only [operator_symbol, Reading.first, h', if_neg (Nat.not_lt_of_le hd)]
      rfl

/-- Reading a text comes to something. -/
theorem exists_reads (c : Config) (level : Option Tier) (n : Nat) (text : List Char) :
    ∃ o, Reads c level n text o :=
  ⟨_, reads_descend c level n text⟩

/-- **The rules describe the reader by descent.** -/
theorem reads_iff {o : Except ParseError (Expr × List Char)} :
    Reads c level n text o ↔ (descend c level n text).map seen = o := by
  constructor
  · exact Reads.descend_eq
  · rintro rfl
    exact reads_descend c level n text

/-- Reading a text comes to one thing only. -/
theorem Reads.unique {o o' : Except ParseError (Expr × List Char)} (h : Reads c level n text o)
    (h' : Reads c level n text o') : o = o' :=
  h.descend_eq.symm.trans h'.descend_eq

end Parser

end InfixCalc
