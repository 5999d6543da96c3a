import Mathlib
import InfixCalc.Proofs.Places
import InfixCalc.Proofs.Parser.ChainTree

/-!
# The tokens of a text

A text is cut into literals, operators and delimiters from left to right, by its characters alone:
each delimiter is a token, and so is the symbol of an operator behind an operand; what stands
between such tokens are literals. No grammar and no tier has a part in this.

Main statements: the tokens of a text, one after the other, are the text
(`flatMap_text_tokensFrom`); and the literals and operators of an expression denote the numbers and
operators of its tree, each one once and in their order (`Derives.denotes_items`).
-/

namespace InfixCalc

/-! ## Tokens -/

/-- A part of a text that is not divided further. -/
inductive Token where
  | literal (text : List Char)
  | operator (op : Operator)
  | delimiter (c : Char)
  deriving DecidableEq, Repr

namespace Token

variable {behind : Bool} {c : Char} {t : Token}

/-- The characters of a token. -/
def text : Token → List Char
  | literal text => text
  | operator op => [op.symbol]
  | delimiter c => [c]

/-- Whether a token is a delimiter. -/
def isDelimiter : Token → Bool
  | delimiter _ => true
  | _ => false

/-- The token that a character is by itself; `behind` tells whether an operand ends in front of it.
All other characters are parts of literals. -/
def ofChar? (behind : Bool) (c : Char) : Option Token :=
  if Plain c then
    if behind then (Operator.ofSymbol? c).map operator else none
  else some (delimiter c)

/-- Puts a character of a literal in front of tokens. If a literal comes first, the character is its
first one. -/
def extend (c : Char) : List Token → List Token
  | literal text :: tokens => literal (c :: text) :: tokens
  | tokens => literal [c] :: tokens

/-- A character that is a token by itself is a delimiter or the symbol of an operator. -/
theorem ofChar?_cases (h : ofChar? behind c = some t) :
    t = delimiter c ∨ ∃ op : Operator, op.symbol = c ∧ t = operator op := by
  unfold ofChar? at h
  split at h
  · split at h
    · obtain ⟨op, hop, rfl⟩ := Option.map_eq_some_iff.1 h
      exact .inr ⟨op, Operator.symbol_eq_of_ofSymbol? hop, rfl⟩
    · cases h
  · exact .inl (Option.some.inj h).symm

/-- Such a token has this one character. -/
theorem text_of_ofChar? (h : ofChar? behind c = some t) : t.text = [c] := by
  rcases ofChar?_cases h with rfl | ⟨op, rfl, rfl⟩ <;> rfl

/-- A delimiter is a token by itself. -/
theorem ofChar?_of_not_plain (behind : Bool) (h : ¬ Plain c) :
    ofChar? behind c = some (delimiter c) := by
  rw [ofChar?, if_neg h]

/-- Behind an operand the symbol of an operator is a token by itself. -/
theorem ofChar?_symbol (op : Operator) : ofChar? true op.symbol = some (operator op) := by
  rw [ofChar?, if_pos (plain_symbol op), Operator.ofSymbol?_symbol]
  rfl

/-- A character that is neither a delimiter nor the symbol of an operator is part of a literal. -/
theorem ofChar?_eq_none (behind : Bool) (hplain : Plain c) (hop : Operator.ofSymbol? c = none) :
    ofChar? behind c = none := by
  rw [ofChar?, if_pos hplain, hop]
  cases behind <;> rfl

/-- A character in front of tokens is the first one of their text. -/
theorem flatMap_text_extend (c : Char) (tokens : List Token) :
    (extend c tokens).flatMap text = c :: tokens.flatMap text := by
  unfold extend
  split
  · simp [text]
  · simp [text]

/-- In front of a token that is one character, tokens are extended apart from what stands behind. -/
theorem extend_append_cons (h : ofChar? behind c = some t) (a : Char)
    (tokens tokens' : List Token) :
    extend a (tokens ++ t :: tokens') = extend a tokens ++ t :: tokens' := by
  cases tokens with
  | nil => rcases ofChar?_cases h with rfl | ⟨op, rfl, rfl⟩ <;> rfl
  | cons first tokens => cases first <;> rfl

/-- A token stands for a number or an operator of an expression: a literal for its value, and the
symbol of an operator for that operator. -/
inductive Denotes : Token → Expr.Item → Prop
  | number {p : Literal.Parts} {x : Binary64} (h : p.Denotes x) :
      Denotes (literal p.text) (.number x)
  | operator (op : Operator) : Denotes (operator op) (.operator op)

end Token

/-! ## Cutting a text -/

open Token (ofChar? extend)

/-- The tokens of a text; `behind` tells whether an operand ends in front of the text. -/
def tokensFrom (behind : Bool) : List Char → List Token
  | [] => []
  | c :: s =>
    -- An operand ends behind a digit and behind a closer, whatever stands in front of them.
    match ofChar? behind c with
    | some t => t :: tokensFrom (isOperandEnd c) s
    | none => extend c (tokensFrom (isOperandEnd c) s)

/-- The literals and operators of a text, from left to right. -/
def literalsAndOperators (s : List Char) : List Token :=
  (tokensFrom false s).filter fun t => !t.isDelimiter

variable {behind : Bool} {c : Char} {s : List Char} {t : Token}

/-- A character that is a token by itself. -/
theorem tokensFrom_cons_of_some (h : ofChar? behind c = some t) (s : List Char) :
    tokensFrom behind (c :: s) = t :: tokensFrom (isOperandEnd c) s := by
  rw [tokensFrom, h]

/-- A character of a literal. -/
theorem tokensFrom_cons_of_none (h : ofChar? behind c = none) (s : List Char) :
    tokensFrom behind (c :: s) = extend c (tokensFrom (isOperandEnd c) s) := by
  rw [tokensFrom, h]

/-- **The tokens of a text are the text,** one after the other. -/
theorem flatMap_text_tokensFrom (behind : Bool) (s : List Char) :
    (tokensFrom behind s).flatMap Token.text = s := by
  induction s generalizing behind with
  | nil => rfl
  | cons c s ih =>
      cases h : ofChar? behind c with
      | some t =>
          rw [tokensFrom_cons_of_some h, List.flatMap_cons, Token.text_of_ofChar? h, ih]
          rfl
      | none => rw [tokensFrom_cons_of_none h, Token.flatMap_text_extend, ih]

/-- Behind an operand, a character that is a token by itself parts the text: what stands on its two
sides is cut apart from each other. -/
theorem tokensFrom_append_cons (h : EndsOperand s) (hc : ofChar? true c = some t) (behind : Bool)
    (s' : List Char) :
    tokensFrom behind (s ++ c :: s')
      = tokensFrom behind s ++ t :: tokensFrom (isOperandEnd c) s' := by
  induction s generalizing behind with
  | nil => exact absurd h not_endsOperand_nil
  | cons a s ih =>
      have hrest : tokensFrom (isOperandEnd a) (s ++ c :: s')
          = tokensFrom (isOperandEnd a) s ++ t :: tokensFrom (isOperandEnd c) s' := by
        rcases h.cons_cases with ⟨rfl, ha⟩ | hend
        · rw [ha]
          exact tokensFrom_cons_of_some hc s'
        · exact ih hend _
      rw [List.cons_append]
      cases ha : ofChar? behind a with
      | some u =>
          rw [tokensFrom_cons_of_some ha, tokensFrom_cons_of_some ha, hrest, List.cons_append]
      | none =>
          rw [tokensFrom_cons_of_none ha, tokensFrom_cons_of_none ha, hrest,
            Token.extend_append_cons hc]

/-- Characters that are no tokens by themselves are one literal. -/
theorem tokensFrom_run (hne : s ≠ []) (h : ∀ c ∈ s, ∀ behind, ofChar? behind c = none)
    (behind : Bool) : tokensFrom behind s = [.literal s] := by
  induction s generalizing behind with
  | nil => exact absurd rfl hne
  | cons c s ih =>
      rw [tokensFrom_cons_of_none (h c List.mem_cons_self behind)]
      cases s with
      | nil => rfl
      | cons a s =>
          rw [ih (List.cons_ne_nil a s) fun b hb => h b (List.mem_cons_of_mem c hb)]
          rfl

/-- Signs in front of a literal are part of it. -/
theorem tokensFrom_signs (n : Nat) (h : tokensFrom false s = [.literal s]) :
    tokensFrom false (List.replicate n '-' ++ s) = [.literal (List.replicate n '-' ++ s)] := by
  induction n with
  | zero => exact h
  | succ n ih =>
      have hsign : ofChar? false '-' = none := by decide
      have hend : isOperandEnd '-' = false := by decide
      rw [List.replicate_succ, List.cons_append, tokensFrom_cons_of_none hsign, hend, ih]
      rfl

/-! ## The tokens of an expression -/

/-- A literal is one token. -/
theorem Literal.Parts.WellFormed.literalsAndOperators_text {p : Literal.Parts} (hp : p.WellFormed) :
    literalsAndOperators p.text = [.literal p.text] := by
  have htext : p.text = List.replicate p.signs '-'
      ++ (p.whole ++ if p.fraction = [] then [] else '.' :: p.fraction) := List.append_assoc _ _ _
  have hunsigned : ∀ c ∈ p.whole ++ (if p.fraction = [] then [] else '.' :: p.fraction),
      ∀ behind, ofChar? behind c = none := by
    intro c hc behind
    refine Token.ofChar?_eq_none behind (hp.plain c ?_) (hp.ofSymbol?_unsigned c hc)
    rw [htext]
    exact List.mem_append_right _ hc
  have hne : p.whole ++ (if p.fraction = [] then [] else '.' :: p.fraction) ≠ [] :=
    List.append_ne_nil_of_left_ne_nil hp.whole_ne_nil _
  rw [literalsAndOperators, htext, tokensFrom_signs p.signs (tokensFrom_run hne hunsigned false)]
  rfl

/-- Delimiters around an operand are left out. -/
theorem literalsAndOperators_group (h : EndsOperand s) (opened closing : Delimiter) :
    literalsAndOperators (opened.opener :: (s ++ [closing.closer])) = literalsAndOperators s := by
  have hopener := Token.ofChar?_of_not_plain false (not_plain_opener opened)
  have hcloser := Token.ofChar?_of_not_plain true (not_plain_closer closing)
  rw [literalsAndOperators, tokensFrom_cons_of_some hopener, isOperandEnd_opener,
    tokensFrom_append_cons h hcloser]
  simp [literalsAndOperators, Token.isDelimiter, tokensFrom]

/-- An operator behind an operand stands between what is cut from its two sides. -/
theorem literalsAndOperators_binary (h : EndsOperand s) (op : Operator) (s' : List Char) :
    literalsAndOperators (s ++ op.symbol :: s')
      = literalsAndOperators s ++ .operator op :: literalsAndOperators s' := by
  rw [literalsAndOperators, tokensFrom_append_cons h (Token.ofChar?_symbol op), List.filter_append,
    isOperandEnd_symbol]
  rfl

/-- A minus sign is an operator behind an operand only. -/
example : literalsAndOperators "1-[-2.5)*-3".toList
    = [.literal ['1'], .operator .sub, .literal ['-', '2', '.', '5'], .operator .mul,
        .literal ['-', '3']] := by
  decide

/-- **The literals and operators of an expression denote the numbers and operators of its tree,**
each one once and in their order. -/
theorem Derives.denotes_items {strict : Bool} {level : Option Tier} {s : List Char} {e : Expr}
    (h : Derives strict level s e) :
    List.Forall₂ Token.Denotes (literalsAndOperators s) e.items := by
  induction h with
  | literal h =>
      rw [h.wellFormed.literalsAndOperators_text, Expr.items]
      exact .cons (.number h) .nil
  | group opened closing _ h ih =>
      rw [literalsAndOperators_group h.endsOperand]
      exact ih
  | operand _ ih => exact ih
  | @binary op s₁ s₂ _ _ h₁ _ ih₁ ih₂ =>
      rw [literalsAndOperators_binary h₁.endsOperand, Expr.items]
      exact List.rel_append ih₁ (.cons (.operator op) ih₂)

end InfixCalc
