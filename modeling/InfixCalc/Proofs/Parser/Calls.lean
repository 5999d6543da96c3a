import Mathlib
import InfixCalc.Proofs.Places
import InfixCalc.Proofs.Parser.Acceptance

/-!
# The calls of the parser

Reading a text, the parser calls its readers on what is left of it. The calls are those that the
bodies of the readers make, one rule for each of them, from the first call on.

Main statement: an operand is read only where one can begin, and links only where an operand ends
(`Calls.exists_place`).
-/

namespace InfixCalc

namespace Parser

/-! ## Calls -/

/-- The readers of the parser. -/
inductive Reader where
  | tier (t : Tier)
  | links (t : Tier)
  | operand (t : Tier)
  | atom
  | group
  deriving DecidableEq, Repr

/-- A call of a reader: inside a number of open groups, on a text. -/
structure Call where
  reader : Reader
  nesting : Nat
  text : List Char

/-- A call makes another one. -/
inductive Makes (c : Config) : Call → Call → Prop
  /-- An expression of a tier begins with an operand. -/
  | first {t : Tier} {n : Nat} {text : List Char} :
      Makes c ⟨.tier t, n, text⟩ ⟨.operand t, n, text⟩
  /-- Behind the first operand of a chain stand its links. -/
  | links {t : Tier} {n : Nat} {text : List Char} {first : Reading Node text}
      (hfirst : operand c t n text = .ok first) :
      Makes c ⟨.tier t, n, text⟩ ⟨.links t, n, first.rest⟩
  /-- Behind an operator stands an operand. -/
  | next {t : Tier} {n : Nat} {text : List Char} {op : Reading Operator text}
      (hop : operator t text = some op) : Makes c ⟨.links t, n, text⟩ ⟨.operand t, n, op.rest⟩
  /-- Behind that operand stand the other links. -/
  | more {t : Tier} {n : Nat} {text : List Char} {op : Reading Operator text}
      {next : Reading Node op.rest} (hop : operator t text = some op)
      (hnext : operand c t n op.rest = .ok next) :
      Makes c ⟨.links t, n, text⟩ ⟨.links t, n, next.rest⟩
  /-- An operand is an expression of the next tighter tier. -/
  | tighter {t tighter : Tier} {n : Nat} {text : List Char} (ht : t.tighter = some tighter) :
      Makes c ⟨.operand t, n, text⟩ ⟨.tier tighter, n, text⟩
  /-- An operand of the tightest tier is an atom. -/
  | atom {t : Tier} {n : Nat} {text : List Char} (ht : t.tighter = none) :
      Makes c ⟨.operand t, n, text⟩ ⟨.atom, n, text⟩
  /-- Where no literal stands, a group is tried. -/
  | group {n : Nat} {text : List Char} {rest : List Char} (hl : Literal.read text = .absent rest) :
      Makes c ⟨.atom, n, text⟩ ⟨.group, n, text⟩
  /-- Inside a group stands an expression of the loosest tier. -/
  | inside {n : Nat} {first : Char} {inside : List Char} {d : Delimiter}
      (ho : Delimiter.ofOpener? first = some d) (hn : n < c.maxDepth) :
      Makes c ⟨.group, n, first :: inside⟩ ⟨.tier .additive, n + 1, inside⟩

/-- Reading a whole text, the parser calls a reader inside a number of open groups on what is
left. -/
inductive Calls (c : Config) (input : List Char) : Reader → Nat → List Char → Prop
  /-- The text is read as an expression of the loosest tier. -/
  | start : Calls c input (.tier .additive) 0 input
  /-- A call makes another one. -/
  | made {reader reader' : Reader} {n n' : Nat} {text text' : List Char}
      (h : Calls c input reader n text) (hmakes : Makes c ⟨reader, n, text⟩ ⟨reader', n', text'⟩) :
      Calls c input reader' n' text'

variable {c : Config} {input text : List Char} {t : Tier} {n : Nat}

/-- An operand of any tier begins with an atom. -/
theorem Calls.atom_of_operand (h : Calls c input (.operand t) n text) :
    Calls c input .atom n text := by
  cases t with
  | additive =>
      have hproduct := (h.made (.tighter rfl)).made .first
      exact ((hproduct.made (.tighter rfl)).made .first).made (.atom rfl)
  | multiplicative => exact ((h.made (.tighter rfl)).made .first).made (.atom rfl)
  | power => exact h.made (.atom rfl)

/-- An operand that the rules read is read by the parser. -/
theorem exists_operand_of_reads {e : Expr} {rest : List Char}
    (h : Reads c t.tighter n text (.ok (e, rest))) :
    ∃ r : Reading Node text, operand c t n text = .ok r ∧ r.rest = rest := by
  have hfollows := operand_follows c t n text
  cases hr : operand c t n text with
  | error err =>
      rw [hr] at hfollows
      cases h.unique hfollows
  | ok r =>
      rw [hr] at hfollows
      obtain ⟨-, hrest⟩ := Prod.mk.inj (Except.ok.inj (h.unique hfollows.1))
      exact ⟨r, rfl, hrest.symm⟩

/-- An operand that is read ends as an operand does. -/
theorem exists_endsOperand_of_operand {r : Reading Node text} (h : operand c t n text = .ok r) :
    ∃ s, text = s ++ r.rest ∧ EndsOperand s := by
  obtain ⟨s, hs, hderives, -⟩ := ((operand_follows c t n text).of_eq_ok h).exists_derives
  exact ⟨s, hs, hderives.endsOperand⟩

/-! ## Where a reader is called -/

/-- What stands before the text that a reader is called on: links are read behind an operand, all
else where an operand can begin. -/
def Reader.Place : Reader → List Char → Prop
  | .links _, p => EndsOperand p
  | _, p => OperandPlace p

/-- **A reader is called in its place.** -/
theorem Calls.exists_place {reader : Reader} (h : Calls c input reader n text) :
    ∃ p, input = p ++ text ∧ reader.Place p := by
  induction h with
  | start => exact ⟨[], rfl, .inl rfl⟩
  | made _ hmakes ih =>
      obtain ⟨p, rfl, hp⟩ := ih
      cases hmakes with
      | first => exact ⟨p, rfl, hp⟩
      | links hfirst =>
          obtain ⟨s, hs, hend⟩ := exists_endsOperand_of_operand hfirst
          refine ⟨p ++ s, by rw [List.append_assoc, ← hs], ?_⟩
          exact (endsOperand_append hend.ne_nil).2 hend
      | @next t n text op hop =>
          obtain ⟨-, htext⟩ := of_operator_eq_some hop
          exact ⟨p ++ [op.value.symbol], by simpa using htext, operandPlace_symbol hp op.value⟩
      | @more t n text op next hop hnext =>
          obtain ⟨-, htext⟩ := of_operator_eq_some hop
          obtain ⟨s, hs, hend⟩ := exists_endsOperand_of_operand hnext
          refine ⟨p ++ op.value.symbol :: s, ?_, ?_⟩
          · rw [List.append_assoc, List.cons_append, ← hs, ← htext]
          · exact (endsOperand_append_cons (isOperandEnd_symbol op.value)).2 hend
      | tighter _ => exact ⟨p, rfl, hp⟩
      | atom _ => exact ⟨p, rfl, hp⟩
      | group _ => exact ⟨p, rfl, hp⟩
      | @inside n first inside d ho _ =>
          obtain rfl := Delimiter.ofOpener?_eq_some_iff.1 ho
          exact ⟨p ++ [d.opener], by simp, operandPlace_opener p d⟩

/-! ## Literals that are read -/

/-- In a text the parser reads `l`, which stands between `p` and `s`, as one literal with the value
`x`: it comes to an atom there, and the literal at its front leaves `s`. -/
def ReadsLiteral (c : Config) (p l s : List Char) (x : Binary64) : Prop :=
  ∃ n hlt, Calls c (p ++ l ++ s) .atom n (l ++ s) ∧ Literal.read (l ++ s) = .read ⟨x, s, hlt⟩

/-- A literal that is read stands where an operand can begin, denotes its value, and is not
continued. -/
theorem ReadsLiteral.exists_denotes {p l s : List Char} {x : Binary64}
    (h : ReadsLiteral c p l s x) : ∃ q : Literal.Parts, l = q.text ∧ q.Denotes x
      ∧ q.EndsBefore s ∧ OperandPlace p := by
  obtain ⟨n, hlt, hcall, hread⟩ := h
  have hfinds := Literal.finds_read (l ++ s)
  rw [hread] at hfinds
  cases hfinds with
  | @read _ q _ _ hl hx =>
      obtain ⟨hq, hlit, hend⟩ := Literal.longest?_eq_some_iff.1 hl
      obtain ⟨p', hp', hplace⟩ := hcall.exists_place
      rw [List.append_assoc] at hp'
      obtain rfl := List.append_cancel_right hp'
      exact ⟨q, List.append_cancel_right hlit, hq.denotes_iff.2 hx, hend, hplace⟩

end Parser

end InfixCalc
