import Mathlib
import InfixCalc.Proofs.Binary64
import InfixCalc.Proofs.Parser.Limits

/-!
# The text of an expression, read back

An expression is displayed with a group around each operator. Without its blanks that text is an
atom of the grammar, and it opens one group less than the tree has levels.

Main statement: the text of an expression with finite numbers is read back as that expression, as
far as the limits allow it (`parseWith_compact`).
-/

namespace InfixCalc

namespace Expr

/-! ## The text without blanks -/

/-- The text of an expression without its blanks. -/
def compact (e : Expr) : List Char := e.text.filter (· ≠ ' ')

/-- A literal has no blanks. -/
theorem filter_literal {p : Literal.Parts} (hp : p.WellFormed) :
    p.text.filter (· ≠ ' ') = p.text := by
  rw [List.filter_eq_self]
  intro c hc
  rcases hp.mem_text hc with rfl | hdigit | rfl
  · decide
  · rw [decide_eq_true_eq]
    rintro rfl
    exact absurd hdigit (by decide)
  · decide

/-- A number alone is written as its literal. -/
theorem compact_value {number : Binary64} {p : Literal.Parts} (htext : p.text = number.text)
    (hp : p.WellFormed) : (value number).compact = p.text := by
  rw [compact, text_value, ← htext, filter_literal hp]

/-- An operator is written between its operands, with a group around them. -/
theorem compact_binary (op : Operator) (left right : Expr) :
    (binary op left right).compact
      = Delimiter.round.opener :: (left.compact ++ op.symbol :: right.compact
          ++ [Delimiter.round.closer]) := by
  have hsymbol : op.symbol ≠ ' ' := by cases op <;> decide
  simp [compact, hsymbol, Delimiter.opener, Delimiter.closer]

/-- The text without blanks is an atom of the grammar, with the expression as its tree. -/
theorem derives_compact (strict : Bool) {e : Expr} (hfinite : ∀ x ∈ e.leaves, x.isFinite = true) :
    Derives strict none e.compact e := by
  induction e with
  | value number =>
      obtain ⟨p, htext, hp⟩ := Binary64.exists_denotes_text (hfinite number (by simp [leaves]))
      rw [compact_value htext hp.wellFormed]
      exact .literal hp
  | binary op left right ihl ihr =>
      have hleft := ihl fun x hx => hfinite x (List.mem_append_left _ hx)
      have hright := ihr fun x hx => hfinite x (List.mem_append_right _ hx)
      rw [compact_binary]
      exact .group .round .round (fun _ => rfl) (hleft.operation op hright).loosest

/-- The text without blanks opens one group less than the tree has levels. -/
theorem opensAtMost_compact {k : Nat} {e : Expr} (hfinite : ∀ x ∈ e.leaves, x.isFinite = true) :
    OpensAtMost k e.compact ↔ e.depth - 1 ≤ k := by
  induction e generalizing k with
  | value number =>
      obtain ⟨p, htext, hp⟩ := Binary64.exists_denotes_text (hfinite number (by simp [leaves]))
      rw [compact_value htext hp.wellFormed, depth, Nat.sub_self]
      exact iff_of_true (opensAtMost_of_plain hp.wellFormed.plain) (Nat.zero_le k)
  | binary op left right ihl ihr =>
      have hl := fun x hx => hfinite x (List.mem_append_left _ hx)
      have hr := fun x hx => hfinite x (List.mem_append_right _ hx)
      have hleft := derives_compact false hl
      have hinside := hleft.operation op (derives_compact false hr)
      have hpos := left.depth_pos
      rw [compact_binary, opensAtMost_group hinside.balanced,
        opensAtMost_binary hleft.balanced, ihl hl, ihr hr, depth]
      omega

end Expr

/-! ## Reading it back -/

namespace Parser

/-- **The text of an expression is read back as that expression.** With its blanks removed, the text
of an expression whose numbers are finite and whose tree is not too deep is accepted with that very
expression, if one group less than the tree has levels may be open; otherwise the limit of nesting
cuts it off. -/
theorem parseWith_compact (c : Config) (e : Expr) (hfinite : ∀ x ∈ e.leaves, x.isFinite = true)
    (hfits : e.isValue = true ∨ e.depth ≤ c.maxTreeDepth) :
    parseWith c (String.ofList e.compact)
      = if e.depth - 1 ≤ c.maxDepth then .ok e else .error (.nestedTooDeep c.maxDepth) := by
  have haccepted : ∀ c' : Config, e.Fits c'.maxTreeDepth → e.depth - 1 ≤ c'.maxDepth →
      parseWith c' (String.ofList e.compact) = .ok e := by
    intro c' hfits' hdepth
    have hderives := Expr.derives_compact c'.strictDelimiters hfinite
    rw [parseWith_ofList_iff, Expr.opensAtMost_compact hfinite]
    exact ⟨hderives.of_atom _, hdepth, hfits'⟩
  split
  · next hdepth => exact haccepted c hfits hdepth
  · next hdepth =>
    -- With as many groups as the text opens it is accepted, so only their limit is in the way.
    let deeper : Config := { c with maxDepth := e.depth - 1 }
    have hc : c.Tighter deeper := ⟨rfl, (Nat.lt_of_not_le hdepth).le, le_rfl⟩
    apply nestedTooDeep_of_accepted hc (haccepted deeper hfits le_rfl) _ hfits
    rw [String.toList_ofList, Expr.opensAtMost_compact hfinite]
    exact hdepth

/-- The square of minus zero less minus one, whose signs stand behind an opener and an operator; it
is read back with two groups, and cut off with one. -/
theorem parseWith_compact_square :
    let e : Expr := .binary .pow (.binary .sub (.value ⟨0x8000000000000000⟩)
      (.value ⟨0xbff0000000000000⟩)) (.value ⟨0x4000000000000000⟩)
    e.compact = "((-0--1)^2)".toList
      ∧ parseWith ⟨2, 3, true⟩ (String.ofList e.compact) = .ok e
      ∧ parseWith ⟨1, 3, false⟩ (String.ofList e.compact) = .error (.nestedTooDeep 1) := by
  intro e
  have hfinite : ∀ x ∈ e.leaves, x.isFinite = true := by decide
  refine ⟨by decide +kernel, ?_, ?_⟩
  · exact parseWith_compact ⟨2, 3, true⟩ e hfinite (by decide)
  · exact parseWith_compact ⟨1, 3, false⟩ e hfinite (by decide)

end Parser

end InfixCalc
