import Mathlib
import InfixCalc.Proofs.Parser.Display
import InfixCalc.Proofs.StoredForm

/-!
# Expressions in store

An expression is stored as the text of a JSON value and read back from it. One number that is not
finite, wherever it stands, makes the whole text one that is not read back; a text that the parser
accepts has finite numbers only.

Main statement: the stored text of an expression is read back as that expression just if all of its
numbers are finite, as all numbers of an accepted text are, so that no two such expressions have one
text (`stored_trees_read_back`).
-/

namespace InfixCalc

/-! ## The stored text -/

namespace Codec

variable {C : Codec}

/-- The objects of a stored form have one field each. -/
theorem Laws.unambiguous_toJson (hC : C.Laws) (e : Expr) : (C.toJson e).Unambiguous := by
  induction e with
  | value x =>
      rw [hC.toJson_value]
      refine .object (List.nodup_singleton _) ?_
      rw [List.forall_mem_singleton]
      cases hx : x.isFinite with
      | true =>
          rw [hC.write_float hx]
          exact .number _
      | false =>
          rw [hC.write_not_finite hx]
          exact .null
  | binary op left right ihl ihr =>
      rw [hC.toJson_binary]
      refine .object (List.nodup_singleton _) ?_
      rw [List.forall_mem_singleton]
      refine .array ?_
      simp only [List.forall_mem_cons, List.not_mem_nil, false_imp_iff, implies_true, and_true]
      exact ⟨.string _, ihl, ihr⟩

/-- What is stored as a text is read back as the value is, with the numbers of the text. -/
theorem TextLaws.ofStored?_stored {α : Type} [Storable α] (htexts : C.TextLaws) {a : α}
    (h : (C.toJson a).Unambiguous) :
    (C.ofStored? (C.stored a) : Option α) = C.ofJson? ((C.toJson a).map C.reread) :=
  congrArg (Option.bind · Storable.ofData?) (htexts.readText?_print _ h)

/-- **The stored text of an expression is read back as that expression just if all of its numbers
are finite.** -/
theorem Laws.ofStored?_stored_expr (hC : C.Laws) (htexts : C.TextLaws) (hfloats : C.FloatsReadBack)
    (e : Expr) :
    C.ofStored? (C.stored e) = if ∀ x ∈ e.leaves, x.isFinite = true then some e else none := by
  rw [htexts.ofStored?_stored (hC.unambiguous_toJson e), hC.ofJson?_map_toJson hfloats]

end Codec

/-! ## Accepted texts -/

namespace Expr

/-- **An expression survives its stored text.** Of a library it is expected that it keeps the laws
and reads finite numbers back from texts. The text that an expression is stored as is then read back
as that expression if all of its numbers are finite, and otherwise not at all. The tree of an
accepted text has finite numbers only, so it is read back, and two trees with finite numbers that
differ are stored as different texts. -/
theorem stored_trees_read_back {C : Codec} (hC : C.Laws) (htexts : C.TextLaws)
    (hfloats : C.FloatsReadBack) :
    (∀ e : Expr, C.ofStored? (C.stored e)
        = if ∀ x ∈ e.leaves, x.isFinite = true then some e else none)
      ∧ (∀ (c : Config) (input : String) (e : Expr), parseWith c input = .ok e →
          (∀ x ∈ e.leaves, x.isFinite = true) ∧ C.ofStored? (C.stored e) = some e)
      ∧ (∀ e e' : Expr, (∀ x ∈ e.leaves, x.isFinite = true) →
          (∀ x ∈ e'.leaves, x.isFinite = true) → e ≠ e' → C.stored e ≠ C.stored e') := by
  have hread := hC.ofStored?_stored_expr htexts hfloats
  refine ⟨hread, ?_, ?_⟩
  · intro c input e h
    have hfinite := (Parser.derives_of_parseWith h).1.finite
    exact ⟨hfinite, (hread e).trans (if_pos hfinite)⟩
  · intro e e' hfinite hfinite' hne hstored
    have hback := hread e
    rw [hstored, hread e', if_pos hfinite, if_pos hfinite'] at hback
    exact hne (Option.some.inj hback).symm

/-- Minus zero less zero is read back with the sign of its first zero, which it has not in common
with zero less minus zero; an infinity under an operator leaves nothing to be read back. -/
theorem stored_trees_read_back_zeros :
    let C := Json.codec
    let zeros : Expr := .binary .sub (.value ⟨0x8000000000000000⟩) (.value ⟨0⟩)
    let swapped : Expr := .binary .sub (.value ⟨0⟩) (.value ⟨0x8000000000000000⟩)
    let infinite : Expr := .binary .mul zeros (.value ⟨0x7ff0000000000000⟩)
    C.Laws ∧ C.TextLaws ∧ C.FloatsReadBack
      ∧ parseWith ⟨1, 2, true⟩ (String.ofList zeros.compact) = .ok zeros
      ∧ C.ofStored? (C.stored zeros) = some zeros ∧ C.stored zeros ≠ C.stored swapped
      ∧ (C.ofStored? (C.stored infinite) : Option Expr) = none := by
  intro C zeros swapped infinite
  have hzeros : ∀ x ∈ zeros.leaves, x.isFinite = true := by decide
  have hswapped : ∀ x ∈ swapped.leaves, x.isFinite = true := by decide
  have hinfinite : ¬ ∀ x ∈ infinite.leaves, x.isFinite = true := by decide
  have haccepted : parseWith ⟨1, 2, true⟩ (String.ofList zeros.compact) = .ok zeros := by
    rw [Parser.parseWith_ofList_iff, opensAtMost_compact hzeros]
    exact ⟨(derives_compact true hzeros).of_atom _, by decide, .inr (by decide)⟩
  obtain ⟨hread, hparsed, hdiffer⟩ :=
    stored_trees_read_back Json.codec_laws Json.codec_textLaws Json.codec_floatsReadBack
  refine ⟨Json.codec_laws, Json.codec_textLaws, Json.codec_floatsReadBack, haccepted,
    (hparsed _ _ _ haccepted).2, ?_, ?_⟩
  · exact hdiffer zeros swapped hzeros hswapped (by decide)
  · exact (hread infinite).trans (if_neg hinfinite)

end Expr

end InfixCalc
