import Mathlib
import InfixCalc.Expr.Json
import InfixCalc.Proofs.Codec.Laws
import InfixCalc.Proofs.Grammar

/-!
# The stored form

Which JSON values stand for an expression, said by rules of their own: a number within range under
`value`, or under `binary` an operator and two values that stand for expressions themselves. An
operator has two spellings and a number as many as there are decimals that are rounded to it; the
form that is written has one of each.

All of this holds with each library that keeps the laws of libraries for JSON.

Main statement: a JSON value is read just if it has the form, as the one expression that it stands
for, and writing that expression leaves everything but spellings
(`stored_form_exact_and_canonical`).
-/

namespace InfixCalc

variable {ν : Type}

/-! ## Operators -/

/-- The names of operators in store. -/
inductive Operator.Named : Operator → String → Prop where
  | add : Named .add "add"
  | sub : Named .sub "sub"
  | mul : Named .mul "mul"
  | div : Named .div "div"
  | pow : Named .pow "pow"

/-- The spellings of an operator: its name, or an object that holds nothing under that name. -/
inductive Operator.SpelledAs (op : Operator) : Json ν → Prop where
  | name {name : String} (h : op.Named name) : op.SpelledAs (.string name)
  | object {name : String} (h : op.Named name) : op.SpelledAs (.object [(name, .null)])

/-- The names of operators are those of the table. -/
theorem Operator.named_iff {op : Operator} {name : String} : op.Named name ↔ name = op.name := by
  constructor
  · intro h
    cases h <;> rfl
  · rintro rfl
    cases op <;> constructor

/-- The operator of data that are a variant without contents. -/
theorem Operator.ofData?_eq_some_iff {name : String} {contents : List Data} {op : Operator} :
    ofData? (.variant name contents) = some op ↔ name = op.name ∧ contents = [] := by
  constructor
  · intro h
    cases contents with
    | nil => exact ⟨(name_eq_of_ofName? h).symm, rfl⟩
    | cons d ds => cases h
  · rintro ⟨rfl, rfl⟩
    exact ofName?_name op

/-- The expression of data under the name of an operator with its operands. -/
theorem Expr.ofData?_binary_iff {dop dl dr : Data} {e : Expr} :
    ofData? (.variant "binary" [dop, dl, dr]) = some e
      ↔ ∃ op l r, Operator.ofData? dop = some op ∧ ofData? dl = some l ∧ ofData? dr = some r
        ∧ e = .binary op l r := by
  rw [ofData?, if_pos binaryKey.eq_def.symm]
  constructor
  · intro h
    split at h
    · next op l r hop hl hr => exact ⟨op, l, r, hop, hl, hr, (Option.some.inj h).symm⟩
    · cases h
  · rintro ⟨op, l, r, hop, hl, hr, rfl⟩
    rw [hop, hl, hr]

namespace Codec

variable {C : Codec}

/-- What is stored is read from what the library reads as its data. -/
theorem ofJson?_eq_some_iff {α : Type} [Storable α] {j : Json C.Number} {a : α} :
    C.ofJson? j = some a
      ↔ ∃ d, C.read? (Storable.type α) j = some d ∧ Storable.ofData? d = some a :=
  Option.bind_eq_some_iff

/-- **An operator is read just from its spellings.** -/
theorem Laws.ofJson?_operator_iff (hC : C.Laws) {j : Json C.Number} {op : Operator} :
    C.ofJson? j = some op ↔ op.SpelledAs j := by
  have hread := fun d => @Laws.read?_choice C hC .operator _ rfl j d
  rw [ofJson?_eq_some_iff]
  constructor
  · rintro ⟨d, hd, hop⟩
    obtain ⟨v, hv, hspells⟩ := (hread d).1 hd
    obtain ⟨op', -, rfl⟩ := List.mem_map.1 hv
    cases hspells with
    | name name =>
        obtain ⟨hname, -⟩ := Operator.ofData?_eq_some_iff.1 hop
        exact .name (Operator.named_iff.2 hname)
    | object hholds =>
        obtain ⟨rfl, rfl⟩ := holdsContents_nil_iff.1 hholds
        obtain ⟨hname, -⟩ := Operator.ofData?_eq_some_iff.1 hop
        exact .object (Operator.named_iff.2 hname)
  · intro h
    have hmem : op.variant ∈ Operator.all.map Operator.variant :=
      List.mem_map_of_mem (Operator.mem_all op)
    refine ⟨op.toData, (hread _).2 ⟨op.variant, hmem, ?_⟩, Operator.ofName?_name op⟩
    cases h with
    | name h =>
        rw [Operator.named_iff.1 h]
        exact .name op.name
    | object h =>
        rw [Operator.named_iff.1 h]
        exact .object .none

/-! ## Variants of expressions -/

/-- A number is read just from a number. -/
theorem Laws.readFloat?_eq_some_iff (hC : C.Laws) {j : Json C.Number} {x : Binary64} :
    C.readFloat? j = some x
      ↔ ∃ n, j = .number n ∧ (C.decimal n).nearest.isFinite = true ∧ x = (C.decimal n).nearest := by
  constructor
  · intro h
    by_cases hj : ∃ n, j = .number n
    · obtain ⟨n, rfl⟩ := hj
      rw [hC.readFloat?_number] at h
      split at h
      · next hfinite => exact ⟨n, rfl, hfinite, (Option.some.inj h).symm⟩
      · cases h
    · rw [hC.readFloat?_of_ne fun n hn => hj ⟨n, hn⟩] at h
      cases h
  · rintro ⟨n, rfl, hfinite, rfl⟩
    rw [hC.readFloat?_number, if_pos hfinite]

/-- **Data of expressions** are read from a number under its name or from three values under the
name of an operator with its operands. -/
theorem Laws.read?_expr_iff (hC : C.Laws) {j : Json C.Number} {d : Data} :
    C.read? .expr j = some d
      ↔ (∃ content x, j = .object [("value", content)] ∧ C.readFloat? content = some x
          ∧ d = .variant "value" [.float x])
        ∨ ∃ jo jl jr o l r, j = .object [("binary", .array [jo, jl, jr])]
          ∧ C.read? .operator jo = some o ∧ C.read? .expr jl = some l ∧ C.read? .expr jr = some r
          ∧ d = .variant "binary" [o, l, r] := by
  rw [hC.read?_choice rfl]
  constructor
  · rintro ⟨v, hv, hspells⟩
    simp only [Expr.variants, List.mem_cons, List.not_mem_nil, or_false] at hv
    rcases hv with rfl | rfl
    · cases hspells with
      | object hholds =>
          obtain ⟨d, hd, rfl⟩ := holdsContents_one_iff.1 hholds
          obtain ⟨x, hx, rfl⟩ := Option.map_eq_some_iff.1 hd
          exact .inl ⟨_, x, rfl, hx, rfl⟩
    · cases hspells with
      | object hholds =>
          simp only [holdsContents_more_iff, readsAll_cons_iff, readsAll_nil_iff] at hholds
          obtain ⟨_, rfl, jo, _, o, _, rfl, rfl, ho, jl, _, l, _, rfl, rfl, hl, jr, _, r, _, rfl,
            rfl, hr, rfl, rfl⟩ := hholds
          exact .inr ⟨jo, jl, jr, o, l, r, rfl, ho, hl, hr, rfl⟩
  · rintro (⟨content, x, rfl, hx, rfl⟩ | ⟨jo, jl, jr, o, l, r, rfl, ho, hl, hr, rfl⟩)
    · have hcontent : C.readContent? .float content = some (.float x) := by
        rw [readContent?, hx, Option.map_some]
      exact ⟨_, .head _, .object (.one hcontent)⟩
    · exact ⟨_, .tail _ (.head _), .object (.more (.cons ho (.cons hl (.cons hr .nil))))⟩

/-- A number is read as an expression just from its object. -/
theorem Laws.ofJson?_value_iff (hC : C.Laws) {j : Json C.Number} {x : Binary64} :
    C.ofJson? j = some (Expr.value x)
      ↔ ∃ content, j = .object [("value", content)] ∧ C.readFloat? content = some x := by
  rw [ofJson?_eq_some_iff]
  constructor
  · rintro ⟨d, hd, he⟩
    obtain ⟨content, y, rfl, hy, rfl⟩ | ⟨jo, jl, jr, o, l, r, rfl, -, -, -, rfl⟩ :=
      hC.read?_expr_iff.1 hd
    · obtain rfl : y = x := Expr.value.inj (Option.some.inj he)
      exact ⟨content, rfl, hy⟩
    · obtain ⟨op, e, e', -, -, -, he⟩ := Expr.ofData?_binary_iff.1 he
      cases he
  · rintro ⟨content, rfl, hx⟩
    exact ⟨_, hC.read?_expr_iff.2 (.inl ⟨content, x, rfl, hx, rfl⟩), rfl⟩

/-- An operator with its operands is read as an expression just from its object. -/
theorem Laws.ofJson?_binary_iff (hC : C.Laws) {j : Json C.Number} {op : Operator} {l r : Expr} :
    C.ofJson? j = some (Expr.binary op l r)
      ↔ ∃ jo jl jr, j = .object [("binary", .array [jo, jl, jr])] ∧ C.ofJson? jo = some op
        ∧ C.ofJson? jl = some l ∧ C.ofJson? jr = some r := by
  simp only [ofJson?_eq_some_iff]
  constructor
  · rintro ⟨d, hd, he⟩
    obtain ⟨content, y, rfl, -, rfl⟩ | ⟨jo, jl, jr, dop, dl, dr, rfl, ho, hl, hr, rfl⟩ :=
      hC.read?_expr_iff.1 hd
    · cases he
    · obtain ⟨op', l', r', hop, hel, her, heq⟩ := Expr.ofData?_binary_iff.1 he
      obtain ⟨rfl, rfl, rfl⟩ := Expr.binary.inj heq
      exact ⟨jo, jl, jr, rfl, ⟨dop, ho, hop⟩, ⟨dl, hl, hel⟩, ⟨dr, hr, her⟩⟩
  · rintro ⟨jo, jl, jr, rfl, ⟨dop, ho, hop⟩, ⟨dl, hl, hel⟩, ⟨dr, hr, her⟩⟩
    exact ⟨_, hC.read?_expr_iff.2 (.inr ⟨jo, jl, jr, dop, dl, dr, rfl, ho, hl, hr, rfl⟩),
      Expr.ofData?_binary_iff.2 ⟨op, l, r, hop, hel, her, rfl⟩⟩

end Codec

/-! ## Numbers -/

namespace Decimal

/-- A decimal is within range: its magnitude is below the bound of infinity. -/
def InRange (d : Decimal) : Prop := d.magnitude < 2 ^ 1024 - 2 ^ 970

/-- A decimal is rounded to the nearest number of the format, with the sign that it is written with.
-/
structure RoundsTo (d : Decimal) (x : Binary64) : Prop where
  sign : x.negative = d.negative
  nearest : x.IsNearest d.magnitude

/-- A decimal is rounded to one number only. -/
theorem RoundsTo.unique {d : Decimal} {x y : Binary64} (hx : d.RoundsTo x) (hy : d.RoundsTo y) :
    x = y :=
  hx.nearest.unique hy.nearest (hx.sign.trans hy.sign.symm)

/-- A decimal within range is rounded to its nearest number. -/
theorem InRange.roundsTo {d : Decimal} (h : d.InRange) : d.RoundsTo d.nearest :=
  ⟨negative_nearest d, isNearest_nearest (d.isFinite_nearest_iff.2 h)⟩

end Decimal

namespace Codec

/-! ## The form -/

section

variable (C : Codec)

/-- The JSON values that stand for an expression: one field, which is a number within range or an
operator with two such values. -/
@[mk_iff]
inductive IsTree : Json C.Number → Prop where
  | value {n : C.Number} (range : (C.decimal n).InRange) : IsTree (.object [("value", .number n)])
  | binary {o left right : Json C.Number} {op : Operator} (operator : op.SpelledAs o)
      (hl : IsTree left) (hr : IsTree right) :
      IsTree (.object [("binary", .array [o, left, right])])

/-- An expression is what a JSON value stands for: operators and operands are in the same places,
and each number is the one that the written number is rounded to. -/
inductive StoredAs : Expr → Json C.Number → Prop where
  | value {x : Binary64} {n : C.Number} (number : (C.decimal n).RoundsTo x) :
      StoredAs (.value x) (.object [("value", .number n)])
  | binary {op : Operator} {l r : Expr} {o left right : Json C.Number} (operator : op.SpelledAs o)
      (hl : StoredAs l left) (hr : StoredAs r right) :
      StoredAs (.binary op l r) (.object [("binary", .array [o, left, right])])

/-- Two JSON values are one but for spellings: their operators are spellings of one operator, and
their numbers are rounded to one number. -/
inductive Respelled : Json C.Number → Json C.Number → Prop where
  | value {n n' : C.Number} {x : Binary64} (number : (C.decimal n).RoundsTo x)
      (number' : (C.decimal n').RoundsTo x) :
      Respelled (.object [("value", .number n)]) (.object [("value", .number n')])
  | binary {o o' left left' right right' : Json C.Number} {op : Operator}
      (operator : op.SpelledAs o) (operator' : op.SpelledAs o') (hl : Respelled left left')
      (hr : Respelled right right') :
      Respelled (.object [("binary", .array [o, left, right])])
        (.object [("binary", .array [o', left', right'])])

end

variable {C : Codec}

/-- What is under the name of a number has the form just if it is a number within range. -/
theorem isTree_value_iff {content : Json C.Number} :
    C.IsTree (.object [("value", content)])
      ↔ ∃ n, content = .number n ∧ (C.decimal n).InRange := by
  constructor
  · intro h
    rcases (isTree_iff _ _).1 h with ⟨n, range, heq⟩ | ⟨_, _, _, _, _, _, _, heq⟩
    · simp only [Json.object.injEq, List.cons.injEq, Prod.mk.injEq, true_and, and_true] at heq
      exact ⟨n, heq, range⟩
    · simp at heq
  · rintro ⟨n, rfl, range⟩
    exact .value range

/-- An operator with two values has the form just if the values have it. -/
theorem isTree_binary_iff {o left right : Json C.Number} :
    C.IsTree (.object [("binary", .array [o, left, right])])
      ↔ (∃ op : Operator, op.SpelledAs o) ∧ C.IsTree left ∧ C.IsTree right := by
  constructor
  · intro h
    rcases (isTree_iff _ _).1 h with ⟨_, _, heq⟩ | ⟨_, _, _, op, operator, hl, hr, heq⟩
    · simp at heq
    · simp only [Json.object.injEq, List.cons.injEq, Prod.mk.injEq, Json.array.injEq, true_and,
        and_true] at heq
      obtain ⟨rfl, rfl, rfl⟩ := heq
      exact ⟨⟨op, operator⟩, hl, hr⟩
  · rintro ⟨⟨op, operator⟩, hl, hr⟩
    exact .binary operator hl hr

/-- What a JSON value is read as has the numbers that are nearest to the written ones, which are
finite. -/
theorem StoredAs.finite {e : Expr} {j : Json C.Number} (h : C.StoredAs e j) :
    ∀ x ∈ e.leaves, x.isFinite = true := by
  induction h with
  | value number =>
      rw [Expr.leaves, List.forall_mem_singleton]
      exact number.nearest.finite
  | binary operator hl hr ihl ihr => exact Expr.forall_leaves_binary.2 ⟨ihl, ihr⟩

/-- A value that has the form stands for an expression. -/
theorem IsTree.exists_storedAs {j : Json C.Number} (h : C.IsTree j) :
    ∃ e : Expr, C.StoredAs e j := by
  induction h with
  | value range => exact ⟨_, .value range.roundsTo⟩
  | binary operator hl hr ihl ihr =>
      obtain ⟨l, hl⟩ := ihl
      obtain ⟨r, hr⟩ := ihr
      exact ⟨_, .binary operator hl hr⟩

/-- Two values that stand for one expression are one but for spellings. -/
theorem StoredAs.respelled {e : Expr} {j j' : Json C.Number} (h : C.StoredAs e j)
    (h' : C.StoredAs e j') : C.Respelled j j' := by
  induction h generalizing j' with
  | value number =>
      cases h' with
      | value number' => exact .value number number'
  | binary operator hl hr ihl ihr =>
      cases h' with
      | binary operator' hl' hr' => exact .binary operator operator' (ihl hl') (ihr hr')

/-! ## What is read -/

/-- A number is read just from the numbers within range that are rounded to it. -/
theorem Laws.readFloat?_iff_roundsTo (hC : C.Laws) {j : Json C.Number} {x : Binary64} :
    C.readFloat? j = some x
      ↔ ∃ n, j = .number n ∧ (C.decimal n).InRange ∧ (C.decimal n).RoundsTo x := by
  rw [hC.readFloat?_eq_some_iff]
  constructor
  · rintro ⟨n, rfl, hfinite, rfl⟩
    have hrange : (C.decimal n).InRange := (Decimal.isFinite_nearest_iff _).1 hfinite
    exact ⟨n, rfl, hrange, hrange.roundsTo⟩
  · rintro ⟨n, rfl, hrange, hx⟩
    exact ⟨n, rfl, (Decimal.isFinite_nearest_iff _).2 hrange, hx.unique hrange.roundsTo⟩

/-- **A value is read just if it has the form, as what it stands for.** -/
theorem Laws.ofJson?_expr_iff (hC : C.Laws) {j : Json C.Number} {e : Expr} :
    C.ofJson? j = some e ↔ C.IsTree j ∧ C.StoredAs e j := by
  induction e generalizing j with
  | value x =>
      rw [hC.ofJson?_value_iff]
      constructor
      · rintro ⟨content, rfl, hx⟩
        obtain ⟨n, rfl, hrange, hrounds⟩ := hC.readFloat?_iff_roundsTo.1 hx
        exact ⟨.value hrange, .value hrounds⟩
      · rintro ⟨htree, hstored⟩
        cases hstored with
        | @value _ n number =>
            obtain ⟨_, hn, hrange⟩ := isTree_value_iff.1 htree
            obtain rfl := Json.number.inj hn
            exact ⟨_, rfl, hC.readFloat?_iff_roundsTo.2 ⟨n, rfl, hrange, number⟩⟩
  | binary op l r ihl ihr =>
      rw [hC.ofJson?_binary_iff]
      constructor
      · rintro ⟨o, left, right, rfl, hop, hl, hr⟩
        have hspelled := hC.ofJson?_operator_iff.1 hop
        obtain ⟨htreeL, hstoredL⟩ := ihl.1 hl
        obtain ⟨htreeR, hstoredR⟩ := ihr.1 hr
        exact ⟨.binary hspelled htreeL htreeR, .binary hspelled hstoredL hstoredR⟩
      · rintro ⟨htree, hstored⟩
        cases hstored with
        | @binary _ _ _ o left right operator hl hr =>
            obtain ⟨-, htreeL, htreeR⟩ := isTree_binary_iff.1 htree
            exact ⟨o, left, right, rfl, hC.ofJson?_operator_iff.2 operator, ihl.2 ⟨htreeL, hl⟩,
              ihr.2 ⟨htreeR, hr⟩⟩

/-- A value is read as some expression just if it has the form. -/
theorem Laws.exists_ofJson?_iff (hC : C.Laws) {j : Json C.Number} :
    (∃ e : Expr, C.ofJson? j = some e) ↔ C.IsTree j := by
  simp only [hC.ofJson?_expr_iff]
  constructor
  · rintro ⟨e, htree, -⟩
    exact htree
  · intro htree
    obtain ⟨e, hstored⟩ := htree.exists_storedAs
    exact ⟨e, htree, hstored⟩

/-! ## What is written -/

/-- The stored form of a number. -/
theorem Laws.toJson_value (hC : C.Laws) (x : Binary64) :
    C.toJson (Expr.value x) = .object [("value", C.write (.float x))] :=
  hC.write_one _ _

/-- The stored form of an operator with its operands. -/
theorem Laws.toJson_binary (hC : C.Laws) (op : Operator) (l r : Expr) :
    C.toJson (Expr.binary op l r)
      = .object [("binary", .array [.string op.name, C.toJson l, C.toJson r])] := by
  refine (hC.write_more _ _ _ _).trans ?_
  rw [List.map, Operator.toData, hC.write_none]
  rfl

section

variable {r : C.Number → C.Number}
  (hr : ∀ x : Binary64, x.isFinite = true → (C.decimal (r (C.ofFloat x))).nearest = x)

include hr

/-- What is written for an expression has the form just if all of its numbers are finite, and so has
what is written with other numbers that have the same nearest ones. -/
theorem Laws.isTree_map_toJson_iff (hC : C.Laws) (e : Expr) :
    C.IsTree ((C.toJson e).map r) ↔ ∀ x ∈ e.leaves, x.isFinite = true := by
  induction e with
  | value x =>
      rw [hC.toJson_value, Json.map_object, List.map, List.map, isTree_value_iff, Expr.leaves,
        List.forall_mem_singleton]
      cases hx : x.isFinite with
      | true =>
          have hrange : (C.decimal (r (C.ofFloat x))).InRange :=
            (Decimal.isFinite_nearest_iff _).1 (by rw [hr x hx, hx])
          rw [hC.write_float hx]
          exact iff_of_true ⟨_, rfl, hrange⟩ rfl
      | false =>
          rw [hC.write_not_finite hx]
          refine iff_of_false ?_ Bool.false_ne_true
          rintro ⟨n, hn, -⟩
          cases hn
  | binary op left right ihl ihr =>
      have hop : ∃ op' : Operator, op'.SpelledAs ((Json.string op.name).map r) :=
        ⟨op, .name (Operator.named_iff.2 rfl)⟩
      rw [hC.toJson_binary, Json.map_object, List.map, List.map, Json.map_array]
      exact isTree_binary_iff.trans
        (by rw [ihl, ihr, and_iff_right hop, Expr.forall_leaves_binary])

/-- What is written for an expression with finite numbers stands for it, and so does what is written
with other numbers that have the same nearest ones. -/
theorem Laws.storedAs_map_toJson (hC : C.Laws) {e : Expr}
    (hfinite : ∀ x ∈ e.leaves, x.isFinite = true) : C.StoredAs e ((C.toJson e).map r) := by
  induction e with
  | value x =>
      have hx := List.forall_mem_singleton.1 hfinite
      have hrange : (C.decimal (r (C.ofFloat x))).InRange :=
        (Decimal.isFinite_nearest_iff _).1 (by rw [hr x hx, hx])
      have hrounds := hrange.roundsTo
      rw [hr x hx] at hrounds
      rw [hC.toJson_value, hC.write_float hx, Json.map_object]
      exact .value hrounds
  | binary op left right ihl ihr =>
      obtain ⟨hl, hr'⟩ := Expr.forall_leaves_binary.1 hfinite
      rw [hC.toJson_binary, Json.map_object, List.map, List.map, Json.map_array]
      exact .binary (.name (Operator.named_iff.2 rfl)) (ihl hl) (ihr hr')

/-- **The stored form of an expression is read back as that expression just if all of its numbers
are finite**, and so it is with other numbers that have the same nearest ones. -/
theorem Laws.ofJson?_map_toJson (hC : C.Laws) (e : Expr) :
    C.ofJson? ((C.toJson e).map r)
      = if ∀ x ∈ e.leaves, x.isFinite = true then some e else none := by
  split
  · next hfinite =>
    exact hC.ofJson?_expr_iff.2
      ⟨(hC.isTree_map_toJson_iff hr e).2 hfinite, hC.storedAs_map_toJson hr hfinite⟩
  · next hfinite =>
    refine Option.eq_none_iff_forall_ne_some.2 fun e' he' => hfinite ?_
    exact (hC.isTree_map_toJson_iff hr e).1 (hC.ofJson?_expr_iff.1 he').1

end

/-- The value that an expression is stored as is read back as that expression just if all of its
numbers are finite. -/
theorem Laws.ofJson?_toJson_expr (hC : C.Laws) (e : Expr) :
    C.ofJson? (C.toJson e) = if ∀ x ∈ e.leaves, x.isFinite = true then some e else none := by
  have hread := hC.ofJson?_map_toJson (r := id) (fun x hx => hC.nearest_ofFloat hx) e
  rwa [Json.map_id] at hread

end Codec

/-! ## The canonical form -/

namespace Expr

/-- **The stored form is exact and canonical.** With a library that keeps the laws, a JSON value is
read just if it has the form, and then as the one expression that it stands for. The form that is
written for that expression is read back as it, is written again from what is read back, and differs
from the value in spellings only. -/
theorem stored_form_exact_and_canonical {C : Codec} (hC : C.Laws) :
    (∀ j, (∃ e : Expr, C.ofJson? j = some e) ↔ C.IsTree j)
      ∧ (∀ (j : Json C.Number) (e : Expr), C.ofJson? j = some e ↔ C.IsTree j ∧ C.StoredAs e j)
      ∧ ∀ (j : Json C.Number) (e : Expr), C.ofJson? j = some e →
          C.IsTree (C.toJson e) ∧ C.ofJson? (C.toJson e) = some e
            ∧ (C.ofJson? (C.toJson e) : Option Expr).map C.toJson = some (C.toJson e)
            ∧ C.Respelled j (C.toJson e) := by
  refine ⟨fun j => hC.exists_ofJson?_iff, fun j e => hC.ofJson?_expr_iff, ?_⟩
  intro j e he
  obtain ⟨-, hstored⟩ := hC.ofJson?_expr_iff.1 he
  have hback : C.ofJson? (C.toJson e) = some e :=
    (hC.ofJson?_toJson_expr e).trans (if_pos hstored.finite)
  obtain ⟨htree, hcanonical⟩ := hC.ofJson?_expr_iff.1 hback
  exact ⟨htree, hback, congrArg (Option.map C.toJson) hback, hstored.respelled hcanonical⟩

/-- An operator in its long spelling, over a number with a zero too many and a minus zero, is read
as a product that is one with it but for spellings. -/
theorem stored_form_exact_and_canonical_product :
    let C := Json.codec
    let read : Json := .object [("binary", .array [.object [("mul", .null)],
      .object [("value", .number (.decimal ⟨false, 150, -2⟩))],
      .object [("value", .number (.decimal ⟨true, 0, 0⟩))]])]
    let product : Expr := .binary .mul (.value ⟨0x3ff8000000000000⟩) (.value ⟨0x8000000000000000⟩)
    C.Laws ∧ C.ofJson? read = some product ∧ C.IsTree read
      ∧ C.ofJson? (C.toJson product) = some product ∧ C.Respelled read (C.toJson product)
      ∧ ¬ C.IsTree (.object [("value", .null), ("binary", .null)]) := by
  intro C read product
  obtain ⟨haccepts, -, hcanonical⟩ := stored_form_exact_and_canonical Json.codec_laws
  have hread : C.ofJson? read = some product := by decide +kernel
  obtain ⟨-, hback, -, hrespelled⟩ := hcanonical read product hread
  refine ⟨Json.codec_laws, hread, (haccepts read).1 ⟨product, hread⟩, hback, hrespelled, ?_⟩
  rw [Codec.isTree_iff]
  simp

end Expr

end InfixCalc
