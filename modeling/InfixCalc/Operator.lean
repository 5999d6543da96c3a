import InfixCalc.Binary64

/-!
# Operators and their tiers

The five binary operators, the table of their symbols and names, and the tiers of precedence in
which the grammar reads them. Main statements: looking up an operator's symbol or name finds that
operator (`ofSymbol?_symbol`, `ofName?_name`), and an operator is one of its own tier
(`mem_operators`).
-/

namespace InfixCalc

/-! ## Operators -/

/-- A binary infix operator. -/
inductive Operator where
  | add
  | sub
  | mul
  | div
  | pow
  deriving DecidableEq, Repr, Inhabited

/-- A tier of precedence. -/
inductive Tier where
  | additive
  | multiplicative
  | power
  deriving DecidableEq, Repr, Inhabited

/-- Why a text is not read as an operator. -/
inductive Operator.SymbolError where
  | noSuchOperator
  deriving DecidableEq, Repr

namespace Operator

/-- All operators, in the order of the table. -/
def all : List Operator := [.add, .sub, .mul, .div, .pow]

/-- The table is complete. -/
theorem mem_all (op : Operator) : op ∈ all := by
  cases op <;> decide

/-- The symbol that stands between the operands. -/
def symbol : Operator → Char
  | add => '+'
  | sub => '-'
  | mul => '*'
  | div => '/'
  | pow => '^'

/-- The name under which an operator is stored. -/
def name : Operator → String
  | add => "add"
  | sub => "sub"
  | mul => "mul"
  | div => "div"
  | pow => "pow"

/-- The operator with a symbol. -/
def ofSymbol? (symbol : Char) : Option Operator :=
  all.find? fun op => op.symbol = symbol

/-- The operator with a name. -/
def ofName? (name : String) : Option Operator :=
  all.find? fun op => op.name = name

/-- The operator whose symbol is the whole of a text. -/
def ofText (text : String) : Except SymbolError Operator :=
  match all.find? fun op => String.singleton op.symbol = text with
  | some op => .ok op
  | none => .error .noSuchOperator

/-- The message of an unknown symbol. -/
def SymbolError.message : SymbolError → String
  | noSuchOperator => "Matching variant not found"

/-- Each symbol belongs to one operator. -/
@[simp] theorem ofSymbol?_symbol (op : Operator) : ofSymbol? op.symbol = some op := by
  cases op <;> decide

/-- Each name belongs to one operator. -/
@[simp] theorem ofName?_name (op : Operator) : ofName? op.name = some op := by
  cases op <;> decide

/-- The symbol of the operator that is found is the one that was looked up. -/
theorem symbol_eq_of_ofSymbol? {c : Char} {op : Operator} (h : ofSymbol? c = some op) :
    op.symbol = c := by
  simpa [ofSymbol?] using List.find?_some h

/-- The name of the operator that is found is the one that was looked up. -/
theorem name_eq_of_ofName? {n : String} {op : Operator} (h : ofName? n = some op) :
    op.name = n := by
  simpa [ofName?] using List.find?_some h

/-- The tier at which an operator binds. -/
def tier : Operator → Tier
  | add | sub => .additive
  | mul | div => .multiplicative
  | pow => .power

/-- The value of an operator on two operands. No operand is refused: a division by zero and a power
that does not exist give an infinity or a NaN. -/
def apply : Operator → Binary64 → Binary64 → Binary64
  | add => Binary64.add
  | sub => Binary64.sub
  | mul => Binary64.mul
  | div => Binary64.div
  | pow => Binary64.pow

end Operator

/-! ## Tiers -/

namespace Tier

/-- All tiers, loosest first. -/
def all : List Tier := [.additive, .multiplicative, .power]

/-- How loosely a tier binds: the number of tighter tiers. -/
def looseness : Tier → Nat
  | additive => 2
  | multiplicative => 1
  | power => 0

/-- A looser tier comes before a tighter one. -/
instance : Ord Tier where
  compare a b := compare b.looseness a.looseness

/-- The next tighter tier; the operands of the tightest tier are atoms. -/
def tighter : Tier → Option Tier
  | additive => some .multiplicative
  | multiplicative => some .power
  | power => none

/-- The next tighter tier has one tighter tier fewer. -/
theorem looseness_eq_of_tighter {t u : Tier} (h : t.tighter = some u) :
    t.looseness = u.looseness + 1 := by
  cases t <;> cases h <;> rfl

/-- The operators of a tier, in the order of the table. -/
def operators (t : Tier) : List Operator :=
  Operator.all.filter fun op => op.tier = t

/-- The operator of a tier with a symbol. -/
def operator? (t : Tier) (symbol : Char) : Option Operator :=
  t.operators.find? fun op => op.symbol = symbol

/-- An operator belongs to its tier and to no other. -/
theorem mem_operators {t : Tier} {op : Operator} : op ∈ t.operators ↔ op.tier = t := by
  simp [operators, Operator.mem_all]

/-- A tier reads its own operators by their symbols, and nothing else. -/
theorem operator?_eq_some_iff {t : Tier} {c : Char} {op : Operator} :
    t.operator? c = some op ↔ op.symbol = c ∧ op.tier = t := by
  constructor
  · intro h
    exact ⟨by simpa using List.find?_some h, mem_operators.1 (List.mem_of_find?_eq_some h)⟩
  · rintro ⟨rfl, rfl⟩
    cases op <;> decide

end Tier

end InfixCalc
