import InfixCalc.Config
import InfixCalc.Expr

/-!
# Declared types

What is stored is written and read by libraries. They know the types of a program by their
declarations, and are handed its values as data: a choice between variants, each with a name and
contents, or a record of settings, each with a key. A setting that is not given has its default.
-/

namespace InfixCalc

/-! ## Types -/

/-- The types that are declared. -/
inductive TypeName where
  | operator
  | expr
  | config
  deriving DecidableEq, Repr

/-- The types of what is in a variant. -/
inductive ContentType where
  | float
  | declared (type : TypeName)
  deriving DecidableEq, Repr

/-- The types of settings. -/
inductive SettingType where
  /-- A word of sixty-four bits. -/
  | limit
  | flag
  deriving DecidableEq, Repr

/-! ## Data -/

/-- What a setting is. -/
inductive Setting where
  | limit (n : Nat)
  | flag (b : Bool)
  deriving DecidableEq, Repr

/-- A setting fits its type. -/
def Setting.type : Setting → SettingType
  | limit _ => .limit
  | flag _ => .flag

/-- Data of a declared type, and of what is in its variants. -/
inductive Data where
  | float (x : Binary64)
  | variant (name : String) (contents : List Data)
  | record (settings : List (String × Setting))
  deriving Repr, Inhabited

/-! ## Declarations -/

/-- A variant of a type. -/
structure Variant where
  name : String
  contents : List ContentType
  deriving DecidableEq, Repr

/-- A field of a record, with the setting that it has if none is given. -/
structure SettingField where
  key : String
  type : SettingType
  default : Setting
  deriving DecidableEq, Repr

/-- Reads the setting of a field from what is found for it, and takes the default if nothing is. -/
def SettingField.readAt? {β : Type} (read? : SettingType → β → Option Setting) (f : SettingField) :
    Option β → Option (String × Setting)
  | none => some (f.key, f.default)
  | some found => (read? f.type found).map fun s => (f.key, s)

/-- What a type is declared as. -/
inductive Declaration where
  | choice (variants : List Variant)
  | record (fields : List SettingField)
  deriving DecidableEq, Repr

/-! ## Operators -/

/-- An operator is a variant without contents. -/
def Operator.variant (op : Operator) : Variant := ⟨op.name, []⟩

/-- An operator as data. -/
def Operator.toData (op : Operator) : Data := .variant op.name []

/-- The operator that data are. -/
def Operator.ofData? : Data → Option Operator
  | .variant name [] => ofName? name
  | _ => none

/-! ## Expressions -/

namespace Expr

/-- The name of a number. -/
def valueKey : String := "value"

/-- The name of an operator with its operands. -/
def binaryKey : String := "binary"

/-- The variants of expressions. -/
def variants : List Variant :=
  [⟨valueKey, [.float]⟩, ⟨binaryKey, [.declared .operator, .declared .expr, .declared .expr]⟩]

/-- An expression as data. -/
def toData : Expr → Data
  | value number => .variant valueKey [.float number]
  | binary op left right => .variant binaryKey [op.toData, left.toData, right.toData]

/-- The expression that data are. -/
def ofData? : Data → Option Expr
  | .variant name [.float number] => if name = valueKey then some (value number) else none
  | .variant name [op, left, right] =>
    if name = binaryKey then
      match Operator.ofData? op, ofData? left, ofData? right with
      | some op, some left, some right => some (binary op left right)
      | _, _, _ => none
    else none
  | _ => none

end Expr

/-! ## Settings -/

namespace Config

/-- What settings have for a field. -/
def Field.setting (c : Config) : Field → Setting
  | maxDepth => .limit c.maxDepth
  | maxTreeDepth => .limit c.maxTreeDepth
  | strictDelimiters => .flag c.strictDelimiters

/-- The field of a record for a setting. -/
def Field.declared (f : Field) : SettingField :=
  ⟨f.key, (f.setting default).type, f.setting default⟩

/-- Settings under their keys. -/
def toSettings (c : Config) : List (String × Setting) := Field.all.map fun f => (f.key, f.setting c)

/-- The limit that is given for a field, or else another one. -/
def limitOr (settings : List (String × Setting)) (f : Field) (other : Nat) : Nat :=
  match settings.lookup f.key with
  | some (.limit n) => n
  | _ => other

/-- The flag that is given for a field, or else another one. -/
def flagOr (settings : List (String × Setting)) (f : Field) (other : Bool) : Bool :=
  match settings.lookup f.key with
  | some (.flag b) => b
  | _ => other

/-- The settings that are given under their keys, with the defaults for the others. -/
def ofSettings (settings : List (String × Setting)) : Config where
  maxDepth := limitOr settings .maxDepth default.maxDepth
  maxTreeDepth := limitOr settings .maxTreeDepth default.maxTreeDepth
  strictDelimiters := flagOr settings .strictDelimiters default.strictDelimiters

/-- Settings as data. -/
def toData (c : Config) : Data := .record c.toSettings

/-- The settings that data are. -/
def ofData? : Data → Option Config
  | .record settings => some (ofSettings settings)
  | _ => none

end Config

/-- The declarations of the program. -/
def TypeName.declaration : TypeName → Declaration
  | operator => .choice (Operator.all.map Operator.variant)
  | expr => .choice Expr.variants
  | config => .record (Config.Field.all.map Config.Field.declared)

/-! ## Values of declared types -/

/-- Values that are stored as data of a declared type. -/
class Storable (α : Type) where
  type : TypeName
  toData : α → Data
  ofData? : Data → Option α

instance : Storable Operator := ⟨.operator, Operator.toData, Operator.ofData?⟩

instance : Storable Expr := ⟨.expr, Expr.toData, Expr.ofData?⟩

instance : Storable Config := ⟨.config, Config.toData, Config.ofData?⟩

end InfixCalc
