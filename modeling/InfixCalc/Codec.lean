import InfixCalc.Data
import InfixCalc.Json

/-!
# Libraries for JSON

A library writes data as JSON values and texts, and reads them back by the declarations of the
program. It is given by its operations alone, so what the program stores can be said for each
library that does what is expected of one. What is kept of the numbers of a text is its own affair:
a text may be read as a value with other numbers than those that were written.
-/

namespace InfixCalc

/-- A setting as a value, with a number for a limit. -/
def Setting.toJson {ν : Type} (ofLimit : Nat → ν) : Setting → Json ν
  | limit n => .number (ofLimit n)
  | flag b => .bool b

/-- What a library for JSON offers. -/
structure Codec where
  /-- What its values keep of numbers. -/
  Number : Type
  /-- The decimal that a number stands for. -/
  decimal : Number → Decimal
  /-- The number for a finite number of the format. -/
  ofFloat : Binary64 → Number
  /-- The number for a limit. -/
  ofLimit : Nat → Number
  /-- The value that data are written as. -/
  write : Data → Json Number
  /-- Reads a number of the format. -/
  readFloat? : Json Number → Option Binary64
  /-- Reads a setting. -/
  readSetting? : SettingType → Json Number → Option Setting
  /-- Reads data of a declared type. -/
  read? : TypeName → Json Number → Option Data
  /-- The text of a value. -/
  print : Json Number → String
  /-- What the text of a number is read as. -/
  reread : Number → Number
  /-- Reads data of a declared type from a text. -/
  readText? : TypeName → String → Option Data

namespace Codec

variable {α : Type} [Storable α] (C : Codec)

/-- The value that something is stored as. -/
def toJson (a : α) : Json C.Number := C.write (Storable.toData a)

/-- Reads what is stored as a value. -/
def ofJson? (j : Json C.Number) : Option α := (C.read? (Storable.type α) j).bind Storable.ofData?

/-- The text that something is stored as. -/
def stored (a : α) : String := C.print (C.toJson a)

/-- Reads what is stored as a text. -/
def ofStored? (text : String) : Option α :=
  (C.readText? (Storable.type α) text).bind Storable.ofData?

/-- Reads what is in a variant. -/
def readContent? : ContentType → Json C.Number → Option Data
  | .float, j => (C.readFloat? j).map .float
  | .declared type, j => C.read? type j

end Codec

end InfixCalc
