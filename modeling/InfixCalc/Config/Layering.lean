import InfixCalc.Config.Value
import InfixCalc.Data

/-!
# Libraries for settings in layers

A library makes a layer of the variables of an environment, lays it over one of settings that are
given, and reads the fields of a record from what stands there then. It is given by its operations
alone, so what becomes of an environment can be said for each library that does what is expected of
one.
-/

namespace InfixCalc

/-- A setting as a value. -/
def Setting.toValue : Setting → Config.Value
  | limit n => .unsigned n
  | flag b => .flag b

namespace Config

/-- A value inside tables, one for each key of a path. -/
def nest (value : Value) : List String → Value
  | [] => value
  | key :: keys => .table [(key, nest value keys)]

/-- The names and texts of variables. -/
abbrev Environment := List (String × String)

/-- Gives a variable a text: in its place if there is one of that name, or behind all others. -/
def Environment.set (env : Environment) (name text : String) : Environment :=
  match env with
  | [] => [(name, text)]
  | entry :: rest =>
    if entry.1 = name then (name, text) :: rest else entry :: Environment.set rest name text

/-- What a library for settings in layers offers. -/
structure Layering where
  /-- Its errors. -/
  Error : Type
  /-- The key of the setting that is wrong. -/
  key : Error → String
  /-- The value of the text of a variable. -/
  parse : String → Value
  /-- The layer of the variables of an environment whose names begin with some letters. -/
  layer : String → Environment → Value
  /-- The layer of settings that are given under their keys. -/
  serialized : List (String × Setting) → Value
  /-- A layer with another one laid over it. -/
  merge : Value → Value → Value
  /-- The setting of a type that a value is. -/
  setting? : SettingType → Value → Option Setting
  /-- Reads the settings of some fields from a layer. -/
  extract : List SettingField → Value → Except Error (List (String × Setting))

/-- The letters with which the names of the settings' variables begin. -/
def variablePrefix : String := "EXPRESSION_"

/-- The layer of an environment over that of the defaults. -/
def Layering.merged (L : Layering) (env : Environment) : Value :=
  L.merge (L.serialized default.toSettings) (L.layer variablePrefix env)

/-- The settings of an environment, read from its layer over that of the defaults. -/
def Layering.fromEnvironment (L : Layering) (env : Environment) : Except L.Error Config :=
  (L.extract (Field.all.map Field.declared) (L.merged env)).map ofSettings

end Config

end InfixCalc
