import InfixCalc.Config.Layering
import InfixCalc.Config.Value.Reader

/-!
# Settings from the environment

The library for settings in layers with which programs run. A variable is a setting if its name
begins with the letters that are asked for; dots in its name lead into tables. Settings are checked
in their order, and the first that is not of the right kind is the error.
-/

namespace InfixCalc

namespace Config

/-! ## Names of variables -/

/-- A letter of the ASCII range in lower case; other characters stay as they are. -/
def lower (text : List Char) : List Char := text.map Char.toLower

/-- The parts of a text between its dots. -/
def parts (text : List Char) : List (List Char) := text.splitOn '.'

/-- Where a variable puts its value: the keys that lead to it, if its name begins with some letters.
Blanks at the ends, also behind these letters, and the case of letters do not count, and no key may
be empty. -/
def path? (start : List Char) (name : String) : Option (List String) :=
  let trimmed := Text.trim name.toList
  if lower (trimmed.take start.length) = lower start then
    let keys := parts (lower (Text.trim (trimmed.drop start.length)))
    if keys.any List.isEmpty then none else some (keys.map String.ofList)
  else none

/-! ## Layers -/

/-- The layer of a single variable; a variable that is no setting adds nothing. -/
def layerOf (start name text : String) : Value :=
  match path? start.toList name with
  | some keys => nest (Value.ofText text) keys
  | none => .table []

/-- The layer of all variables of an environment, a later one laid over an earlier one. -/
def layer (start : String) (env : Environment) : Value :=
  env.foldl (fun lower var => lower.merge (layerOf start var.1 var.2)) (.table [])

/-! ## Reading a layer -/

/-- Why a value is not a setting. -/
inductive Mismatch where
  /-- The value is of another kind. -/
  | kind (found : Value)
  /-- The value is a negative number where a limit is asked for. -/
  | negative (n : Int)

/-- The setting that is wrong, and why. -/
structure LayerError where
  field : SettingField
  mismatch : Mismatch

/-- The kind of a setting, in the words of an error message. -/
def expected : SettingType → String
  | .limit => "usize"
  | .flag => "a boolean"

/-- The message of an error. -/
def LayerError.message (e : LayerError) : String :=
  match e.mismatch with
  | .kind found =>
    "invalid type: found " ++ found.description ++ ", expected " ++ expected e.field.type
  | .negative n =>
    "invalid value " ++ (Value.signed n).description ++ ", expected " ++ expected e.field.type

/-- Reads a setting: nothing but a whole number that is not negative is a limit, and nothing but a
flag is a flag. -/
def settingOfValue : SettingType → Value → Except Mismatch Setting
  | .limit, .unsigned n => .ok (.limit n)
  | .limit, .signed n => if n < 0 then .error (.negative n) else .ok (.limit n.toNat)
  | .flag, .flag b => .ok (.flag b)
  | _, other => .error (.kind other)

/-- Reads the setting of a field from what stands under its key, and takes the default if nothing
does. -/
def settingFound (f : SettingField) : Option Value → Except LayerError (String × Setting)
  | none => .ok (f.key, f.default)
  | some value =>
    match settingOfValue f.type value with
    | .ok s => .ok (f.key, s)
    | .error mismatch => .error ⟨f, mismatch⟩

/-- The entries of a layer. -/
def entriesOf : Value → List (String × Value)
  | .table entries => entries
  | _ => []

/-- Reads the settings of some fields from a layer, one after the other. -/
def extract (fields : List SettingField) (value : Value) :
    Except LayerError (List (String × Setting)) :=
  fields.mapM fun f => settingFound f ((entriesOf value).lookup f.key)

/-! ## The library -/

/-- The library with which programs run. -/
def layering : Layering where
  Error := LayerError
  key e := e.field.key
  parse := Value.ofText
  layer := layer
  serialized settings := .table (settings.map fun s => (s.1, s.2.toValue))
  merge := Value.merge
  setting? type value := (settingOfValue type value).toOption
  extract := extract

/-- The settings of an environment. -/
def ofEnvironment (env : Environment) : Except LayerError Config := layering.fromEnvironment env

end Config

end InfixCalc
