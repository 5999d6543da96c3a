import InfixCalc.Codec
import InfixCalc.Json.Printer
import InfixCalc.Json.Reader

/-!
# JSON as declared

The library for JSON with which programs run. A variant without contents is its name, and one with
contents an object with its name as the only key; a record is an object with a key for each setting.
When they are read, a variant without contents may also be such an object, with `null` in it, and a
record may be an array of its first settings. Each number is read as the binary64 number nearest to
it.
-/

namespace InfixCalc

namespace Json

/-! ## Writing -/

/-- A number that is not finite has no text; `null` stands in its place. -/
def ofFloat (x : Binary64) : Json :=
  if x.isFinite then number (.decimal x.shortest) else null

mutual

/-- Data as a value. -/
def ofData : Data → Json
  | .float x => ofFloat x
  | .variant name [] => string name
  | .variant name [content] => object [(name, ofData content)]
  | .variant name contents => object [(name, array (ofContents contents))]
  | .record settings => object (settings.map fun s => (s.1, s.2.toJson (.whole ·)))

/-- Each of some data as a value. -/
def ofContents : List Data → List Json
  | [] => []
  | content :: contents => ofData content :: ofContents contents

end

/-! ## Reading -/

/-- Reads a number; one that rounds to infinity is refused. -/
def readFloat? : Json → Option Binary64
  | number n => if n.toDecimal.nearest.isFinite then some n.toDecimal.nearest else none
  | _ => none

/-- Reads a setting: a limit is a whole number that fits into a word. -/
def readSetting? : SettingType → Json → Option Setting
  | .limit, number (.whole n) =>
    if 0 ≤ n ∧ n < Config.limitBound then some (.limit n.toNat) else none
  | .flag, bool b => some (.flag b)
  | _, _ => none

/-- Reads a record, from an object whatever else it holds, or from an array with no more elements
than there are fields. -/
def readRecord? (fields : List SettingField) : Json → Option Data
  | object entries =>
    (fields.mapM fun f => SettingField.readAt? readSetting? f (field? entries f.key)).map .record
  | array elements =>
    if elements.length ≤ fields.length then
      (fields.zipIdx.mapM fun f => SettingField.readAt? readSetting? f.1 elements[f.2]?).map .record
    else none
  | _ => none

/-- The variant with a name. -/
def variant? (variants : List Variant) (name : String) : Option Variant :=
  variants.find? fun v => v.name = name

mutual

/-- Reads what is in a variant. -/
def read? : ContentType → Json → Option Data
  | .float, j => (readFloat? j).map .float
  | .declared type, j =>
    match type.declaration, j with
    | .record fields, j => readRecord? fields j
    | .choice variants, string name =>
      match variant? variants name with
      | some ⟨name, []⟩ => some (.variant name [])
      | _ => none
    | .choice variants, object [(name, content)] =>
      match variant? variants name, content with
      | some ⟨name, []⟩, null => some (.variant name [])
      | some ⟨_, []⟩, _ => none
      | some ⟨name, [type]⟩, content => (read? type content).map fun d => .variant name [d]
      | some ⟨name, types⟩, array elements => (readAll? types elements).map (.variant name)
      | _, _ => none
    | .choice _, _ => none

/-- Reads values one by one as what is in a variant, if there are as many. -/
def readAll? : List ContentType → List Json → Option (List Data)
  | [], [] => some []
  | type :: types, j :: js =>
    match read? type j, readAll? types js with
    | some d, some ds => some (d :: ds)
    | _, _ => none
  | _, _ => none

end

/-- The library with which programs run. -/
def codec : Codec where
  Number := Number
  decimal := Number.toDecimal
  ofFloat x := .decimal x.shortest
  ofLimit n := .whole n
  write := ofData
  readFloat? := readFloat?
  readSetting? := readSetting?
  read? type := read? (.declared type)
  print := text
  reread n := ((number? n.text).map Prod.fst).getD n
  readText? type t := (ofText? t).bind (read? (.declared type))

end Json

end InfixCalc
