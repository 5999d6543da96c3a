import InfixCalc.Decimal

/-!
# JSON values

A number keeps what its text says of its kind: a whole number is written without a fraction and
without an exponent, and the fields of an object keep their order. Other values may keep less of
their numbers, or something else.
-/

namespace InfixCalc

/-- A number of JSON. Minus zero is not a whole number: it is the decimal with a sign and no digits
but zero. -/
inductive Json.Number where
  | whole (n : Int)
  | decimal (d : Decimal)
  deriving DecidableEq, Repr

/-- A JSON value, with what it keeps of numbers. -/
inductive Json (ν : Type := Json.Number) where
  | null
  | bool (b : Bool)
  | number (n : ν)
  | string (s : String)
  | array (elements : List (Json ν))
  | object (fields : List (String × Json ν))
  deriving Repr, Inhabited

namespace Json

variable {ν ν' : Type}

/-- The decimal that a number stands for. -/
def Number.toDecimal : Number → Decimal
  | whole n => ⟨decide (n < 0), n.natAbs, 0⟩
  | decimal d => d

/-- The value of a field of an object. -/
def field? (fields : List (String × Json ν)) (key : String) : Option (Json ν) :=
  fields.lookup key

/-! ## Other numbers -/

mutual

/-- A value with other numbers in the places of its numbers. -/
def map (f : ν → ν') : Json ν → Json ν'
  | null => null
  | bool b => bool b
  | number n => number (f n)
  | string s => string s
  | array elements => array (mapElements f elements)
  | object fields => object (mapFields f fields)

/-- Values with other numbers in the places of their numbers. -/
def mapElements (f : ν → ν') : List (Json ν) → List (Json ν')
  | [] => []
  | element :: elements => element.map f :: mapElements f elements

/-- Fields with other numbers in the places of their numbers. -/
def mapFields (f : ν → ν') : List (String × Json ν) → List (String × Json ν')
  | [] => []
  | (key, value) :: fields => (key, value.map f) :: mapFields f fields

end

/-- Elements have their numbers changed one by one. -/
theorem mapElements_eq (f : ν → ν') (elements : List (Json ν)) :
    mapElements f elements = elements.map (map f) := by
  induction elements with
  | nil => rfl
  | cons element elements ih => rw [mapElements, ih, List.map_cons]

/-- Fields keep their names when their numbers are changed. -/
theorem mapFields_eq (f : ν → ν') (fields : List (String × Json ν)) :
    mapFields f fields = fields.map fun field => (field.1, field.2.map f) := by
  induction fields with
  | nil => rfl
  | cons field fields ih => rw [mapFields, ih, List.map_cons]

mutual

/-- A value whose numbers are left as they are is left as it is. -/
theorem map_id : (j : Json ν) → j.map id = j
  | null | bool _ | number _ | string _ => rfl
  | array elements => congrArg array (mapElements_id elements)
  | object fields => congrArg object (mapFields_id fields)

/-- Values whose numbers are left as they are are left as they are. -/
theorem mapElements_id : (elements : List (Json ν)) → mapElements id elements = elements
  | [] => rfl
  | element :: elements => by rw [mapElements, map_id, mapElements_id]

/-- Fields whose numbers are left as they are are left as they are. -/
theorem mapFields_id : (fields : List (String × Json ν)) → mapFields id fields = fields
  | [] => rfl
  | (key, value) :: fields => by rw [mapFields, map_id, mapFields_id]

end

/-- An array keeps its elements when their numbers are changed. -/
@[simp] theorem map_array (f : ν → ν') (elements : List (Json ν)) :
    (array elements).map f = array (elements.map (map f)) := by
  rw [map, mapElements_eq]

/-- An object keeps its fields when their numbers are changed. -/
@[simp] theorem map_object (f : ν → ν') (fields : List (String × Json ν)) :
    (object fields).map f = object (fields.map fun field => (field.1, field.2.map f)) := by
  rw [map, mapFields_eq]

end Json

end InfixCalc
