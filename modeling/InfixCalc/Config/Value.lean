import InfixCalc.Binary64.Shortest
import InfixCalc.Text.Quoted

/-!
# Values of variables

A variable of the environment has a value: a flag, a number, a text, a sequence or a table. Tables
of several layers are merged, and a value is described where it is not of the kind that is asked
for.
-/

namespace InfixCalc

namespace Config

/-- The value of a variable. -/
inductive Value where
  | flag (b : Bool)
  | unsigned (n : Nat)
  | signed (n : Int)
  | float (x : Binary64)
  | text (s : String)
  | sequence (elements : List Value)
  | table (entries : List (String × Value))
  deriving Repr, Inhabited

namespace Value

/-! ## Merging -/

/-- Puts a value under a key: in the place of the entry of that key, or behind all others. -/
def put (key : String) (value : Value) : List (String × Value) → List (String × Value)
  | [] => [(key, value)]
  | entry :: entries =>
    if entry.1 = key then (key, value) :: entries else entry :: put key value entries

mutual

/-- A value with another laid over it: two tables are merged, and of other values the upper one
counts. -/
def merge (lower upper : Value) : Value :=
  match upper with
  | .table entries =>
    match lower with
    | .table under => .table (mergeEntries under entries)
    | _ => .table entries
  | _ => upper

/-- The entries of a table with those of another laid over them, one after the other. -/
def mergeEntries (lower upper : List (String × Value)) : List (String × Value) :=
  match upper with
  | [] => lower
  | entry :: entries =>
    match lower.lookup entry.1 with
    | some under => mergeEntries (put entry.1 (merge under entry.2) lower) entries
    | none => mergeEntries (put entry.1 entry.2 lower) entries

end

/-- What was put under a key is found there. -/
theorem lookup_put (key : String) (value : Value) (entries : List (String × Value)) :
    (put key value entries).lookup key = some value := by
  induction entries with
  | nil => simp [put]
  | cons entry entries ih =>
    by_cases h : entry.1 = key
    · simp [put, h]
    · have h' : (key == entry.1) = false := beq_eq_false_iff_ne.2 fun e => h e.symm
      rw [put, if_neg h, List.lookup_cons, h']
      exact ih

/-- What stands under other keys stays as it is. -/
theorem lookup_put_of_ne {key other : String} (h : other ≠ key) (value : Value)
    (entries : List (String × Value)) :
    (put key value entries).lookup other = entries.lookup other := by
  have hk : (other == key) = false := beq_eq_false_iff_ne.2 h
  induction entries with
  | nil => simp [put, List.lookup_cons, hk]
  | cons entry entries ih =>
    by_cases he : entry.1 = key
    · rw [put, if_pos he, List.lookup_cons, List.lookup_cons, he, hk]
    · rw [put, if_neg he, List.lookup_cons, List.lookup_cons, ih]

/-! ## Description -/

/-- What a value is, in the words of an error message. -/
def description : Value → String
  | flag b => "bool " ++ toString b
  | unsigned n => "unsigned int `" ++ toString n ++ "`"
  | signed n => "signed int `" ++ toString n ++ "`"
  | float x => "float `" ++ String.ofList x.text ++ "`"
  | text s => "string " ++ Text.quoted s
  | sequence _ => "sequence"
  | table _ => "map"

end Value

end Config

end InfixCalc
