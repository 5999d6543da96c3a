import InfixCalc.Binary64

/-!
# Registries of metrics

How often the functions of a program succeed and fail, and how long they take, is kept by a registry
of metrics. The program names three families of metrics. It asks the registry for the children of
these families under the labels of a function, counts with them, and has all metrics gathered and
written.

A registry is given by its operations alone, so what the program makes of them can be said of each
registry that does what is expected of one.
-/

namespace InfixCalc

/-! ## Families -/

/-- What the children of a family are. -/
inductive MetricKind where
  /-- Numbers that only grow. -/
  | counter
  /-- Distributions of durations. -/
  | histogram
  deriving DecidableEq, Repr

/-- The families of metrics that are kept of functions. -/
inductive Family where
  | failure
  | success
  | timer
  deriving DecidableEq, Repr

namespace Family

/-- The name under which a family is registered. -/
def name : Family → String
  | failure => "failure_counter"
  | success => "success_counter"
  | timer => "timer"

/-- What a family is said to be. -/
def help : Family → String
  | failure => "Failure Count"
  | success => "Success Count"
  | timer => "Duration in seconds"

/-- What the children of a family are. -/
def kind : Family → MetricKind
  | failure => .counter
  | success => .counter
  | timer => .histogram

/-- All families, in the order of their names. -/
def all : List Family := [failure, success, timer]

end Family

/-- The labels of a function: the layer of the program that it belongs to, and its name. -/
structure Labels where
  layer : String
  function : String
  deriving DecidableEq, Repr

/-- The name of the label that holds the layer. -/
def Labels.layerName : String := "app_layer"

/-- The name of the label that holds the function. -/
def Labels.functionName : String := "class_function"

/-- The labels one behind the other. -/
def Labels.text (l : Labels) : String := l.layer ++ l.function

/-! ## Metrics that are gathered -/

/-- What a child has counted. -/
inductive MetricValue where
  | counter (count : UInt64)
  /-- The number of durations, how many of them are within each bound, and their sum, in seconds. -/
  | histogram (count : UInt64) (buckets : List (Binary64 × UInt64)) (sum : Binary64)
  deriving DecidableEq, Repr

/-- How often a child has counted. -/
def MetricValue.count : MetricValue → UInt64
  | counter count => count
  | histogram count _ _ => count

/-- The kind of the child whose value it is. -/
def MetricValue.kind : MetricValue → MetricKind
  | counter _ => .counter
  | histogram _ _ _ => .histogram

/-- A child with its labels and what it has counted. -/
structure Metric where
  labels : Labels
  value : MetricValue
  deriving DecidableEq, Repr

/-- A family with all of its children. -/
structure MetricFamily where
  family : Family
  metrics : List Metric
  deriving DecidableEq, Repr

/-! ## Registries -/

/-- What a registry of metrics offers. -/
structure Registry where
  /-- What has been made and counted so far. -/
  Store : Type
  /-- A counter or a histogram of a family. Those who hold one share it. -/
  Child : Type
  /-- Nothing has been made and counted. -/
  empty : Store
  /-- What the children of a family are told apart by, of their labels one behind the other. -/
  hash : String → UInt64
  /-- The child of a family for labels. It is made with these labels where there is none yet. -/
  child (f : Family) (l : Labels) : StateM Store Child
  /-- Counts one more. -/
  inc (c : Child) (s : Store) : Store
  /-- Counts one more duration, of a number of nanoseconds. -/
  observe (c : Child) (duration : Nat) (s : Store) : Store
  /-- How often a child has counted. -/
  count (c : Child) (s : Store) : UInt64
  /-- The labels with which the children of a family were made. -/
  children (f : Family) (s : Store) : List Labels
  /-- All families with their children. -/
  gather (s : Store) : List MetricFamily
  /-- The whole number that is written for a count. -/
  numeral (n : UInt64) : Nat
  /-- The text of families, or why there is none. -/
  encode (families : List MetricFamily) : Except String String

end InfixCalc
