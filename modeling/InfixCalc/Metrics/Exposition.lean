import InfixCalc.Binary64.Shortest
import InfixCalc.Registry

/-!
# The text of metrics

The text of metrics is made of lines. A family has a line of help and a line with its kind, and then
the lines of its children. Labels are escaped so that none can end its quotes or its line.
-/

namespace InfixCalc

namespace Exposition

/-! ## Labels -/

/-- A character of a label between quotes. -/
def escapedLabelChar (c : Char) : List Char :=
  if c = '\\' then ['\\', '\\']
  else if c = '\n' then ['\\', 'n']
  else if c = '"' then ['\\', '"']
  else [c]

/-- A label between quotes, behind its name. -/
def labelText (name : String) (value : String) : List Char :=
  name.toList ++ '=' :: '"' :: value.toList.flatMap escapedLabelChar ++ ['"']

/-- The labels of a child, and the bound of a bucket if there is one. -/
def labelsText (l : Labels) (bound : Option (List Char)) : List Char :=
  labelText Labels.layerName l.layer ++ ',' :: labelText Labels.functionName l.function ++
    match bound with
    | none => []
    | some b => ',' :: labelText "le" (String.ofList b)

/-! ## Lines -/

/-- The line of a value: the name, the labels in curly brackets, a blank and the value. -/
def sampleLine (name : String) (l : Labels) (bound : Option (List Char)) (value : List Char) :
    List Char :=
  name.toList ++ '\x7b' :: labelsText l bound ++ '\x7d' :: ' ' :: value

/-- The name of a kind. -/
def kindName : MetricKind → String
  | .counter => "counter"
  | .histogram => "histogram"

/-- The first two lines of a family. -/
def familyHead (f : Family) : List (List Char) :=
  ["# HELP ".toList ++ f.name.toList ++ ' ' :: f.help.toList,
    "# TYPE ".toList ++ f.name.toList ++ ' ' :: (kindName f.kind).toList]

/-- The lines of a child: one for a counter; for a histogram one for each bucket with its bound, one
for the bucket without a bound, one for the sum and one for the count. -/
def metricLines (numeral : UInt64 → Nat) (name : String) (m : Metric) : List (List Char) :=
  let count (n : UInt64) : List Char := Decimal.digits (numeral n)
  match m.value with
  | .counter n => [sampleLine name m.labels none (count n)]
  | .histogram n buckets sum =>
    buckets.map (fun b => sampleLine (name ++ "_bucket") m.labels (some b.1.text) (count b.2))
    ++ [sampleLine (name ++ "_bucket") m.labels (some ['+', 'I', 'n', 'f']) (count n),
      sampleLine (name ++ "_sum") m.labels none sum.text,
      sampleLine (name ++ "_count") m.labels none (count n)]

/-- The lines of a family. -/
def familyLines (numeral : UInt64 → Nat) (g : MetricFamily) : List (List Char) :=
  familyHead g.family ++ g.metrics.flatMap (metricLines numeral g.family.name)

/-- The text of families, with a numeral for each count; each line ends with a line break. -/
def text (numeral : UInt64 → Nat) (families : List MetricFamily) : String :=
  String.ofList ((families.flatMap (familyLines numeral)).flatMap fun line => line ++ ['\n'])

end Exposition

end InfixCalc
