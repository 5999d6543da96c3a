import InfixCalc.Metrics.Exposition

/-!
# Metrics in memory

The registry of metrics with which programs run. Children of a family are told apart by a hash of
sixty-four bits of the bytes of their labels, taken one behind the other; a child keeps the labels
with which it was made first. Counts are words of sixty-four bits. They are written as binary64
numbers are, so that great ones are rounded.
-/

namespace InfixCalc

namespace Metrics

/-! ## Hashes -/

/-- The hash of a text: its bytes are mixed into a word one after the other, each by an exclusive or
and a multiplication. -/
def hash (text : String) : UInt64 :=
  text.toUTF8.data.toList.foldl (fun h byte => (h ^^^ byte.toUInt64) * 0x100000001b3)
    0xcbf29ce484222325

/-! ## Children -/

/-- A child is found by its family and the hash of its labels. -/
structure Child where
  family : Family
  hash : UInt64
  deriving DecidableEq, Repr

/-- The upper bounds of the buckets of a histogram, in milliseconds. -/
def bucketBounds : List Nat := [5, 10, 25, 50, 100, 250, 500, 1000, 2500, 5000, 10000]

/-- What a child has counted: how often, and, of durations, how many lie within each bound, and
their sum in nanoseconds. -/
structure Tally where
  count : UInt64
  within : List UInt64
  sum : Nat
  deriving DecidableEq, Repr

namespace Tally

/-- Nothing is counted yet. -/
def zero : Tally := ⟨0, bucketBounds.map fun _ => 0, 0⟩

/-- One more is counted. -/
def inc (t : Tally) : Tally := { t with count := t.count + 1 }

/-- One more duration is counted. -/
def observe (t : Tally) (duration : Nat) : Tally :=
  ⟨t.count + 1,
    List.zipWith (fun bound n => if duration ≤ bound * 1000000 then n + 1 else n)
      bucketBounds t.within,
    t.sum + duration⟩

/-- What a child of a family shows of what it has counted; bounds and sums in seconds. -/
def value (t : Tally) : MetricKind → MetricValue
  | .counter => .counter t.count
  | .histogram =>
    .histogram t.count
      (List.zipWith (fun bound n => (Decimal.nearest ⟨false, bound, -3⟩, n)) bucketBounds t.within)
      (Decimal.nearest ⟨false, t.sum, -9⟩)

end Tally

end Metrics

/-- The metrics of a program: the labels of the children of each family, in the order in which they
were made, and what has been counted by each child. -/
structure Metrics where
  children : Family → List Labels
  tally : Metrics.Child → Metrics.Tally

namespace Metrics

/-- The metrics of a program that has measured nothing. -/
def empty : Metrics := ⟨fun _ => [], fun _ => .zero⟩

instance : Inhabited Metrics := ⟨empty⟩

/-- The metrics with a child of a family for labels, which is made if its hash is new. -/
def withChild (m : Metrics) (f : Family) (l : Labels) : Metrics :=
  if (m.children f).any fun l' => hash l'.text = hash l.text then m
  else { m with children := fun f' => if f' = f then m.children f ++ [l] else m.children f' }

/-- The metrics with what a child has counted changed. -/
def update (m : Metrics) (c : Child) (change : Tally → Tally) : Metrics :=
  { m with tally := fun c' => if c' = c then change (m.tally c) else m.tally c' }

/-- Making a child counts nothing. -/
@[simp] theorem tally_withChild (m : Metrics) (f : Family) (l : Labels) (c : Child) :
    (m.withChild f l).tally c = m.tally c := by
  unfold withChild
  split <;> rfl

/-- A child is made with its labels, unless there is one with their hash. -/
theorem children_withChild_self (m : Metrics) (f : Family) (l : Labels) :
    (m.withChild f l).children f = if ∃ l' ∈ m.children f, hash l'.text = hash l.text then
      m.children f else m.children f ++ [l] := by
  unfold withChild
  simp only [List.any_eq_true, decide_eq_true_eq]
  split <;> simp

/-- Making a child touches no other family. -/
theorem children_withChild_of_ne (m : Metrics) {f f' : Family} (h : f' ≠ f) (l : Labels) :
    (m.withChild f l).children f' = m.children f' := by
  unfold withChild
  split
  · rfl
  · exact if_neg h

/-- What a child has counted is changed. -/
@[simp] theorem tally_update_self (m : Metrics) (c : Child) (change : Tally → Tally) :
    (m.update c change).tally c = change (m.tally c) := if_pos rfl

/-- What the others have counted is not. -/
theorem tally_update_of_ne (m : Metrics) {c c' : Child} (h : c' ≠ c) (change : Tally → Tally) :
    (m.update c change).tally c' = m.tally c' := if_neg h

/-! ## Gathering -/

/-- Labels come before others, or are the same: by the layer, then by the function. -/
def labelsLE (l l' : Labels) : Bool :=
  l.layer < l'.layer || (l.layer == l'.layer && decide (l.function ≤ l'.function))

/-- A family with its children in the order of their labels. -/
def family (m : Metrics) (f : Family) : MetricFamily :=
  ⟨f, ((m.children f).mergeSort labelsLE).map fun l =>
    ⟨l, (m.tally ⟨f, hash l.text⟩).value f.kind⟩⟩

/-- All families that have children. -/
def gather (m : Metrics) : List MetricFamily :=
  (Family.all.filter fun f => m.children f ≠ []).map m.family

/-- The whole number that is written for a count: the count itself as long as all counts up to it
are binary64 numbers, and then the shortest one that reads back as the number nearest to the count.
-/
def numeral (n : UInt64) : Nat :=
  if n.toNat ≤ 9007199254740992 then n.toNat
  else
    let shortest := (Decimal.nearest ⟨false, n.toNat, 0⟩).shortest
    match shortest.exponent with
    | .ofNat zeros => shortest.significand * Decimal.powerOfTen zeros
    | .negSucc _ => n.toNat

/-- The text of families; a family without children has none. -/
def encode (families : List MetricFamily) : Except String String :=
  if families.any fun g => g.metrics.isEmpty then .error "MetricFamily has no metrics"
  else .ok (Exposition.text numeral families)

/-- The registry with which programs run. -/
def registry : Registry where
  Store := Metrics
  Child := Child
  empty := empty
  hash := hash
  child f l := fun m => (⟨f, hash l.text⟩, m.withChild f l)
  inc c m := m.update c Tally.inc
  observe c duration m := m.update c fun t => t.observe duration
  count c m := (m.tally c).count
  children f m := m.children f
  gather := gather
  numeral := numeral
  encode := encode

end Metrics

end InfixCalc
