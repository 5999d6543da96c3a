import Mathlib
import InfixCalc.Metrics.Measure
import InfixCalc.Proofs.Rounding
import InfixCalc.Proofs.Text.ByteOrder

/-!
# The laws of registries of metrics

What is expected of a registry of metrics, one law for each thing that it does. Making a child
changes no count, and counting changes that of one child; children are the same where their families
are and the hashes of their labels. All children are gathered, family by family, and written line by
line.

Main statements: what the operations of a program on a registry come to by these laws
(`Registry.Laws.newMeasure_fst`, `Registry.Laws.count_tick`), and that the metrics in memory keep
them (`Metrics.registry_laws`).
-/

namespace InfixCalc

/-- Labels come before others, bytewise: by the layer, and by the function where the layers are the
same. -/
def LabelsBefore (p q : Labels) : Prop :=
  Text.bytes p.layer < Text.bytes q.layer
    ∨ p.layer = q.layer ∧ Text.bytes p.function < Text.bytes q.function

/-! ## Laws -/

/-- What is expected of a registry of metrics. -/
structure Registry.Laws (R : Registry) : Prop where
  /-- A family has one child for each hash of labels, and no two families share one. -/
  child_eq_iff (f f' : Family) (l l' : Labels) (s s' : R.Store) :
    (R.child f l s).1 = (R.child f' l' s').1 ↔ f = f' ∧ R.hash l.text = R.hash l'.text
  /-- At first nothing has been counted. -/
  count_empty (c : R.Child) : R.count c R.empty = 0
  /-- A child that is made has counted nothing, and the others are not touched. -/
  count_child (f : Family) (l : Labels) (c : R.Child) (s : R.Store) :
    R.count c (R.child f l s).2 = R.count c s
  /-- A counter that is increased has counted once more. -/
  count_inc_self (c : R.Child) (s : R.Store) : R.count c (R.inc c s) = R.count c s + 1
  /-- The others are not touched. -/
  count_inc_of_ne {c c' : R.Child} (h : c' ≠ c) (s : R.Store) :
    R.count c' (R.inc c s) = R.count c' s
  /-- A histogram that observes a duration has counted once more. -/
  count_observe_self (c : R.Child) (duration : Nat) (s : R.Store) :
    R.count c (R.observe c duration s) = R.count c s + 1
  /-- The others are not touched. -/
  count_observe_of_ne {c c' : R.Child} (h : c' ≠ c) (duration : Nat) (s : R.Store) :
    R.count c' (R.observe c duration s) = R.count c' s
  /-- At first there are no children. -/
  children_empty (f : Family) : R.children f R.empty = []
  /-- A child is made with the labels for which it is asked, unless there is one with their hash. -/
  children_child_self (f : Family) (l : Labels) (s : R.Store) :
    R.children f (R.child f l s).2
      = if ∃ l' ∈ R.children f s, R.hash l'.text = R.hash l.text then R.children f s
        else R.children f s ++ [l]
  /-- Other families are not touched. -/
  children_child_of_ne {f f' : Family} (h : f' ≠ f) (l : Labels) (s : R.Store) :
    R.children f' (R.child f l s).2 = R.children f' s
  /-- Counting makes no children. -/
  children_inc (f : Family) (c : R.Child) (s : R.Store) : R.children f (R.inc c s) = R.children f s
  /-- Observing makes no children. -/
  children_observe (f : Family) (c : R.Child) (duration : Nat) (s : R.Store) :
    R.children f (R.observe c duration s) = R.children f s
  /-- The families that have children are gathered, in the order of their names. -/
  gather_families (s : R.Store) :
    (R.gather s).map MetricFamily.family = Family.all.filter fun f => R.children f s ≠ []
  /-- A family is gathered with each of its children and what that has counted. -/
  gather_metrics {s : R.Store} {g : MetricFamily} (h : g ∈ R.gather s) :
    (g.metrics.map fun m => (m.labels, m.value.count)).Perm
      ((R.children g.family s).map fun l => (l, R.count (R.child g.family l s).1 s))
  /-- The children of a family are of its kind. -/
  gather_kind {s : R.Store} {g : MetricFamily} (h : g ∈ R.gather s) :
    ∀ m ∈ g.metrics, m.value.kind = g.family.kind
  /-- The children of a family are gathered in the order of their labels. -/
  gather_sorted {s : R.Store} {g : MetricFamily} (h : g ∈ R.gather s) :
    g.metrics.Pairwise fun m m' => LabelsBefore m.labels m'.labels ∨ m.labels = m'.labels
  /-- Counts are written as they are as long as binary64 numbers hold them exactly. -/
  numeral_eq {n : UInt64} (h : n.toNat ≤ 2 ^ 53) : R.numeral n = n.toNat
  /-- What is written for a count reads back as the binary64 number nearest to it. -/
  nearest_numeral (n : UInt64) :
    Decimal.nearest ⟨false, R.numeral n, 0⟩ = Decimal.nearest ⟨false, n.toNat, 0⟩
  /-- Families with children are written, line by line. -/
  encode_eq {families : List MetricFamily} (h : ∀ g ∈ families, g.metrics ≠ []) :
    R.encode families = .ok (Exposition.text R.numeral families)

namespace Registry

variable {R : Registry}

/-! ## Children and measures -/

/-- The child of a family for labels. -/
def childOf (R : Registry) (f : Family) (l : Labels) : R.Child := (R.child f l R.empty).1

/-- What the child of a family for labels has counted. -/
def counts (R : Registry) (f : Family) (l : Labels) (s : R.Store) : UInt64 :=
  R.count (R.child f l s).1 s

/-- The measure for labels. -/
def measureOf (R : Registry) (l : Labels) : R.Measure :=
  ⟨R.childOf .success l, R.childOf .failure l, R.childOf .timer l⟩

/-- One more call is counted in a family: calls are observed by timers, and increase counters. -/
def tick (R : Registry) (f : Family) (l : Labels) (duration : Nat) (s : R.Store) : R.Store :=
  match f.kind with
  | .counter => R.inc (R.childOf f l) s
  | .histogram => R.observe (R.childOf f l) duration s

namespace Laws

/-- A child is the same in whatever store it is asked for. -/
theorem child_fst (hR : R.Laws) (f : Family) (l : Labels) (s : R.Store) :
    (R.child f l s).1 = R.childOf f l :=
  (hR.child_eq_iff f f l l s R.empty).2 ⟨rfl, rfl⟩

/-- Children are the same where their families are and the hashes of their labels. -/
theorem childOf_eq_iff (hR : R.Laws) {f f' : Family} {l l' : Labels} :
    R.childOf f l = R.childOf f' l' ↔ f = f' ∧ R.hash l.text = R.hash l'.text :=
  hR.child_eq_iff f f' l l' R.empty R.empty

/-- The counts of a family for labels are those of its child. -/
theorem counts_eq (hR : R.Laws) (f : Family) (l : Labels) (s : R.Store) :
    R.counts f l s = R.count (R.childOf f l) s := by
  rw [counts, hR.child_fst]

/-- **Making a measure** gives the measure for its labels. -/
theorem newMeasure_fst (hR : R.Laws) (l : Labels) (s : R.Store) :
    (R.newMeasure l s).1 = R.measureOf l := by
  change Measure.mk (R.child .success l s).1 (R.child .failure l _).1 (R.child .timer l _).1 = _
  rw [hR.child_fst, hR.child_fst, hR.child_fst, measureOf]

/-- Making a measure changes no count. -/
theorem count_newMeasure (hR : R.Laws) (l : Labels) (c : R.Child) (s : R.Store) :
    R.count c (R.newMeasure l s).2 = R.count c s := by
  change R.count c (R.child .timer l (R.child .failure l (R.child .success l s).2).2).2 = _
  rw [hR.count_child, hR.count_child, hR.count_child]

/-- Making a measure makes a child in each family, unless there is one with the hash of its labels.
-/
theorem children_newMeasure (hR : R.Laws) (f : Family) (l : Labels) (s : R.Store) :
    R.children f (R.newMeasure l s).2
      = if ∃ l' ∈ R.children f s, R.hash l'.text = R.hash l.text then R.children f s
        else R.children f s ++ [l] := by
  change R.children f (R.child .timer l (R.child .failure l (R.child .success l s).2).2).2 = _
  cases f with
  | success =>
      rw [hR.children_child_of_ne (by decide), hR.children_child_of_ne (by decide),
        hR.children_child_self]
  | failure =>
      rw [hR.children_child_of_ne (by decide), hR.children_child_self,
        hR.children_child_of_ne (by decide)]
  | timer =>
      rw [hR.children_child_self, hR.children_child_of_ne (by decide),
        hR.children_child_of_ne (by decide)]

/-- **Counting a call changes one count:** that of the family, under the hash of the labels. -/
theorem count_tick (hR : R.Laws) (f f' : Family) (l l' : Labels) (duration : Nat) (s : R.Store) :
    R.count (R.childOf f' l') (R.tick f l duration s)
      = R.count (R.childOf f' l') s
        + if f' = f ∧ R.hash l'.text = R.hash l.text then 1 else 0 := by
  rw [tick]
  split_ifs with h
  · rw [hR.childOf_eq_iff.2 h]
    cases f.kind with
    | counter => exact hR.count_inc_self _ s
    | histogram => exact hR.count_observe_self _ duration s
  · have hne : R.childOf f' l' ≠ R.childOf f l := fun heq => h (hR.childOf_eq_iff.1 heq)
    rw [UInt64.add_zero]
    cases f.kind with
    | counter => exact hR.count_inc_of_ne hne s
    | histogram => exact hR.count_observe_of_ne hne duration s

/-- Counting a call makes no children. -/
theorem children_tick (hR : R.Laws) (f f' : Family) (l : Labels) (duration : Nat) (s : R.Store) :
    R.children f' (R.tick f l duration s) = R.children f' s := by
  rw [tick]
  cases f.kind with
  | counter => exact hR.children_inc f' _ s
  | histogram => exact hR.children_observe f' _ duration s

end Laws

/-! ## Calls under a measure -/

variable {α ε : Type} {l : Labels} {inner : StateM R.Store (Except ε α)}
  {judge : ε → StateM R.Store Bool} {s s' s'' : R.Store}

/-- A function that succeeds is timed and counted as a success. -/
theorem stats_of_ok {a : α} (hinner : inner s = (.ok a, s')) (duration : Nat) :
    (R.measureOf l).stats duration judge inner s
      = (.ok a, R.tick .success l duration (R.tick .timer l duration s')) := by
  rw [Measure.stats]
  simp only [StateT.bind, bind, hinner]
  rfl

/-- A function that ends in an error is timed, then its error is judged, and then it is counted. -/
theorem stats_of_error {e : ε} {failed : Bool} {duration : Nat} (hinner : inner s = (.error e, s'))
    (hjudge : judge e (R.tick .timer l duration s') = (failed, s'')) :
    (R.measureOf l).stats duration judge inner s
      = (.error e, R.tick (if failed then .failure else .success) l duration s'') := by
  have htimer : R.observe (R.measureOf l).timer duration s' = R.tick .timer l duration s' := rfl
  rw [Measure.stats]
  simp only [StateT.bind, bind, hinner, modify, modifyGet, MonadStateOf.modifyGet, StateT.modifyGet,
    pure, htimer, hjudge]
  cases failed with
  | false => rfl
  | true => rfl

/-- A measured function has the result that it has without the measure. -/
theorem stats_fst (measure : R.Measure) (duration : Nat) (judge : ε → StateM R.Store Bool)
    (inner : StateM R.Store (Except ε α)) (s : R.Store) :
    (measure.stats duration judge inner s).1 = (inner s).1 := by
  rw [Measure.stats]
  simp only [StateT.bind, bind]
  rcases inner s with ⟨e | a, s'⟩
  · simp only [modify, modifyGet, MonadStateOf.modifyGet, StateT.modifyGet, pure, StateT.bind]
    rcases judge e (R.observe measure.timer duration s') with ⟨_ | _, s''⟩
    · rfl
    · rfl
  · rfl

end Registry

/-! ## The metrics in memory -/

namespace Metrics

/-- The order in which children are gathered. -/
theorem labelsLE_iff {l l' : Labels} :
    labelsLE l l' = true ↔ l.layer < l'.layer ∨ l.layer = l'.layer ∧ l.function ≤ l'.function := by
  simp [labelsLE]

/-- The order in which children are gathered goes from one to the next. -/
theorem labelsLE_trans {l l' l'' : Labels} (h : labelsLE l l' = true)
    (h' : labelsLE l' l'' = true) :
    labelsLE l l'' = true := by
  rw [labelsLE_iff] at *
  rcases h with hlt | ⟨heq, hle⟩
  · rcases h' with hlt' | ⟨heq', -⟩
    · exact .inl (lt_trans hlt hlt')
    · exact .inl (heq' ▸ hlt)
  · rcases h' with hlt' | ⟨heq', hle'⟩
    · exact .inl (heq ▸ hlt')
    · exact .inr ⟨heq.trans heq', le_trans hle hle'⟩

/-- Of two children one is gathered before the other. -/
theorem labelsLE_total (l l' : Labels) : (labelsLE l l' || labelsLE l' l) = true := by
  rw [Bool.or_eq_true, labelsLE_iff, labelsLE_iff]
  rcases lt_trichotomy l.layer l'.layer with hlt | heq | hgt
  · exact .inl (.inl hlt)
  · exact (le_total l.function l'.function).imp (fun h => .inr ⟨heq, h⟩)
      fun h => .inr ⟨heq.symm, h⟩
  · exact .inr (.inl hgt)

/-- The order in which children are gathered is that of the bytes of their labels. -/
theorem labelsBefore_or_eq {l l' : Labels} (h : labelsLE l l' = true) :
    LabelsBefore l l' ∨ l = l' := by
  obtain ⟨layer, function⟩ := l
  obtain ⟨layer', function'⟩ := l'
  rcases labelsLE_iff.1 h with hlt | ⟨heq, hle⟩
  · exact .inl (.inl (Text.bytes_lt_bytes hlt))
  · obtain rfl : layer = layer' := heq
    rcases hle.lt_or_eq with hlt | heq
    · exact .inl (.inr ⟨rfl, Text.bytes_lt_bytes hlt⟩)
    · obtain rfl : function = function' := heq
      exact .inr rfl

/-- A word is within the range of binary64 numbers. -/
theorem isFinite_nearest_word (n : UInt64) :
    (Decimal.nearest ⟨false, n.toNat, 0⟩).isFinite = true := by
  have hword : (n.toNat : ℚ) < 2 ^ 64 := by exact_mod_cast n.toNat_lt
  have hsmall : (2 : ℚ) ^ 64 ≤ 2 ^ 1023 := pow_le_pow_right₀ one_le_two (by omega)
  have hlost : (2 : ℚ) ^ 970 ≤ 2 ^ 1023 := pow_le_pow_right₀ one_le_two (by omega)
  rw [Decimal.isFinite_nearest_iff, Decimal.magnitude, zpow_zero, mul_one]
  refine hword.trans_le (le_sub_iff_add_le.2 ?_)
  calc (2 : ℚ) ^ 64 + 2 ^ 970 ≤ 2 ^ 1023 + 2 ^ 1023 := add_le_add hsmall hlost
    _ = 2 ^ 1024 := by rw [← two_mul, ← pow_succ']

/-- What is written for a count reads back as the number nearest to it. -/
theorem nearest_numeral (n : UInt64) :
    Decimal.nearest ⟨false, numeral n, 0⟩ = Decimal.nearest ⟨false, n.toNat, 0⟩ := by
  have hfinite := isFinite_nearest_word n
  have hback := Binary64.nearest_shortest hfinite
  have hsign : (Decimal.nearest ⟨false, n.toNat, 0⟩).shortest.negative = false := by
    rw [← Decimal.negative_nearest, hback, Decimal.negative_nearest]
  unfold numeral
  split
  · rfl
  · dsimp only
    split
    · next zeros hexponent =>
      -- Zeros are written in place of the exponent of the shortest decimal.
      have hrank : (Decimal.nearest ⟨false, n.toNat, 0⟩).shortest.rank < Binary64.infinityRank := by
        rw [← Decimal.rank_nearest, hback]
        exact of_decide_eq_true hfinite
      refine Eq.trans ?_ hback
      generalize (Decimal.nearest ⟨false, n.toNat, 0⟩).shortest = d at hexponent hsign hrank ⊢
      obtain ⟨negative, significand, exponent⟩ := d
      obtain rfl : negative = false := hsign
      obtain rfl : exponent = .ofNat zeros := hexponent
      exact congrArg (Binary64.ofRank false) (Decimal.rank_zeros hrank)
    · rfl

/-- Families with children are written. -/
theorem encode_of_ne_nil {families : List MetricFamily} (h : ∀ g ∈ families, g.metrics ≠ []) :
    encode families = .ok (Exposition.text numeral families) := by
  rw [encode, if_neg]
  simpa using h

/-- The families that are gathered are those of the metrics. -/
theorem exists_of_mem_gather {m : Metrics} {g : MetricFamily} (h : g ∈ m.gather) :
    ∃ f, g = m.family f := by
  obtain ⟨f, -, rfl⟩ := List.mem_map.1 h
  exact ⟨f, rfl⟩

/-- The families that have children are gathered. -/
theorem family_gather (m : Metrics) :
    m.gather.map MetricFamily.family = Family.all.filter fun f => m.children f ≠ [] := by
  rw [gather, List.map_map]
  exact List.map_id _

/-- **The metrics in memory keep the laws of registries.** -/
theorem registry_laws : registry.Laws where
  child_eq_iff f f' l l' s s' := by
    constructor
    · intro h
      obtain ⟨hf, hhash⟩ := Child.mk.inj h
      exact ⟨hf, hhash⟩
    · rintro ⟨rfl, hhash⟩
      exact congrArg (Child.mk f) hhash
  count_empty c := rfl
  count_child f l c s := congrArg Tally.count (tally_withChild s f l c)
  count_inc_self c s := congrArg Tally.count (tally_update_self s c Tally.inc)
  count_inc_of_ne h s := congrArg Tally.count (tally_update_of_ne s h Tally.inc)
  count_observe_self c duration s :=
    congrArg Tally.count (tally_update_self s c fun t => t.observe duration)
  count_observe_of_ne h duration s :=
    congrArg Tally.count (tally_update_of_ne s h fun t => t.observe duration)
  children_empty f := rfl
  children_child_self f l s := children_withChild_self s f l
  children_child_of_ne h l s := children_withChild_of_ne s h l
  children_inc f c s := rfl
  children_observe f c duration s := rfl
  gather_families := family_gather
  gather_metrics {s g} h := by
    obtain ⟨f, rfl⟩ := exists_of_mem_gather h
    have hperm := List.mergeSort_perm (s.children f) labelsLE
    have hcount : ∀ t : Tally, (t.value f.kind).count = t.count := fun t => by
      cases f.kind <;> rfl
    change List.Perm (List.map _ (List.map _ _)) _
    rw [List.map_map]
    refine (hperm.map _).trans (List.Perm.of_eq (List.map_congr_left fun l _ => ?_))
    exact congrArg (Prod.mk l) (hcount _)
  gather_kind {s g} h := by
    obtain ⟨f, rfl⟩ := exists_of_mem_gather h
    intro m hm
    obtain ⟨l, -, rfl⟩ := List.mem_map.1 hm
    change ((s.tally ⟨f, hash l.text⟩).value f.kind).kind = f.kind
    cases f.kind <;> rfl
  gather_sorted {s g} h := by
    obtain ⟨f, rfl⟩ := exists_of_mem_gather h
    change (List.map _ _).Pairwise _
    rw [List.pairwise_map]
    have htrans : ∀ l l' l'' : Labels, labelsLE l l' = true → labelsLE l' l'' = true →
        labelsLE l l'' = true := fun _ _ _ => labelsLE_trans
    exact (List.pairwise_mergeSort htrans labelsLE_total (s.children f)).imp labelsBefore_or_eq
  numeral_eq h := if_pos h
  nearest_numeral := nearest_numeral
  encode_eq h := encode_of_ne_nil h

end Metrics

end InfixCalc
