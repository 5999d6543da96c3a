import Mathlib
import InfixCalc.Proofs.Metrics.Samples
import InfixCalc.Proofs.Metrics.Session

/-!
# What the text of metrics tells

Each point of a run has made measures for some labels, and has counted calls. A child has the labels
with which it was first made; labels that come later with the same hash are those of that child,
too. The text of the metrics tells these labels and the counts, and nothing else of the labels can
be seen in it.

Main statements: the children of a family are those of the first labels for each hash
(`Session.Reachable.children_eq`), all families are gathered with the same labels
(`Session.Reachable.exists_labels`), and the lines of a text are read back as these labels with the
numbers of calls (`counts_are_read_back`).
-/

namespace InfixCalc

/-- Labels do not come before others and behind them, too. -/
theorem LabelsBefore.asymm {p q : Labels} (h : LabelsBefore p q) : ¬ LabelsBefore q p := by
  rintro (hgt | ⟨heq, hgt⟩)
  · rcases h with hlt | ⟨heq, -⟩
    · exact List.lt_asymm hlt hgt
    · rw [heq] at hgt
      exact List.lt_irrefl _ hgt
  · rcases h with hlt | ⟨-, hlt⟩
    · rw [heq] at hlt
      exact List.lt_irrefl _ hlt
    · exact List.lt_asymm hlt hgt

/-- Labels do not come before themselves. -/
theorem LabelsBefore.ne {p q : Labels} (h : LabelsBefore p q) : p ≠ q := by
  rintro rfl
  exact h.asymm h

namespace Registry

variable {R : Registry}

/-! ## Labels that were made first -/

/-- Of labels, in the order in which they were made, the first ones for each hash. -/
def firsts (R : Registry) (made : List Labels) : List Labels :=
  made.foldl (fun ls l => if ∃ l' ∈ ls, R.hash l'.text = R.hash l.text then ls else ls ++ [l]) []

/-- Labels that are made last are the first ones with their hash, or they change nothing. -/
theorem firsts_append (made : List Labels) (l : Labels) :
    R.firsts (made ++ [l]) = if ∃ l' ∈ R.firsts made, R.hash l'.text = R.hash l.text then
      R.firsts made else R.firsts made ++ [l] := by
  rw [firsts, List.foldl_append]
  rfl

/-- Labels were made before all others with their hash. -/
def FirstMade (R : Registry) (made : List Labels) (p : Labels) : Prop :=
  made.find? (fun l => R.hash l.text = R.hash p.text) = some p

instance (made : List Labels) (p : Labels) : Decidable (R.FirstMade made p) :=
  inferInstanceAs (Decidable (_ = _))

/-- No two of the first labels have one hash. -/
theorem nodup_hash_firsts (made : List Labels) :
    ((R.firsts made).map fun l => R.hash l.text).Nodup := by
  induction made using List.reverseRecOn with
  | nil => exact List.nodup_nil
  | append_singleton made l ih =>
      rw [firsts_append]
      split
      · exact ih
      · next hnew =>
        rw [List.map_append]
        refine List.nodup_append.2 ⟨ih, List.nodup_singleton _, fun a ha b hb hab => ?_⟩
        obtain ⟨l', hl', rfl⟩ := List.mem_map.1 ha
        exact hnew ⟨l', hl', hab.trans (List.mem_singleton.1 hb)⟩

/-- The first labels with a hash are found among all labels that were made, and among the first
ones. -/
theorem find?_firsts (made : List Labels) (key : UInt64) :
    (R.firsts made).find? (fun l => R.hash l.text = key)
      = made.find? fun l => R.hash l.text = key := by
  induction made using List.reverseRecOn with
  | nil => rfl
  | append_singleton made l ih =>
      rw [firsts_append, List.find?_append, ← ih]
      split
      · next hold =>
        obtain ⟨l', hl', hhash⟩ := hold
        by_cases hkey : R.hash l.text = key
        · have hsome : ((R.firsts made).find? fun l => R.hash l.text = key).isSome :=
            List.find?_isSome.2 ⟨l', hl', decide_eq_true (hhash.trans hkey)⟩
          rw [Option.or_of_isSome hsome]
        · rw [List.find?_singleton, decide_eq_false hkey]
          simp
      · rw [List.find?_append]

/-- The first labels are those that were made before all others with their hash. -/
theorem mem_firsts_iff {made : List Labels} {p : Labels} :
    p ∈ R.firsts made ↔ R.FirstMade made p := by
  rw [FirstMade, ← find?_firsts]
  constructor
  · intro hp
    have hsome : ((R.firsts made).find? fun l => R.hash l.text = R.hash p.text).isSome :=
      List.find?_isSome.2 ⟨p, hp, decide_eq_true rfl⟩
    obtain ⟨q, hq⟩ := Option.isSome_iff_exists.1 hsome
    have hhash : R.hash q.text = R.hash p.text := by simpa using List.find?_some hq
    rw [hq, List.inj_on_of_nodup_map (nodup_hash_firsts made) (List.mem_of_find?_eq_some hq) hp
      hhash]
  · exact List.mem_of_find?_eq_some

namespace Session

variable {s s' : R.Session}

/-- **The children of each family are those of the labels that were made first.** -/
theorem Reachable.children_eq (h : s.Reachable) (hR : R.Laws) (f : Family) :
    R.children f s.store = R.firsts s.made := by
  induction h with
  | start => exact hR.children_empty f
  | step hreachable hs ih =>
      obtain ⟨l, fs, duration, store, -, hmade, hstore, -⟩ :=
        (hreachable.backed hR).step_cases hR hs
      rw [hstore, hR.children_ticks]
      rcases hmade with ⟨rfl, hmade⟩ | ⟨rfl, hmade⟩
      · rw [hmade, ih]
      · rw [hmade, hR.children_newMeasure, ih, firsts_append]

end Session

/-! ## Families that are gathered -/

/-- Labels that are in order are in one order only. -/
theorem labels_eq_of_perm {ls ls' : List Labels} (hperm : ls.Perm ls')
    (h : ls.Pairwise LabelsBefore) (h' : ls'.Pairwise LabelsBefore) : ls = ls' :=
  hperm.eq_of_pairwise (fun _ _ _ _ hlt hgt => absurd hgt hlt.asymm) h h'

/-- A child is gathered with what it has counted. -/
theorem Laws.count_gather (hR : R.Laws) {store : R.Store} {g : MetricFamily}
    (hg : g ∈ R.gather store) {m : Metric} (hm : m ∈ g.metrics) :
    m.value.count = R.counts g.family m.labels store := by
  have hmem : (m.labels, m.value.count) ∈ g.metrics.map fun m => (m.labels, m.value.count) :=
    List.mem_map.2 ⟨m, hm, rfl⟩
  obtain ⟨l, -, hl⟩ := List.mem_map.1 ((hR.gather_metrics hg).mem_iff.1 hmem)
  obtain ⟨rfl, hcount⟩ := Prod.mk.inj hl
  exact hcount.symm

namespace Session

variable {s s' : R.Session} {g : MetricFamily}

/-- A family is gathered with the labels that were made first. -/
theorem Reachable.labels_perm (h : s.Reachable) (hR : R.Laws) (hg : g ∈ R.gather s.store) :
    (g.metrics.map Metric.labels).Perm (R.firsts s.made) := by
  have hperm := (hR.gather_metrics hg).map Prod.fst
  rw [List.map_map, List.map_map, h.children_eq hR] at hperm
  exact hperm.trans (List.Perm.of_eq (List.map_id _))

/-- A family is gathered in the order of its labels. -/
theorem Reachable.pairwise_labels (h : s.Reachable) (hR : R.Laws) (hg : g ∈ R.gather s.store) :
    (g.metrics.map Metric.labels).Pairwise LabelsBefore := by
  have hnodup : (g.metrics.map Metric.labels).Nodup :=
    (h.labels_perm hR hg).nodup_iff.2 (List.Nodup.of_map _ (nodup_hash_firsts s.made))
  rw [List.pairwise_map]
  have hne := List.pairwise_map.1 hnodup
  exact ((hR.gather_sorted hg).and hne).imp fun hm => hm.1.resolve_right hm.2

/-- Each family that has children is gathered. -/
theorem Reachable.gather_families (h : s.Reachable) (hR : R.Laws) :
    (R.gather s.store).map MetricFamily.family
      = Family.all.filter fun _ => R.firsts s.made ≠ [] := by
  rw [hR.gather_families]
  simp only [h.children_eq hR]

/-- **All families are gathered with the same labels.** -/
theorem Reachable.exists_labels (h : s.Reachable) (hR : R.Laws) :
    ∃ labels : List Labels, labels.Perm (R.firsts s.made) ∧ labels.Pairwise LabelsBefore
      ∧ ∀ g ∈ R.gather s.store, g.metrics.map Metric.labels = labels := by
  have hfamilies := h.gather_families hR
  cases hgather : R.gather s.store with
  | nil =>
      have hnone : R.firsts s.made = [] := by
        by_contra hne
        rw [hgather] at hfamilies
        simp [hne, Family.all] at hfamilies
      exact ⟨[], hnone ▸ .nil, .nil, by simp⟩
  | cons g gs =>
      have hg : g ∈ R.gather s.store := hgather ▸ List.mem_cons_self
      refine ⟨_, h.labels_perm hR hg, h.pairwise_labels hR hg, fun g' hg' => ?_⟩
      rw [← hgather] at hg'
      exact labels_eq_of_perm ((h.labels_perm hR hg').trans (h.labels_perm hR hg).symm)
        (h.pairwise_labels hR hg') (h.pairwise_labels hR hg)

/-- The metrics are written at every point of a run. -/
theorem Reachable.encoded_eq (h : s.Reachable) (hR : R.Laws) :
    R.encoded s.store = .ok (Exposition.text R.numeral (R.gather s.store)) := by
  refine hR.encode_eq fun g hg hempty => ?_
  have hfamily := List.mem_map_of_mem (f := MetricFamily.family) hg
  have hperm := h.labels_perm hR hg
  rw [hempty] at hperm
  rw [h.gather_families hR, ← hperm.nil_eq] at hfamily
  simp at hfamily

/-- **The counts in the text of metrics,** read back. -/
theorem Reachable.exists_samples (h : s.Reachable) (hR : R.Laws) :
    ∃ (text : String) (labels : List Labels), R.encoded s.store = .ok text
      ∧ labels.Pairwise LabelsBefore ∧ (∀ p, p ∈ labels ↔ R.FirstMade s.made p)
      ∧ Exposition.samples text = Family.all.flatMap fun f => labels.map fun p =>
          some ⟨Exposition.countName f, p, R.numeral (R.counts f p s.store)⟩ := by
  obtain ⟨labels, hperm, hsorted, hlabels⟩ := h.exists_labels hR
  refine ⟨_, labels, h.encoded_eq hR, hsorted, fun p => hperm.mem_iff.trans mem_firsts_iff, ?_⟩
  have hfamily : ∀ g ∈ R.gather s.store,
      (g.metrics.map fun m => some (Exposition.Sample.mk (Exposition.countName g.family) m.labels
        (R.numeral m.value.count)))
        = labels.map fun p => some ⟨Exposition.countName g.family, p,
            R.numeral (R.counts g.family p s.store)⟩ := by
    intro g hg
    rw [← hlabels g hg, List.map_map]
    refine List.map_congr_left fun m hm => ?_
    rw [hR.count_gather hg hm]
    rfl
  -- Families that are not gathered have no labels, and no lines.
  have hall : ∀ line : Family → Labels → Option Exposition.Sample,
      ((R.gather s.store).flatMap fun g => labels.map (line g.family))
        = Family.all.flatMap fun f => labels.map (line f) := by
    intro line
    rw [← List.flatMap_map MetricFamily.family fun f => labels.map (line f), h.gather_families hR]
    by_cases hempty : R.firsts s.made = []
    · rw [hempty, List.perm_nil] at hperm
      simp [hempty, hperm]
    · simp [hempty]
  rw [Exposition.samples_text R.numeral fun g hg => hR.gather_kind hg, List.flatMap_congr hfamily]
  exact hall fun f p => some ⟨Exposition.countName f, p, R.numeral (R.counts f p s.store)⟩

/-- Names of counts tell their families apart. -/
theorem countName_injective : Function.Injective Exposition.countName := by
  intro f f' h
  cases f <;> cases f' <;> first | rfl | exact absurd h (by decide)

/-- A line is read back just if its labels were the first of their series and its number is written
for the count of its family. -/
theorem mem_samples_iff (numeral : Family → Labels → Nat) {labels : List Labels} {f : Family}
    {p : Labels} {n : Nat} :
    some ⟨Exposition.countName f, p, n⟩ ∈ (Family.all.flatMap fun f => labels.map fun p =>
        some (Exposition.Sample.mk (Exposition.countName f) p (numeral f p)))
      ↔ p ∈ labels ∧ n = numeral f p := by
  rw [List.mem_flatMap]
  constructor
  · rintro ⟨f', -, hmem⟩
    obtain ⟨q, hq, hsample⟩ := List.mem_map.1 hmem
    obtain ⟨hname, rfl, rfl⟩ := Exposition.Sample.mk.inj (Option.some.inj hsample)
    obtain rfl := countName_injective hname
    exact ⟨hq, rfl⟩
  · rintro ⟨hp, rfl⟩
    exact ⟨f, by cases f <;> decide, List.mem_map.2 ⟨p, hp, rfl⟩⟩

/-- What one text says of a series, another point of a run with that text has written, too. -/
theorem Reachable.of_encoded_eq (h : s.Reachable) (h' : s'.Reachable) (hR : R.Laws)
    (heq : R.encoded s.store = R.encoded s'.store) {p : Labels} (hp : R.FirstMade s.made p) :
    R.FirstMade s'.made p
      ∧ ∀ f, R.numeral (R.counts f p s.store) = R.numeral (R.counts f p s'.store) := by
  obtain ⟨text, labels, htext, -, hlabels, hsamples⟩ := h.exists_samples hR
  obtain ⟨text', labels', htext', -, hlabels', hsamples'⟩ := h'.exists_samples hR
  obtain rfl : text = text' := Except.ok.inj ((htext.symm.trans heq).trans htext')
  have hwritten : ∀ f, p ∈ labels'
      ∧ R.numeral (R.counts f p s.store) = R.numeral (R.counts f p s'.store) := by
    intro f
    refine (mem_samples_iff fun f p => R.numeral (R.counts f p s'.store)).1 ?_
    rw [← hsamples', hsamples]
    exact (mem_samples_iff fun f p => R.numeral (R.counts f p s.store)).2 ⟨(hlabels p).2 hp, rfl⟩
  exact ⟨(hlabels' p).1 (hwritten .timer).1, fun f => (hwritten f).2⟩

end Session

/-! ## All that a text tells -/

/-- **The text of metrics tells all counts.** At each point of a run the metrics are written. The
lines of the text that hold counts are one for each family and hash of labels for which a measure
was made, in the order of the labels; each is read back as the labels that were the first ones with
that hash, whatever they hold, and as the number that is written for the count of the series. That
number is the count itself up to `2 ^ 53`, and always reads back as the binary64 number nearest to
the count. So two points with one text have the same first labels, and the same counts as far as
these are written exactly. -/
theorem counts_are_read_back (hR : R.Laws) :
    (∀ s : R.Session, s.Reachable → ∃ (text : String) (labels : List Labels),
        R.encoded s.store = .ok text ∧ labels.Pairwise LabelsBefore
          ∧ (∀ p, p ∈ labels ↔ R.FirstMade s.made p)
          ∧ Exposition.samples text = Family.all.flatMap fun f => labels.map fun p =>
              some ⟨Exposition.countName f, p, R.numeral (R.counts f p s.store)⟩)
      ∧ (∀ n : UInt64, (n.toNat ≤ 2 ^ 53 → R.numeral n = n.toNat)
          ∧ Decimal.nearest ⟨false, R.numeral n, 0⟩ = Decimal.nearest ⟨false, n.toNat, 0⟩)
      ∧ ∀ s s' : R.Session, s.Reachable → s'.Reachable → R.encoded s.store = R.encoded s'.store →
          ∀ p, (R.FirstMade s.made p ↔ R.FirstMade s'.made p)
            ∧ (R.FirstMade s.made p → ∀ f, (R.counts f p s.store).toNat ≤ 2 ^ 53 →
                (R.counts f p s'.store).toNat ≤ 2 ^ 53 →
                  R.counts f p s.store = R.counts f p s'.store) := by
  refine ⟨fun s h => h.exists_samples hR, fun n => ⟨hR.numeral_eq, hR.nearest_numeral n⟩, ?_⟩
  intro s s' h h' heq p
  refine ⟨⟨?_, ?_⟩, fun hp f hexact hexact' => ?_⟩
  · exact fun hp => (h.of_encoded_eq h' hR heq hp).1
  · exact fun hp => (h'.of_encoded_eq h hR heq.symm hp).1
  · have hnumeral := (h.of_encoded_eq h' hR heq hp).2 f
    rw [hR.numeral_eq hexact, hR.numeral_eq hexact'] at hnumeral
    exact UInt64.toNat_inj.1 hnumeral

/-- A function whose name looks like a line of metrics of its own, made again with a line break
moved to it from its layer, and called once in vain: the second measure cannot be told from the
text. -/
theorem counts_are_read_back_forged :
    let function := "failure_counter\x7bapp_layer=\"b\",class_function=\"\\\"\x7d 7\n"
    let l : Labels := ⟨"a\n", function⟩
    let moved : Labels := ⟨"a", "\n" ++ function⟩
    ∃ (s : Metrics.registry.Session) (text : String), s.Reachable ∧ s.made = [l, moved]
      ∧ ¬ Metrics.registry.FirstMade s.made moved ∧ Metrics.registry.encoded s.store = .ok text
      ∧ Exposition.samples text
        = [some ⟨"failure_counter", l, 1⟩, some ⟨"success_counter", l, 0⟩,
            some ⟨"timer_count", l, 1⟩] := by
  intro function l moved
  have hmade : Session.Reachable (R := Metrics.registry) _ :=
    .step (.step .start (.new _ l)) (.new _ moved)
  have hcalled :=
    hmade.call (.tail _ (.head _)) (fun _ : Unit => true) (.error () : Except Unit Unit) 0
  obtain ⟨text, labels, htext, hsorted, hlabels, hsamples⟩ :=
    (counts_are_read_back Metrics.registry_laws).1 _ hcalled
  -- Both functions have one hash, so the first one is left.
  have hfirsts : Metrics.registry.firsts [l, moved] = [l] := by decide +kernel
  have hfirst : ∀ p, Metrics.registry.FirstMade [l, moved] p ↔ p ∈ [l] := by
    intro p
    rw [← hfirsts]
    exact mem_firsts_iff.symm
  have hperm : labels.Perm [l] :=
    (List.perm_ext_iff_of_nodup (hsorted.imp LabelsBefore.ne) (List.nodup_singleton l)).2
      fun p => (hlabels p).trans (hfirst p)
  refine ⟨_, text, hcalled, rfl, ?_, htext, ?_⟩
  · exact fun hmoved => absurd ((hfirst moved).1 hmoved) (by decide +kernel)
  · rw [hsamples, List.perm_singleton.1 hperm]
    simp only [Metrics.registry_laws.counts_eq, hcalled.count_eq Metrics.registry_laws]
    decide +kernel

/-! ## Labels that are hidden and counts that are rounded -/

/-- A child is not made again. -/
theorem withChild_eq_self {m : Metrics} {f : Family} {l l' : Labels} (hmem : l' ∈ m.children f)
    (hhash : Metrics.hash l'.text = Metrics.hash l.text) : m.withChild f l = m :=
  if_pos (List.any_eq_true.2 ⟨l', hmem, decide_eq_true hhash⟩)

/-- What the timer of a function holds after a number of calls that took no time. -/
def timedAfter (n : UInt64) : Metrics.Tally := ⟨n, Metrics.bucketBounds.map fun _ => n, 0⟩

/-- What is gathered of a function after a number of calls that took no time and succeeded. -/
def gatheredAfter (l : Labels) (n : UInt64) : List MetricFamily :=
  [⟨.failure, [⟨l, .counter 0⟩]⟩, ⟨.success, [⟨l, .counter n⟩]⟩,
    ⟨.timer, [⟨l, (timedAfter n).value .histogram⟩]⟩]

/-- Metrics in which one function has been called a number of times, in no time and with success. -/
structure CalledOften (m : Metrics) (l : Labels) (n : UInt64) : Prop where
  children : ∀ f, m.children f = [l]
  failure : m.tally ⟨.failure, Metrics.hash l.text⟩ = .zero
  success : (m.tally ⟨.success, Metrics.hash l.text⟩).count = n
  timer : m.tally ⟨.timer, Metrics.hash l.text⟩ = timedAfter n

/-- One more call is counted. -/
theorem CalledOften.succ {m : Metrics} {l : Labels} {n : UInt64} (h : CalledOften m l n) :
    CalledOften (Metrics.registry.ticks [.timer, .success] l 0 m) l (n + 1) := by
  have hticks : Metrics.registry.ticks [.timer, .success] l 0 m
      = (m.update ⟨.timer, Metrics.hash l.text⟩ fun t => t.observe 0).update
          ⟨.success, Metrics.hash l.text⟩ Metrics.Tally.inc := rfl
  rw [hticks]
  constructor
  · exact h.children
  · exact h.failure
  · rw [Metrics.tally_update_self, Metrics.tally_update_of_ne _ (by simp)]
    exact congrArg (· + 1) h.success
  · rw [Metrics.tally_update_of_ne _ (by simp), Metrics.tally_update_self, h.timer]
    rfl

/-- What is gathered of such metrics. -/
theorem CalledOften.gather_eq {m : Metrics} {l : Labels} {n : UInt64} (h : CalledOften m l n) :
    m.gather = gatheredAfter l n := by
  have hfamily : ∀ f, m.family f
      = ⟨f, [⟨l, (m.tally ⟨f, Metrics.hash l.text⟩).value f.kind⟩]⟩ := by
    intro f
    rw [Metrics.family, h.children, List.mergeSort_singleton]
    rfl
  have hsuccess : (m.tally ⟨.success, Metrics.hash l.text⟩).value .counter = .counter n :=
    congrArg MetricValue.counter h.success
  rw [Metrics.gather]
  simp only [h.children, Family.all, ne_eq, List.cons_ne_nil, not_false_eq_true, decide_true,
    List.filter_cons_of_pos, List.filter_nil, List.map_cons, List.map_nil, hfamily, h.failure,
    h.timer, Family.kind, hsuccess]
  rfl

/-- The text of such metrics. -/
theorem CalledOften.encode_eq {m : Metrics} {l : Labels} {n : UInt64} (h : CalledOften m l n) :
    Metrics.encode m.gather = .ok (Exposition.text Metrics.numeral (gatheredAfter l n)) := by
  rw [h.gather_eq]
  exact Metrics.encode_of_ne_nil (by simp [gatheredAfter])

/-- Numbers of calls that are written alike have the same text. -/
theorem text_gatheredAfter {numeral : UInt64 → Nat} {n n' : UInt64} (h : numeral n = numeral n')
    (l : Labels) : Exposition.text numeral (gatheredAfter l n)
      = Exposition.text numeral (gatheredAfter l n') := by
  have hvalue : ∀ name : String,
      Exposition.metricLines numeral name ⟨l, (timedAfter n).value .histogram⟩
        = Exposition.metricLines numeral name ⟨l, (timedAfter n').value .histogram⟩ := by
    intro name
    simp only [Exposition.metricLines, Metrics.Tally.value, timedAfter, List.zipWith_map_right,
      List.map_zipWith, h]
  have hfamilies : ∀ name : String, Exposition.metricLines numeral name ⟨l, .counter n⟩
      = Exposition.metricLines numeral name ⟨l, .counter n'⟩ := by
    intro name
    simp only [Exposition.metricLines, h]
  simp only [Exposition.text, gatheredAfter, Exposition.familyLines, List.flatMap_cons,
    List.flatMap_nil, hvalue, hfamilies]

/-- One function can be called any number of times, in no time and with success. -/
theorem exists_calledOften (l : Labels) (n : Nat) :
    ∃ s : Metrics.registry.Session, s.Reachable
      ∧ ⟨l, Metrics.registry.measureOf l⟩ ∈ s.handles
      ∧ CalledOften s.store l (UInt64.ofNat n) := by
  induction n with
  | zero =>
      have hmade : Session.Reachable (R := Metrics.registry) _ := .step .start (.new _ l)
      exact ⟨_, hmade, .head _, fun f => by cases f <;> rfl, rfl, rfl, rfl⟩
  | succ n ih =>
      obtain ⟨s, hs, hhandle, hcalled⟩ := ih
      have hagain := hs.call hhandle (fun _ : Empty => false) (.ok ()) 0
      refine ⟨_, hagain, hhandle, ?_⟩
      rw [stats_pure, UInt64.ofNat_add]
      exact hcalled.succ

/-- Of the metrics in memory two texts can be the same although labels with another layer and
function were made in one of the runs only, and although one count is greater by one. -/
theorem labels_hidden_and_counts_rounded :
    (∃ s s' : Metrics.registry.Session, s.Reachable ∧ s'.Reachable
        ∧ s.made = [⟨"c1E51", "sSEyx"⟩] ∧ s'.made = [⟨"c1E51", "sSEyx"⟩, ⟨"7moht", "cOFVz"⟩]
        ∧ "c1E51" ++ "sSEyx" ≠ "7moht" ++ "cOFVz"
        ∧ Metrics.registry.encoded s.store = Metrics.registry.encoded s'.store)
      ∧ ∃ s s' : Metrics.registry.Session, s.Reachable ∧ s'.Reachable
          ∧ Metrics.registry.counts .success ⟨"a", "b"⟩ s.store
            ≠ Metrics.registry.counts .success ⟨"a", "b"⟩ s'.store
          ∧ Metrics.registry.encoded s.store = Metrics.registry.encoded s'.store := by
  constructor
  · have hmade : Session.Reachable (R := Metrics.registry) _ :=
      .step .start (.new _ ⟨"c1E51", "sSEyx"⟩)
    refine ⟨_, _, hmade, .step hmade (.new _ ⟨"7moht", "cOFVz"⟩), rfl, rfl, by decide +kernel, ?_⟩
    have hhash : Metrics.hash ("c1E51" ++ "sSEyx") = Metrics.hash ("7moht" ++ "cOFVz") := by
      decide +kernel
    -- All children are there already.
    have hkept : ∀ (m : Metrics), (∀ f, m.children f = [⟨"c1E51", "sSEyx"⟩]) →
        ((m.withChild .success ⟨"7moht", "cOFVz"⟩).withChild .failure ⟨"7moht", "cOFVz"⟩).withChild
          .timer ⟨"7moht", "cOFVz"⟩ = m := by
      intro m hm
      have hchild : ∀ f, m.withChild f ⟨"7moht", "cOFVz"⟩ = m := fun f =>
        @withChild_eq_self m f _ ⟨"c1E51", "sSEyx"⟩ (by simp [hm]) hhash
      rw [hchild, hchild, hchild]
    exact congrArg Metrics.registry.encoded (hkept _ fun f => by cases f <;> rfl).symm
  · obtain ⟨s, hs, -, hcalled⟩ := exists_calledOften ⟨"a", "b"⟩ 9007199254740992
    obtain ⟨s', hs', -, hcalled'⟩ := exists_calledOften ⟨"a", "b"⟩ 9007199254740993
    refine ⟨s, s', hs, hs', fun heq => ?_, ?_⟩
    · have hcounts := (hcalled.success.symm.trans heq).trans hcalled'.success
      revert hcounts
      decide +kernel
    · have hnumeral : Metrics.numeral (UInt64.ofNat 9007199254740992)
          = Metrics.numeral (UInt64.ofNat 9007199254740993) := by decide +kernel
      exact hcalled.encode_eq.trans
        ((congrArg Except.ok (text_gatheredAfter hnumeral _)).trans hcalled'.encode_eq.symm)

end Registry

end InfixCalc
