import Mathlib
import InfixCalc.Calculate
import InfixCalc.Proofs.Metrics.Laws
import InfixCalc.Proofs.Parser.Fault

/-!
# Measured programs

A program makes measures, hands them on, runs functions under them and calculates. Functions under a
measure may do all of that, too, and so may the judgement of an error that a function ends in; so
calls under measures are nested. A session is a point of such a run, inside any number of calls; a
run is taken apart into steps, one for each thing that a program can do.

All that is said here holds with each registry that keeps the laws of registries.

Main statements: a step counts what it says and nothing else (`Session.Backed.count_of_step`), so at
every point of a run the registry has counted the calls that have come so far
(`Session.Reachable.count_eq`, and `calls_are_tallied` for all that can be said of a point).
-/

namespace InfixCalc

/-! ## Results of calculations -/

/-- A fault in a text is no failure of the program. -/
theorem Parser.Fault.not_isFailure {c : Config} {m : Nat} {text : List Char} {err : ParseError}
    (h : Parser.Fault c m text err) : err.isFailure = false := by
  cases h with
  | badLiteral _ _ => rfl
  | nestedTooDeep _ _ => rfl

/-- No error of the parser is a failure of the program. -/
theorem not_isFailure_of_parseWith {c : Config} {input : String} {err : ParseError}
    (h : parseWith c input = .error err) : err.isFailure = false := by
  cases err with
  | internal detail =>
      obtain ⟨_, _, _, -, -, hfault⟩ := Parser.exists_fault_of_parseWith h (by simp) (by simp)
      exact hfault.not_isFailure
  | _ => rfl

/-- Whether a function ended in an error that is a failure. -/
def hasFailed {ε α : Type} (failure : ε → Bool) : Except ε α → Bool
  | .ok _ => false
  | .error e => failure e

/-- A calculation does not end in a failure, whatever the text. -/
theorem hasFailed_evaluate (text : String) :
    hasFailed ParseError.isFailure ((parse text).map Expr.evaluate) = false := by
  cases h : parse text with
  | ok e => rfl
  | error err => exact not_isFailure_of_parseWith h

namespace Registry

variable {R : Registry}

/-! ## Runs -/

/-- A measure in the hands of a program, and what it was made for. -/
structure Handle (R : Registry) where
  labels : Labels
  measure : R.Measure

/-- What tells the series of a measure from others. -/
def Handle.key (h : R.Handle) : UInt64 := R.hash h.labels.text

/-- A call under a measure that has begun and has not ended. -/
structure OpenCall (R : Registry) where
  handle : R.Handle
  /-- The metrics when it began. -/
  before : R.Store
  /-- Once its function has ended in an error that is now judged: the metrics when that began. -/
  judging : Option R.Store

/-- A call that has ended under a measure, and whether it failed. -/
structure EndedCall where
  key : UInt64
  failed : Bool
  deriving DecidableEq, Repr

/-- A point of a run. -/
structure Session (R : Registry) where
  /-- The metrics. -/
  store : R.Store
  /-- The labels for which measures were made, in this order. -/
  made : List Labels
  /-- The measures that were made or copied. -/
  handles : List R.Handle
  /-- The calls that are open, from the inside out. -/
  opened : List R.OpenCall
  /-- The calls that have ended, the last one first. -/
  ended : List EndedCall

/-- The key under which calculations are counted. -/
def calculateKey (R : Registry) : UInt64 := R.hash calculateLabels.text

namespace Session

/-- The beginning of a run. -/
def start : R.Session := ⟨R.empty, [], [], [], []⟩

/-- How many errors are being judged of calls under a key. -/
def judging (s : R.Session) (key : UInt64) : Nat :=
  s.opened.countP fun call => call.handle.key = key && call.judging.isSome

/-- How many calls a family has to count under a key, of those that are open and those that have
ended. A timer has counted a call as soon as its function has ended, before an error is judged. -/
def tallyOf (opened : List R.OpenCall) (ended : List EndedCall) (key : UInt64) : Family → Nat
  | .success => ended.countP fun call => call.key = key && !call.failed
  | .failure => ended.countP fun call => call.key = key && call.failed
  | .timer => ended.countP (fun call => call.key = key)
      + opened.countP fun call => call.handle.key = key && call.judging.isSome

/-- How many calls a family has to count under a key at a point of a run. -/
def tally (s : R.Session) : UInt64 → Family → Nat := tallyOf s.opened s.ended

/-- What a program can do at a point of a run, on the series with a key. -/
inductive Step : R.Session → UInt64 → R.Session → Prop
  /-- A measure is made. -/
  | new (s : R.Session) (l : Labels) :
      Step s (R.hash l.text)
        { s with
          store := (R.newMeasure l s.store).2
          made := s.made ++ [l]
          handles := ⟨l, (R.newMeasure l s.store).1⟩ :: s.handles }
  /-- A measure is copied. -/
  | clone {s : R.Session} {h : R.Handle} (hh : h ∈ s.handles) :
      Step s h.key { s with handles := h :: s.handles }
  /-- A text is calculated. -/
  | calculate (s : R.Session) (duration : Nat) (text : String) :
      Step s R.calculateKey
        { s with
          store := (R.calculate duration text s.store).2
          made := s.made ++ [calculateLabels]
          ended :=
            ⟨R.calculateKey, hasFailed ParseError.isFailure (R.calculate duration text s.store).1⟩
              :: s.ended }
  /-- A call under a measure begins; what follows is done by the function inside. -/
  | enter {s : R.Session} {h : R.Handle} (hh : h ∈ s.handles) :
      Step s h.key { s with opened := ⟨h, s.store, none⟩ :: s.opened }
  /-- The function inside the call that began last succeeds: from the metrics at its beginning it
  has come to those at this point. The call ends. -/
  | succeed {s : R.Session} {call : R.OpenCall} {outer : List R.OpenCall} {α ε : Type} {a : α}
      {judge : ε → StateM R.Store Bool} {inner : StateM R.Store (Except ε α)} (duration : Nat)
      (hopened : s.opened = call :: outer) (hrunning : call.judging = none)
      (hinner : inner call.before = (.ok a, s.store)) :
      Step s call.handle.key
        { s with
          store := (call.handle.measure.stats duration judge inner call.before).2
          opened := outer
          ended := ⟨call.handle.key, false⟩ :: s.ended }
  /-- The function inside ends in an error. What follows is done by the judgement of the error. -/
  | fail {s : R.Session} {call : R.OpenCall} {outer : List R.OpenCall} {α ε : Type} {e : ε}
      {inner : StateM R.Store (Except ε α)} (duration : Nat)
      (hopened : s.opened = call :: outer) (hrunning : call.judging = none)
      (hinner : inner call.before = (.error e, s.store)) :
      Step s call.handle.key
        { s with
          store := R.observe call.handle.measure.timer duration s.store
          opened :=
            { call with judging := some (R.observe call.handle.measure.timer duration s.store) }
              :: outer }
  /-- The error is judged: from the metrics at the beginning of that, the judgement has come to
  those at this point. The call ends. -/
  | judged {s : R.Session} {call : R.OpenCall} {outer : List R.OpenCall} {α ε : Type} {e : ε}
      {judge : ε → StateM R.Store Bool} {inner : StateM R.Store (Except ε α)} {failed : Bool}
      {ran : R.Store} (duration : Nat) (hopened : s.opened = call :: outer)
      (hinner : inner call.before = (.error e, ran))
      (hjudging : call.judging = some (R.observe call.handle.measure.timer duration ran))
      (hjudge : judge e (R.observe call.handle.measure.timer duration ran) = (failed, s.store)) :
      Step s call.handle.key
        { s with
          store := (call.handle.measure.stats duration judge inner call.before).2
          opened := outer
          ended := ⟨call.handle.key, failed⟩ :: s.ended }

/-- The points that runs come to. -/
inductive Reachable : R.Session → Prop
  | start : Reachable start
  | step {s s' : R.Session} {key : UInt64} (h : Reachable s) (hs : Step s key s') : Reachable s'

end Session

/-! ## Steps -/

/-- One more call is counted in each of some families. -/
def ticks (R : Registry) (fs : List Family) (l : Labels) (duration : Nat) (s : R.Store) : R.Store :=
  fs.foldl (fun s f => R.tick f l duration s) s

/-- Counting calls changes the counts under the hash of the labels, by as many as there are. -/
theorem Laws.count_ticks (hR : R.Laws) (fs : List Family) (f : Family) (l l' : Labels)
    (duration : Nat) (s : R.Store) :
    R.count (R.childOf f l') (R.ticks fs l duration s)
      = R.count (R.childOf f l') s
        + UInt64.ofNat (if R.hash l'.text = R.hash l.text then fs.count f else 0) := by
  induction fs generalizing s with
  | nil => simp [ticks]
  | cons g fs ih =>
      have htick := hR.count_tick g f l l' duration s
      rw [ticks, List.foldl_cons, ← ticks, ih, htick]
      by_cases hhash : R.hash l'.text = R.hash l.text
      · by_cases hf : f = g
        · subst hf
          simp only [hhash, and_self, if_true, List.count_cons_self, UInt64.ofNat_add]
          exact (UInt64.add_assoc _ _ _).trans (congrArg _ (UInt64.add_comm _ _))
        · simp [hhash, hf, List.count_cons_of_ne (Ne.symm hf)]
      · simp [hhash]

/-- Counting calls makes no children. -/
theorem Laws.children_ticks (hR : R.Laws) (fs : List Family) (f : Family) (l : Labels)
    (duration : Nat) (s : R.Store) : R.children f (R.ticks fs l duration s) = R.children f s := by
  induction fs generalizing s with
  | nil => rfl
  | cons g fs ih => rw [ticks, List.foldl_cons, ← ticks, ih, hR.children_tick]

/-- The family in which a call is counted when it ends. -/
def endFamily (failed : Bool) : Family := if failed then .failure else .success

/-- A function that does nothing but end, in an error that is judged by itself alone if in one at
all, is timed and counted. -/
theorem stats_pure {α ε : Type} (failure : ε → Bool) (result : Except ε α) (l : Labels)
    (duration : Nat) (s : R.Store) :
    (R.measureOf l).stats duration (fun e => pure (failure e)) (pure result) s
      = (result, R.ticks [.timer, endFamily (hasFailed failure result)] l duration s) := by
  have hinner : ∀ x : Except ε α, (pure x : StateM R.Store (Except ε α)) s = (x, s) := fun _ => rfl
  cases result with
  | ok a => exact stats_of_ok (hinner _) duration
  | error e =>
      have hjudge : ∀ s : R.Store, (pure (failure e) : StateM R.Store Bool) s = (failure e, s) :=
        fun _ => rfl
      exact stats_of_error (hinner _) (hjudge _)

/-- A calculation makes its measure and is counted as a success. -/
theorem Laws.calculate_eq (hR : R.Laws) (duration : Nat) (text : String) (s : R.Store) :
    R.calculate duration text s
      = ((parse text).map Expr.evaluate,
        R.ticks [.timer, .success] calculateLabels duration
          (R.newMeasure calculateLabels s).2) := by
  have hmeasure : R.newMeasure calculateLabels s
      = (R.measureOf calculateLabels, (R.newMeasure calculateLabels s).2) :=
    Prod.ext (hR.newMeasure_fst calculateLabels s) rfl
  have hend : endFamily (hasFailed ParseError.isFailure ((parse text).map Expr.evaluate))
      = .success := by
    rw [hasFailed_evaluate]
    rfl
  rw [calculate]
  simp only [StateT.bind, bind]
  rw [hmeasure, ← hend]
  exact stats_pure _ _ _ _ _

namespace Session

variable {s s' : R.Session} {key : UInt64}

/-- All measures in use are those of their labels. -/
structure Backed (s : R.Session) : Prop where
  handles : ∀ h ∈ s.handles, h.measure = R.measureOf h.labels
  opened : ∀ call ∈ s.opened, call.handle.measure = R.measureOf call.handle.labels

/-- A step keeps measures those of their labels. -/
theorem Backed.step (h : s.Backed) (hR : R.Laws) (hstep : Step s key s') : s'.Backed := by
  cases hstep with
  | new l =>
      exact ⟨List.forall_mem_cons.2 ⟨hR.newMeasure_fst l s.store, h.handles⟩, h.opened⟩
  | clone hh => exact ⟨List.forall_mem_cons.2 ⟨h.handles _ hh, h.handles⟩, h.opened⟩
  | calculate duration text => exact ⟨h.handles, h.opened⟩
  | enter hh => exact ⟨h.handles, List.forall_mem_cons.2 ⟨h.handles _ hh, h.opened⟩⟩
  | succeed duration hopened hrunning hinner =>
      exact ⟨h.handles, (List.forall_mem_cons.1 (hopened ▸ h.opened)).2⟩
  | fail duration hopened hrunning hinner =>
      obtain ⟨hcall, houter⟩ := List.forall_mem_cons.1 (hopened ▸ h.opened)
      exact ⟨h.handles, List.forall_mem_cons.2 ⟨hcall, houter⟩⟩
  | judged duration hopened hinner hjudging hjudge =>
      exact ⟨h.handles, (List.forall_mem_cons.1 (hopened ▸ h.opened)).2⟩

/-- A call of a function that does nothing but end, in an error that is judged by itself alone if in
one at all, leads from one point of a run to another. -/
theorem Reachable.call {α ε : Type} (h : s.Reachable) {handle : R.Handle} (hh : handle ∈ s.handles)
    (failure : ε → Bool) (result : Except ε α) (duration : Nat) :
    Reachable { s with
      store := (handle.measure.stats duration (fun e => pure (failure e)) (pure result) s.store).2
      ended := ⟨handle.key, hasFailed failure result⟩ :: s.ended } := by
  have hentered := h.step (.enter hh)
  let judge : ε → StateM R.Store Bool := fun e => pure (failure e)
  cases result with
  | ok a =>
      let inner : StateM R.Store (Except ε α) := pure (.ok a)
      have hended : Reachable _ :=
        .step hentered (@Step.succeed _ _ _ _ _ _ a judge inner duration rfl rfl rfl)
      exact hended
  | error e =>
      let inner : StateM R.Store (Except ε α) := pure (.error e)
      have hfailed : Reachable _ :=
        .step hentered (@Step.fail _ _ _ _ _ _ e inner duration rfl rfl rfl)
      have hended : Reachable _ :=
        .step hfailed (@Step.judged _ _ _ _ _ _ e judge inner _ _ duration rfl rfl rfl rfl)
      exact hended

/-- At every point of a run measures are those of their labels. -/
theorem Reachable.backed (h : s.Reachable) (hR : R.Laws) : s.Backed := by
  induction h with
  | start => exact ⟨fun _ h => absurd h List.not_mem_nil, fun _ h => absurd h List.not_mem_nil⟩
  | step _ hs ih => exact ih.step hR hs

/-- A call that ends is counted by the timer and as a success or a failure. -/
theorem tallyOf_cons_ended (opened : List R.OpenCall) (call : EndedCall) (ended : List EndedCall)
    (k : UInt64) (f : Family) :
    tallyOf opened (call :: ended) k f = tallyOf opened ended k f
      + if k = call.key then [.timer, endFamily call.failed].count f else 0 := by
  obtain ⟨callKey, failed⟩ := call
  by_cases hkey : k = callKey
  · subst hkey
    cases f <;> cases failed <;> simp [tallyOf, endFamily, Nat.add_right_comm]
  · cases f <;> simp [tallyOf, hkey, Ne.symm hkey]

/-- A call whose function is running is not counted. -/
theorem tallyOf_cons_running {call : R.OpenCall} (h : call.judging = none)
    (opened : List R.OpenCall) (ended : List EndedCall) (k : UInt64) (f : Family) :
    tallyOf (call :: opened) ended k f = tallyOf opened ended k f := by
  cases f <;> simp [tallyOf, h]

/-- A call whose error is judged is counted by the timer. -/
theorem tallyOf_cons_judging {call : R.OpenCall} {s : R.Store} (h : call.judging = some s)
    (opened : List R.OpenCall) (ended : List EndedCall) (k : UInt64) (f : Family) :
    tallyOf (call :: opened) ended k f = tallyOf opened ended k f
      + if k = call.handle.key then [Family.timer].count f else 0 := by
  by_cases hkey : k = call.handle.key
  · subst hkey
    cases f <;> simp [tallyOf, h, Nat.add_assoc]
  · cases f <;> simp [tallyOf, hkey, Ne.symm hkey]

/-- **What a step does:** it may make the measure of some labels, and then it counts calls in some
families, as the session does. -/
theorem Backed.step_cases (h : s.Backed) (hR : R.Laws) (hstep : Step s key s') :
    ∃ (l : Labels) (fs : List Family) (duration : Nat) (store : R.Store), R.hash l.text = key
      ∧ (store = s.store ∧ s'.made = s.made
        ∨ store = (R.newMeasure l s.store).2 ∧ s'.made = s.made ++ [l])
      ∧ s'.store = R.ticks fs l duration store
      ∧ ∀ f k, s'.tally k f = s.tally k f + if k = key then fs.count f else 0 := by
  cases hstep with
  | new l =>
      refine ⟨l, [], 0, _, rfl, .inr ⟨rfl, rfl⟩, rfl, fun f k => ?_⟩
      rw [List.count_nil, ite_self]
      rfl
  | @clone handle hh =>
      refine ⟨handle.labels, [], 0, _, rfl, .inl ⟨rfl, rfl⟩, rfl, fun f k => ?_⟩
      rw [List.count_nil, ite_self]
      rfl
  | calculate duration text =>
      refine ⟨calculateLabels, [.timer, .success], duration, _, rfl, .inr ⟨rfl, rfl⟩, ?_, ?_⟩
      · exact congrArg Prod.snd (hR.calculate_eq duration text s.store)
      · intro f k
        rw [tally, tallyOf_cons_ended, hR.calculate_eq, hasFailed_evaluate]
        rfl
  | @enter handle hh =>
      refine ⟨handle.labels, [], 0, _, rfl, .inl ⟨rfl, rfl⟩, rfl, fun f k => ?_⟩
      rw [tally, tallyOf_cons_running rfl, List.count_nil, ite_self]
      rfl
  | @succeed call outer _ _ _ judge inner duration hopened hrunning hinner =>
      have hmeasure := h.opened call (hopened ▸ List.mem_cons_self)
      refine ⟨call.handle.labels, [.timer, .success], duration, s.store, rfl, .inl ⟨rfl, rfl⟩,
        ?_, ?_⟩
      · exact hmeasure ▸ congrArg Prod.snd (stats_of_ok hinner duration)
      · intro f k
        rw [tally, tallyOf_cons_ended, tally, hopened, tallyOf_cons_running hrunning]
        rfl
  | @fail call outer _ _ _ inner duration hopened hrunning hinner =>
      have hmeasure := h.opened call (hopened ▸ List.mem_cons_self)
      refine ⟨call.handle.labels, [.timer], duration, s.store, rfl, .inl ⟨rfl, rfl⟩, ?_, ?_⟩
      · exact hmeasure ▸ rfl
      · intro f k
        rw [tally, tallyOf_cons_judging rfl, tally, hopened, tallyOf_cons_running hrunning]
  | @judged call outer _ _ _ judge inner failed ran duration hopened hinner hjudging hjudge =>
      have hmeasure := h.opened call (hopened ▸ List.mem_cons_self)
      refine ⟨call.handle.labels, [endFamily failed], duration, s.store, rfl, .inl ⟨rfl, rfl⟩,
        ?_, ?_⟩
      · rw [hmeasure] at hjudge ⊢
        exact congrArg Prod.snd (stats_of_error hinner hjudge)
      · intro f k
        -- The timer has counted the call already.
        have hboth : ∀ g : Family, [.timer, g].count f = [Family.timer].count f + [g].count f := by
          simp [List.count_cons, Nat.add_comm]
        rw [tally, tallyOf_cons_ended, tally, hopened, tallyOf_cons_judging hjudging, hboth,
          Nat.add_assoc]
        split_ifs <;> rfl

/-- **A step counts in its series what the session does, and nothing elsewhere.** -/
theorem Backed.count_of_step (h : s.Backed) (hR : R.Laws) (hstep : Step s key s') :
    ∃ fs : List Family,
      (∀ f k, s'.tally k f = s.tally k f + if k = key then fs.count f else 0)
        ∧ ∀ f l, R.count (R.childOf f l) s'.store = R.count (R.childOf f l) s.store
            + UInt64.ofNat (if R.hash l.text = key then fs.count f else 0) := by
  obtain ⟨l, fs, duration, store, rfl, hmade, hstore, htally⟩ := h.step_cases hR hstep
  have hcount : ∀ c, R.count c store = R.count c s.store := by
    intro c
    rcases hmade with ⟨rfl, -⟩ | ⟨rfl, -⟩
    · rfl
    · exact hR.count_newMeasure l c s.store
  refine ⟨fs, htally, fun f l' => ?_⟩
  rw [hstore, hR.count_ticks, hcount]

/-- **At every point of a run the registry has counted what the session has.** -/
theorem Reachable.count_eq (h : s.Reachable) (hR : R.Laws) (f : Family) (l : Labels) :
    R.count (R.childOf f l) s.store = UInt64.ofNat (s.tally (R.hash l.text) f) := by
  induction h with
  | start =>
      refine (hR.count_empty _).trans ?_
      cases f <;> rfl
  | step hreachable hs ih =>
      obtain ⟨fs, htally, hcount⟩ := (hreachable.backed hR).count_of_step hR hs
      rw [hcount, htally, ih, UInt64.ofNat_add]

end Session

/-! ## Measures and series -/

variable {h h' : R.Handle} {s : R.Store}

/-- A call under a measure changes what a child has counted. -/
def Measure.Feeds (measure : R.Measure) (s : R.Store) (c : R.Child) : Prop :=
  ∃ (α ε : Type) (failure : ε → Bool) (result : Except ε α) (duration : Nat),
    R.count c (measure.stats duration (fun e => pure (failure e)) (pure result) s).2 ≠ R.count c s

/-- A word that is increased is another one. -/
theorem add_one_ne_word (n : UInt64) : n + 1 ≠ n := by
  intro h
  have hnat := congrArg UInt64.toNat h
  have hlt := n.toNat_lt
  rw [UInt64.toNat_add, UInt64.toNat_one] at hnat
  omega

/-- **A measure feeds the children of its labels, and no others.** -/
theorem Laws.feeds_measureOf_iff (hR : R.Laws) {l l' : Labels} {f : Family} (s : R.Store) :
    (R.measureOf l).Feeds s (R.childOf f l') ↔ R.hash l'.text = R.hash l.text := by
  constructor
  · rintro ⟨α, ε, failure, result, duration, hchange⟩
    by_contra hne
    refine hchange ?_
    rw [stats_pure, hR.count_ticks, if_neg hne]
    exact UInt64.add_zero _
  · intro hhash
    -- A call that fails is counted by failures and timer, one that succeeds by successes.
    have hfeeds : ∀ result : Except Unit Unit,
        [.timer, endFamily (hasFailed (fun _ => true) result)].count f = 1 →
          (R.measureOf l).Feeds s (R.childOf f l') := by
      intro result hcount
      refine ⟨Unit, Unit, fun _ => true, result, 0, ?_⟩
      rw [stats_pure, hR.count_ticks, if_pos hhash, hcount]
      exact add_one_ne_word _
    cases f with
    | success => exact hfeeds (.ok ()) rfl
    | failure => exact hfeeds (.error ()) rfl
    | timer => exact hfeeds (.ok ()) rfl

/-- Two measures feed the same children just if the hashes of their labels are the same. -/
theorem Laws.feeds_iff (hR : R.Laws) (hh : h.measure = R.measureOf h.labels)
    (hh' : h'.measure = R.measureOf h'.labels) :
    (∀ f l, h.measure.Feeds s (R.childOf f l) ↔ h'.measure.Feeds s (R.childOf f l))
      ↔ h.key = h'.key := by
  simp only [hh, hh', hR.feeds_measureOf_iff, Handle.key]
  constructor
  · intro hsame
    exact (hsame .timer h.labels).1 rfl
  · intro hkey f l
    rw [hkey]

/-! ## All that can be said of a point -/

/-- Each call that has ended was a success or a failure. -/
theorem countP_success_add_failure (calls : List EndedCall) (key : UInt64) :
    calls.countP (fun call => call.key = key && !call.failed)
        + calls.countP (fun call => call.key = key && call.failed)
      = calls.countP fun call => call.key = key := by
  induction calls with
  | nil => rfl
  | cons call calls ih =>
      rw [List.countP_cons, List.countP_cons, List.countP_cons, ← ih]
      by_cases hkey : call.key = key
      · cases call.failed <;> simp [hkey] <;> omega
      · simp [hkey]

/-- **Calls are tallied.** At every point of a run, also inside calls and where errors are judged,
the counts under a key are those of the calls that have ended under it, as words of sixty-four bits;
a timer has counted those, too, whose errors are being judged. A step changes no count under another
key, and none at all if it only makes or copies a measure or begins a call. Two measures feed the
same series just if the hashes of their labels are the same, so they do if their layer and function
make up the same text. A function under a measure has the result that it has without it, and
calculating a text gives the value of its expression or the error of the parser and is a success. -/
theorem calls_are_tallied (hR : R.Laws) {s : R.Session} (hs : s.Reachable) :
    (∀ l : Labels,
        R.counts .success l s.store = UInt64.ofNat
            (s.ended.countP fun call => call.key = R.hash l.text && !call.failed)
          ∧ R.counts .failure l s.store = UInt64.ofNat
            (s.ended.countP fun call => call.key = R.hash l.text && call.failed)
          ∧ R.counts .timer l s.store = UInt64.ofNat
            (s.ended.countP (fun call => call.key = R.hash l.text) + s.judging (R.hash l.text))
          ∧ R.counts .timer l s.store = R.counts .success l s.store + R.counts .failure l s.store
            + UInt64.ofNat (s.judging (R.hash l.text)))
      ∧ (∀ key s', Session.Step s key s' →
          (∀ f (l : Labels), R.hash l.text ≠ key → R.counts f l s'.store = R.counts f l s.store)
            ∧ (s'.ended = s.ended → (∀ k, s'.judging k = s.judging k) →
                ∀ f l, R.counts f l s'.store = R.counts f l s.store))
      ∧ (∀ h ∈ s.handles, ∀ h' ∈ s.handles,
          ((∀ f l, h.measure.Feeds s.store (R.child f l s.store).1
              ↔ h'.measure.Feeds s.store (R.child f l s.store).1)
            ↔ R.hash h.labels.text = R.hash h'.labels.text)
          ∧ (h.labels.text = h'.labels.text → h.measure = h'.measure))
      ∧ (∀ (α ε : Type) (measure : R.Measure) (duration : Nat) (judge : ε → StateM R.Store Bool)
          (inner : StateM R.Store (Except ε α)) (store : R.Store),
          (measure.stats duration judge inner store).1 = (inner store).1)
      ∧ ∀ duration text,
          (R.calculate duration text s.store).1 = (parse text).map Expr.evaluate
            ∧ ∀ f (l : Labels), R.counts f l (R.calculate duration text s.store).2
                = R.counts f l s.store
                  + if R.hash l.text = R.calculateKey ∧ f ≠ .failure then 1 else 0 := by
  have hbacked := hs.backed hR
  have hcount : ∀ f (l : Labels), R.counts f l s.store
      = UInt64.ofNat (s.tally (R.hash l.text) f) := by
    intro f l
    rw [hR.counts_eq, hs.count_eq hR]
  refine ⟨fun l => ⟨hcount .success l, hcount .failure l, hcount .timer l, ?_⟩,
    fun key s' hstep => ?_, fun h hh h' hh' => ⟨?_, ?_⟩, ?_, fun duration text => ⟨?_, ?_⟩⟩
  · have hsum := countP_success_add_failure s.ended (R.hash l.text)
    rw [hcount, hcount, hcount, ← UInt64.ofNat_add, ← UInt64.ofNat_add]
    exact congrArg (fun n => UInt64.ofNat (n + s.judging (R.hash l.text))) hsum.symm
  · obtain ⟨fs, htally, hstore⟩ := hbacked.count_of_step hR hstep
    refine ⟨fun f l hne => ?_, fun hended hjudging f l => ?_⟩
    · rw [hR.counts_eq, hR.counts_eq, hstore, if_neg hne]
      exact UInt64.add_zero _
    · -- The session counts no more than before, and so does the registry.
      have hsame : ∀ k, s'.tally k f = s.tally k f := by
        intro k
        have hopened := hjudging k
        cases f with
        | success => exact congrArg (List.countP _) hended
        | failure => exact congrArg (List.countP _) hended
        | timer => exact congrArg₂ (· + ·) (congrArg (List.countP _) hended) hopened
      have hnone : (if R.hash l.text = key then fs.count f else 0) = 0 :=
        Nat.add_left_cancel ((htally f (R.hash l.text)).symm.trans (hsame _))
      rw [hR.counts_eq, hR.counts_eq, hstore, hnone]
      exact UInt64.add_zero _
  · simp only [hR.child_fst]
    exact hR.feeds_iff (hbacked.handles h hh) (hbacked.handles h' hh')
  · intro htext
    rw [hbacked.handles h hh, hbacked.handles h' hh', measureOf, measureOf, Measure.mk.injEq]
    simp only [hR.childOf_eq_iff, htext, and_self]
  · exact fun α ε measure duration judge inner store => stats_fst measure duration judge inner store
  · rw [hR.calculate_eq]
  · intro f l
    rw [hR.counts_eq, hR.counts_eq, hR.calculate_eq, hR.count_ticks, hR.count_newMeasure]
    by_cases hkey : R.hash l.text = R.hash calculateLabels.text
    · have hadded : UInt64.ofNat ([Family.timer, .success].count f)
          = if f ≠ .failure then 1 else 0 := by
        cases f <;> rfl
      rw [if_pos hkey, hadded]
      simp only [calculateKey, hkey, true_and]
    · rw [if_neg hkey, if_neg fun h => hkey h.1]
      rfl

/-- Two measures of one series, of which the second is used inside a call under the first: the inner
call fails, and the outer one succeeds. While the error of the inner call is judged, the timer is
ahead of the counters. -/
theorem calls_are_tallied_nested :
    ∃ s s' : Metrics.registry.Session, s.Reachable ∧ s'.Reachable ∧ s'.opened = []
      ∧ Metrics.registry.counts .success ⟨"ab", "c"⟩ s.store = 0
      ∧ Metrics.registry.counts .failure ⟨"ab", "c"⟩ s.store = 0
      ∧ Metrics.registry.counts .timer ⟨"ab", "c"⟩ s.store = 1
      ∧ Metrics.registry.counts .success ⟨"ab", "c"⟩ s'.store = 1
      ∧ Metrics.registry.counts .failure ⟨"ab", "c"⟩ s'.store = 1
      ∧ Metrics.registry.counts .timer ⟨"ab", "c"⟩ s'.store = 2 := by
  let judge : ParseError → StateM Metrics Bool := Fallible.judge
  let failing : StateM Metrics (Except ParseError Unit) := pure (.error (.internal ""))
  let calling : StateM Metrics (Except ParseError Unit) := fun m =>
    (.ok (), ((Metrics.registry.measureOf ⟨"a", "bc"⟩).stats 0 judge failing m).2)
  have hmade : Session.Reachable (R := Metrics.registry) _ :=
    .step (.step .start (.new _ ⟨"ab", "c"⟩)) (.new _ ⟨"a", "bc"⟩)
  have hentered : Session.Reachable _ :=
    .step (.step hmade (.enter (.tail _ (.head _)))) (.enter (.head _))
  have hjudging : Session.Reachable _ :=
    .step hentered (.fail 0 rfl rfl (rfl : failing _ = (.error (.internal ""), _)))
  have hjudged : Session.Reachable _ :=
    .step hjudging (.judged 0 rfl (rfl : failing _ = (.error (.internal ""), _)) rfl
      (rfl : judge (.internal "") _ = (true, _)))
  have hended : Session.Reachable _ :=
    .step hjudged (@Session.Step.succeed _ _ _ _ _ _ () judge calling 0 rfl rfl rfl)
  obtain ⟨hsuccess, hfailure, htimer, -⟩ :=
    (calls_are_tallied Metrics.registry_laws hjudging).1 ⟨"ab", "c"⟩
  obtain ⟨hsuccess', hfailure', htimer', -⟩ :=
    (calls_are_tallied Metrics.registry_laws hended).1 ⟨"ab", "c"⟩
  refine ⟨_, _, hjudging, hended, rfl, ?_⟩
  rw [hsuccess, hfailure, htimer, hsuccess', hfailure', htimer']
  decide +kernel

/-- Of the metrics in memory two measures can feed one series although their layers and functions
make up different texts, and while an error is judged the timer of a series is ahead of its
counters. -/
theorem series_shared_and_timer_ahead :
    (∃ s : Metrics.registry.Session, s.Reachable ∧ ∃ h ∈ s.handles, ∃ h' ∈ s.handles,
        h.labels = ⟨"7moht", "cOFVz"⟩ ∧ h'.labels = ⟨"c1E51", "sSEyx"⟩
          ∧ "7moht" ++ "cOFVz" ≠ "c1E51" ++ "sSEyx"
          ∧ ∀ c, h.measure.Feeds s.store c ↔ h'.measure.Feeds s.store c)
      ∧ ∃ s : Metrics.registry.Session, s.Reachable
          ∧ Metrics.registry.counts .success ⟨"ab", "c"⟩ s.store
              + Metrics.registry.counts .failure ⟨"ab", "c"⟩ s.store
            ≠ Metrics.registry.counts .timer ⟨"ab", "c"⟩ s.store := by
  constructor
  · have hmade : Session.Reachable (R := Metrics.registry) _ :=
      .step (.step .start (.new _ ⟨"c1E51", "sSEyx"⟩)) (.new _ ⟨"7moht", "cOFVz"⟩)
    refine ⟨_, hmade, _, .head _, _, .tail _ (.head _), rfl, rfl, by decide +kernel, fun c => ?_⟩
    have hhash : Metrics.hash ("7moht" ++ "cOFVz") = Metrics.hash ("c1E51" ++ "sSEyx") := by
      decide +kernel
    have hmeasure : Metrics.registry.measureOf ⟨"7moht", "cOFVz"⟩
        = Metrics.registry.measureOf ⟨"c1E51", "sSEyx"⟩ :=
      congrArg (fun k => (⟨⟨.success, k⟩, ⟨.failure, k⟩, ⟨.timer, k⟩⟩ : Metrics.registry.Measure))
        hhash
    exact iff_of_eq (congrArg (fun m => Measure.Feeds m _ c) hmeasure)
  · let failing : StateM Metrics (Except Unit Unit) := pure (.error ())
    have hjudging : Session.Reachable (R := Metrics.registry) _ :=
      .step (.step (.step .start (.new _ ⟨"ab", "c"⟩)) (.enter (.head _)))
        (.fail 0 rfl rfl (rfl : failing _ = (.error (), _)))
    exact ⟨_, hjudging, by decide +kernel⟩

end Registry

end InfixCalc
