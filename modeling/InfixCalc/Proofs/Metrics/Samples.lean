import Mathlib
import InfixCalc.Metrics.Exposition
import InfixCalc.Proofs.Binary64

/-!
# Reading metrics back

A reader of the lines that hold counts: it splits a text at line breaks, takes the lines that begin
with the name of a count and a curly bracket, and reads each of them as a name, two labels and a
number, with the escapes of the labels undone. Where anything else stands, nothing is read.

An escaped label holds no line break, so labels neither end a line nor begin one; and the first
quote that is not escaped ends the label, so the rest of the line is where it belongs.

Main statements: an escaped label is read back (`label?_escaped`), no line break stands in a line
(`break_notMem_familyLines`), and the text of families is read back as the counts of their children
(`samples_text`).
-/

namespace InfixCalc

namespace Exposition

/-! ## Reading a line -/

/-- The character that stands behind a backslash, if one may stand there. -/
def unescaped? (c : Char) : Option Char :=
  if c = '\\' then some '\\' else if c = 'n' then some '\n' else if c = '"' then some '"' else none

/-- Reads a label up to the quote behind it, and gives what is left behind the quote. -/
def label? : List Char → Option (List Char × List Char)
  | [] => none
  | '"' :: rest => some ([], rest)
  | ['\\'] => none
  | '\\' :: e :: rest =>
    (unescaped? e).bind fun plain => (label? rest).map (Prod.map (plain :: ·) id)
  | c :: rest => (label? rest).map (Prod.map (c :: ·) id)

/-- A value of a child, with the labels of the child. -/
structure Sample where
  name : String
  labels : Labels
  count : Nat
  deriving DecidableEq, Repr

/-- Reads the line of a value: a name, two labels in curly brackets and a whole number. -/
def Sample.ofLine? (line : List Char) : Option Sample := do
  let name := line.takeWhile (· ≠ '\x7b')
  let rest ← (line.drop name.length).dropPrefix? "\x7bapp_layer=\"".toList
  let layer ← label? rest
  let rest ← layer.2.dropPrefix? ",class_function=\"".toList
  let function ← label? rest
  let digits ← function.2.dropPrefix? "\x7d ".toList
  if digits ≠ [] ∧ ∀ c ∈ digits, Decimal.isDigit c = true then
    return ⟨String.ofList name, ⟨String.ofList layer.1, String.ofList function.1⟩,
      Decimal.ofDigits digits⟩
  else none

/-- The name of the lines that hold the counts of a family. -/
def countName : Family → String
  | .failure => "failure_counter"
  | .success => "success_counter"
  | .timer => "timer_count"

/-- Whether a line begins with the name of a count and a curly bracket. -/
def holdsCount (line : List Char) : Bool :=
  Family.all.any fun f => ((countName f).toList ++ ['\x7b']).isPrefixOf line

/-- Splits a text at line breaks and reads each line that holds a count. -/
def samples (text : String) : List (Option Sample) :=
  ((text.toList.splitOn '\n').filter holdsCount).map Sample.ofLine?

/-! ## Labels -/

/-- **An escaped label is read back,** whatever it holds and whatever stands behind its quote. -/
theorem label?_escaped (value rest : List Char) :
    label? (value.flatMap escapedLabelChar ++ '"' :: rest) = some (value, rest) := by
  induction value with
  | nil => rfl
  | cons c value ih =>
      rw [List.flatMap_cons, List.append_assoc]
      by_cases hslash : c = '\\'
      · subst hslash
        simp [escapedLabelChar, label?, unescaped?, ih]
      · by_cases hbreak : c = '\n'
        · subst hbreak
          simp [escapedLabelChar, label?, unescaped?, ih]
        · by_cases hquote : c = '"'
          · subst hquote
            simp [escapedLabelChar, label?, unescaped?, ih]
          · simp [escapedLabelChar, label?, hslash, hbreak, hquote, ih]

/-- No line break stands in an escaped label. -/
theorem break_notMem_escaped (value : List Char) : '\n' ∉ value.flatMap escapedLabelChar := by
  intro h
  obtain ⟨c, -, hc⟩ := List.mem_flatMap.1 h
  unfold escapedLabelChar at hc
  split at hc
  · simp at hc
  · split at hc
    · simp at hc
    · next hbreak =>
      split at hc
      · simp at hc
      · exact hbreak (List.mem_singleton.1 hc).symm

/-! ## Lines -/

/-- What is written at the front is taken off again. -/
theorem dropPrefix?_append (p rest : List Char) : (p ++ rest).dropPrefix? p = some rest :=
  List.dropPrefix?_eq_some_iff.2 ⟨p, rfl, beq_self_eq_true p⟩

/-- The line of a value of a child, from left to right. -/
theorem sampleLine_none (name : String) (l : Labels) (value : List Char) :
    sampleLine name l none value
      = name.toList ++ ("\x7bapp_layer=\"".toList ++ (l.layer.toList.flatMap escapedLabelChar
        ++ '"' :: (",class_function=\"".toList ++ (l.function.toList.flatMap escapedLabelChar
          ++ '"' :: ("\x7d ".toList ++ value))))) := by
  simp [sampleLine, labelsText, labelText, Labels.layerName, Labels.functionName]

/-- What stands before the first curly bracket is found again. -/
theorem takeWhile_append_bracket {text : List Char} (h : '\x7b' ∉ text) (rest : List Char) :
    (text ++ '\x7b' :: rest).takeWhile (· ≠ '\x7b') = text := by
  have hplain : ∀ c ∈ text, decide (c ≠ '\x7b') = true := by
    intro c hc
    rw [decide_eq_true_eq]
    rintro rfl
    exact h hc
  rw [List.takeWhile_append_of_pos hplain, List.takeWhile_cons_of_neg (by simp), List.append_nil]

/-- The name of a line ends at the first curly bracket. -/
theorem takeWhile_sampleLine {name : String} (hname : '\x7b' ∉ name.toList) (l : Labels)
    (bound : Option (List Char)) (value : List Char) :
    (sampleLine name l bound value).takeWhile (· ≠ '\x7b') = name.toList := by
  rw [sampleLine, List.append_assoc, List.cons_append, takeWhile_append_bracket hname]

/-- **The line of a count is read back:** its name, the labels of its child and the count. -/
theorem ofLine?_sampleLine {name : String} (hname : '\x7b' ∉ name.toList) (l : Labels) (n : Nat) :
    Sample.ofLine? (sampleLine name l none (Decimal.digits n)) = some ⟨name, l, n⟩ := by
  have hdigits : Decimal.digits n ≠ [] ∧ ∀ c ∈ Decimal.digits n, Decimal.isDigit c = true :=
    ⟨by simp [Decimal.digits], fun c => Decimal.isDigit_of_mem_digits⟩
  rw [Sample.ofLine?, takeWhile_sampleLine hname, sampleLine_none, List.drop_left]
  simp only [dropPrefix?_append, label?_escaped, Option.bind_eq_bind, Option.bind_some]
  rw [if_pos hdigits]
  simp [Decimal.ofDigits_digits]

/-- No curly bracket stands in the name of a count. -/
theorem bracket_notMem_countName (f : Family) : '\x7b' ∉ (countName f).toList := by
  cases f <;> decide

/-- A line holds a count just if its name is that of one. -/
theorem holdsCount_sampleLine {name : String} (hname : '\x7b' ∉ name.toList) (l : Labels)
    (bound : Option (List Char)) (value : List Char) :
    holdsCount (sampleLine name l bound value) = true ↔ ∃ f, countName f = name := by
  rw [holdsCount, List.any_eq_true]
  refine exists_congr fun f => ?_
  have hf : f ∈ Family.all := by cases f <;> decide
  rw [and_iff_right hf]
  rw [List.isPrefixOf_iff_prefix]
  constructor
  · rintro ⟨rest, hrest⟩
    have hnames := congrArg (List.takeWhile (· ≠ '\x7b')) hrest
    rw [takeWhile_sampleLine hname, List.append_assoc, List.singleton_append,
      takeWhile_append_bracket (bracket_notMem_countName f)] at hnames
    exact String.toList_injective hnames
  · rintro rfl
    exact ⟨labelsText l bound ++ '\x7d' :: ' ' :: value, by simp [sampleLine]⟩

/-! ## Line breaks -/

/-- No line break stands in the text of a number. -/
theorem break_notMem_text (x : Binary64) : '\n' ∉ x.text := by
  rw [Binary64.text]
  split
  · decide
  · split
    · split <;> decide
    · intro h
      rw [← Decimal.text_literal] at h
      rcases (Decimal.wellFormed_literal _).mem_text h with hsign | hdigit | hpoint
      · revert hsign
        decide
      · revert hdigit
        decide
      · revert hpoint
        decide

/-- No line break stands in the digits of a number. -/
theorem break_notMem_digits (n : Nat) : '\n' ∉ Decimal.digits n := by
  intro h
  have hdigit := Decimal.isDigit_of_mem_digits h
  revert hdigit
  decide

/-- No line break stands in a label. -/
theorem break_notMem_labelText {name : String} (hname : '\n' ∉ name.toList) (value : String) :
    '\n' ∉ labelText name value := by
  simp only [labelText, List.mem_append, List.mem_cons, List.not_mem_nil, or_false, not_or]
  exact ⟨⟨hname, by decide, by decide, break_notMem_escaped _⟩, by decide⟩

/-- No line break stands in the line of a value. -/
theorem break_notMem_sampleLine {name : String} (hname : '\n' ∉ name.toList) (l : Labels)
    (bound : Option (List Char)) {value : List Char} (hvalue : '\n' ∉ value) :
    '\n' ∉ sampleLine name l bound value := by
  have hlayer : '\n' ∉ labelText Labels.layerName l.layer := break_notMem_labelText (by decide) _
  have hfunction : '\n' ∉ labelText Labels.functionName l.function :=
    break_notMem_labelText (by decide) _
  have hbound : ∀ b, '\n' ∉ labelText "le" b := fun b => break_notMem_labelText (by decide) b
  cases bound with
  | none => simp [sampleLine, labelsText, hname, hvalue, hlayer, hfunction]
  | some b => simp [sampleLine, labelsText, hname, hvalue, hlayer, hfunction, hbound]

/-- No line break stands in the first lines of a family. -/
theorem break_notMem_familyHead (f : Family) : ∀ line ∈ familyHead f, '\n' ∉ line := by
  cases f <;> decide

/-- No line break stands in the lines of a child. -/
theorem break_notMem_metricLines {numeral : UInt64 → Nat} {name : String}
    (hname : '\n' ∉ name.toList) (m : Metric) :
    ∀ line ∈ metricLines numeral name m, '\n' ∉ line := by
  have happend : ∀ suffix : String, '\n' ∉ suffix.toList → '\n' ∉ (name ++ suffix).toList := by
    intro suffix h
    rw [String.toList_append, List.mem_append, not_or]
    exact ⟨hname, h⟩
  intro line hline
  obtain ⟨l, value⟩ := m
  cases value with
  | counter n =>
      obtain rfl := List.mem_singleton.1 hline
      exact break_notMem_sampleLine hname l none (break_notMem_digits _)
  | histogram n buckets sum =>
      rcases List.mem_append.1 hline with hbucket | hlast
      · obtain ⟨bucket, -, rfl⟩ := List.mem_map.1 hbucket
        exact break_notMem_sampleLine (happend "_bucket" (by decide)) l _ (break_notMem_digits _)
      · simp only [List.mem_cons, List.not_mem_nil, or_false] at hlast
        rcases hlast with rfl | rfl | rfl
        · exact break_notMem_sampleLine (happend "_bucket" (by decide)) l _ (break_notMem_digits _)
        · exact break_notMem_sampleLine (happend "_sum" (by decide)) l _ (break_notMem_text _)
        · exact break_notMem_sampleLine (happend "_count" (by decide)) l _ (break_notMem_digits _)

/-- **No line break stands in a line,** whatever the labels hold. -/
theorem break_notMem_familyLines (numeral : UInt64 → Nat) (g : MetricFamily) :
    ∀ line ∈ familyLines numeral g, '\n' ∉ line := by
  have hname : '\n' ∉ g.family.name.toList := by
    cases g.family <;> decide
  rw [familyLines, List.forall_mem_append, List.forall_mem_flatMap]
  exact ⟨break_notMem_familyHead g.family, fun m _ => break_notMem_metricLines hname m⟩

/-- Lines without line breaks are what a text of them is split into. -/
theorem splitOn_lines {lines : List (List Char)} (h : ∀ line ∈ lines, '\n' ∉ line) :
    (lines.flatMap fun line => line ++ ['\n']).splitOn '\n' = lines ++ [[]] := by
  induction lines with
  | nil => exact List.splitOn_nil _
  | cons line lines ih =>
      rw [List.forall_mem_cons] at h
      have hline : ∀ c ∈ line, (c == '\n') = false := by
        intro c hc
        rw [beq_eq_false_iff_ne]
        rintro rfl
        exact h.1 hc
      rw [List.flatMap_cons, List.append_assoc, List.singleton_append, List.splitOn,
        List.splitOnP_append_cons_of_forall_mem hline '\n' rfl, List.cons_append, ← ih h.2]
      rfl

/-! ## The lines of counts -/

/-- The line of the count of a child. -/
def countLine (numeral : UInt64 → Nat) (f : Family) (m : Metric) : List Char :=
  sampleLine (countName f) m.labels none (Decimal.digits (numeral m.value.count))

/-- A line whose name is not that of a count holds none. -/
theorem holdsCount_eq_false {name : String} (hname : '\x7b' ∉ name.toList)
    (hne : ∀ f, countName f ≠ name) (l : Labels) (bound : Option (List Char)) (value : List Char) :
    holdsCount (sampleLine name l bound value) = false := by
  rw [← Bool.not_eq_true, holdsCount_sampleLine hname]
  rintro ⟨f, hf⟩
  exact hne f hf

/-- **Of the lines of a child one holds a count.** -/
theorem filter_metricLines (numeral : UInt64 → Nat) {f : Family} {m : Metric}
    (hkind : m.value.kind = f.kind) :
    (metricLines numeral f.name m).filter holdsCount = [countLine numeral f m] := by
  have hcount : ∀ f (l : Labels) value, holdsCount (sampleLine (countName f) l none value) = true :=
    fun f l value => (holdsCount_sampleLine (bracket_notMem_countName f) l none value).2 ⟨f, rfl⟩
  obtain ⟨l, value⟩ := m
  cases value with
  | counter n =>
      have hname : f.name = countName f := by
        cases f with
        | failure => rfl
        | success => rfl
        | timer => cases hkind
      rw [metricLines, hname, List.filter_cons_of_pos (hcount _ _ _), List.filter_nil]
      rfl
  | histogram n buckets sum =>
      obtain rfl : f = .timer := by
        cases f with
        | failure => cases hkind
        | success => cases hkind
        | timer => rfl
      have hbucket : ∀ bound value,
          holdsCount (sampleLine ("timer" ++ "_bucket") l bound value) = false :=
        holdsCount_eq_false (by decide) (by intro f; cases f <;> decide) l
      have hsum : ∀ value, holdsCount (sampleLine ("timer" ++ "_sum") l none value) = false :=
        holdsCount_eq_false (by decide) (by intro f; cases f <;> decide) l none
      have hbuckets : (buckets.map fun b => sampleLine ("timer" ++ "_bucket") l (some b.1.text)
          (Decimal.digits (numeral b.2))).filter holdsCount = [] := by
        rw [List.filter_eq_nil_iff, List.forall_mem_map]
        intro b _
        rw [hbucket]
        decide
      have hlast : "timer" ++ "_count" = countName .timer := rfl
      rw [metricLines]
      simp only [Family.name]
      rw [List.filter_append, hbuckets, List.nil_append,
        List.filter_cons_of_neg (Bool.eq_false_iff.1 (hbucket _ _)),
        List.filter_cons_of_neg (Bool.eq_false_iff.1 (hsum _)), hlast,
        List.filter_cons_of_pos (hcount _ _ _), List.filter_nil]
      rfl

/-- **The lines of a family that hold counts** are one for each child. -/
theorem filter_familyLines (numeral : UInt64 → Nat) {g : MetricFamily}
    (hkind : ∀ m ∈ g.metrics, m.value.kind = g.family.kind) :
    (familyLines numeral g).filter holdsCount = g.metrics.map (countLine numeral g.family) := by
  have hhead : (familyHead g.family).filter holdsCount = [] := by
    cases g.family <;> rfl
  rw [familyLines, List.filter_append, hhead, List.nil_append, List.filter_flatMap,
    List.flatMap_congr fun m hm => filter_metricLines numeral (hkind m hm)]
  exact List.flatMap_pure_eq_map _ _

/-- **The text of families is read back.** The lines that hold counts are those of the children,
whatever their labels hold, and each of them is read as the labels and the count of its child. -/
theorem samples_text (numeral : UInt64 → Nat) {families : List MetricFamily}
    (hkind : ∀ g ∈ families, ∀ m ∈ g.metrics, m.value.kind = g.family.kind) :
    samples (text numeral families) = families.flatMap fun g => g.metrics.map fun m =>
      some ⟨countName g.family, m.labels, numeral m.value.count⟩ := by
  have hlines : ∀ line ∈ families.flatMap (familyLines numeral), '\n' ∉ line :=
    List.forall_mem_flatMap.2 fun g _ => break_notMem_familyLines numeral g
  have hlast : [([] : List Char)].filter holdsCount = [] := rfl
  rw [samples, text, String.toList_ofList, splitOn_lines hlines, List.filter_append, hlast,
    List.append_nil, List.filter_flatMap, List.map_flatMap]
  refine List.flatMap_congr fun g hg => ?_
  rw [filter_familyLines numeral (hkind g hg), List.map_map]
  refine List.map_congr_left fun m _ => ?_
  exact ofLine?_sampleLine (bracket_notMem_countName g.family) m.labels _

end Exposition

end InfixCalc
