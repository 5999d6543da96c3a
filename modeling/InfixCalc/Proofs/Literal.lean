import Mathlib
import InfixCalc.Literal

/-!
# What stands at the front of a text, as a literal

The scan for a literal takes signs, digits and a fraction as far as they go. Here the result of the
scan is described by the shape of the literal and by what may not stand behind it.

Main statements: a literal is the longest one at the front of a text just if it is well formed and
nothing behind it continues it (`longest?_eq_some_iff`); there is none just if no digit stands
behind the signs (`longest?_eq_none_iff`); and more text behind a literal leaves it as it is, unless
the text ended with it or with a point behind it (`longest?_append`).
-/

namespace InfixCalc

/-! ## Runs of characters of a class -/

/-- No character of a class stands at the front of a text. -/
def StartsOutside (p : Char → Bool) (text : List Char) : Prop :=
  ∀ c, text.head? = some c → p c = false

variable {p : Char → Bool} {run rest more : List Char}

/-- Nothing stands at the front of the empty text. -/
theorem startsOutside_nil (p : Char → Bool) : StartsOutside p [] := by
  intro c h
  cases h

/-- The first character decides. -/
@[simp] theorem startsOutside_cons {c : Char} :
    StartsOutside p (c :: rest) ↔ p c = false := by
  simp [StartsOutside]

/-- What is left behind a run does not continue it. -/
theorem startsOutside_dropWhile (p : Char → Bool) (text : List Char) :
    StartsOutside p (text.dropWhile p) := by
  intro c hc
  have h := List.head?_dropWhile_not p text
  rw [hc] at h
  exact h

/-- What comes behind a text that is not empty has no part in how it starts. -/
theorem startsOutside_append (h : rest ≠ []) :
    StartsOutside p (rest ++ more) ↔ StartsOutside p rest := by
  cases rest with
  | nil => exact absurd rfl h
  | cons c rest => simp

/-- A run ends where the text behind it starts outside the class. -/
theorem takeWhile_append_eq (hrun : ∀ c ∈ run, p c = true) (hrest : StartsOutside p rest) :
    (run ++ rest).takeWhile p = run := by
  rw [List.takeWhile_append_of_pos hrun]
  cases rest with
  | nil => simp
  | cons c rest => simp [startsOutside_cons.1 hrest]

/-- Behind a run stands the text that starts outside the class. -/
theorem dropWhile_append_eq (hrun : ∀ c ∈ run, p c = true) (hrest : StartsOutside p rest) :
    (run ++ rest).dropWhile p = rest := by
  rw [List.dropWhile_append_of_pos hrun]
  cases rest with
  | nil => simp
  | cons c rest => simp [startsOutside_cons.1 hrest]

/-! ## Fractions -/

namespace Decimal

/-- No fraction stands at the front of a text: no point with a digit behind it. -/
def NoFraction (text : List Char) : Prop :=
  ∀ rest, text = '.' :: rest → StartsOutside isDigit rest

/-- Where no fraction stands, none is taken. -/
theorem takeFraction_eq_nil (h : NoFraction rest) : takeFraction rest = ([], rest) := by
  unfold takeFraction
  split
  · next rest =>
    have hrun : rest.takeWhile isDigit = [] := by
      cases rest with
      | nil => rfl
      | cons c rest => simp [startsOutside_cons.1 (h _ rfl)]
    rw [if_pos hrun]
  · rfl

/-- A fraction is taken with all of its digits. -/
theorem takeFraction_append (hne : run ≠ []) (hrun : ∀ c ∈ run, isDigit c = true)
    (hrest : StartsOutside isDigit rest) : takeFraction ('.' :: run ++ rest) = (run, rest) := by
  rw [List.cons_append, takeFraction, takeWhile_append_eq hrun hrest,
    dropWhile_append_eq hrun hrest, if_neg hne]

/-- What is taken is a run of digits, and nothing behind it continues the fraction. -/
theorem takeFraction_spec {text fraction rest : List Char}
    (h : takeFraction text = (fraction, rest)) :
    (∀ c ∈ fraction, isDigit c = true) ∧ (fraction = [] → rest = text ∧ NoFraction text)
      ∧ (fraction ≠ [] → StartsOutside isDigit rest) := by
  obtain rfl : (takeFraction text).1 = fraction := by rw [h]
  obtain rfl : (takeFraction text).2 = rest := by rw [h]
  clear h
  unfold takeFraction
  split
  · next rest =>
    split
    · next hrun =>
      refine ⟨by simp, fun _ => ⟨rfl, ?_⟩, fun h => absurd rfl h⟩
      rintro rest' ⟨⟩ c hc
      by_contra hdigit
      cases rest with
      | nil => simp at hc
      | cons d rest =>
          obtain rfl : d = c := by simpa using hc
          simp [hdigit] at hrun
    · next hrun =>
      exact ⟨fun c => List.mem_takeWhile_imp, fun h => absurd h hrun,
        fun _ => startsOutside_dropWhile isDigit rest⟩
  · next hpoint =>
    exact ⟨by simp, fun _ => ⟨rfl, fun rest h => absurd h (hpoint rest)⟩, fun h => absurd rfl h⟩

end Decimal

namespace Literal

open Decimal

/-! ## The shape of a literal -/

/-- The parts of a literal are those of some text: there are digits before the point, and only
digits behind it. -/
structure Parts.WellFormed (p : Parts) : Prop where
  whole_ne_nil : p.whole ≠ []
  whole_digits : ∀ c ∈ p.whole, isDigit c = true
  fraction_digits : ∀ c ∈ p.fraction, isDigit c = true

/-- Nothing at the front of a text continues a literal: no digit, and no fraction if the literal
has none yet. -/
structure Parts.EndsBefore (p : Parts) (rest : List Char) : Prop where
  noDigit : StartsOutside isDigit rest
  noFraction : p.fraction = [] → NoFraction rest

/-- A literal is written with signs, digits and a point. -/
theorem Parts.WellFormed.mem_text {p : Parts} (hp : p.WellFormed) {c : Char} (h : c ∈ p.text) :
    c = '-' ∨ isDigit c = true ∨ c = '.' := by
  simp only [Parts.text, List.mem_append] at h
  rcases h with (hsign | hwhole) | hfraction
  · exact .inl (List.eq_of_mem_replicate hsign)
  · exact .inr (.inl (hp.whole_digits c hwhole))
  · split at hfraction
    · exact absurd hfraction List.not_mem_nil
    · rcases List.mem_cons.1 hfraction with rfl | hdigit
      · exact .inr (.inr rfl)
      · exact .inr (.inl (hp.fraction_digits c hdigit))

/-- A minus sign is not a digit. -/
theorem isDigit_minus : isDigit '-' = false := by decide

/-- A point is not a digit. -/
theorem isDigit_point : isDigit '.' = false := by decide

/-- Digits do not continue a run of signs. -/
theorem startsOutside_minus_of_digits (hne : run ≠ []) (hrun : ∀ c ∈ run, isDigit c = true) :
    StartsOutside (· = '-') (run ++ rest) := by
  cases run with
  | nil => exact absurd rfl hne
  | cons c run =>
      rw [List.cons_append, startsOutside_cons, decide_eq_false_iff_not]
      rintro rfl
      exact absurd (hrun _ List.mem_cons_self) (by rw [isDigit_minus]; decide)

/-- The parts that the scan finds. -/
theorem parts_of_longest? {text rest : List Char} {p : Parts}
    (h : longest? text = some (p, rest)) :
    p.signs = (text.takeWhile (· = '-')).length
      ∧ p.whole = (text.dropWhile (· = '-')).takeWhile isDigit ∧ p.whole ≠ []
      ∧ takeFraction ((text.dropWhile (· = '-')).dropWhile isDigit) = (p.fraction, rest) := by
  unfold longest? at h
  dsimp only at h
  split at h
  · cases h
  · next hwhole =>
    obtain ⟨rfl, rfl⟩ := by simpa using h
    exact ⟨rfl, rfl, hwhole, rfl⟩

/-- The literal that the scan finds is well formed. -/
theorem wellFormed_of_longest? {text rest : List Char} {p : Parts}
    (h : longest? text = some (p, rest)) : p.WellFormed := by
  obtain ⟨-, hwhole, hne, hfraction⟩ := parts_of_longest? h
  refine ⟨hne, ?_, (takeFraction_spec hfraction).1⟩
  rw [hwhole]
  exact fun c => List.mem_takeWhile_imp

/-- Nothing behind the literal that the scan finds continues it. -/
theorem endsBefore_of_longest? {text rest : List Char} {p : Parts}
    (h : longest? text = some (p, rest)) : p.EndsBefore rest := by
  obtain ⟨-, -, -, hfraction⟩ := parts_of_longest? h
  obtain ⟨-, hnone, hsome⟩ := takeFraction_spec hfraction
  constructor
  · by_cases hf : p.fraction = []
    · rw [(hnone hf).1]
      exact startsOutside_dropWhile isDigit _
    · exact hsome hf
  · intro hf
    rw [(hnone hf).1]
    exact (hnone hf).2

/-- A well-formed literal is found in front of a text that does not continue it. -/
theorem longest?_text_append {p : Parts} (hp : p.WellFormed) (hend : p.EndsBefore rest) :
    longest? (p.text ++ rest) = some (p, rest) := by
  obtain ⟨signs, whole, fraction⟩ := p
  obtain ⟨hne, hwhole, hfraction⟩ := hp
  obtain ⟨hdigit, hnone⟩ := hend
  dsimp only at hne hwhole hfraction hnone
  -- Behind the digits stands a fraction, or what follows the literal; neither starts with a digit.
  have htail : ∃ tail, (if fraction = [] then [] else '.' :: fraction) ++ rest = tail
      ∧ takeFraction tail = (fraction, rest) ∧ StartsOutside isDigit tail := by
    by_cases hf : fraction = []
    · subst hf
      exact ⟨rest, by simp, takeFraction_eq_nil (hnone rfl), hdigit⟩
    · refine ⟨'.' :: fraction ++ rest, by rw [if_neg hf],
        takeFraction_append hf hfraction hdigit, ?_⟩
      rw [List.cons_append, startsOutside_cons, isDigit_point]
  obtain ⟨tail, htext, htake, hstart⟩ := htail
  have hsigns : ∀ c ∈ List.replicate signs '-', decide (c = '-') = true := by
    simp [List.mem_replicate]
  have hunsigned : StartsOutside (· = '-') (whole ++ tail) :=
    startsOutside_minus_of_digits hne hwhole
  simp only [Parts.text, List.append_assoc, htext, longest?, takeWhile_append_eq hsigns hunsigned,
    dropWhile_append_eq hsigns hunsigned, takeWhile_append_eq hwhole hstart,
    dropWhile_append_eq hwhole hstart, if_neg hne, htake, List.length_replicate]

/-- **The longest literal.** The scan finds a literal just if the text is that literal, well formed,
with a text behind it that does not continue it. -/
theorem longest?_eq_some_iff {text rest : List Char} {p : Parts} :
    longest? text = some (p, rest) ↔ p.WellFormed ∧ text = p.text ++ rest ∧ p.EndsBefore rest := by
  constructor
  · intro h
    exact ⟨wellFormed_of_longest? h, (append_of_longest? h).symm, endsBefore_of_longest? h⟩
  · rintro ⟨hp, rfl, hend⟩
    exact longest?_text_append hp hend

/-- The scan finds no literal just if no digit stands behind the signs. -/
theorem longest?_eq_none_iff {text : List Char} :
    longest? text = none ↔ StartsOutside isDigit (text.dropWhile (· = '-')) := by
  have hrun : (text.dropWhile (· = '-')).takeWhile isDigit = []
      ↔ StartsOutside isDigit (text.dropWhile (· = '-')) := by
    cases text.dropWhile (· = '-') with
    | nil => simp [startsOutside_nil]
    | cons c rest => simp
  rw [← hrun, longest?]
  simp

/-! ## More text behind a literal -/

/-- A text goes on so far that more text behind it changes nothing about a literal before it. -/
def Settled (rest : List Char) : Prop := rest ≠ [] ∧ rest ≠ ['.']

/-- More text behind a settled text does not continue a literal before it. -/
theorem Parts.EndsBefore.append {p : Parts} (h : p.EndsBefore rest) (hs : Settled rest)
    (more : List Char) : p.EndsBefore (rest ++ more) := by
  constructor
  · exact (startsOutside_append hs.1).2 h.noDigit
  · rintro hf tail htail
    cases rest with
    | nil => exact absurd rfl hs.1
    | cons c rest =>
        obtain ⟨rfl, rfl⟩ : c = '.' ∧ rest ++ more = tail := by simpa using htail
        have hne : rest ≠ [] := fun h => hs.2 (by rw [h])
        exact (startsOutside_append hne).2 (h.noFraction hf _ rfl)

/-- What does not continue a literal does not do so where it ends earlier. -/
theorem Parts.EndsBefore.of_append {p : Parts} (h : p.EndsBefore (rest ++ more)) :
    p.EndsBefore rest := by
  have hstart : ∀ r : List Char, StartsOutside isDigit (r ++ more) → StartsOutside isDigit r := by
    intro r hr
    cases r with
    | nil => exact startsOutside_nil isDigit
    | cons c r => exact (startsOutside_append (List.cons_ne_nil c r)).1 hr
  refine ⟨hstart rest h.noDigit, ?_⟩
  rintro hf tail rfl
  exact hstart tail (h.noFraction hf _ rfl)

/-- Nothing at all does not continue a literal. -/
theorem Parts.endsBefore_nil (p : Parts) : p.EndsBefore [] := by
  refine ⟨startsOutside_nil isDigit, ?_⟩
  rintro - rest ⟨⟩

/-- A text has one literal at its front that is not continued. -/
theorem Parts.WellFormed.eq_of_append_eq {p q : Parts} {rest' : List Char} (hp : p.WellFormed)
    (hend : p.EndsBefore rest) (hq : q.WellFormed) (hend' : q.EndsBefore rest')
    (h : p.text ++ rest = q.text ++ rest') : p = q ∧ rest = rest' := by
  have hfound := longest?_text_append hp hend
  rw [h, longest?_text_append hq hend'] at hfound
  obtain ⟨rfl, rfl⟩ := Prod.mk.inj (Option.some.inj hfound)
  exact ⟨rfl, rfl⟩

/-- Two literals with one text are one. -/
theorem Parts.WellFormed.eq_of_text_eq {p q : Parts} (hp : p.WellFormed) (hq : q.WellFormed)
    (h : p.text = q.text) : p = q :=
  (hp.eq_of_append_eq p.endsBefore_nil hq q.endsBefore_nil (by rw [h])).1

/-- More text behind a literal leaves it as it is, unless the text ended with it or with a point
behind it. -/
theorem longest?_append {text rest : List Char} {p : Parts} (h : longest? text = some (p, rest))
    (hs : Settled rest) (more : List Char) :
    longest? (text ++ more) = some (p, rest ++ more) := by
  obtain ⟨hp, rfl, hend⟩ := longest?_eq_some_iff.1 h
  rw [List.append_assoc]
  exact longest?_text_append hp (hend.append hs more)

/-- Where no literal stands, but one does when the text goes on, the text so far is signs of it. -/
theorem eq_signs_of_longest?_append {text more rest : List Char} {p : Parts}
    (hl : longest? text = none) (h : longest? (text ++ more) = some (p, rest)) :
    ∃ signs, text = List.replicate signs '-' ∧ signs ≤ p.signs := by
  have hsigns : text.dropWhile (· = '-') = [] := by
    -- What ended the signs is still there when the text goes on, and still no digit.
    by_contra hne
    have hnone : longest? (text ++ more) = none := by
      rw [longest?_eq_none_iff, List.dropWhile_append, if_neg (by simpa using hne),
        startsOutside_append hne]
      exact longest?_eq_none_iff.1 hl
    cases hnone.symm.trans h
  rw [List.dropWhile_eq_nil_iff] at hsigns
  refine ⟨text.length, List.eq_replicate_of_mem (by simpa using hsigns), ?_⟩
  rw [(parts_of_longest? h).1, List.takeWhile_append_of_pos hsigns, List.length_append]
  exact Nat.le_add_right _ _

/-! ## Longest matches -/

/-- A text is a literal: any number of minus signs, then digits, then a point with digits behind it
or nothing. -/
def IsLiteral (w : List Char) : Prop := ∃ p : Parts, p.WellFormed ∧ p.text = w

/-- Of the beginnings of a text that are literals, the longest one. -/
structure LongestLiteral (w text : List Char) : Prop where
  literal : IsLiteral w
  begins : w <+: text
  longest : ∀ w', IsLiteral w' → w' <+: text → w'.length ≤ w.length

/-- Where a literal begins a text, the scan finds one. -/
theorem exists_longest?_of_isLiteral {w text : List Char} (hw : IsLiteral w)
    (hbegins : w <+: text) : ∃ p rest, longest? text = some (p, rest) := by
  obtain ⟨p, hp, rfl⟩ := hw
  obtain ⟨rest, rfl⟩ := hbegins
  rcases hl : longest? (p.text ++ rest) with _ | ⟨q, rest'⟩
  · -- Behind the signs of the literal stands the first of its digits.
    exfalso
    have hsigns : ∀ c ∈ List.replicate p.signs '-', decide (c = '-') = true := by
      simp [List.mem_replicate]
    rw [longest?_eq_none_iff, Parts.text, List.append_assoc, List.append_assoc,
      dropWhile_append_eq hsigns (startsOutside_minus_of_digits hp.whole_ne_nil hp.whole_digits),
      startsOutside_append hp.whole_ne_nil] at hl
    obtain ⟨d, whole, hwhole⟩ := List.exists_cons_of_ne_nil hp.whole_ne_nil
    have hdigit : isDigit d = true := hp.whole_digits d (hwhole ▸ List.mem_cons_self)
    rw [hwhole, startsOutside_cons, hdigit] at hl
    cases hl
  · exact ⟨q, rest', rfl⟩

/-- **The scan finds the longest match.** -/
theorem longestLiteral_iff {w text : List Char} :
    LongestLiteral w text ↔ ∃ p rest, longest? text = some (p, rest) ∧ p.text = w := by
  have hlongest : ∀ {p rest}, longest? text = some (p, rest) → LongestLiteral p.text text := by
    intro p rest h
    obtain ⟨hp, htext, hend⟩ := longest?_eq_some_iff.1 h
    refine ⟨⟨p, hp, rfl⟩, ⟨rest, htext.symm⟩, ?_⟩
    rintro w' ⟨q, hq, rfl⟩ hbegins
    by_contra hlt
    -- The longer literal would go on where nothing continues the one that was found.
    obtain ⟨more, hmore⟩ : p.text <+: q.text :=
      List.prefix_of_prefix_length_le ⟨rest, htext.symm⟩ hbegins (Nat.le_of_not_le hlt)
    obtain ⟨rest', hrest'⟩ := hbegins
    rw [← hmore, htext, List.append_assoc] at hrest'
    rw [← List.append_cancel_left hrest'] at hend
    obtain ⟨-, rfl⟩ := hp.eq_of_append_eq hend.of_append hq q.endsBefore_nil
      (by rw [hmore, List.append_nil])
    rw [← hmore, List.append_nil] at hlt
    exact hlt le_rfl
  constructor
  · intro h
    obtain ⟨p, rest, hl⟩ := exists_longest?_of_isLiteral h.literal h.begins
    have hp := hlongest hl
    have hle := h.longest p.text hp.literal hp.begins
    have hge := hp.longest w h.literal h.begins
    refine ⟨p, rest, hl, ?_⟩
    exact (List.prefix_of_prefix_length_le hp.begins h.begins hle).eq_of_length
      (Nat.le_antisymm hle hge)
  · rintro ⟨p, rest, hl, rfl⟩
    exact hlongest hl

/-! ## The value of a literal -/

/-- A literal of the grammar and its value: at most one minus sign, digits, a fraction or none; the
value is the nearest number, which has to be finite. -/
structure Parts.Denotes (p : Parts) (x : Binary64) : Prop where
  wellFormed : p.WellFormed
  signs_le_one : p.signs ≤ 1
  nearest : p.decimal.nearest = x
  finite : x.isFinite = true

/-- A well-formed literal denotes the number that is computed for it. -/
theorem Parts.WellFormed.denotes_iff {p : Parts} (hp : p.WellFormed) {x : Binary64} :
    p.Denotes x ↔ p.number? = some x := by
  unfold Parts.number?
  constructor
  · rintro ⟨-, hsigns, rfl, hfinite⟩
    rw [if_pos ⟨hsigns, hfinite⟩]
  · intro h
    split at h
    · next hcond =>
      obtain rfl : p.decimal.nearest = x := by simpa using h
      exact ⟨hp, hcond.1, rfl, hcond.2⟩
    · cases h

/-- A literal with more than one sign denotes nothing. -/
theorem number?_eq_none_of_signs {p : Parts} (h : 1 < p.signs) : p.number? = none := by
  rw [Parts.number?, if_neg (by omega)]

/-- Where no literal stands, the reader says so, and where a digit is missing. -/
theorem read_of_none {text : List Char} (h : longest? text = none) :
    read text = .absent (text.dropWhile (· = '-')) := by
  unfold read
  split
  · rfl
  · next h' => cases h.symm.trans h'

/-- A literal without a value is refused. -/
theorem read_of_refused {text rest : List Char} {p : Parts} (h : longest? text = some (p, rest))
    (hx : p.number? = none) : read text = .refused p.text := by
  unfold read
  split
  · next h' => cases h.symm.trans h'
  · next p' rest' h' =>
    obtain ⟨rfl, rfl⟩ := by simpa using h.symm.trans h'
    split
    · rfl
    · next hx' => cases hx.symm.trans hx'

/-- A literal with a value is read as that value. -/
theorem read_of_value {text rest : List Char} {p : Parts} {x : Binary64}
    (h : longest? text = some (p, rest)) (hx : p.number? = some x) :
    read text = .read ⟨x, rest, length_lt_of_longest? h⟩ := by
  unfold read
  split
  · next h' => cases h.symm.trans h'
  · next p' rest' h' =>
    obtain ⟨rfl, rfl⟩ := by simpa using h.symm.trans h'
    split
    · next hx' => cases hx.symm.trans hx'
    · next x' hx' =>
      obtain rfl : x = x' := by simpa using hx.symm.trans hx'
      rfl

/-- What the reader of literals can find at the front of a text. -/
inductive Finds (text : List Char) : Outcome text → Prop
  /-- No literal stands there. -/
  | absent (hl : longest? text = none) : Finds text (.absent (text.dropWhile (· = '-')))
  /-- The literal has no value. -/
  | refused {rest : List Char} {p : Parts} (hl : longest? text = some (p, rest))
      (hx : p.number? = none) : Finds text (.refused p.text)
  /-- The literal has a value. -/
  | read {rest : List Char} {p : Parts} {x : Binary64} {hlt : rest.length < text.length}
      (hl : longest? text = some (p, rest)) (hx : p.number? = some x) :
      Finds text (.read ⟨x, rest, hlt⟩)

/-- The reader of literals finds one of these. -/
theorem finds_read (text : List Char) : Finds text (read text) := by
  rcases hl : longest? text with _ | ⟨p, rest⟩
  · rw [read_of_none hl]
    exact .absent hl
  · rcases hx : p.number? with _ | x
    · rw [read_of_refused hl hx]
      exact .refused hl hx
    · rw [read_of_value hl hx]
      exact .read hl hx

end Literal

end InfixCalc
