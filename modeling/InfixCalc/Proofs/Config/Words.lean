import Mathlib
import InfixCalc.Config
import InfixCalc.Config.Value.Reader
import InfixCalc.Proofs.Json

/-!
# Words of variables

What the texts of variables are read as. A whole number is never one of more than sixty-four bits;
decimal digits that fit are read as their number, and the word for a flag as that flag, whatever
blanks of the ASCII range stand around them.

Main statements: `integer?_ofText_lt`, `ofText_digits` and `ofText_flag`.
-/

namespace InfixCalc

/-! ## Blanks around a word -/

namespace Text

/-- A blank has no other case. -/
theorem toLower_of_isBlank {c : Char} (h : isBlank c = true) : c.toLower = c := by
  have hletter : ¬ (65 ≤ c.toNat ∧ c.toNat ≤ 90) := by
    simp only [isBlank, Bool.or_eq_true, Bool.and_eq_true, decide_eq_true_eq, beq_iff_eq] at h
    omega
  have hcase : ¬ (c.val ≥ 'A'.val ∧ c.val ≤ 'Z'.val) := fun hle =>
    hletter ⟨UInt32.le_iff_toNat_le.1 hle.1, UInt32.le_iff_toNat_le.1 hle.2⟩
  rw [Char.toLower, dif_neg hcase]

/-- Blanks at the ends of a word are trimmed. -/
theorem trim_append {before word after : List Char} (hbefore : ∀ c ∈ before, isBlank c = true)
    (hne : word ≠ []) (hword : ∀ c ∈ word, isBlank c = false)
    (hafter : ∀ c ∈ after, isBlank c = true) : trim (before ++ word ++ after) = word := by
  have hstart : ∀ (s : List Char) more, s ≠ [] → (∀ c ∈ s, isBlank c = false) →
      StartsOutside isBlank (s ++ more) := by
    intro s more hs hblank
    obtain ⟨c, s, rfl⟩ := List.exists_cons_of_ne_nil hs
    exact startsOutside_cons.2 (hblank c List.mem_cons_self)
  rw [trim, List.append_assoc, dropWhile_append_eq hbefore (hstart word after hne hword),
    List.reverse_append, dropWhile_append_eq (by simpa using hafter), List.reverse_reverse]
  rw [← List.append_nil word.reverse]
  exact hstart word.reverse [] (by simpa using hne) (by simpa using hword)

end Text

/-! ## The next character behind blanks -/

/-- Behind blanks the next character is the first that is none. -/
theorem Reading.takes_next? {isBlank : Char → Bool} {before : List Char} (c : Char)
    (rest : List Char) (hbefore : ∀ b ∈ before, isBlank b = true)
    (hc : isBlank c = false) : Takes (next? isBlank (before ++ c :: rest)) c rest := by
  induction before with
  | nil =>
      rw [List.nil_append, next?_cons hc]
      exact takes_first c c rest
  | cons b before ih =>
      rw [List.forall_mem_cons] at hbefore
      rw [List.cons_append, next?, if_pos hbefore.1]
      exact (ih hbefore.2).behind b

namespace Config

open Value

/-! ## The size of a number -/

/-- The whole number that a value is. -/
def Value.integer? : Value → Option Int
  | .unsigned n => some n
  | .signed n => some n
  | _ => none

/-- A number without a minus sign that a word is read as fits into sixty-four bits. -/
theorem unsigned?_lt {word : List Char} {n : Nat} (h : Value.unsigned? word = some n) :
    n < limitBound := by
  simp only [Value.unsigned?] at h
  split at h
  · split at h
    · next hfits =>
      obtain rfl := Option.some.inj h
      exact hfits.2
    · cases h
  · cases h

/-- A number with a minus sign that a word is read as is not positive. -/
theorem signed?_le {word : List Char} {n : Int} (h : Value.signed? word = some n) : n ≤ 0 := by
  simp only [Value.signed?] at h
  split at h
  · split at h
    · obtain rfl := Option.some.inj h
      omega
    · cases h
  · cases h

/-- A word is no whole number of more than sixty-four bits. -/
theorem integer?_ofWord_lt (word : List Char) {n : Int}
    (h : (Value.ofWord word).integer? = some n) : n < limitBound := by
  unfold Value.ofWord at h
  split at h
  · cases h
  · split at h
    · next k hk =>
      obtain rfl : (k : Int) = n := Option.some.inj h
      exact Int.ofNat_lt.2 (unsigned?_lt hk)
    · split at h
      · next k hk =>
        obtain rfl : k = n := Option.some.inj h
        have hpos : (0 : Int) < limitBound := by decide
        exact Int.lt_of_le_of_lt (signed?_le hk) hpos
      · cases h

/-- A text is read as no whole number of more than sixty-four bits. -/
theorem integer?_value?_lt {text : List Char} {s : Scan Value text} {n : Int}
    (h : Value.value? text = some s) (hn : s.value.integer? = some n) : n < limitBound := by
  rw [Value.value?] at h
  split at h
  · obtain rfl := Option.some.inj h
    exact integer?_ofWord_lt [] hn
  · next c _ =>
    obtain ⟨t, ht, rfl⟩ := Option.map_eq_some_iff.1 h
    have hvalue : t.value.integer? = some n := hn
    clear h hn
    -- Flags, tables, sequences and texts are no numbers, so that only a word is left.
    split_ifs at ht
    all_goals first
      | obtain ⟨r, -, rfl⟩ := Option.map_eq_some_iff.1 ht
        cases hvalue
      | obtain rfl := Option.some.inj ht
        first
        | cases hvalue
        | exact integer?_ofWord_lt _ hvalue

/-- The value of a variable is no whole number of more than sixty-four bits. -/
theorem integer?_ofText_lt {text : String} {n : Int}
    (h : (Value.ofText text).integer? = some n) : n < limitBound := by
  unfold Value.ofText at h
  split at h
  · cases h
  · next s hs =>
    split at h
    · exact integer?_value?_lt hs h
    · cases h

/-! ## Texts of variables -/

/-- Decimal digits, at least one, that have a value. -/
structure DigitsOf (word : List Char) (n : Nat) : Prop where
  ne_nil : word ≠ []
  digits : ∀ d ∈ word, Decimal.isDigit d = true
  value : Decimal.ofDigits word = n

/-- The word for a flag. -/
def flagWord (b : Bool) : List Char :=
  if b then ['t', 'r', 'u', 'e'] else ['f', 'a', 'l', 's', 'e']

/-- A digit is none of a class of characters without digits. -/
theorem ne_of_isDigit {d other : Char} (h : Decimal.isDigit d = true)
    (hother : Decimal.isDigit other = false) : d ≠ other := by
  rintro rfl
  cases h.symm.trans hother

/-- A digit is no blank. -/
theorem not_isBlank_of_isDigit {d : Char} (h : Decimal.isDigit d = true) :
    Text.isBlank d = false := by
  simp only [Decimal.isDigit, Bool.and_eq_true, decide_eq_true_eq, Char.le_def,
    UInt32.le_iff_toNat_le] at h
  have hrange : 48 ≤ d.toNat ∧ d.toNat ≤ 57 := h
  rw [Bool.eq_false_iff]
  intro hblank
  simp only [Text.isBlank, Bool.or_eq_true, Bool.and_eq_true, decide_eq_true_eq, beq_iff_eq]
    at hblank
  omega

/-- A digit ends no word, and neither does a blank. -/
theorem not_isSeparator {d : Char} (h : Decimal.isDigit d = true ∨ Text.isAsciiBlank d = true) :
    Value.isSeparator d = false := by
  rw [Bool.eq_false_iff]
  intro hseparator
  simp only [Value.isSeparator, Bool.or_eq_true, decide_eq_true_eq] at hseparator
  rcases hseparator with (((rfl | rfl) | rfl) | rfl) | rfl
  all_goals exact absurd h (by decide)

/-- Digits are a whole number, if it fits into a word. -/
theorem ofWord_digits {word : List Char} {n : Nat} (h : DigitsOf word n) (hn : n < limitBound) :
    Value.ofWord word = .unsigned n := by
  have hpoint : ¬ word.contains '.' = true := by
    rw [List.contains_iff_mem]
    intro hmem
    exact ne_of_isDigit (h.digits _ hmem) (by decide) rfl
  have hsign : Value.takeSign word = (false, word) := by
    obtain ⟨d, ds, rfl⟩ := List.exists_cons_of_ne_nil h.ne_nil
    have hd := h.digits d List.mem_cons_self
    have hminus : d ≠ '-' := ne_of_isDigit hd (by decide)
    have hplus : d ≠ '+' := ne_of_isDigit hd (by decide)
    simp [Value.takeSign, hminus, hplus]
  have hnatural : Value.natural? word = some n := by
    rw [Value.natural?, if_pos ⟨h.ne_nil, List.all_eq_true.2 h.digits⟩, h.value]
  have hunsigned : Value.unsigned? word = some n := by
    simp only [Value.unsigned?, hsign, hnatural]
    exact if_pos ⟨by simp, hn⟩
  simp only [Value.ofWord, if_neg hpoint, hunsigned]

/-- The whole of a text is read as a value if nothing is left. -/
theorem ofText_of_value? {text : String} {cs : List Char} {s : Scan Value cs}
    (htext : text.toList = cs) (hs : Value.value? cs = some s) (hrest : s.rest = []) :
    Value.ofText text = s.value := by
  subst htext
  simp only [Value.ofText, hs, if_pos hrest]

/-- Digits with blanks behind them are a word, of which nothing is left. -/
theorem word_digits {word after : List Char} {n : Nat} (h : DigitsOf word n) (hn : n < limitBound)
    (hafter : ∀ b ∈ after, Text.isAsciiBlank b = true) :
    (Value.word (word ++ after)).value = .unsigned n ∧ (Value.word (word ++ after)).rest = [] := by
  have htrim : Text.trim (word ++ after) = word := by
    simpa using @Text.trim_append [] word after (by simp) h.ne_nil
      (fun d hd => not_isBlank_of_isDigit (h.digits d hd))
      fun b hb => Text.isBlank_of_isAsciiBlank (hafter b hb)
  have hall : ∀ d ∈ word ++ after, (!Value.isSeparator d) = true := by
    intro d hd
    rw [not_isSeparator ((List.mem_append.1 hd).imp (h.digits d) (hafter d)), Bool.not_false]
  constructor
  · simp only [Value.word, Scan.dropping, Scan.nothing, List.takeWhile_eq_self_iff.2 hall, htrim,
      ofWord_digits h hn]
  · simp only [Value.word, Scan.dropping, Scan.nothing, List.dropWhile_eq_nil_iff.2 hall]

/-- Digits with blanks around them are read as a whole number. -/
theorem value?_digits {before word after : List Char} {n : Nat} (h : DigitsOf word n)
    (hn : n < limitBound) (hbefore : ∀ b ∈ before, Text.isAsciiBlank b = true)
    (hafter : ∀ b ∈ after, Text.isAsciiBlank b = true) :
    ∃ s, Value.value? (before ++ word ++ after) = some s ∧ s.rest = []
      ∧ s.value = .unsigned n := by
  obtain ⟨hvalue, hrest⟩ := word_digits h hn hafter
  obtain ⟨d, ds, rfl⟩ := List.exists_cons_of_ne_nil h.ne_nil
  have hd := h.digits d List.mem_cons_self
  have hblank : Text.isAsciiBlank d = false := by
    rw [Bool.eq_false_iff]
    intro hblank
    cases (Text.isBlank_of_isAsciiBlank hblank).symm.trans (not_isBlank_of_isDigit hd)
  obtain ⟨_, hnext⟩ := Reading.takes_next? d (ds ++ after) hbefore hblank
  -- The first digit begins neither a flag nor a quoted text, a sequence or a table.
  have hne : d ≠ 't' ∧ d ≠ 'f' ∧ d ≠ '\x7b' ∧ d ≠ '[' ∧ d ≠ '"' ∧ d ≠ '\x27' := by
    refine ⟨?_, ?_, ?_, ?_, ?_, ?_⟩
    all_goals exact ne_of_isDigit hd (by decide)
  have hwords : ['t', 'r', 'u', 'e'].isPrefixOf (d :: (ds ++ after)) = false
      ∧ ['f', 'a', 'l', 's', 'e'].isPrefixOf (d :: (ds ++ after)) = false := by
    simp [List.isPrefixOf, Ne.symm hne.1, Ne.symm hne.2.1]
  rw [List.cons_append] at hvalue hrest
  rw [List.append_assoc, List.cons_append]
  simp only [Value.value?, hnext, hwords.1, hwords.2, hne.2.2.1, hne.2.2.2.1, hne.2.2.2.2.1,
    hne.2.2.2.2.2, Bool.false_eq_true, if_false, Option.map_some]
  refine ⟨_, rfl, ?_, hvalue⟩
  simp only [Scan.dropping, hrest, List.dropWhile_nil]

/-- The word for a flag with blanks around it is read as that flag. -/
theorem value?_flag {before after : List Char} (b : Bool)
    (hbefore : ∀ c ∈ before, Text.isAsciiBlank c = true)
    (hafter : ∀ c ∈ after, Text.isAsciiBlank c = true) :
    ∃ s, Value.value? (before ++ flagWord b ++ after) = some s ∧ s.rest = []
      ∧ s.value = .flag b := by
  have hends : after.dropWhile Text.isAsciiBlank = [] := List.dropWhile_eq_nil_iff.2 hafter
  rw [List.append_assoc]
  cases b with
  | true =>
      obtain ⟨_, hnext⟩ := Reading.takes_next? 't' ('r' :: 'u' :: 'e' :: after) hbefore (by decide)
      have hword : flagWord true ++ after = 't' :: 'r' :: 'u' :: 'e' :: after := rfl
      rw [hword]
      simp only [Value.value?, hnext, List.isPrefixOf, beq_self_eq_true, Bool.and_true, if_true,
        Option.map_some]
      exact ⟨_, rfl, hends, rfl⟩
  | false =>
      obtain ⟨_, hnext⟩ := Reading.takes_next? 'f' ('a' :: 'l' :: 's' :: 'e' :: after) hbefore
        (by decide)
      have hword : flagWord false ++ after = 'f' :: 'a' :: 'l' :: 's' :: 'e' :: after := rfl
      have hother : ('t' == 'f') = false := by decide
      rw [hword]
      simp only [Value.value?, hnext, List.isPrefixOf, hother, beq_self_eq_true, Bool.and_true,
        Bool.false_and, Bool.false_eq_true, if_false, if_true, Option.map_some]
      exact ⟨_, rfl, hends, rfl⟩

/-! ## Texts -/

/-- A text is a word with blanks of the ASCII range around it. -/
def Surrounds (text : String) (word : List Char) : Prop :=
  ∃ before after, text.toList = before ++ word ++ after
    ∧ (∀ b ∈ before, Text.isAsciiBlank b = true) ∧ ∀ b ∈ after, Text.isAsciiBlank b = true

/-- **Digits are read as their number**, also where that is the greatest limit. -/
theorem ofText_digits {text : String} {word : List Char} {n : Nat} (htext : Surrounds text word)
    (h : DigitsOf word n) (hn : n < limitBound) : Value.ofText text = .unsigned n := by
  obtain ⟨before, after, htext, hbefore, hafter⟩ := htext
  obtain ⟨s, hs, hrest, hvalue⟩ := value?_digits h hn hbefore hafter
  rw [ofText_of_value? htext hs hrest, hvalue]

/-- **The word for a flag is read as that flag.** -/
theorem ofText_flag {text : String} {b : Bool} (htext : Surrounds text (flagWord b)) :
    Value.ofText text = .flag b := by
  obtain ⟨before, after, htext, hbefore, hafter⟩ := htext
  obtain ⟨s, hs, hrest, hvalue⟩ := value?_flag b hbefore hafter
  rw [ofText_of_value? htext hs hrest, hvalue]

end Config

end InfixCalc
