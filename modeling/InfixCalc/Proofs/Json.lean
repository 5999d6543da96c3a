import Mathlib
import InfixCalc.Json.Printer
import InfixCalc.Json.Reader
import InfixCalc.Proofs.Rounding

/-!
# JSON texts, read back

The text of a JSON value is read as that value, but for the spelling of its numbers, whatever may
follow it inside a longer text: the end, a comma or a closer. Of two fields of one name only one is
read, so the names of the fields of an object have to differ.

Main statements: a character inside quotes is read back from its escaped form (`char?_escaped`), a
number from its text (`number?_text`), a value from its text in front of another one
(`value?_textOnto`), so that the whole text of a value is read as that value (`ofText?_text`).
-/

namespace InfixCalc

/-! ## What a reader takes -/

namespace Reading

variable {α : Type} {text rest : List Char}

/-- A reader takes a value from the front of a text, and leaves a rest. -/
def Takes (found : Option (Reading α text)) (value : α) (rest : List Char) : Prop :=
  ∃ shorter, found = some ⟨value, rest, shorter⟩

/-- What is read from the first character leaves the others. -/
theorem takes_first (value : α) (c : Char) (rest : List Char) :
    Takes (some (first value c rest)) value rest :=
  ⟨_, rfl⟩

/-- The same is taken behind one more character. -/
theorem Takes.behind {found : Option (Reading α text)} {value : α} (h : Takes found value rest)
    (c : Char) : Takes (found.map (·.behind c)) value rest := by
  obtain ⟨_, rfl⟩ := h
  exact ⟨_, rfl⟩

/-- The next character that is not blank is the first one, if that is not blank. -/
theorem next?_cons {isBlank : Char → Bool} {c : Char} (h : isBlank c = false)
    (rest : List Char) : next? isBlank (c :: rest) = some (first c c rest) := by
  rw [next?, if_neg (by simp [h])]

end Reading

namespace Json

open Reading Decimal

variable {tail : List Char}

/-! ## Strings -/

/-- The two digits that a control character is written with give its number. -/
theorem ofHex?_hexDigit {n : Nat} (h : n < 32) :
    Text.ofHex? ['0', '0', Text.hexDigit (n / 16), Text.hexDigit n] = some n := by
  have hall : ∀ n < 32, Text.ofHex? ['0', '0', Text.hexDigit (n / 16), Text.hexDigit n]
      = some n := by decide
  exact hall n h

/-- A character is found by its number. -/
theorem charOfNat?_toNat (c : Char) : Text.charOfNat? c.toNat = some c := by
  have hvalid : c.toNat.isValidChar := c.valid
  rw [Text.charOfNat?, if_pos hvalid, Char.ofNat_toNat]

/-- A control character is read from its number. -/
theorem codePoint?_hexDigit {c : Char} (h : c.toNat < 32) (tail : List Char) :
    Takes (codePoint? ('0' :: '0' :: Text.hexDigit (c.toNat / 16) :: Text.hexDigit c.toNat :: tail))
      c tail := by
  have hsurrogate : ¬ (0xD800 ≤ c.toNat ∧ c.toNat < 0xDC00) := by omega
  simp only [codePoint?, unit?, ofHex?_hexDigit h, Option.map_some, behind_value, first,
    if_neg hsurrogate, charOfNat?_toNat]
  exact ⟨_, rfl⟩

/-- Inside quotes a character is a letter behind a backslash, a number behind a backslash, or
itself. -/
theorem escaped_cases (c : Char) :
    (∃ letter, letter ≠ 'u' ∧ namedEscape? letter = some c ∧ escaped c = ['\\', letter])
      ∨ (c.toNat < 32 ∧ escaped c
        = ['\\', 'u', '0', '0', Text.hexDigit (c.toNat / 16), Text.hexDigit c.toNat])
      ∨ (c ≠ '"' ∧ c ≠ '\\' ∧ 32 ≤ c.toNat ∧ escaped c = [c]) := by
  unfold escaped
  split
  · next h => exact .inl ⟨'"', by decide, by rw [h]; rfl, rfl⟩
  split
  · next h => exact .inl ⟨'\\', by decide, by rw [h]; rfl, rfl⟩
  split
  · next h => exact .inl ⟨'n', by decide, by rw [h]; rfl, rfl⟩
  split
  · next h => exact .inl ⟨'r', by decide, by rw [h]; rfl, rfl⟩
  split
  · next h => exact .inl ⟨'t', by decide, by rw [h]; rfl, rfl⟩
  split
  · next h => exact .inr (.inl ⟨h, rfl⟩)
  · next hquote hbackslash _ _ _ hcontrol =>
    exact .inr (.inr ⟨hquote, hbackslash, Nat.le_of_not_lt hcontrol, rfl⟩)

/-- **A character inside quotes is read from its escaped form.** -/
theorem char?_escaped (c : Char) (tail : List Char) :
    Takes (char? (escaped c ++ tail)) c tail := by
  rcases escaped_cases c with ⟨letter, hletter, hnamed, h⟩ | ⟨hcontrol, h⟩ | ⟨-, hne, hplain, h⟩
  · rw [h]
    simp only [List.cons_append, List.nil_append, char?, escape?, if_pos, if_neg hletter, hnamed,
      Option.map_some]
    exact ⟨_, rfl⟩
  · rw [h]
    exact ((codePoint?_hexDigit hcontrol tail).behind 'u').behind '\\'
  · rw [h, List.singleton_append, char?, if_neg hne, if_neg (Nat.not_lt_of_le hplain)]
    exact takes_first c c tail

/-- No character is written with a quote in front. -/
theorem head?_escaped (c : Char) (tail : List Char) :
    ∃ d rest, escaped c ++ tail = d :: rest ∧ d ≠ '"' := by
  rcases escaped_cases c with ⟨letter, -, -, h⟩ | ⟨-, h⟩ | ⟨hne, -, -, h⟩
  · exact ⟨_, _, by rw [h]; rfl, by decide⟩
  · exact ⟨_, _, by rw [h]; rfl, by decide⟩
  · exact ⟨_, _, by rw [h]; rfl, hne⟩

/-- A string goes on with a character that is not the quote at its end. -/
theorem takes_string?_cons {text : List Char} {c d : Char} {rest more s : List Char}
    (htext : text = d :: rest) (hd : d ≠ '"') (hc : Takes (char? text) c more)
    (hs : Takes (string? more) s tail) : Takes (string? text) (c :: s) tail := by
  obtain ⟨_, hr⟩ := hc
  obtain ⟨_, hr'⟩ := hs
  have hquote : ∀ rest, text ≠ '"' :: rest := by
    rintro rest' rfl
    exact hd (List.cons.inj htext).1.symm
  simp only [string?.eq_2 text hquote, hr, hr', Option.map_some]
  exact ⟨_, rfl⟩

/-- The rest of a string is read from its escaped characters. -/
theorem string?_escaped (s tail : List Char) :
    Takes (string? (s.foldr (fun c text => escaped c ++ text) ('"' :: tail))) s tail := by
  induction s with
  | nil =>
      rw [List.foldr_nil, string?]
      exact takes_first [] '"' tail
  | cons c s ih =>
      obtain ⟨d, rest, hd, hquote⟩ := head?_escaped c
        (s.foldr (fun c text => escaped c ++ text) ('"' :: tail))
      exact takes_string?_cons hd hquote (char?_escaped c _) ih

/-! ## Numbers -/

/-- What stands behind a value inside a text: nothing, a comma or a closer. -/
def EndsValue (tail : List Char) : Prop :=
  ∀ c, tail.head? = some c → c = ',' ∨ c = ']' ∨ c = '\x7d'

/-- At the end of a text stands nothing. -/
theorem endsValue_nil : EndsValue [] := by
  rintro c ⟨⟩

/-- Behind a value stands no character of a class without commas and closers. -/
theorem EndsValue.startsOutside {p : Char → Bool} (h : EndsValue tail)
    (hp : p ',' = false ∧ p ']' = false ∧ p '\x7d' = false) : StartsOutside p tail := by
  intro c hc
  rcases h c hc with rfl | rfl | rfl
  · exact hp.1
  · exact hp.2.1
  · exact hp.2.2

/-- Behind a value nothing continues a literal. -/
theorem EndsValue.endsBefore (h : EndsValue tail) (p : Literal.Parts) : p.EndsBefore tail := by
  refine ⟨h.startsOutside (by decide), fun _ => ?_⟩
  rintro rest rfl
  have hpoint : ¬ ('.' = ',' ∨ '.' = ']' ∨ '.' = '\x7d') := by decide
  exact absurd (h '.' rfl) hpoint

/-- Behind a value stands no exponent. -/
theorem EndsValue.takeExponent (h : EndsValue tail) : takeExponent tail = none := by
  unfold Decimal.takeExponent
  split
  · rfl
  · next c rest =>
    have hc : ¬ (c = 'e' ∨ c = 'E') := by
      rcases h c rfl with rfl | rfl | rfl <;> decide
    rw [if_neg hc]

/-- The digits of a whole number do not start with a zero, unless that is all of them. -/
theorem eq_zero_of_head?_digits {n : Nat} (h : (digits n).head? = some '0') : n = 0 := by
  induction n using Nat.strongRecOn with
  | ind n ih =>
      by_cases hlt : n < 10
      · rw [digits, Nat.toDigits_of_lt_base hlt, List.head?_cons, Option.some.injEq] at h
        interval_cases n
        all_goals first
          | rfl
          | exact absurd h (by decide)
      · have hle : 10 ≤ n := Nat.le_of_not_lt hlt
        rw [digits, Nat.toDigits_of_base_le (by decide) hle,
          List.head?_append_of_ne_nil _ Nat.toDigits_ne_nil] at h
        have := ih (n / 10) (by omega) h
        omega

/-- No zero stands in front of other digits. -/
def NoZeros (whole : List Char) : Prop := whole.head? = some '0' → whole = ['0']

/-- The parts of a number without a sign. -/
structure Plain (p : Literal.Parts) : Prop extends p.WellFormed where
  unsigned : p.signs = 0
  noZeros : NoZeros p.whole

/-- **A number is read as its digits say:** with an exponent behind them or a point among them as a
decimal, and otherwise as a whole number. -/
theorem number?_signed (negative : Bool) {p : Literal.Parts} (hp : Plain p)
    (hend : p.EndsBefore tail) :
    number? (signed negative (p.text ++ tail))
      = match takeExponent tail with
        | some (exponent, rest) =>
          some (.decimal ⟨negative, ofDigits (p.whole ++ p.fraction),
            exponent - p.fraction.length⟩, rest)
        | none =>
          if p.fraction ≠ [] then
            some (.decimal ⟨negative, ofDigits (p.whole ++ p.fraction), -p.fraction.length⟩, tail)
          else if ¬ negative then some (.whole (ofDigits p.whole), tail)
          else if ofDigits p.whole = 0 then some (.decimal ⟨true, 0, 0⟩, tail)
          else some (.whole (-(ofDigits p.whole : Int)), tail) := by
  obtain ⟨signs, whole, fraction⟩ := p
  obtain ⟨⟨hne, hdigits, hfraction⟩, hunsigned, hzeros⟩ := hp
  obtain ⟨hdigit, hnone⟩ := hend
  obtain rfl : signs = 0 := hunsigned
  dsimp only at *
  -- Behind the digits stands a fraction, or what follows the number; neither starts with a digit.
  have hbehind : ∃ behind, (if fraction = [] then [] else '.' :: fraction) ++ tail = behind
      ∧ takeFraction behind = (fraction, tail) ∧ StartsOutside isDigit behind := by
    by_cases hf : fraction = []
    · subst hf
      exact ⟨tail, by simp, takeFraction_eq_nil (hnone rfl), hdigit⟩
    · refine ⟨'.' :: fraction ++ tail, by rw [if_neg hf],
        takeFraction_append hf hfraction hdigit, ?_⟩
      rw [List.cons_append, startsOutside_cons, Literal.isDigit_point]
  obtain ⟨behind, htext, htake, hstart⟩ := hbehind
  have hminus : (whole ++ behind).head? ≠ some '-' := by
    rw [List.head?_append_of_ne_nil _ hne]
    intro h
    exact absurd (hdigits '-' (List.mem_of_head? h)) (by decide)
  have hzero : ¬ (whole = [] ∨ (whole.head? = some '0' ∧ whole ≠ ['0'])) := by
    rintro (h | ⟨h, hne'⟩)
    · exact hne h
    · exact hne' (hzeros h)
  have hwhole := takeWhile_append_eq hdigits hstart
  have hrest := dropWhile_append_eq hdigits hstart
  rcases hexponent : takeExponent tail with _ | ⟨exponent, rest⟩
  all_goals cases negative
  all_goals
    simp only [number?, signed, Literal.Parts.text, List.replicate_zero, List.nil_append,
      List.append_assoc, htext, Bool.false_eq_true, ↓reduceIte, List.head?_cons, List.tail_cons,
      hminus, hwhole, hrest, htake, hzero, hexponent]
    by_cases hf : fraction = [] <;> simp [hf]

/-- The text of a whole number is its digits, with its sign. -/
theorem wholeText_append (n : Int) (tail : List Char) :
    wholeText n ++ tail = signed (decide (n < 0)) (digits n.natAbs ++ tail) := by
  unfold wholeText signed
  split <;> simp [*]

/-- An exponent is read with its sign. -/
theorem takeExponent_wholeText (n : Int) (hdigit : StartsOutside isDigit tail) :
    takeExponent ('e' :: (wholeText n ++ tail)) = some (n, tail) := by
  have hdigits : ∀ c ∈ digits n.natAbs, isDigit c = true := fun c => isDigit_of_mem_digits
  have hne : digits n.natAbs ≠ [] := Nat.toDigits_ne_nil
  have hwhole := takeWhile_append_eq hdigits hdigit
  have hrest := dropWhile_append_eq hdigits hdigit
  have hsign : ∀ c, isDigit c = false → (digits n.natAbs ++ tail).head? ≠ some c := by
    intro c hc h
    rw [List.head?_append_of_ne_nil _ hne] at h
    cases hc.symm.trans (hdigits c (List.mem_of_head? h))
  have hminus := hsign '-' (by decide)
  have hplus := hsign '+' (by decide)
  rw [wholeText_append]
  by_cases hn : n < 0
  · have hvalue : -(n.natAbs : Int) = n := by omega
    simp only [takeExponent, signed, hn, decide_true, ↓reduceIte, List.head?_cons, true_or,
      List.tail_cons, hwhole, hrest, hne, ofDigits_digits, hvalue]
  · have hvalue : (n.natAbs : Int) = n := by omega
    simp only [takeExponent, signed, hn, decide_false, Bool.false_eq_true, ↓reduceIte, true_or,
      hminus, hplus, or_self, hwhole, hrest, hne, ofDigits_digits, hvalue]

/-! ## Decimals -/

/-- The literal at the front of the text of a decimal without its sign, and the exponent behind it.
-/
def partsOf (d : Decimal) : Literal.Parts × Option Int :=
  let ds := digits d.significand
  let place := ds.length + d.exponent
  let positional := { d with negative := false }
  if d.significand = 0 then (⟨0, ['0'], ['0']⟩, none)
  else if place ≤ -5 ∨ 16 < place then (⟨0, ds.take 1, ds.drop 1⟩, some (place - 1))
  else if d.exponent < 0 then (literal positional, none)
  else ({ literal positional with fraction := ['0'] }, none)

/-- The text of an exponent. -/
def exponentText : Option Int → List Char
  | none => []
  | some n => 'e' :: wholeText n

/-- What the text of a decimal is read as. -/
def respelled (d : Decimal) : Decimal :=
  let p := (partsOf d).1
  ⟨d.negative, ofDigits (p.whole ++ p.fraction), (partsOf d).2.getD 0 - p.fraction.length⟩

/-- The literal of a decimal without a sign has no sign. -/
theorem signs_literal (significand : Nat) (exponent : Int) :
    (literal ⟨false, significand, exponent⟩).signs = 0 := by
  cases exponent <;> rfl

/-- The text of a decimal without its sign is that of its literal. -/
theorem text_literal_unsigned (d : Decimal) :
    (literal { d with negative := false }).text = d.magnitudeText := by
  rw [text_literal]
  rfl

/-- A decimal is written as its parts. -/
theorem decimalText_eq (d : Decimal) :
    decimalText d = (partsOf d).1.text ++ exponentText (partsOf d).2 := by
  unfold decimalText partsOf
  dsimp only
  split_ifs with hzero hplace hpoint
  · rfl
  · simp [scientificText, exponentText, Literal.Parts.text]
  · rw [text_literal_unsigned, exponentText, List.append_nil]
  · -- Without places behind the point the literal has no fraction.
    have hfraction : (literal { d with negative := false }).fraction = [] := by
      obtain ⟨negative, significand, exponent⟩ := d
      cases exponent with
      | ofNat zeros => rfl
      | negSucc places => exact absurd (Int.negSucc_lt_zero places) hpoint
    rw [← text_literal_unsigned]
    simp [Literal.Parts.text, hfraction, exponentText]

/-- A list that begins with a zero is that zero, if it has no other element. -/
theorem noZeros_of_length {whole : List Char} (h : whole.length = 1) : NoZeros whole := by
  obtain ⟨c, rfl⟩ := List.length_eq_one_iff.1 h
  intro hc
  rw [Option.some.inj hc]

/-- The literal of a decimal has no zeros in front of its digits. -/
theorem noZeros_literal {d : Decimal} (h : d.significand ≠ 0) : NoZeros d.literal.whole := by
  obtain ⟨negative, significand, exponent⟩ := d
  have hne : digits significand ≠ [] := Nat.toDigits_ne_nil
  have hhead : (digits significand).head? ≠ some '0' := fun hc => h (eq_zero_of_head?_digits hc)
  cases exponent with
  | ofNat zeros =>
      intro hc
      rw [literal, List.head?_append_of_ne_nil _ hne] at hc
      exact absurd hc hhead
  | negSucc places =>
      simp only [literal]
      by_cases hlength : (digits significand).length ≤ places + 1
      · -- Zeros are put in front, so that one digit stands before the point.
        refine noZeros_of_length ?_
        simp only [padded, List.length_take, List.length_append, List.length_replicate]
        omega
      · have hpadded : padded (places + 1) (digits significand) = digits significand := by
          have hnone : places + 1 + 1 - (digits significand).length = 0 := by omega
          rw [padded, hnone, List.replicate_zero, List.nil_append]
        intro hc
        rw [hpadded, List.head?_take, if_neg (by omega)] at hc
        exact absurd hc hhead

/-- The parts of a decimal are those of a number without a sign. -/
theorem plain_partsOf (d : Decimal) : Plain (partsOf d).1 := by
  have hdigit : ∀ c ∈ ['0'], isDigit c = true := List.forall_mem_singleton.2 (by decide)
  unfold partsOf
  dsimp only
  split_ifs with hzero hplace hpoint
  · exact ⟨⟨by simp, hdigit, hdigit⟩, rfl, fun _ => rfl⟩
  · have hpos : 0 < (digits d.significand).length := List.length_pos_iff.2 Nat.toDigits_ne_nil
    have hone : ((digits d.significand).take 1).length = 1 := by
      rw [List.length_take]
      omega
    refine ⟨⟨?_, ?_, ?_⟩, rfl, noZeros_of_length hone⟩
    · exact List.ne_nil_of_length_pos (Nat.lt_of_lt_of_eq Nat.one_pos hone.symm)
    · exact fun c hc => isDigit_of_mem_digits (List.mem_of_mem_take hc)
    · exact fun c hc => isDigit_of_mem_digits (List.mem_of_mem_drop hc)
  · exact ⟨wellFormed_literal _, signs_literal _ _, noZeros_literal hzero⟩
  · obtain ⟨hne, hwhole, -⟩ := wellFormed_literal { d with negative := false }
    exact ⟨⟨hne, hwhole, hdigit⟩, signs_literal _ _, noZeros_literal hzero⟩

/-- A decimal with places behind its point has a fraction. -/
theorem fraction_literal_ne_nil {d : Decimal} (h : d.exponent < 0) : d.literal.fraction ≠ [] := by
  obtain ⟨negative, significand, exponent⟩ := d
  cases exponent with
  | ofNat zeros => exact absurd h (by simp)
  | negSucc places =>
      have hlt := lt_length_padded (places + 1) (digits significand)
      simp only [literal, ne_eq, List.drop_eq_nil_iff]
      omega

/-- A decimal without an exponent in its text has a fraction there. -/
theorem fraction_partsOf_ne_nil {d : Decimal} (h : (partsOf d).2 = none) :
    (partsOf d).1.fraction ≠ [] := by
  unfold partsOf at *
  dsimp only at *
  split_ifs at * with hzero hplace hpoint
  · simp
  · exact fraction_literal_ne_nil hpoint
  · simp

/-- **A decimal keeps its magnitude** in its text. -/
theorem magnitude_respelled (d : Decimal) : (respelled d).magnitude = d.magnitude := by
  have hlength : 0 < (digits d.significand).length := List.length_pos_iff.2 Nat.toDigits_ne_nil
  unfold respelled partsOf
  dsimp only
  split_ifs with hzero hplace hpoint
  · have hnone : ofDigits (['0'] ++ ['0']) = 0 := by decide
    simp only [magnitude, hzero, hnone, Nat.cast_zero, zero_mul]
  · have hexponent : ((digits d.significand).length + d.exponent - 1
        - ((digits d.significand).drop 1).length : Int) = d.exponent := by
      rw [List.length_drop]
      omega
    simp only [Option.getD_some, List.take_append_drop, ofDigits_digits, hexponent, magnitude]
  · obtain ⟨negative, significand, exponent⟩ := d
    cases exponent with
    | ofNat zeros => exact absurd hpoint (by simp)
    | negSucc places =>
        have hdecimal := decimal_literal_negSucc false significand places
        simp only [Literal.Parts.decimal, Decimal.mk.injEq] at hdecimal
        simp only [Option.getD_none, zero_sub, hdecimal, magnitude]
  · obtain ⟨negative, significand, exponent⟩ := d
    cases exponent with
    | negSucc places => exact absurd (Int.negSucc_lt_zero places) hpoint
    | ofNat zeros =>
        have hdigits : ofDigits (digits significand ++ List.replicate zeros '0' ++ ['0'])
            = significand * powerOfTen zeros * 10 := by
          have hlast : ofDigits ['0'] = 0 := by decide
          have hten : powerOfTen 1 = 10 := by decide
          rw [ofDigits_append, ofDigits_append, ofDigits_zeros, ofDigits_digits,
            List.length_replicate, List.length_singleton, hlast, hten]
          ring
        simp only [literal, hdigits, Option.getD_none, magnitude, List.length_singleton]
        push_cast [cast_powerOfTen]
        norm_num
        ring

/-! ## Texts of numbers -/

/-- What the text of a number is read as. -/
def Number.respelled : Number → Number
  | whole n => whole n
  | decimal d => decimal (Json.respelled d)

/-- The text of a whole number is that of its digits. -/
theorem plain_digits (n : Nat) : Plain ⟨0, digits n, []⟩ := by
  refine ⟨⟨Nat.toDigits_ne_nil, fun c hc => isDigit_of_mem_digits hc, by simp⟩, rfl, fun hc => ?_⟩
  rw [eq_zero_of_head?_digits hc]
  rfl

/-- **A number is read from its text.** -/
theorem number?_text (n : Number) (h : EndsValue tail) :
    number? (n.text ++ tail) = some (n.respelled, tail) := by
  cases n with
  | whole n =>
      have hread := number?_signed (decide (n < 0)) (plain_digits n.natAbs) (h.endsBefore _)
      have htext : (⟨0, digits n.natAbs, []⟩ : Literal.Parts).text = digits n.natAbs := by
        simp [Literal.Parts.text]
      rw [htext, ← wholeText_append, h.takeExponent] at hread
      rw [Number.text, hread]
      by_cases hn : n < 0
      · have hvalue : -(n.natAbs : Int) = n := by omega
        have hne : n.natAbs ≠ 0 := by omega
        simp only [hn, decide_true, ofDigits_digits, ne_eq, not_true_eq_false, if_false, hne,
          hvalue, Number.respelled]
      · have hvalue : (n.natAbs : Int) = n := by omega
        simp only [hn, decide_false, ofDigits_digits, ne_eq, not_true_eq_false, if_false,
          Bool.false_eq_true, not_false_eq_true, if_true, hvalue, Number.respelled]
  | decimal d =>
      have htext : (Number.decimal d).text ++ tail
          = signed d.negative ((partsOf d).1.text ++ (exponentText (partsOf d).2 ++ tail)) := by
        rw [Number.text, decimalText_eq, signed, signed]
        split <;> simp
      have hplain := plain_partsOf d
      rw [htext, Number.respelled, Json.respelled]
      cases hexponent : (partsOf d).2 with
      | none =>
          rw [exponentText, List.nil_append, number?_signed _ hplain (h.endsBefore _),
            h.takeExponent]
          simp only [if_pos (fraction_partsOf_ne_nil hexponent), Option.getD_none, zero_sub]
      | some n =>
          have hend : (partsOf d).1.EndsBefore ('e' :: (wholeText n ++ tail)) := by
            refine ⟨startsOutside_cons.2 (by decide), fun _ => ?_⟩
            rintro rest ⟨⟩
          have hdigit : StartsOutside isDigit tail := h.startsOutside (by decide)
          rw [exponentText, List.cons_append, number?_signed _ hplain hend,
            takeExponent_wholeText _ hdigit]
          simp only [Option.getD_some]

/-- A finite number is rounded as its text is. -/
theorem Number.nearest_respelled {n : Number} (h : n.toDecimal.nearest.isFinite = true) :
    n.respelled.toDecimal.nearest = n.toDecimal.nearest := by
  cases n with
  | whole n => rfl
  | decimal d =>
      have hrespelled : d.nearest = (Json.respelled d).nearest :=
        nearest_eq_of_magnitude rfl (magnitude_respelled d).symm h
      exact hrespelled.symm

/-! ## Words and numbers as values -/

/-- A number is a value. -/
theorem takes_scalar?_number {text : List Char} {n : Number} (h : number? text = some (n, tail))
    (hshorter : tail.length < text.length) : Takes (scalar? text) (number n) tail :=
  ⟨hshorter, by simp [scalar?, h, hshorter]⟩

/-- A word is a value, where no number stands. -/
theorem takes_scalar?_word {text : List Char} {j : Json} (hnumber : number? text = none)
    (hword : (word? ['n', 'u', 'l', 'l'] null text).or
      ((word? ['t', 'r', 'u', 'e'] (bool true) text).or
        (word? ['f', 'a', 'l', 's', 'e'] (bool false) text)) = some (j, tail))
    (hshorter : tail.length < text.length) : Takes (scalar? text) j tail :=
  ⟨hshorter, by simp [scalar?, hnumber, hword, hshorter]⟩

/-! ## How a value opens -/

/-- A value that opens with neither a bracket, a brace nor a quote is a number or a word. -/
theorem takes_value?_scalar {c : Char} {text : List Char} {j : Json} (hblank : isBlank c = false)
    (hc : c ≠ '[' ∧ c ≠ '\x7b' ∧ c ≠ '"') (h : Takes (scalar? (c :: text)) j tail) :
    Takes (value? (c :: text)) j tail := by
  obtain ⟨_, hr⟩ := h
  simp only [value?, next?_cons hblank, first, if_neg hc.1, if_neg hc.2.1, if_neg hc.2.2, hr,
    Option.map_some]
  exact ⟨_, rfl⟩

/-- A quote opens a string. -/
theorem takes_value?_string {text s : List Char} (h : Takes (string? text) s tail) :
    Takes (value? ('"' :: text)) (string (String.ofList s)) tail := by
  obtain ⟨_, hr⟩ := h
  have hbrackets : '"' ≠ '[' ∧ '"' ≠ '\x7b' := by decide
  simp only [value?, next?_cons (rfl : isBlank '"' = false), first, if_neg hbrackets.1,
    if_neg hbrackets.2, if_pos, hr, Option.map_some]
  exact ⟨_, rfl⟩

/-- A bracket that is closed at once is an empty array. -/
theorem takes_value?_array_nil (tail : List Char) :
    Takes (value? ('[' :: ']' :: tail)) (array []) tail := by
  simp only [value?, next?_cons (rfl : isBlank '[' = false), next?_cons (rfl : isBlank ']' = false),
    first, if_pos]
  exact ⟨_, rfl⟩

/-- A bracket in front of something else opens an array of elements. -/
theorem takes_value?_array {c : Char} {text : List Char} {elements : List Json}
    (hblank : isBlank c = false) (hc : c ≠ ']') (h : Takes (elements? (c :: text)) elements tail) :
    Takes (value? ('[' :: c :: text)) (array elements) tail := by
  obtain ⟨_, hr⟩ := h
  simp only [value?, next?_cons (rfl : isBlank '[' = false), next?_cons hblank, first, if_pos,
    if_neg hc, hr, Option.map_some]
  exact ⟨_, rfl⟩

/-- A brace that is closed at once is an empty object. -/
theorem takes_value?_object_nil (tail : List Char) :
    Takes (value? ('\x7b' :: '\x7d' :: tail)) (object []) tail := by
  have hbracket : '\x7b' ≠ '[' := by decide
  simp only [value?, next?_cons (rfl : isBlank '\x7b' = false),
    next?_cons (rfl : isBlank '\x7d' = false), first, if_neg hbracket, if_pos]
  exact ⟨_, rfl⟩

/-- A brace in front of a quote opens an object with fields. -/
theorem takes_value?_object {text : List Char} {fields : List (String × Json)}
    (h : Takes (fields? ('"' :: text)) fields tail) :
    Takes (value? ('\x7b' :: '"' :: text)) (object fields) tail := by
  obtain ⟨_, hr⟩ := h
  have hbracket : '\x7b' ≠ '[' := by decide
  have hbrace : '"' ≠ '\x7d' := by decide
  simp only [value?, next?_cons (rfl : isBlank '\x7b' = false),
    next?_cons (rfl : isBlank '"' = false), first, if_neg hbracket, if_pos, if_neg hbrace, hr,
    Option.map_some]
  exact ⟨_, rfl⟩

/-- Signed digits open with the sign or with a digit. -/
theorem signed_cons (negative : Bool) {text : List Char} (hne : text ≠ [])
    (htext : ∀ c, text.head? = some c → isDigit c = true) (tail : List Char) :
    ∃ c rest, signed negative text ++ tail = c :: rest ∧ (c = '-' ∨ isDigit c = true) := by
  obtain ⟨d, ds, rfl⟩ := List.exists_cons_of_ne_nil hne
  cases negative with
  | false => exact ⟨d, ds ++ tail, rfl, .inr (htext d rfl)⟩
  | true => exact ⟨'-', _, rfl, .inl rfl⟩

/-- A number opens with a sign or with a digit. -/
theorem Number.text_cons (n : Number) (tail : List Char) :
    ∃ c rest, n.text ++ tail = c :: rest ∧ (c = '-' ∨ isDigit c = true) := by
  cases n with
  | whole n =>
      have hwhole := wholeText_append n []
      rw [List.append_nil, List.append_nil] at hwhole
      rw [Number.text, hwhole]
      exact signed_cons _ Nat.toDigits_ne_nil
        (fun c hc => isDigit_of_mem_digits (List.mem_of_head? hc)) tail
  | decimal d =>
      obtain ⟨⟨hne, hdigits, -⟩, hunsigned, -⟩ := plain_partsOf d
      have htext : (partsOf d).1.text ++ exponentText (partsOf d).2
          = (partsOf d).1.whole ++ ((if (partsOf d).1.fraction = [] then []
            else '.' :: (partsOf d).1.fraction) ++ exponentText (partsOf d).2) := by
        rw [Literal.Parts.text, hunsigned, List.replicate_zero, List.nil_append, List.append_assoc]
      rw [Number.text, decimalText_eq, htext]
      refine signed_cons _ (List.append_ne_nil_of_left_ne_nil hne _) (fun c hc => ?_) tail
      rw [List.head?_append_of_ne_nil _ hne] at hc
      exact hdigits c (List.mem_of_head? hc)

/-- A sign or a digit is no blank and opens no string, no array and no object; nor does it close
one. -/
theorem not_isBlank_of_digit {c : Char} (h : c = '-' ∨ isDigit c = true) :
    isBlank c = false ∧ (c ≠ '[' ∧ c ≠ '\x7b' ∧ c ≠ '"') ∧ c ≠ ']' := by
  rcases h with rfl | h
  · decide
  · refine ⟨?_, ⟨?_, ?_, ?_⟩, ?_⟩
    · rw [Bool.eq_false_iff]
      intro hblank
      simp only [isBlank, Bool.or_eq_true, decide_eq_true_eq] at hblank
      rcases hblank with ((rfl | rfl) | rfl) | rfl
      all_goals exact absurd h (by decide)
    all_goals
      rintro rfl
      exact absurd h (by decide)

/-- A number is read as a value from its text. -/
theorem value?_number (n : Number) (h : EndsValue tail) :
    Takes (value? (n.text ++ tail)) (number n.respelled) tail := by
  have hread := number?_text n h
  obtain ⟨c, rest, htext, hc⟩ := n.text_cons tail
  have hshorter : tail.length < (n.text ++ tail).length := by
    obtain ⟨c', rest', htext', -⟩ := n.text_cons []
    rw [List.append_nil] at htext'
    rw [htext', List.length_append, List.length_cons]
    omega
  rw [htext] at hread hshorter ⊢
  obtain ⟨hblank, hopens, -⟩ := not_isBlank_of_digit hc
  exact takes_value?_scalar hblank hopens (takes_scalar?_number hread hshorter)

/-- The text of a value opens with no blank and with no bracket that closes. -/
theorem textOnto_cons (j : Json) (tail : List Char) :
    ∃ c rest, j.textOnto tail = c :: rest ∧ isBlank c = false ∧ c ≠ ']' := by
  cases j with
  | null => exact ⟨_, _, by rw [textOnto], rfl, by decide⟩
  | bool b => cases b <;> exact ⟨_, _, by rw [textOnto], rfl, by decide⟩
  | number n =>
      obtain ⟨c, rest, htext, hc⟩ := n.text_cons tail
      obtain ⟨hblank, -, hclose⟩ := not_isBlank_of_digit hc
      exact ⟨c, rest, by rw [textOnto, htext], hblank, hclose⟩
  | string s => exact ⟨_, _, by rw [textOnto, quotedOnto], rfl, by decide⟩
  | array elements => exact ⟨_, _, by rw [textOnto], rfl, by decide⟩
  | object fields => exact ⟨_, _, by rw [textOnto], rfl, by decide⟩

/-! ## Arrays -/

/-- A value as its text is read. -/
def respelling (j : Json) : Json := j.map Number.respelled

/-- What is read from its text in front of whatever may follow it, but for the spelling of numbers.
-/
def ReadsBack (j : Json) : Prop :=
  ∀ tail, EndsValue tail → Takes (value? (j.textOnto tail)) j.respelling tail

/-- A comma or a closer ends a value. -/
theorem endsValue_cons {c : Char} (h : c = ',' ∨ c = ']' ∨ c = '\x7d') (rest : List Char) :
    EndsValue (c :: rest) := by
  rintro c' hc'
  obtain rfl : c = c' := by simpa using hc'
  exact h

/-- A bracket behind an element ends the array. -/
theorem takes_elements?_last {text : List Char} {element : Json}
    (h : Takes (value? text) element (']' :: tail)) : Takes (elements? text) [element] tail := by
  obtain ⟨_, hr⟩ := h
  rw [elements?]
  simp only [hr, next?_cons (rfl : isBlank ']' = false), first, if_pos]
  exact ⟨_, rfl⟩

/-- Behind a comma stand further elements. -/
theorem takes_elements?_cons {text more : List Char} {element : Json} {elements : List Json}
    (h : Takes (value? text) element (',' :: more)) (hmore : Takes (elements? more) elements tail) :
    Takes (elements? text) (element :: elements) tail := by
  obtain ⟨_, hr⟩ := h
  obtain ⟨_, hr'⟩ := hmore
  have hcomma : ',' ≠ ']' := by decide
  rw [elements?]
  simp only [hr, next?_cons (rfl : isBlank ',' = false), first, if_pos, if_neg hcomma, hr',
    Option.map_some]
  exact ⟨_, rfl⟩

/-- The elements of an array are read from their texts. -/
theorem elements?_elementsOnto {element : Json} {elements : List Json}
    (helement : element.ReadsBack) (helements : ∀ e ∈ elements, e.ReadsBack) (tail : List Char) :
    Takes (elements? (element.textOnto (elementsOnto false elements (']' :: tail))))
      (element.respelling :: elements.map respelling) tail := by
  induction elements generalizing element with
  | nil =>
      rw [elementsOnto]
      exact takes_elements?_last (helement _ (endsValue_cons (by simp) tail))
  | cons next elements ih =>
      rw [List.forall_mem_cons] at helements
      rw [elementsOnto]
      exact takes_elements?_cons (helement _ (endsValue_cons (by simp) _))
        (ih helements.1 helements.2)

/-- An array of elements that read back reads back. -/
theorem readsBack_array {elements : List Json} (h : ∀ e ∈ elements, e.ReadsBack) :
    (array elements).ReadsBack := by
  intro tail _
  rw [respelling, map_array]
  cases elements with
  | nil =>
      rw [textOnto, elementsOnto]
      exact takes_value?_array_nil tail
  | cons element elements =>
      rw [List.forall_mem_cons] at h
      have helements := elements?_elementsOnto h.1 h.2 tail
      obtain ⟨c, rest, htext, hblank, hclose⟩ :=
        element.textOnto_cons (elementsOnto false elements (']' :: tail))
      rw [textOnto, elementsOnto, if_pos rfl, List.nil_append]
      rw [htext] at helements ⊢
      exact takes_value?_array hblank hclose helements

/-! ## Objects -/

/-- The name of a field is read from its text, with the colon behind it. -/
theorem key?_quotedOnto (name : String) (tail : List Char) :
    Takes (key? (quotedOnto name.toList (':' :: tail))) name tail := by
  obtain ⟨_, hr⟩ := string?_escaped name.toList (':' :: tail)
  rw [quotedOnto]
  simp only [key?, next?_cons (rfl : isBlank '"' = false), first, if_pos, hr,
    next?_cons (rfl : isBlank ':' = false), String.ofList_toList]
  exact ⟨_, rfl⟩

/-- A brace behind a field ends the object. -/
theorem takes_fields?_last {text more : List Char} {name : String} {j : Json}
    (hname : Takes (key? text) name more) (h : Takes (value? more) j ('\x7d' :: tail)) :
    Takes (fields? text) [(name, j)] tail := by
  obtain ⟨_, hr⟩ := hname
  obtain ⟨_, hr'⟩ := h
  rw [fields?]
  simp only [hr, hr', next?_cons (rfl : isBlank '\x7d' = false), first, if_pos]
  exact ⟨_, rfl⟩

/-- Behind a comma stand further fields, which count unless one of them has the same name. -/
theorem takes_fields?_cons {text more more' : List Char} {name : String} {j : Json}
    {fields : List (String × Json)} (hname : Takes (key? text) name more)
    (h : Takes (value? more) j (',' :: more')) (hmore : Takes (fields? more') fields tail) :
    Takes (fields? text) (addField name j fields) tail := by
  obtain ⟨_, hr⟩ := hname
  obtain ⟨_, hr'⟩ := h
  obtain ⟨_, hr''⟩ := hmore
  have hcomma : ',' ≠ '\x7d' := by decide
  rw [fields?]
  simp only [hr, hr', next?_cons (rfl : isBlank ',' = false), first, if_neg hcomma, if_pos, hr'',
    Option.map_some]
  exact ⟨_, rfl⟩

/-- A field is put in front of others if none of them has its name. -/
theorem addField_of_notMem {name : String} {j : Json} {fields : List (String × Json)}
    (h : name ∉ fields.map Prod.fst) : addField name j fields = (name, j) :: fields := by
  have hnone : field? fields name = none := by
    rw [field?, List.lookup_eq_none_iff]
    intro f hf
    rw [bne_iff_ne]
    rintro rfl
    exact h (List.mem_map_of_mem hf)
  rw [addField, hnone]
  rfl

/-- The fields of an object are read from their texts, if their names differ. -/
theorem fields?_fieldsOnto {field : String × Json} {fields : List (String × Json)}
    (hnames : ((field :: fields).map Prod.fst).Nodup) (hfield : field.2.ReadsBack)
    (hfields : ∀ f ∈ fields, f.2.ReadsBack) (tail : List Char) :
    Takes (fields? (quotedOnto field.1.toList
        (':' :: field.2.textOnto (fieldsOnto false fields ('\x7d' :: tail)))))
      ((field.1, field.2.respelling) :: fields.map fun f => (f.1, f.2.respelling)) tail := by
  induction fields generalizing field with
  | nil =>
      rw [fieldsOnto]
      exact takes_fields?_last (key?_quotedOnto _ _) (hfield _ (endsValue_cons (by simp) tail))
  | cons next fields ih =>
      rw [List.map_cons, List.nodup_cons] at hnames
      rw [List.forall_mem_cons] at hfields
      rw [fieldsOnto]
      have hmore := ih hnames.2 hfields.1 hfields.2
      have hall := takes_fields?_cons (key?_quotedOnto field.1 _)
        (hfield _ (endsValue_cons (by simp) _)) hmore
      have hkeys : ((next :: fields).map fun f => (f.1, f.2.respelling)).map Prod.fst
          = (next :: fields).map Prod.fst := by
        rw [List.map_map]
        rfl
      have hnew : field.1 ∉ ((next :: fields).map fun f => (f.1, f.2.respelling)).map Prod.fst :=
        hkeys ▸ hnames.1
      rw [List.map_cons] at hnew
      rwa [addField_of_notMem hnew] at hall

/-- An object of fields that read back reads back, if the names of the fields differ. -/
theorem readsBack_object {fields : List (String × Json)} (hnames : (fields.map Prod.fst).Nodup)
    (h : ∀ f ∈ fields, f.2.ReadsBack) : (object fields).ReadsBack := by
  intro tail _
  rw [respelling, map_object]
  cases fields with
  | nil =>
      rw [textOnto, fieldsOnto]
      exact takes_value?_object_nil tail
  | cons field fields =>
      rw [List.forall_mem_cons] at h
      rw [textOnto, fieldsOnto, if_pos rfl, List.nil_append]
      exact takes_value?_object (fields?_fieldsOnto hnames h.1 h.2 tail)

/-! ## Values -/

/-- In every object of a value the names of the fields differ. -/
inductive Unambiguous {ν : Type} : Json ν → Prop
  | null : Unambiguous null
  | bool (b : Bool) : Unambiguous (bool b)
  | number (n : ν) : Unambiguous (number n)
  | string (s : String) : Unambiguous (string s)
  | array {elements : List (Json ν)} (h : ∀ e ∈ elements, Unambiguous e) :
      Unambiguous (array elements)
  | object {fields : List (String × Json ν)} (hnames : (fields.map Prod.fst).Nodup)
      (h : ∀ f ∈ fields, Unambiguous f.2) : Unambiguous (object fields)

/-- **A value is read from its text in front of whatever may follow it.** -/
theorem value?_textOnto {j : Json} (h : j.Unambiguous) : j.ReadsBack := by
  induction h with
  | null =>
      intro tail _
      rw [textOnto]
      refine takes_value?_scalar rfl (by decide) (takes_scalar?_word rfl rfl ?_)
      simp only [List.length_cons]
      omega
  | bool b =>
      intro tail _
      cases b
      all_goals
        rw [textOnto]
        refine takes_value?_scalar rfl (by decide) (takes_scalar?_word rfl rfl ?_)
        simp only [List.length_cons]
        omega
  | number n =>
      intro tail hends
      rw [textOnto]
      exact value?_number n hends
  | string s =>
      intro tail _
      rw [textOnto, quotedOnto]
      have hstring := takes_value?_string (string?_escaped s.toList tail)
      rwa [String.ofList_toList] at hstring
  | array _ ih => exact readsBack_array ih
  | object hnames _ ih => exact readsBack_object hnames ih

/-- **The text of a value is read as that value,** but for the spelling of numbers. -/
theorem ofText?_text {j : Json} (h : j.Unambiguous) : ofText? j.text = some j.respelling := by
  have hvalue : Takes (value? j.text.toList) j.respelling [] := by
    rw [text, String.toList_ofList]
    exact value?_textOnto h [] endsValue_nil
  obtain ⟨_, hr⟩ := hvalue
  simp only [ofText?, hr]
  rfl

end Json

end InfixCalc
