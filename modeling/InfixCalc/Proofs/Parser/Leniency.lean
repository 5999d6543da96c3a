import Mathlib
import InfixCalc.Proofs.Places
import InfixCalc.Proofs.Parser.Acceptance

/-!
# What the kinds of delimiters decide

A lenient parser cannot tell the kinds of delimiters apart. A strict one reads what the lenient one
reads, up to the first closer of another kind than the opener that it belongs to by nesting.

Main statements: where all delimiters are made round, a lenient parser has the same outcome
(`Reads.rounded`); what a strict parser comes to, a lenient one comes to as well, or the strict one
has stopped at such a closer (`Reads.lenient`); for whole texts both are said together
(`kinds_of_delimiters`).
-/

namespace InfixCalc

variable {s s' text rest : List Char} {c x : Char} {opened : List Delimiter}

/-! ## Round delimiters -/

/-- A delimiter made round; any other character stays as it is. -/
def roundedChar (c : Char) : Char :=
  if c = Delimiter.square.opener then Delimiter.round.opener
  else if c = Delimiter.square.closer then Delimiter.round.closer
  else c

/-- A text with all its delimiters made round. -/
def roundedText (text : List Char) : List Char := text.map roundedChar

/-- An error about a text whose delimiters are made round: so are those of what is left of it. A
literal has none, and a limit is a number. -/
def ParseError.rounded : ParseError → ParseError
  | unexpectedToken rest => unexpectedToken (String.ofList (roundedText rest.toList))
  | other => other

/-- A character is an opener, a closer or no delimiter. -/
theorem plain_or_delimiter (c : Char) :
    Plain c ∨ (∃ d : Delimiter, c = d.opener) ∨ ∃ d : Delimiter, c = d.closer := by
  rcases ho : Delimiter.ofOpener? c with _ | d
  · rcases hc : Delimiter.ofCloser? c with _ | d
    · exact .inl ⟨ho, hc⟩
    · exact .inr (.inr ⟨d, Delimiter.ofCloser?_eq_some_iff.1 hc⟩)
  · exact .inr (.inl ⟨d, Delimiter.ofOpener?_eq_some_iff.1 ho⟩)

/-- An opener is made round. -/
@[simp] theorem roundedChar_opener (d : Delimiter) :
    roundedChar d.opener = Delimiter.round.opener := by
  cases d <;> decide

/-- A closer is made round. -/
@[simp] theorem roundedChar_closer (d : Delimiter) :
    roundedChar d.closer = Delimiter.round.closer := by
  cases d <;> decide

/-- A character that is no delimiter stays as it is. -/
theorem roundedChar_of_plain (h : Plain c) : roundedChar c = c := by
  unfold roundedChar
  split
  · next ho => exact absurd h (ho ▸ not_plain_opener .square)
  · split
    · next hc => exact absurd h (hc ▸ not_plain_closer .square)
    · rfl

/-- No character becomes one that is no delimiter, unless it is that one already. -/
theorem roundedChar_eq_iff (hx : Plain x) : roundedChar c = x ↔ c = x := by
  rcases plain_or_delimiter c with h | ⟨d, rfl⟩ | ⟨d, rfl⟩
  · rw [roundedChar_of_plain h]
  · rw [roundedChar_opener]
    exact iff_of_false (fun h => not_plain_opener .round (h ▸ hx))
      (fun h => not_plain_opener d (h ▸ hx))
  · rw [roundedChar_closer]
    exact iff_of_false (fun h => not_plain_closer .round (h ▸ hx))
      (fun h => not_plain_closer d (h ▸ hx))

/-- A digit stays one, and no other character becomes one. -/
@[simp] theorem isDigit_roundedChar (c : Char) :
    Decimal.isDigit (roundedChar c) = Decimal.isDigit c := by
  rcases plain_or_delimiter c with h | ⟨d, rfl⟩ | ⟨d, rfl⟩
  · rw [roundedChar_of_plain h]
  · cases d <;> decide
  · cases d <;> decide

/-- What becomes an opener was one. -/
theorem exists_opener_of_roundedChar {d : Delimiter} (h : roundedChar c = d.opener) :
    ∃ d' : Delimiter, c = d'.opener := by
  rcases plain_or_delimiter c with hc | ⟨d', rfl⟩ | ⟨d', rfl⟩
  · rw [roundedChar_of_plain hc] at h
    exact ⟨d, h⟩
  · exact ⟨d', rfl⟩
  · rw [roundedChar_closer] at h
    cases d <;> exact absurd h (by decide)

/-- Where kinds do not matter, a character closes a group just if it does so when made round. -/
theorem closes_roundedChar (d d' : Delimiter) (c : Char) :
    Delimiter.closes false d' (roundedChar c) = Delimiter.closes false d c := by
  rcases plain_or_delimiter c with h | ⟨d, rfl⟩ | ⟨d, rfl⟩
  · rw [roundedChar_of_plain h, Delimiter.closes, Delimiter.closes, h.2]
  · cases d <;> rfl
  · cases d <;> rfl

/-- A text without delimiters stays as it is. -/
theorem roundedText_of_plain (h : ∀ c ∈ s, Plain c) : roundedText s = s := by
  rw [roundedText, List.map_congr_left fun c hc => roundedChar_of_plain (h c hc), List.map_id']

@[simp] theorem roundedText_append (s s' : List Char) :
    roundedText (s ++ s') = roundedText s ++ roundedText s' :=
  List.map_append

@[simp] theorem roundedText_cons (c : Char) (s : List Char) :
    roundedText (c :: s) = roundedChar c :: roundedText s := rfl

@[simp] theorem roundedText_eq_nil_iff : roundedText s = [] ↔ s = [] := List.map_eq_nil_iff

@[simp] theorem head?_roundedText (s : List Char) :
    (roundedText s).head? = s.head?.map roundedChar :=
  List.head?_map

/-! ### Literals -/

/-- A text with round delimiters starts with a digit just if the text itself does. -/
theorem startsOutside_isDigit_roundedText (s : List Char) :
    StartsOutside Decimal.isDigit (roundedText s) ↔ StartsOutside Decimal.isDigit s := by
  cases s with
  | nil => rfl
  | cons c s => simp

/-- No fraction stands at the front of a text with round delimiters if none stands at that of the
text itself. -/
theorem noFraction_roundedText (h : Decimal.NoFraction rest) :
    Decimal.NoFraction (roundedText rest) := by
  cases rest with
  | nil => exact h
  | cons c rest =>
      intro tail htail
      obtain ⟨hpoint, rfl⟩ := List.cons.inj htail
      rw [(roundedChar_eq_iff (by decide)).1 hpoint] at h
      exact (startsOutside_isDigit_roundedText rest).2 (h rest rfl)

/-- The longest literal at the front of a text is not changed by making the delimiters round. -/
theorem longest?_roundedText (text : List Char) :
    Literal.longest? (roundedText text)
      = (Literal.longest? text).map fun found => (found.1, roundedText found.2) := by
  rcases hl : Literal.longest? text with _ | ⟨p, rest⟩
  · -- The signs at the front are the same ones, and behind them no digit appears.
    have hsigns :
        (roundedText text).dropWhile (· = '-') = roundedText (text.dropWhile (· = '-')) := by
      rw [roundedText, List.dropWhile_map]
      congr 2
      funext c
      simp [roundedChar_eq_iff (c := c) (x := '-') (by decide)]
    rw [Option.map_none, Literal.longest?_eq_none_iff, hsigns, startsOutside_isDigit_roundedText]
    exact Literal.longest?_eq_none_iff.1 hl
  · obtain ⟨hp, rfl, hend⟩ := Literal.longest?_eq_some_iff.1 hl
    rw [roundedText_append, roundedText_of_plain hp.plain]
    exact Literal.longest?_text_append hp
      ⟨(startsOutside_isDigit_roundedText rest).2 hend.noDigit,
        fun hf => noFraction_roundedText (hend.noFraction hf)⟩

namespace Parser

/-! ### Readings -/

/-- What reading a text comes to, with the delimiters of what is left made round. -/
def roundedOutcome :
    Except ParseError (Expr × List Char) → Except ParseError (Expr × List Char)
  | .error err => .error err.rounded
  | .ok (e, rest) => .ok (e, roundedText rest)

@[simp] theorem rounded_unexpected (rest : List Char) :
    (unexpected rest).rounded = unexpected (roundedText rest) := by
  rw [unexpected, ParseError.rounded, String.toList_ofList, unexpected]

/-- **A lenient parser does not tell the kinds of delimiters apart.** -/
theorem Reads.rounded {c : Config} (hc : c.strictDelimiters = false) {level : Option Tier} {n : Nat}
    {text : List Char} {o : Except ParseError (Expr × List Char)} (h : Reads c level n text o) :
    Reads c level n (roundedText text) (roundedOutcome o) := by
  induction h with
  | @literal n text rest p x hl hx =>
      have hl' : Literal.longest? (roundedText text) = some (p, roundedText rest) := by
        rw [longest?_roundedText, hl, Option.map_some]
      exact .literal hl' hx
  | @badLiteral n text rest p hl hx =>
      have hl' : Literal.longest? (roundedText text) = some (p, roundedText rest) := by
        rw [longest?_roundedText, hl, Option.map_some]
      exact .badLiteral hl' hx
  | @noAtom n text hl ho =>
      rw [roundedOutcome, rounded_unexpected]
      have hl' : Literal.longest? (roundedText text) = none := by
        rw [longest?_roundedText, hl, Option.map_none]
      refine .noAtom hl' fun d hd => ?_
      rw [head?_roundedText] at hd
      obtain ⟨c, hc, hround⟩ := Option.map_eq_some_iff.1 hd
      obtain ⟨d', rfl⟩ := exists_opener_of_roundedChar hround
      exact ho d' hc
  | nestedTooDeep d hn =>
      rw [roundedText_cons, roundedChar_opener]
      exact .nestedTooDeep .round hn
  | inside d hn _ ih =>
      rw [roundedText_cons, roundedChar_opener]
      exact .inside .round hn ih
  | @unclosed n inside rest e d hn _ hclose ih =>
      rw [roundedText_cons, roundedChar_opener, roundedOutcome, rounded_unexpected]
      refine .unclosed .round hn ih fun last hlast => ?_
      rw [head?_roundedText] at hlast
      obtain ⟨c, hc', rfl⟩ := Option.map_eq_some_iff.1 hlast
      have hfalse := hclose c hc'
      rw [hc] at hfalse ⊢
      rwa [closes_roundedChar d]
  | @group n inside rest last e d hn _ hclose ih =>
      rw [roundedText_cons, roundedChar_opener]
      rw [hc] at hclose
      refine .group .round hn ih ?_
      rwa [hc, closes_roundedChar d]
  | left _ ih => exact .left ih
  | @operand n t text rest e _ hop ih =>
      refine .operand ih fun op ht hhead => ?_
      rw [head?_roundedText] at hhead
      obtain ⟨c, hc', hsymbol⟩ := Option.map_eq_some_iff.1 hhead
      rw [roundedChar_eq_iff (plain_symbol op)] at hsymbol
      exact hop op ht (hsymbol ▸ hc')
  | @right n op text rest e err _ _ ih₁ ih₂ =>
      rw [roundedOutcome, roundedText_cons, roundedChar_of_plain (plain_symbol op)] at ih₁
      exact .right ih₁ ih₂
  | @treeTooDeep n op text rest rest' e₁ e₂ _ _ hd ih₁ ih₂ =>
      rw [roundedOutcome, roundedText_cons, roundedChar_of_plain (plain_symbol op)] at ih₁
      exact .treeTooDeep ih₁ ih₂ hd
  | @binary n op text rest rest' e₁ e₂ _ _ hd ih₁ ih₂ =>
      rw [roundedOutcome, roundedText_cons, roundedChar_of_plain (plain_symbol op)] at ih₁
      exact .binary ih₁ ih₂ hd

end Parser

/-! ## Kinds of delimiters -/

/-- All closers of a text are of the kind of the opener that they belong to by nesting, where the
groups `opened` are open before it. -/
def KindsMatch (opened : List Delimiter) (s : List Char) : Prop :=
  ∀ p d t, s = p ++ Delimiter.closer d :: t → (p.foldl track opened).head? = some d

/-- What is left of a text from the first closer on that is of another kind than the opener that it
belongs to. -/
def FirstMismatch (s r : List Char) : Prop :=
  ∃ p d d' t, s = p ++ r ∧ r = Delimiter.closer d :: t ∧ KindsMatch [] p
    ∧ (openGroups p).head? = some d' ∧ d' ≠ d

/-- In a text without delimiters nothing is closed. -/
theorem kindsMatch_of_plain (h : ∀ c ∈ s, Plain c) (opened : List Delimiter) :
    KindsMatch opened s := by
  rintro p d t rfl
  exact absurd (h d.closer (by simp)) (not_plain_closer d)

/-- A text is closed by kinds if both of its parts are, the second one behind the first. -/
theorem kindsMatch_append :
    KindsMatch opened (s ++ s') ↔ KindsMatch opened s ∧ KindsMatch (s.foldl track opened) s' := by
  constructor
  · intro h
    refine ⟨?_, ?_⟩
    · rintro p d t rfl
      exact h p d (t ++ s') (by simp)
    · rintro p d t rfl
      rw [← List.foldl_append]
      exact h (s ++ p) d t (by simp)
  · rintro ⟨hs, hs'⟩ p d t h
    rcases List.append_eq_append_iff.1 h with ⟨q, rfl, hq⟩ | ⟨q, rfl, hq⟩
    · rw [List.foldl_append]
      exact hs' q d t hq
    · cases q with
      | nil =>
          rw [List.append_nil] at hs'
          exact hs' [] d t hq.symm
      | cons c q =>
          obtain ⟨rfl, rfl⟩ := List.cons.inj hq
          exact hs p d q rfl

/-- A closer has to be of the kind of the innermost group that is open. -/
theorem kindsMatch_closer {d : Delimiter} :
    KindsMatch opened [d.closer] ↔ opened.head? = some d := by
  constructor
  · intro h
    exact h [] d [] rfl
  · intro h p d' t ht
    rcases List.append_eq_singleton_iff.1 ht.symm with ⟨rfl, hd⟩ | ⟨-, hnil⟩
    · have hclosers : d'.closer = d.closer := (List.cons.inj hd).1
      obtain rfl : d' = d := by
        cases d <;> cases d' <;> first | rfl | exact absurd hclosers (by decide)
      exact h
    · exact absurd hnil (List.cons_ne_nil _ _)

/-- A character that is no closer closes nothing. -/
theorem kindsMatch_singleton (hc : ∀ d : Delimiter, c ≠ d.closer) (opened : List Delimiter) :
    KindsMatch opened [c] := by
  intro p d t hp
  have hmem : d.closer ∈ [c] := by
    rw [hp]
    simp
  exact absurd (List.mem_singleton.1 hmem).symm (hc d)

/-- An opener is no closer. -/
theorem opener_ne_closer (d d' : Delimiter) : d.opener ≠ d'.closer := by
  cases d <;> cases d' <;> decide

/-- The symbol of an operator is no closer. -/
theorem symbol_ne_closer (op : Operator) (d : Delimiter) : op.symbol ≠ d.closer := by
  intro h
  exact not_plain_closer d (h ▸ plain_symbol op)

/-- An opener opens a group for what stands behind it. -/
theorem kindsMatch_opener_cons (d : Delimiter) :
    KindsMatch opened (d.opener :: s) ↔ KindsMatch (d :: opened) s := by
  rw [← List.singleton_append, kindsMatch_append, List.foldl_cons, List.foldl_nil, track_opener]
  exact and_iff_right (kindsMatch_singleton (opener_ne_closer d) opened)

/-- An operator leaves the closers to what stands behind it. -/
theorem kindsMatch_symbol_cons (op : Operator) :
    KindsMatch opened (op.symbol :: s) ↔ KindsMatch opened s := by
  rw [← List.singleton_append, kindsMatch_append, List.foldl_cons, List.foldl_nil,
    track_of_plain (plain_symbol op)]
  exact and_iff_right (kindsMatch_singleton (symbol_ne_closer op) opened)

/-- A group has to be closed by its own kind, and so have the groups inside it. -/
theorem kindsMatch_group {inside : List Char}
    (h : ∀ opened, inside.foldl track opened = opened) (d closing : Delimiter) :
    KindsMatch opened (d.opener :: (inside ++ [closing.closer]))
      ↔ KindsMatch (d :: opened) inside ∧ closing = d := by
  rw [kindsMatch_opener_cons, kindsMatch_append, h, kindsMatch_closer, List.head?_cons,
    Option.some_inj, eq_comm (a := d)]

/-- An operator leaves the closers to what stands on its two sides. -/
theorem kindsMatch_binary {s₁ s₂ : List Char} (h : ∀ opened, s₁.foldl track opened = opened)
    (op : Operator) :
    KindsMatch opened (s₁ ++ op.symbol :: s₂) ↔ KindsMatch opened s₁ ∧ KindsMatch opened s₂ := by
  rw [kindsMatch_append, h, kindsMatch_symbol_cons]

/-- What the first closer of another kind is, is settled by the text. -/
theorem FirstMismatch.unique {r r' : List Char} (h : FirstMismatch s r) (h' : FirstMismatch s r') :
    r = r' := by
  obtain ⟨p, d, k, t, hs, rfl, hmatch, hopen, hne⟩ := h
  obtain ⟨p', d', k', t', hs', rfl, hmatch', hopen', hne'⟩ := h'
  rcases append_cons_eq_append_cons (hs.symm.trans hs') with ⟨-, hd, ht⟩ | ⟨q, rfl⟩ | ⟨q, rfl, -⟩
  · rw [hd, ht]
  · exact absurd (Option.some.inj (hopen'.symm.trans (hmatch p' d' q rfl))) hne'
  · exact absurd (Option.some.inj (hopen.symm.trans (hmatch' p d q rfl))) hne

/-- A text with such a closer is not closed by kinds. -/
theorem FirstMismatch.not_kindsMatch {r : List Char} (h : FirstMismatch s r) :
    ¬ KindsMatch [] s := by
  obtain ⟨p, d, d', t, hs, rfl, -, hopen, hne⟩ := h
  intro hkinds
  exact hne (Option.some.inj (hopen.symm.trans (hkinds p d t hs)))

/-- Where kinds matter, what the grammar derives is closed by kinds. -/
theorem Derives.kindsMatch {level : Option Tier} {e : Expr} (h : Derives true level s e)
    (opened : List Delimiter) : KindsMatch opened s := by
  induction h generalizing opened with
  | literal h => exact kindsMatch_of_plain h.wellFormed.plain opened
  | group d closing hkind h ih =>
      exact (kindsMatch_group h.foldl_track d closing).2 ⟨ih _, hkind rfl⟩
  | operand _ ih => exact ih opened
  | @binary op _ _ _ _ h₁ _ ih₁ ih₂ =>
      exact (kindsMatch_binary h₁.foldl_track op).2 ⟨ih₁ opened, ih₂ opened⟩

/-- What is closed by kinds is derived where kinds matter if it is where they do not. -/
theorem Derives.strict {level : Option Tier} {e : Expr} (h : Derives false level s e)
    (hmatch : KindsMatch opened s) : Derives true level s e := by
  induction h generalizing opened with
  | literal h => exact .literal h
  | group d closing _ h ih =>
      obtain ⟨hinside, hkind⟩ := (kindsMatch_group h.foldl_track d closing).1 hmatch
      exact .group d closing (fun _ => hkind) (ih hinside)
  | operand _ ih => exact .operand (ih hmatch)
  | @binary op _ _ _ _ h₁ _ ih₁ ih₂ =>
      obtain ⟨hleft, hright⟩ := (kindsMatch_binary h₁.foldl_track op).1 hmatch
      exact .binary (ih₁ hleft) (ih₂ hright)

namespace Parser

/-! ## Strict and lenient parsers -/

/-- Reading has stopped at a closer of another kind than the opener that it belongs to, whatever
groups were open before the text; all closers before it are of the right kinds. -/
def StopsAtMismatch (text : List Char) (o : Except ParseError (Expr × List Char)) : Prop :=
  ∃ p d d' t, text = p ++ Delimiter.closer d :: t ∧ o = .error (unexpected (d.closer :: t)) ∧ d' ≠ d
    ∧ ∀ opened, KindsMatch opened p ∧ (p.foldl track opened).head? = some d'

/-- What is read has not stopped. -/
theorem not_stopsAtMismatch_ok {e : Expr} : ¬ StopsAtMismatch text (.ok (e, rest)) := by
  rintro ⟨p, d, d', t, -, ho, -⟩
  cases ho

/-- A closer at which reading stops ends the reading of a longer text, too, if all closers in front
are of the right kinds. -/
theorem StopsAtMismatch.behind {o : Except ParseError (Expr × List Char)}
    (h : StopsAtMismatch text o) (hs : ∀ opened, KindsMatch opened s) :
    StopsAtMismatch (s ++ text) o := by
  obtain ⟨p, d, d', t, rfl, ho, hne, hmatch⟩ := h
  refine ⟨s ++ p, d, d', t, (List.append_assoc _ _ _).symm, ho, hne, fun opened => ?_⟩
  rw [kindsMatch_append, List.foldl_append]
  exact ⟨⟨hs opened, (hmatch _).1⟩, (hmatch _).2⟩

/-- **A strict parser reads what a lenient one reads**, or stops at the first closer of another kind
than its opener. -/
theorem Reads.lenient {c : Config} {level : Option Tier} {n : Nat}
    {o : Except ParseError (Expr × List Char)}
    (h : Reads { c with strictDelimiters := true } level n text o) :
    Reads { c with strictDelimiters := false } level n text o ∨ StopsAtMismatch text o := by
  induction h with
  | literal hl hx => exact .inl (.literal hl hx)
  | badLiteral hl hx => exact .inl (.badLiteral hl hx)
  | noAtom hl ho => exact .inl (.noAtom hl ho)
  | nestedTooDeep d hn => exact .inl (.nestedTooDeep d hn)
  | inside d hn _ ih =>
      exact ih.imp (.inside d hn) (.behind · (kindsMatch_singleton (opener_ne_closer d)))
  | @unclosed n inside rest e d hn h hclose ih =>
      have hlenient := ih.resolve_right not_stopsAtMismatch_ok
      by_cases hcloser : ∃ (d' : Delimiter) (t : List Char), rest = d'.closer :: t
      · -- A closer stands there, so it is of the other kind.
        obtain ⟨d', t, rfl⟩ := hcloser
        obtain ⟨s, rfl, hs, -, -⟩ := h.derives rfl
        have hne : d ≠ d' := by
          rintro rfl
          have hcloses := hclose d.closer rfl
          rw [Delimiter.closes_eq_true_iff.2 ⟨d, rfl, fun _ => rfl⟩] at hcloses
          cases hcloses
        refine .inr ⟨d.opener :: s, d', d, t, rfl, rfl, hne, fun opened => ?_⟩
        rw [kindsMatch_opener_cons, List.foldl_cons, track_opener, hs.foldl_track]
        exact ⟨hs.kindsMatch _, rfl⟩
      · refine .inl (.unclosed d hn hlenient fun last hlast => ?_)
        rw [← Bool.not_eq_true, Delimiter.closes_eq_true_iff]
        rintro ⟨closing, rfl, -⟩
        obtain ⟨t, ht⟩ := List.head?_eq_some_iff.1 hlast
        exact hcloser ⟨closing, t, ht⟩
  | @group n inside rest last e d hn h hclose ih =>
      obtain ⟨closing, rfl, -⟩ := Delimiter.closes_eq_true_iff.1 hclose
      exact .inl (.group d hn (ih.resolve_right not_stopsAtMismatch_ok)
        (Delimiter.closes_eq_true_iff.2 ⟨closing, rfl, by simp⟩))
  | left _ ih => exact ih.imp_left .left
  | operand _ hop ih => exact .inl (.operand (ih.resolve_right not_stopsAtMismatch_ok) hop)
  | @right n op text rest e err h₁ _ ih₁ ih₂ =>
      obtain ⟨s, rfl, hs, -, -⟩ := h₁.derives rfl
      refine ih₂.imp (.right (ih₁.resolve_right not_stopsAtMismatch_ok)) fun hstops => ?_
      rw [List.append_cons]
      refine hstops.behind fun opened => ?_
      rw [kindsMatch_append, hs.foldl_track]
      exact ⟨hs.kindsMatch opened, kindsMatch_singleton (symbol_ne_closer op) opened⟩
  | treeTooDeep _ _ hd ih₁ ih₂ =>
      exact .inl (.treeTooDeep (ih₁.resolve_right not_stopsAtMismatch_ok)
        (ih₂.resolve_right not_stopsAtMismatch_ok) hd)
  | binary _ _ hd ih₁ ih₂ =>
      exact .inl (.binary (ih₁.resolve_right not_stopsAtMismatch_ok)
        (ih₂.resolve_right not_stopsAtMismatch_ok) hd)

/-! ## Whole texts -/

variable {c : Config} {input : String}

/-- A lenient parser has the same result where all delimiters are made round. -/
theorem parseWith_roundedText (hc : c.strictDelimiters = false) (input : String) :
    parseWith c (String.ofList (roundedText input.toList))
      = (parseWith c input).mapError ParseError.rounded := by
  obtain ⟨err | ⟨e, rest⟩, h⟩ := exists_reads c (some .additive) 0 input.toList
  · have hround := h.rounded hc
    rw [← String.toList_ofList (l := roundedText input.toList)] at hround
    rw [parseWith_of_reads_error h, parseWith_of_reads_error hround]
    rfl
  · have hround := h.rounded hc
    rw [← String.toList_ofList (l := roundedText input.toList)] at hround
    rw [parseWith_of_reads_ok h, parseWith_of_reads_ok hround]
    by_cases hrest : rest = []
    · rw [if_pos hrest, if_pos (roundedText_eq_nil_iff.2 hrest)]
      rfl
    · rw [if_neg hrest, if_neg (mt roundedText_eq_nil_iff.1 hrest), ← rounded_unexpected]
      rfl

/-- A strict parser has the result of a lenient one, or stops at the first closer of another kind
than its opener. -/
theorem parseWith_strict_or (c : Config) (input : String) :
    parseWith { c with strictDelimiters := true } input
        = parseWith { c with strictDelimiters := false } input
      ∨ ∃ r, FirstMismatch input.toList r
          ∧ parseWith { c with strictDelimiters := true } input = .error (unexpected r) := by
  obtain ⟨err | ⟨e, rest⟩, h⟩ :=
    exists_reads { c with strictDelimiters := true } (some .additive) 0 input.toList
  · rcases h.lenient with hlenient | ⟨p, d, d', t, htext, ho, hne, hmatch⟩
    · exact .inl ((parseWith_of_reads_error h).trans (parseWith_of_reads_error hlenient).symm)
    · obtain rfl := Except.error.inj ho
      obtain ⟨hkinds, hopen⟩ := hmatch []
      exact .inr ⟨d.closer :: t, ⟨p, d, d', t, htext, rfl, hkinds, hopen, hne⟩,
        parseWith_of_reads_error h⟩
  · have hlenient := h.lenient.resolve_right not_stopsAtMismatch_ok
    exact .inl ((parseWith_of_reads_ok h).trans (parseWith_of_reads_ok hlenient).symm)

/-- **What the kinds of delimiters decide.** A lenient parser does not tell them apart: with all
delimiters made round, the result is the same, but for the delimiters in what is left of the text. A
strict parser has the result of the lenient one, or stops at the first closer of another kind than
its opener; and an accepted text it accepts with the same tree just if there is no such closer. -/
theorem kinds_of_delimiters (c : Config) (input : String) :
    parseWith { c with strictDelimiters := false } (String.ofList (roundedText input.toList))
        = (parseWith { c with strictDelimiters := false } input).mapError ParseError.rounded
      ∧ (parseWith { c with strictDelimiters := true } input
            = parseWith { c with strictDelimiters := false } input
          ∨ ∃ r, FirstMismatch input.toList r
              ∧ parseWith { c with strictDelimiters := true } input = .error (unexpected r))
      ∧ ∀ e, parseWith { c with strictDelimiters := false } input = .ok e →
          (KindsMatch [] input.toList → parseWith { c with strictDelimiters := true } input = .ok e)
            ∧ (¬ KindsMatch [] input.toList → ∃ r, FirstMismatch input.toList r
                ∧ parseWith { c with strictDelimiters := true } input = .error (unexpected r)) := by
  refine ⟨parseWith_roundedText rfl input, parseWith_strict_or c input, fun e h => ⟨?_, ?_⟩⟩
  · intro hkinds
    obtain ⟨hderives, hopens, hfits⟩ := derives_of_parseWith h
    exact parseWith_of_derives (Derives.strict hderives hkinds) hopens hfits
  · intro hkinds
    rcases parseWith_strict_or c input with heq | hstops
    · -- With a tree from the strict parser, the closers would be of the right kinds.
      have hderives := (derives_of_parseWith (heq.trans h)).1
      exact absurd (hderives.kindsMatch []) hkinds
    · exact hstops

/-- A square group inside a round one, and behind it a square group with a round closer, which is
the only closer of a wrong kind, although it is of the kind of the first opener. -/
theorem kinds_of_delimiters_last_closer :
    parseWith ⟨2, 9, true⟩ "([1])" = .ok (.value ⟨0x3ff0000000000000⟩)
      ∧ parseWith ⟨2, 9, false⟩ "([1])-[1)"
          = .ok (.binary .sub (.value ⟨0x3ff0000000000000⟩) (.value ⟨0x3ff0000000000000⟩))
      ∧ parseWith ⟨2, 9, true⟩ "([1])-[1)" = .error (.unexpectedToken ")") := by
  have hgroups : ∀ strict, Derives strict none "([1])".toList (.value ⟨0x3ff0000000000000⟩) := by
    intro strict
    have hinner := Derives.group .square .square (fun _ => rfl) ((derives_one strict).of_atom _)
    exact .group .round .round (fun _ => rfl) (hinner.of_atom _)
  have hlast : Derives false none "[1)".toList (.value ⟨0x3ff0000000000000⟩) :=
    .group .square .round (by simp) ((derives_one false).of_atom _)
  have hmismatch : FirstMismatch "([1])-[1)".toList ")".toList := by
    refine ⟨"([1])-[1".toList, .round, .square, [], rfl, rfl, ?_, by decide, by decide⟩
    have hone := (derives_one true).kindsMatch [.square]
    exact (kindsMatch_binary (hgroups true).foldl_track .sub).2
      ⟨(hgroups true).kindsMatch [], (kindsMatch_opener_cons .square).2 hone⟩
  have haccepted : parseWith ⟨2, 9, false⟩ "([1])-[1)" = .ok _ :=
    parseWith_of_derives ((hgroups false).operation .sub hlast) (by decide) (by decide)
  have hgroup : parseWith ⟨2, 9, false⟩ "([1])" = .ok _ :=
    parseWith_of_derives ((hgroups false).of_atom _) (by decide) (by decide)
  refine ⟨?_, haccepted, ?_⟩
  · exact ((kinds_of_delimiters ⟨2, 9, false⟩ "([1])").2.2 _ hgroup).1
      ((hgroups true).kindsMatch [])
  · obtain ⟨r, hr, hstrict⟩ :=
      ((kinds_of_delimiters ⟨2, 9, false⟩ "([1])-[1)").2.2 _ haccepted).2 hmismatch.not_kindsMatch
    rw [hr.unique hmismatch] at hstrict
    exact hstrict

end Parser

end InfixCalc
