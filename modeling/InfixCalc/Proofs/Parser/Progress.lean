import Mathlib
import InfixCalc.Proofs.Parser.Calls

/-!
# Progress and end of reading

A reader that succeeds has taken something from the front of its text, and an error speaks of a part
of the text. So a call is made on a shorter text, or on the same text by a reader further inside;
and this cannot go on forever, however many groups the limits allow.

Main statements: each call that is made is on a shorter text or further inside (`Makes.progresses`),
so there is no endless chain of calls (`wellFounded_makes`); no round of the loop over a chain
leaves the text as it is (`loop_round`); all of it together is `reading_progresses_and_ends`.
-/

namespace InfixCalc

/-! ## What is left of a text -/

/-- A rest is left of a text once something has been taken from its front. -/
def ProperSuffix (rest text : List Char) : Prop := rest <:+ text ∧ rest ≠ text

variable {rest mid text : List Char}

/-- What stands behind something is left of the whole. -/
theorem properSuffix_append {s : List Char} (h : s ≠ []) (rest : List Char) :
    ProperSuffix rest (s ++ rest) :=
  ⟨List.suffix_append s rest, by simpa using h⟩

/-- What stands behind a character is left of the whole. -/
theorem properSuffix_cons (c : Char) (rest : List Char) : ProperSuffix rest (c :: rest) :=
  properSuffix_append (List.cons_ne_nil c []) rest

/-- What is left is shorter. -/
theorem ProperSuffix.length_lt (h : ProperSuffix rest text) : rest.length < text.length := by
  obtain ⟨⟨s, rfl⟩, hne⟩ := h
  have hs : s ≠ [] := by
    rintro rfl
    exact hne rfl
  have := List.length_pos_iff.2 hs
  rw [List.length_append]
  omega

/-- An end of what is left is left of the whole, too. -/
theorem ProperSuffix.of_suffix (h : rest <:+ mid) (h' : ProperSuffix mid text) :
    ProperSuffix rest text := by
  refine ⟨h.trans h'.1, ?_⟩
  rintro rfl
  exact (h'.length_lt.trans_le h.length_le).ne rfl

/-- What is left of an end of a text is left of the text. -/
theorem ProperSuffix.trans_suffix (h : ProperSuffix rest mid) (h' : mid <:+ text) :
    ProperSuffix rest text := by
  refine ⟨h.1.trans h', ?_⟩
  rintro rfl
  exact (h.length_lt.trans_le h'.length_le).ne rfl

namespace Literal

/-- How reading a literal ends: with a rest of the text, with a part of the text as a literal
without a value, or behind the signs, where a digit is missing. -/
def Ends (text : List Char) : Outcome text → Prop
  | .read r => ProperSuffix r.rest text
  | .refused literal => literal <:+: text
  | .absent rest => rest <:+ text ∧ StartsOutside Decimal.isDigit rest

/-- Reading a literal ends in one of these ways. -/
theorem ends_read (text : List Char) : Ends text (read text) := by
  have hfinds := finds_read text
  generalize read text = outcome at hfinds
  cases hfinds with
  | absent hl => exact ⟨List.dropWhile_suffix _, longest?_eq_none_iff.1 hl⟩
  | @refused rest p hl _ =>
      obtain ⟨-, rfl, -⟩ := longest?_eq_some_iff.1 hl
      exact (List.prefix_append p.text rest).isInfix
  | @read rest p _ _ hl _ =>
      obtain ⟨hp, rfl, -⟩ := longest?_eq_some_iff.1 hl
      exact properSuffix_append hp.endsOperand.ne_nil rest

end Literal

namespace Parser

variable {c : Config} {level : Option Tier} {t : Tier} {n : Nat} {err : ParseError}

/-! ## How reading ends -/

/-- An error speaks of a text: of an end of it from the point of failure on, of a literal in it, or
of a limit. -/
def SpeaksOf (c : Config) (text : List Char) : ParseError → Prop
  | .unexpectedToken rest => rest.toList <:+ text
  | .badLiteral literal => literal.toList <:+: text
  | .internal _ => False
  | .nestedTooDeep limit => limit = c.maxDepth
  | .treeTooDeep limit => limit = c.maxTreeDepth

/-- An error that speaks of an end of a text speaks of the text. -/
theorem SpeaksOf.of_suffix (h : SpeaksOf c mid err) (hs : mid <:+ text) : SpeaksOf c text err := by
  cases err with
  | unexpectedToken rest => exact List.IsSuffix.trans h hs
  | badLiteral literal => exact List.IsInfix.trans h hs.isInfix
  | internal detail => exact h
  | nestedTooDeep limit => exact h
  | treeTooDeep limit => exact h

/-- Where the grammar is not followed any more is said by what is left from there on. -/
theorem speaksOf_unexpected (h : rest <:+ text) : SpeaksOf c text (unexpected rest) := by
  rw [unexpected, SpeaksOf, String.toList_ofList]
  exact h

/-- How reading a text ends: a success leaves a proper end of the text, and an error speaks of the
text. -/
def Ends {α : Type} (c : Config) (text : List Char) : Except ParseError (Reading α text) → Prop
  | .ok r => ProperSuffix r.rest text
  | .error err => SpeaksOf c text err

/-- What the rules read is a proper beginning of the text. -/
theorem Reads.properSuffix {e : Expr} (h : Reads c level n text (.ok (e, rest))) :
    ProperSuffix rest text := by
  obtain ⟨s, rfl, hderives, -⟩ := h.derives rfl
  exact properSuffix_append hderives.endsOperand.ne_nil rest

/-- What is wrong by the rules is wrong with a part of the text. -/
theorem Reads.speaksOf (h : Reads c level n text (.error err)) : SpeaksOf c text err := by
  generalize ho : Except.error err = o at h
  induction h with
  | badLiteral hl _ =>
      obtain rfl := Except.error.inj ho
      obtain ⟨-, rfl, -⟩ := Literal.longest?_eq_some_iff.1 hl
      rw [SpeaksOf, String.toList_ofList]
      exact (List.prefix_append _ _).isInfix
  | noAtom _ _ =>
      obtain rfl := Except.error.inj ho
      exact speaksOf_unexpected List.suffix_rfl
  | nestedTooDeep _ _ =>
      obtain rfl := Except.error.inj ho
      exact rfl
  | inside d _ _ ih => exact (ih ho).of_suffix (List.suffix_cons _ _)
  | unclosed d _ h _ _ =>
      obtain rfl := Except.error.inj ho
      exact speaksOf_unexpected (h.properSuffix.1.trans (List.suffix_cons _ _))
  | left _ ih => exact ih ho
  | right h₁ _ _ ih =>
      exact (ih ho).of_suffix ((List.suffix_cons _ _).trans h₁.properSuffix.1)
  | treeTooDeep _ _ _ _ _ =>
      obtain rfl := Except.error.inj ho
      exact rfl
  | _ => cases ho

/-- What follows the rules ends as reading does. -/
theorem ends_of_follows {x : Except ParseError (Reading Node text)}
    (h : Follows c level n text (x.map seenNode)) : Ends c text x := by
  cases x with
  | error err => exact Reads.speaksOf h
  | ok r => exact h.1.properSuffix

/-- Reading a group ends so wherever it is tried. -/
theorem ends_group (c : Config) (n : Nat) (text : List Char) : Ends c text (group c n text) := by
  cases text with
  | nil =>
      rw [group]
      change SpeaksOf c [] (unexpected [])
      exact speaksOf_unexpected List.suffix_rfl
  | cons first inside =>
      cases ho : Delimiter.ofOpener? first with
      | none =>
          rw [group, ho]
          change SpeaksOf c (first :: inside) (unexpected (first :: inside))
          exact speaksOf_unexpected List.suffix_rfl
      | some d =>
          obtain rfl := Delimiter.ofOpener?_eq_some_iff.1 ho
          exact ends_of_follows (group_follows c n _ (longest?_opener d inside))

/-! ## Calls that are made -/

/-- How far a reader is from the innermost one: a tighter tier is further inside, and within a tier
its links and its operands are; innermost are atoms, and groups behind them. -/
def Reader.distance : Reader → Nat
  | .tier t => 3 * t.looseness + 4
  | .links t => 3 * t.looseness + 3
  | .operand t => 3 * t.looseness + 2
  | .atom => 1
  | .group => 0

variable {caller called : Call}

/-- The calls of the parser on a whole text are those that are made from the first one on. -/
theorem calls_iff_reflTransGen {input : List Char} {reader : Reader} :
    Calls c input reader n text
      ↔ Relation.ReflTransGen (Makes c) ⟨.tier .additive, 0, input⟩ ⟨reader, n, text⟩ := by
  constructor
  · intro h
    induction h with
    | start => exact .refl
    | made _ hmakes ih => exact ih.tail hmakes
  · have hall : ∀ call, Relation.ReflTransGen (Makes c) ⟨.tier .additive, 0, input⟩ call →
        Calls c input call.reader call.nesting call.text := by
      intro call h
      induction h with
      | refl => exact .start
      | tail _ hmakes ih => exact ih.made hmakes
    exact hall ⟨reader, n, text⟩

/-- A call has come further: its text is a proper end, or it is the same and the reader further
inside. -/
def Progresses (caller called : Call) : Prop :=
  ProperSuffix called.text caller.text
    ∨ (called.text = caller.text ∧ called.reader.distance < caller.reader.distance)

/-- An operand that is read leaves a proper end of the text. -/
theorem properSuffix_of_operand {r : Reading Node text} (h : operand c t n text = .ok r) :
    ProperSuffix r.rest text := by
  have hends := ends_of_follows (operand_follows c t n text)
  rw [h] at hends
  exact hends

/-- An operator that is read leaves a proper end of the text. -/
theorem properSuffix_of_operator {r : Reading Operator text} (h : operator t text = some r) :
    ProperSuffix r.rest text := by
  have hrest := properSuffix_cons r.value.symbol r.rest
  rwa [← (of_operator_eq_some h).2] at hrest

/-- **Each call that is made has come further.** -/
theorem Makes.progresses (h : Makes c caller called) : Progresses caller called := by
  cases h with
  | first => exact .inr ⟨rfl, by simp only [Reader.distance]; omega⟩
  | links hfirst => exact .inl (properSuffix_of_operand hfirst)
  | next hop => exact .inl (properSuffix_of_operator hop)
  | more hop hnext =>
      exact .inl ((properSuffix_of_operand hnext).trans_suffix (properSuffix_of_operator hop).1)
  | tighter ht =>
      refine .inr ⟨rfl, ?_⟩
      simp only [Reader.distance, Tier.looseness_eq_of_tighter ht]
      omega
  | atom _ => exact .inr ⟨rfl, by simp only [Reader.distance]; omega⟩
  | group _ => exact .inr ⟨rfl, Nat.one_pos⟩
  | inside _ _ => exact .inl (properSuffix_cons _ _)

/-- Calls that come further one after the other come further together. -/
theorem Progresses.trans {a b d : Call} (h : Progresses a b) (h' : Progresses b d) :
    Progresses a d := by
  rcases h' with h' | ⟨htext', hlt'⟩
  · rcases h with h | ⟨htext, -⟩
    · exact .inl (h.of_suffix h'.1)
    · exact .inl (htext ▸ h')
  · rcases h with h | ⟨htext, hlt⟩
    · exact .inl (htext' ▸ h)
    · exact .inr ⟨htext'.trans htext, hlt'.trans hlt⟩

/-- A call that is made by one that is made, and so on, has come further. -/
theorem progresses_of_transGen (h : Relation.TransGen (Makes c) caller called) :
    Progresses caller called := by
  induction h with
  | single h => exact h.progresses
  | tail _ h ih => exact ih.trans h.progresses

/-- **There is no endless chain of calls,** however great the limits are. -/
theorem wellFounded_makes (c : Config) :
    WellFounded fun called caller => Makes c caller called := by
  -- The length of the text counts first, and the reader where the text stays as it is.
  have hwf : WellFounded (Prod.Lex (· < ·) (· < ·) : Nat × Nat → Nat × Nat → Prop) :=
    WellFounded.prod_lex wellFounded_lt wellFounded_lt
  refine Subrelation.wf ?_ (InvImage.wf (fun a : Call => (a.text.length, a.reader.distance)) hwf)
  intro called caller h
  rcases h.progresses with hshorter | ⟨htext, hlt⟩
  · exact .left _ _ hshorter.length_lt
  · rw [InvImage, htext]
    exact .right _ hlt

/-! ## Rounds of the loop over a chain -/

/-- Why a loop is broken off. -/
inductive LoopError where
  /-- A round has failed. -/
  | failed (e : ParseError)
  /-- A round has left the text as it was. -/
  | noProgress

/-- A loop of rounds, each of which takes something from the front of the text, up to one that takes
nothing. A round that leaves the text no shorter would be repeated forever, so the loop is broken
off there. -/
def loop {α : Type} (round : List Char → Except ParseError (Option (α × List Char)))
    (text : List Char) : Except LoopError (List α × List Char) :=
  match round text with
  | .error e => .error (.failed e)
  | .ok none => .ok ([], text)
  | .ok (some (a, rest)) =>
    if rest.length < text.length then
      match loop round rest with
      | .error e => .error e
      | .ok (as, rest) => .ok (a :: as, rest)
    else .error .noProgress
termination_by text.length

/-- A round of the loop over a chain: an operator of the tier and the operand behind it, or nothing
where no operator of the tier comes next. -/
def round (c : Config) (t : Tier) (n : Nat) (text : List Char) :
    Except ParseError (Option (Link × List Char)) :=
  match operator t text with
  | none => .ok none
  | some op =>
    match operand c t n op.rest with
    | .error e => .error e
    | .ok next => .ok (some (⟨op.value, next.value⟩, next.rest))

/-- A round leaves a proper end of the text. -/
theorem properSuffix_of_round {link : Link} (h : round c t n text = .ok (some (link, rest))) :
    ProperSuffix rest text := by
  rw [round] at h
  cases hop : operator t text with
  | none =>
      rw [hop] at h
      cases h
  | some op =>
      rw [hop] at h
      simp only at h
      cases hnext : operand c t n op.rest with
      | error err =>
          rw [hnext] at h
          cases h
      | ok next =>
          rw [hnext] at h
          obtain ⟨-, rfl⟩ := Prod.mk.inj (Option.some.inj (Except.ok.inj h))
          exact (properSuffix_of_operand hnext).trans_suffix (properSuffix_of_operator hop).1

/-- **The loop over a chain reads its links,** round by round. -/
theorem loop_round (c : Config) (t : Tier) (n : Nat) (text : List Char) :
    loop (round c t n) text
      = match links c t n text with
        | .error err => .error (.failed err)
        | .ok r => .ok (r.value, r.rest) := by
  rw [loop, round, links]
  cases hop : operator t text with
  | none => rfl
  | some op =>
      simp only
      cases hnext : operand c t n op.rest with
      | error err => rfl
      | ok next =>
          have hlt : next.rest.length < text.length := next.shorter.trans op.shorter
          simp only [if_pos hlt]
          rw [loop_round c t n next.rest]
          cases links c t n next.rest with
          | error err => rfl
          | ok more => rfl
termination_by text.length

/-- The loop over a chain is never broken off for want of progress. -/
theorem loop_round_ne_noProgress (c : Config) (t : Tier) (n : Nat) (text : List Char) :
    loop (round c t n) text ≠ .error .noProgress := by
  rw [loop_round]
  cases links c t n text <;> simp

/-! ## All readers -/

/-- **Reading progresses and ends.** Whatever the limits are, and on any text: there is no endless
chain of calls, since from one expression of a tier to another inside it the text gets shorter, or
it stays and the tier is tighter. A success leaves a proper end of the text; an error speaks of an
end of the text or of a literal in it. So each round of the loop over a chain shortens the text, and
the loop is never broken off for want of progress. -/
theorem reading_progresses_and_ends (c : Config) :
    (WellFounded fun called caller : Call => Makes c caller called)
      ∧ (∀ input reader n text, Calls c input reader n text
          ↔ Relation.ReflTransGen (Makes c) ⟨.tier .additive, 0, input⟩ ⟨reader, n, text⟩)
      ∧ (∀ t t' n n' text text',
          Relation.TransGen (Makes c) ⟨.tier t, n, text⟩ ⟨.tier t', n', text'⟩ →
            ProperSuffix text' text ∨ (text' = text ∧ t'.looseness < t.looseness))
      ∧ (∀ text, Literal.Ends text (Literal.read text))
      ∧ (∀ n text, Ends c text (atom c n text) ∧ Ends c text (group c n text)
          ∧ ∀ t, Ends c text (tier c t n text))
      ∧ ∀ t n text,
        (∀ link rest, round c t n text = .ok (some (link, rest)) → ProperSuffix rest text)
          ∧ loop (round c t n) text ≠ .error .noProgress
          ∧ loop (round c t n) text
              = match links c t n text with
                | .error err => .error (.failed err)
                | .ok r => .ok (r.value, r.rest) := by
  refine ⟨wellFounded_makes c, fun input reader n text => calls_iff_reflTransGen, ?_,
    Literal.ends_read, ?_, ?_⟩
  · intro t t' n n' text text' h
    refine (progresses_of_transGen h).imp_right (And.imp_right fun hlt => ?_)
    simp only [Reader.distance] at hlt
    omega
  · exact fun n text => ⟨ends_of_follows (atom_follows c n text), ends_group c n text,
      fun t => ends_of_follows (tier_follows c t n text)⟩
  · exact fun t n text => ⟨fun link rest => properSuffix_of_round,
      loop_round_ne_noProgress c t n text, loop_round c t n text⟩

/-- With limits as great as a word can be: of openers only, each group leads to the next opener; of
minus signs only, all are left where a digit is missing; and a round behind an operand takes a minus
sign as the operator and the other as the sign of a literal. -/
theorem reading_progresses_and_ends_greatest :
    let greatest : Nat := 18446744073709551615
    let c : Config := ⟨greatest, greatest, true⟩
    ProperSuffix ['('] ['(', '(']
      ∧ tier c .additive 0 ['-', '-'] = .error (.unexpectedToken "--")
      ∧ "--".toList <:+ ['-', '-']
      ∧ (∃ link, round c .additive 0 ['-', '-', '1', '-'] = .ok (some (link, ['-'])))
      ∧ ProperSuffix ['-'] ['-', '-', '1', '-'] := by
  intro greatest c
  obtain ⟨-, hcalls, htiers, -, hends, hrounds⟩ := reading_progresses_and_ends c
  have hinside : Calls c ['(', '('] (.tier .additive) 1 ['('] := by
    have hgroup : Calls c ['(', '('] .group 0 ['(', '('] :=
      (Calls.start.made .first).atom_of_operand.made (.group (Literal.read_of_none (by decide)))
    exact hgroup.made (.inside (d := .round) rfl (by decide))
  have hsigns : tier c .additive 0 ['-', '-'] = .error (.unexpectedToken "--") := by cbv
  have hround : ∃ link, round c .additive 0 ['-', '-', '1', '-'] = .ok (some (link, ['-'])) := by
    refine ⟨⟨.sub, ⟨.value ⟨0xbff0000000000000⟩, 1⟩⟩, ?_⟩
    cbv
  have hleft := (hends 0 ['-', '-']).2.2 .additive
  rw [hsigns] at hleft
  obtain ⟨link, hlink⟩ := hround
  have hmade := Relation.reflTransGen_iff_eq_or_transGen.1 ((hcalls _ _ _ _).1 hinside)
  have hopener := htiers _ _ _ _ _ _ (hmade.resolve_left (by simp))
  refine ⟨hopener.resolve_right (by simp), hsigns, hleft, ⟨link, hlink⟩, ?_⟩
  exact (hrounds .additive 0 _).1 link _ hlink

end Parser

end InfixCalc
