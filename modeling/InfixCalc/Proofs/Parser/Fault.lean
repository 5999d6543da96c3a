import Mathlib
import InfixCalc.Proofs.Places
import InfixCalc.Proofs.Binary64
import InfixCalc.Proofs.Parser.Acceptance

/-!
# Where a fault ends the reading

A literal without a value and a group that is opened too deep end the reading on the spot. What has
been read up to there is sound, so that it can be completed to an expression, and what stands behind
has not been looked at, so that it has no part in the error.

Main statements: such an error has been met at an atom that the text before it leads to
(`Reads.exists_fault`), and an error at such an atom is that of the whole text
(`Reaches.reads_error`); for whole texts both are said together (`fault_is_local`).
-/

namespace InfixCalc

namespace Parser

variable {c : Config} {level : Option Tier} {n : Nat} {p text rest : List Char}
  {opened : List Delimiter} {err : ParseError}

/-! ## On the way to an atom -/

/-- Reading a text at a level, inside `n` open groups, goes through the text `p` without fault and
comes to an atom behind it, inside the groups that `p` has opened, too. Operands that have been read
on the way are whole; of the chains that they stand in nothing is left to be checked before the
atom. -/
inductive Reaches (c : Config) : Option Tier → Nat → List Char → List Delimiter → Prop
  /-- An atom is read at once. -/
  | here {n : Nat} : Reaches c none n [] []
  /-- An opener leads inside its group. -/
  | inside {n : Nat} {p : List Char} {opened : List Delimiter} (d : Delimiter)
      (hn : n < c.maxDepth) (h : Reaches c (some .additive) (n + 1) p opened) :
      Reaches c none n (d.opener :: p) (opened ++ [d])
  /-- A chain leads to its first operand. -/
  | first {t : Tier} {n : Nat} {p : List Char} {opened : List Delimiter}
      (h : Reaches c t.tighter n p opened) : Reaches c (some t) n p opened
  /-- An operand and an operator lead to what stands behind them. -/
  | behind {op : Operator} {n : Nat} {s p : List Char} {e : Expr} {opened : List Delimiter}
      (hs : Derives c.strictDelimiters op.tier.tighter s e)
      (hopens : OpensAtMost (c.maxDepth - n) s) (hfits : e.Fits c.maxTreeDepth)
      (h : Reaches c (some op.tier) n p opened) :
      Reaches c (some op.tier) n (s ++ op.symbol :: p) opened

/-- **What is wrong at an atom is wrong with the whole text.** -/
theorem Reaches.reads_error (h : Reaches c level n p opened)
    (herr : Reads c none (opened.length + n) rest (.error err)) :
    Reads c level n (p ++ rest) (.error err) := by
  induction h with
  | @here n =>
      rw [List.length_nil, Nat.zero_add] at herr
      exact herr
  | @inside n p opened d hn _ ih =>
      have hlength : (opened ++ [d]).length + n = opened.length + (n + 1) := by
        rw [List.length_append, List.length_singleton]
        omega
      rw [hlength] at herr
      exact .inside d hn (ih herr)
  | first _ ih => exact .left (ih herr)
  | @behind op n s p e opened hs hopens hfits _ ih =>
      rw [List.append_assoc]
      exact .right (reads_of_derives hs hopens hfits (stops_symbol op (p ++ rest))) (ih herr)

/-- An operand can begin where an atom is read. -/
theorem Reaches.operandPlace (h : Reaches c level n p opened) : OperandPlace p := by
  induction h with
  | here => exact .inl rfl
  | inside d _ _ ih => exact (operandPlace_append_cons (operandPlace_opener [] d)).2 ih
  | first _ ih => exact ih
  | @behind op _ _ _ _ _ hs _ _ _ ih =>
      exact (operandPlace_append_cons (operandPlace_symbol hs.endsOperand op)).2 ih

/-- The groups that have been opened on the way stand before those that were open. -/
theorem Reaches.foldl_track (h : Reaches c level n p opened) (before : List Delimiter) :
    p.foldl track before = opened ++ before := by
  induction h generalizing before with
  | here => rfl
  | @inside n p opened d _ _ ih =>
      rw [List.foldl_cons, track_opener, ih, List.append_assoc, List.singleton_append]
  | first _ ih => exact ih before
  | @behind op n s p e opened hs _ _ _ ih =>
      rw [List.foldl_append, hs.foldl_track, List.foldl_cons, track_of_plain (plain_symbol op), ih]

/-- The groups that have been opened on the way are open where the atom is read. -/
theorem Reaches.openGroups_eq (h : Reaches c level n p opened) : openGroups p = opened := by
  rw [openGroups, h.foldl_track, List.append_nil]

/-- No more groups have been opened on the way than may be. -/
theorem Reaches.length_le (h : Reaches c level n p opened) (hn : n ≤ c.maxDepth) :
    opened.length + n ≤ c.maxDepth := by
  induction h with
  | here =>
      rw [List.length_nil, Nat.zero_add]
      exact hn
  | inside d hlt _ ih =>
      have := ih hlt
      rw [List.length_append, List.length_singleton]
      omega
  | first _ ih => exact ih hn
  | behind _ _ _ _ ih => exact ih hn

/-- **Completing a text.** What leads to an atom becomes an expression by any atom without groups
and the closers of the groups that are open, from the inside out. -/
theorem Reaches.exists_derives (h : Reaches c level n p opened) {a : List Char} {e : Expr}
    (ha : Derives c.strictDelimiters none a e) (hplain : ∀ b ∈ a, Plain b) :
    ∃ e', Derives c.strictDelimiters level (p ++ a ++ opened.map Delimiter.closer) e'
      ∧ OpensAtMost (c.maxDepth - n) (p ++ a ++ opened.map Delimiter.closer) := by
  induction h with
  | here =>
      refine ⟨e, ?_⟩
      rw [List.nil_append, List.map_nil, List.append_nil]
      exact ⟨ha, opensAtMost_of_plain hplain⟩
  | @inside n p opened d hn _ ih =>
      obtain ⟨e', hderives, hopens⟩ := ih
      have hclosed : d.opener :: p ++ a ++ (opened ++ [d]).map Delimiter.closer
          = d.opener :: (p ++ a ++ opened.map Delimiter.closer ++ [d.closer]) := by simp
      rw [hclosed]
      exact ⟨e', .group d d (fun _ => rfl) hderives,
        (opensAtMost_group_of_lt hderives.balanced d d hn).2 hopens⟩
  | first _ ih =>
      obtain ⟨e', hderives, hopens⟩ := ih
      exact ⟨e', .operand hderives, hopens⟩
  | @behind op n s p e₁ opened hs hopens₁ _ _ ih =>
      obtain ⟨e', hderives, hopens⟩ := ih
      rw [List.append_assoc, List.append_assoc, List.cons_append, ← List.append_assoc p]
      exact ⟨.binary op e₁ e', .binary hs hderives,
        (opensAtMost_binary hs.balanced op).2 ⟨hopens₁, hopens⟩⟩

/-! ## Faults -/

/-- A fault of an atom, inside `m` open groups: it ends the reading, whatever stands behind it. -/
inductive Fault (c : Config) (m : Nat) : List Char → ParseError → Prop
  /-- A literal has no value. -/
  | badLiteral {text rest : List Char} {q : Literal.Parts}
      (hl : Literal.longest? text = some (q, rest)) (hx : q.number? = none) :
      Fault c m text (.badLiteral (String.ofList q.text))
  /-- A group is opened where no more may be. -/
  | nestedTooDeep {inside : List Char} (d : Delimiter) (hm : c.maxDepth ≤ m) :
      Fault c m (d.opener :: inside) (.nestedTooDeep c.maxDepth)

/-- A fault is the error of its atom. -/
theorem Fault.reads {m : Nat} (h : Fault c m text err) : Reads c none m text (.error err) := by
  cases h with
  | badLiteral hl hx => exact .badLiteral hl hx
  | nestedTooDeep d hm => exact .nestedTooDeep d hm

/-- The text of a bad literal is the longest literal there, and has no value. -/
theorem Fault.exists_literal {m : Nat} {literal : String}
    (h : Fault c m text (.badLiteral literal)) :
    Literal.LongestLiteral literal.toList text ∧ ∃ q : Literal.Parts,
      q.WellFormed ∧ q.text = literal.toList ∧ q.number? = none := by
  generalize herr : ParseError.badLiteral literal = err at h
  cases h with
  | @badLiteral _ _ q hl hx =>
      obtain rfl := ParseError.badLiteral.inj herr
      rw [String.toList_ofList]
      exact ⟨Literal.longestLiteral_iff.2 ⟨q, _, hl, rfl⟩, q, Literal.wellFormed_of_longest? hl,
        rfl, hx⟩
  | nestedTooDeep d hm => cases herr

/-- A bad literal is one in front of any text that does not lengthen it. -/
theorem Fault.of_longestLiteral {m : Nat} {literal : String} {text' : List Char}
    (h : Fault c m text (.badLiteral literal))
    (hlongest : Literal.LongestLiteral literal.toList text') :
    Fault c m text' (.badLiteral literal) := by
  obtain ⟨-, q, hq, hqtext, hx⟩ := h.exists_literal
  obtain ⟨q', rest, hl, hq'text⟩ := Literal.longestLiteral_iff.1 hlongest
  obtain rfl := (Literal.wellFormed_of_longest? hl).eq_of_text_eq hq (hq'text.trans hqtext.symm)
  have hliteral : literal = String.ofList q'.text := by rw [hqtext, String.ofList_toList]
  rw [hliteral]
  exact .badLiteral hl hx

/-- A group that is opened too deep begins with an opener, where as many groups are open as may
be. -/
theorem Fault.exists_opener {m limit : Nat} (h : Fault c m text (.nestedTooDeep limit)) :
    limit = c.maxDepth ∧ c.maxDepth ≤ m ∧ ∃ (d : Delimiter) (inside : List Char),
      text = d.opener :: inside := by
  cases h with
  | @nestedTooDeep inside d hm => exact ⟨rfl, hm, d, inside, rfl⟩

/-- **Faults end the reading.** An error that is neither an unexpected token nor a tree too deep has
been met as a fault of an atom, behind a text that leads to it. -/
theorem Reads.exists_fault (h : Reads c level n text (.error err))
    (htoken : ∀ r, err ≠ .unexpectedToken r) (htree : ∀ limit, err ≠ .treeTooDeep limit) :
    ∃ p rest opened, text = p ++ rest ∧ Reaches c level n p opened
      ∧ Fault c (opened.length + n) rest err := by
  generalize ho : Except.error err = o at h
  induction h with
  | badLiteral hl hx =>
      obtain rfl := Except.error.inj ho
      exact ⟨[], _, [], rfl, .here, .badLiteral hl hx⟩
  | @nestedTooDeep n inside d hn =>
      obtain rfl := Except.error.inj ho
      refine ⟨[], _, [], rfl, .here, .nestedTooDeep d ?_⟩
      rw [List.length_nil, Nat.zero_add]
      exact hn
  | @inside n _ _ d hn _ ih =>
      obtain ⟨p, rest, opened, rfl, hreaches, hfault⟩ := ih ho
      refine ⟨d.opener :: p, rest, opened ++ [d], rfl, hreaches.inside d hn, ?_⟩
      rw [List.length_append, List.length_singleton, Nat.add_assoc, Nat.add_comm 1 n]
      exact hfault
  | left _ ih =>
      obtain ⟨p, rest, opened, htext, hreaches, hfault⟩ := ih ho
      exact ⟨p, rest, opened, htext, .first hreaches, hfault⟩
  | @right n op text _ e _ h₁ _ _ ih₂ =>
      obtain ⟨s, rfl, hs, hopens, hfits⟩ := h₁.derives rfl
      obtain ⟨p, rest, opened, rfl, hreaches, hfault⟩ := ih₂ ho
      exact ⟨s ++ op.symbol :: p, rest, opened, by simp, .behind hs hopens hfits hreaches, hfault⟩
  | noAtom _ _ => exact absurd (Except.error.inj ho) (htoken _)
  | unclosed _ _ _ _ => exact absurd (Except.error.inj ho) (htoken _)
  | treeTooDeep _ _ _ => exact absurd (Except.error.inj ho) (htree _)
  | _ => cases ho

/-! ## Whole texts -/

/-- The closers of the groups that a text leaves open, from the inside out. -/
def missingClosers (p : String) : String :=
  String.ofList ((openGroups p.toList).map Delimiter.closer)

variable {input : String}

/-- What leads to an atom is accepted with the digit one for the atom and the missing closers, if
its tree is not too deep. -/
theorem Reaches.accepted {p : String} (h : Reaches c (some .additive) 0 p.toList opened) :
    ∃ least, ∀ limit, least ≤ limit →
      ∃ e, parseWith { c with maxTreeDepth := limit } (p ++ "1" ++ missingClosers p) = .ok e := by
  have hplain : ∀ b ∈ ['1'], Plain b := by
    simpa using plain_of_isDigit (c := '1') (by simp [Decimal.isDigit])
  obtain ⟨e, hderives, hopens⟩ := h.exists_derives (derives_one c.strictDelimiters) hplain
  have htoList : (p ++ "1" ++ missingClosers p).toList
      = p.toList ++ ['1'] ++ opened.map Delimiter.closer := by
    rw [missingClosers, h.openGroups_eq]
    simp
  rw [← htoList] at hderives hopens
  exact ⟨e.depth, fun limit hle => ⟨e, parseWith_of_derives hderives hopens (.inr hle)⟩⟩

/-- A fault behind a text that leads to it is the error of the whole. -/
theorem Reaches.parseWith_eq {p rest : String} (h : Reaches c (some .additive) 0 p.toList opened)
    (hfault : Fault c opened.length rest.toList err) : parseWith c (p ++ rest) = .error err := by
  have hreads := h.reads_error hfault.reads
  rw [← String.toList_append] at hreads
  exact parseWith_of_reads_error hreads

/-- An error of a whole text that is neither an unexpected token nor a tree too deep is a fault
behind a text that leads to it. -/
theorem exists_fault_of_parseWith (h : parseWith c input = .error err)
    (htoken : ∀ r, err ≠ .unexpectedToken r) (htree : ∀ limit, err ≠ .treeTooDeep limit) :
    ∃ (p rest : String) (opened : List Delimiter), input = p ++ rest
      ∧ Reaches c (some .additive) 0 p.toList opened ∧ Fault c opened.length rest.toList err := by
  rcases parseWith_eq_error_iff.1 h with hreads | ⟨_, _, -, -, rfl⟩
  · obtain ⟨p, rest, opened, htext, hreaches, hfault⟩ := hreads.exists_fault htoken htree
    refine ⟨String.ofList p, String.ofList rest, opened, ?_, ?_, ?_⟩
    · exact String.toList_injective (by simp [htext])
    · rwa [String.toList_ofList]
    · rwa [String.toList_ofList]
  · exact absurd rfl (htoken _)

/-- **A fault is local.** A literal is refused where an operand can begin: what stands before it is
accepted with the digit one and the missing closers, if its tree is not too deep; it is the longest
literal there, with more than one sign or too great to be finite; and whatever stands behind it, if
it is no part of it, the text is refused for it. The same holds of a group that is opened too deep,
where as many groups are open as may be. -/
theorem fault_is_local (c : Config) (input : String) :
    (∀ literal, parseWith c input = .error (.badLiteral literal) →
        ∃ p t : String, input = p ++ literal ++ t ∧ OperandPlace p.toList
          ∧ (∃ least, ∀ limit, least ≤ limit → ∃ e,
              parseWith { c with maxTreeDepth := limit } (p ++ "1" ++ missingClosers p) = .ok e)
          ∧ Literal.LongestLiteral literal.toList (literal ++ t).toList
          ∧ (∃ q : Literal.Parts, q.WellFormed ∧ q.text = literal.toList
              ∧ (2 ≤ q.signs ∨ q.decimal.nearest.isInfinite = true))
          ∧ ∀ t' : String, Literal.LongestLiteral literal.toList (literal ++ t').toList →
              parseWith c (p ++ literal ++ t') = .error (.badLiteral literal))
      ∧ ∀ limit, parseWith c input = .error (.nestedTooDeep limit) →
          limit = c.maxDepth ∧ ∃ (p t : String) (d : Delimiter),
            input = p ++ String.singleton d.opener ++ t ∧ OperandPlace p.toList
              ∧ (openGroups p.toList).length = c.maxDepth
              ∧ (∃ least, ∀ limit, least ≤ limit → ∃ e,
                  parseWith { c with maxTreeDepth := limit } (p ++ "1" ++ missingClosers p) = .ok e)
              ∧ ∀ t' : String, parseWith c (p ++ String.singleton d.opener ++ t')
                  = .error (.nestedTooDeep c.maxDepth) := by
  constructor
  · intro literal h
    obtain ⟨p, rest, opened, rfl, hreaches, hfault⟩ :=
      exists_fault_of_parseWith h (by simp) (by simp)
    obtain ⟨hlongest, q, hq, hqtext, hx⟩ := hfault.exists_literal
    obtain ⟨t, ht⟩ := hlongest.begins
    obtain rfl : literal ++ String.ofList t = rest := String.toList_injective (by simp [ht])
    refine ⟨p, String.ofList t, String.append_assoc.symm, hreaches.operandPlace, hreaches.accepted,
      hlongest, ⟨q, hq, hqtext, Literal.Parts.number?_eq_none_iff.1 hx⟩, ?_⟩
    intro t' ht'
    rw [String.append_assoc]
    exact hreaches.parseWith_eq (hfault.of_longestLiteral ht')
  · intro limit h
    obtain ⟨p, rest, opened, rfl, hreaches, hfault⟩ :=
      exists_fault_of_parseWith h (by simp) (by simp)
    obtain ⟨rfl, hdepth, d, t, ht⟩ := hfault.exists_opener
    obtain rfl : String.singleton d.opener ++ String.ofList t = rest :=
      String.toList_injective (by simp [ht])
    refine ⟨rfl, p, String.ofList t, d, String.append_assoc.symm, hreaches.operandPlace, ?_,
      hreaches.accepted, ?_⟩
    · have hle := hreaches.length_le (Nat.zero_le _)
      rw [hreaches.openGroups_eq]
      exact Nat.le_antisymm hle hdepth
    · intro t'
      rw [String.append_assoc]
      refine hreaches.parseWith_eq ?_
      rw [String.toList_append, String.toList_singleton]
      exact .nestedTooDeep d hdepth

/-- Two minus signs inside a group, and a group inside a group where one may be open only: what is
wrong behind them does not matter. -/
theorem fault_is_local_in_group :
    parseWith ⟨1, 9, true⟩ "1-(--1(" = .error (.badLiteral "--1")
      ∧ (∃ p t : String, "1-(--1(" = p ++ "--1" ++ t ∧ OperandPlace p.toList
          ∧ ∀ t' : String, Literal.LongestLiteral "--1".toList ("--1" ++ t').toList →
              parseWith ⟨1, 9, true⟩ (p ++ "--1" ++ t') = .error (.badLiteral "--1"))
      ∧ parseWith ⟨1, 9, true⟩ "1-((--1" = .error (.nestedTooDeep 1)
      ∧ ∃ (p t : String) (d : Delimiter), "1-((--1" = p ++ String.singleton d.opener ++ t
          ∧ (openGroups p.toList).length = 1
          ∧ ∀ t' : String, parseWith ⟨1, 9, true⟩ (p ++ String.singleton d.opener ++ t')
              = .error (.nestedTooDeep 1) := by
  -- A one, a minus sign and an opener lead to an atom inside a group.
  have hone : Derives true Operator.sub.tier.tighter ['1'] _ := (derives_one true).of_atom _
  have hinside : Reaches ⟨1, 9, true⟩ (some Operator.sub.tier) 0 ['('] [.round] :=
    .first (.first (.first (.inside .round (by decide) (.first (.first (.first .here))))))
  have hreaches : Reaches ⟨1, 9, true⟩ (some Operator.sub.tier) 0 "1-(".toList [.round] :=
    hinside.behind hone (by decide) (by decide)
  have hlongest : Literal.longest? "--1(".toList = some (⟨2, ['1'], []⟩, ['(']) := by decide
  have hsigns : Fault ⟨1, 9, true⟩ 1 "--1(".toList (.badLiteral "--1") :=
    .badLiteral hlongest (Literal.number?_eq_none_of_signs (by decide))
  have hopener : Fault ⟨1, 9, true⟩ 1 "(--1".toList (.nestedTooDeep 1) :=
    .nestedTooDeep .round (by decide)
  have hbad : parseWith ⟨1, 9, true⟩ "1-(--1(" = .error (.badLiteral "--1") :=
    hreaches.parseWith_eq hsigns
  have hdeep : parseWith ⟨1, 9, true⟩ "1-((--1" = .error (.nestedTooDeep 1) :=
    hreaches.parseWith_eq hopener
  obtain ⟨p, t, htext, hplace, -, -, -, hbehind⟩ :=
    (fault_is_local ⟨1, 9, true⟩ "1-(--1(").1 "--1" hbad
  obtain ⟨-, p', t', d, htext', -, hopen, -, hbehind'⟩ :=
    (fault_is_local ⟨1, 9, true⟩ "1-((--1").2 1 hdeep
  exact ⟨hbad, ⟨p, t, htext, hplace, hbehind⟩, hdeep, p', t', d, htext', hopen, hbehind'⟩

end Parser

end InfixCalc
