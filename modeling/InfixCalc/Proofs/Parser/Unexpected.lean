import Mathlib
import InfixCalc.Proofs.Parser.Limits

/-!
# Where a text stops following the grammar

An error that names an unexpected token carries the text from the point of failure on. That point is
the right one from both sides: what stands before it can be completed to an expression, and what
stands behind it cannot be part of one, however the text goes on, unless the text had simply not
gone on far enough.

Main statements: the text before the point of failure is the beginning of an expression
(`Reads.viable`), and more text behind a failure does not repair it (`Reads.error_append`); both
hold of whole texts too, the second one within any limits.
-/

namespace InfixCalc

namespace Parser

variable {c : Config} {level : Option Tier} {n : Nat} {text : List Char}
  {o : Except ParseError (Expr × List Char)}

/-! ## Before the point of failure -/

/-- A text begins an expression of a level, which opens no more groups than are allowed inside `n`
open ones. -/
def Viable (c : Config) (level : Option Tier) (n : Nat) (p : List Char) : Prop :=
  ∃ q e, Derives c.strictDelimiters level (p ++ q) e ∧ OpensAtMost (c.maxDepth - n) (p ++ q)

/-- The empty text begins an atom. -/
theorem viable_nil (c : Config) (n : Nat) : Viable c none n [] := by
  refine ⟨['1'], _, derives_one c.strictDelimiters, opensAtMost_of_plain ?_⟩
  simpa using plain_of_isDigit (c := '1') (by simp [Decimal.isDigit])

/-- An expression begins an expression, with nothing left to add. -/
theorem viable_of_derives {s : List Char} {e : Expr} (h : Derives c.strictDelimiters level s e)
    (hopens : OpensAtMost (c.maxDepth - n) s) : Viable c level n s := by
  refine ⟨[], e, ?_⟩
  rw [List.append_nil]
  exact ⟨h, hopens⟩

/-- What begins an operand begins an expression. -/
theorem Viable.operand {t : Tier} {p : List Char} (h : Viable c t.tighter n p) :
    Viable c (some t) n p := by
  obtain ⟨q, e, hderives, hopens⟩ := h
  exact ⟨q, e, .operand hderives, hopens⟩

/-- An opener and what begins an expression begin a group. -/
theorem Viable.group {p : List Char} (h : Viable c (some .additive) (n + 1) p) (d : Delimiter)
    (hn : n < c.maxDepth) : Viable c none n (d.opener :: p) := by
  obtain ⟨q, e, hderives, hopens⟩ := h
  have hclosed : d.opener :: p ++ (q ++ [d.closer]) = d.opener :: (p ++ q ++ [d.closer]) := by simp
  refine ⟨q ++ [d.closer], e, ?_, ?_⟩
  · rw [hclosed]
    exact .group d d (fun _ => rfl) hderives
  · rw [hclosed]
    exact (opensAtMost_group_of_lt hderives.balanced d d hn).2 hopens

/-- An operand, an operator and what begins an expression of the tier begin such an expression. -/
theorem Viable.behind {op : Operator} {s p : List Char} {e : Expr}
    (h : Viable c (some op.tier) n p) (hs : Derives c.strictDelimiters op.tier.tighter s e)
    (hopens : OpensAtMost (c.maxDepth - n) s) :
    Viable c (some op.tier) n (s ++ op.symbol :: p) := by
  obtain ⟨q, e', hderives, hopens'⟩ := h
  refine ⟨q, .binary op e e', ?_, ?_⟩
  · rw [List.append_assoc]
    exact .binary hs hderives
  · rw [List.append_assoc]
    exact (opensAtMost_binary hs.balanced op).2 ⟨hopens, hopens'⟩

/-- **Viable prefixes.** What stands before an unexpected token begins an expression of the
level. -/
theorem Reads.viable (h : Reads c level n text o) :
    ∀ {r : String}, o = .error (.unexpectedToken r) →
      ∃ p, text = p ++ r.toList ∧ Viable c level n p := by
  induction h with
  | @noAtom n text hl ho =>
      rintro _ ⟨⟩
      exact ⟨[], by simp, viable_nil c n⟩
  | inside d hn _ ih =>
      intro r hr
      obtain ⟨p, rfl, hp⟩ := ih hr
      exact ⟨d.opener :: p, rfl, hp.group d hn⟩
  | unclosed d hn h _ _ =>
      rintro _ ⟨⟩
      -- The expression inside is complete, so that nothing but a closer is missing.
      obtain ⟨s, rfl, hderives, hopens, -⟩ := h.derives rfl
      exact ⟨d.opener :: s, by simp, (viable_of_derives hderives hopens).group d hn⟩
  | left _ ih =>
      intro r hr
      obtain ⟨p, htext, hp⟩ := ih hr
      exact ⟨p, htext, hp.operand⟩
  | @right n op text rest e err h₁ _ _ ih₂ =>
      intro r hr
      obtain ⟨s, rfl, hs, hopens, -⟩ := h₁.derives rfl
      obtain ⟨p, rfl, hp⟩ := ih₂ hr
      exact ⟨s ++ op.symbol :: p, by simp, hp.behind hs hopens⟩
  | _ => simp

/-! ## Behind the point of failure -/

/-- The symbol of an operator leaves what stands before it as it is. -/
theorem settled_symbol (op : Operator) (rest : List Char) :
    Literal.Settled (op.symbol :: rest) :=
  ⟨List.cons_ne_nil _ _, fun h => symbol_ne_point op (List.cons.inj h).1⟩

/-- A closer leaves what stands before it as it is. -/
theorem settled_closer (d : Delimiter) (rest : List Char) : Literal.Settled (d.closer :: rest) :=
  ⟨List.cons_ne_nil _ _, fun h => closer_ne_point d (List.cons.inj h).1⟩

/-- More text behind what is read, and what is left, changes nothing about what is read. -/
theorem Reads.ok_append (h : Reads c level n text o) :
    ∀ {e rest}, o = .ok (e, rest) → Literal.Settled rest → ∀ more,
      Reads c level n (text ++ more) (.ok (e, rest ++ more)) := by
  induction h with
  | literal hl hx =>
      rintro _ _ ⟨⟩ hs more
      exact .literal (Literal.longest?_append hl hs more) hx
  | @group n inside rest last e d hn _ hc ih =>
      rintro _ _ ⟨⟩ - more
      obtain ⟨closing, rfl, -⟩ := Delimiter.closes_eq_true_iff.1 hc
      exact .group d hn (ih rfl (settled_closer closing rest) more) hc
  | operand _ hop ih =>
      rintro _ _ ⟨⟩ hs more
      refine .operand (ih rfl hs more) fun op ht => ?_
      rw [List.head?_append_of_ne_nil _ hs.1]
      exact hop op ht
  | @binary n op text rest rest' e₁ e₂ _ _ hd ih₁ ih₂ =>
      rintro _ _ ⟨⟩ hs more
      exact .binary (ih₁ rfl (settled_symbol op rest) more) (ih₂ rfl hs more) hd
  | _ => rintro _ _ ⟨⟩

/-- A text from the point of failure on does not just end too early: it is neither empty nor a sign
or a point alone. -/
structure Lasting (rest : List Char) : Prop where
  settled : Literal.Settled rest
  ne_sign : rest ≠ ['-']

/-- Where no atom stands, none will stand there when the text goes on, a sign alone apart. -/
theorem reads_noAtom_append (hl : Literal.longest? text = none)
    (ho : ∀ d : Delimiter, text.head? ≠ some d.opener) (hlast : Lasting text) (more : List Char) :
    ∃ err, Reads c none n (text ++ more) (.error err) ∧ err.isLimit = false := by
  rcases hl' : Literal.longest? (text ++ more) with _ | ⟨p, rest⟩
  · refine ⟨_, .noAtom hl' fun d => ?_, rfl⟩
    rw [List.head?_append_of_ne_nil _ hlast.settled.1]
    exact ho d
  · -- The text was signs alone, more than one, so that the literal has no value.
    obtain ⟨signs, rfl, hle⟩ := Literal.eq_signs_of_longest?_append hl hl'
    have hsigns : 1 < signs := by
      rcases signs with _ | _ | signs
      · exact absurd rfl hlast.settled.1
      · exact absurd rfl hlast.ne_sign
      · omega
    exact ⟨_, .badLiteral hl' (Literal.number?_eq_none_of_signs (hsigns.trans_le hle)), rfl⟩

/-- **More text behind a failure does not repair it.** -/
theorem Reads.error_append (h : Reads c level n text o) :
    ∀ {r : String}, o = .error (.unexpectedToken r) → Lasting r.toList → ∀ more,
      ∃ err, Reads c level n (text ++ more) (.error err) ∧ err.isLimit = false := by
  induction h with
  | noAtom hl ho =>
      rintro _ ⟨⟩ hlast more
      rw [String.toList_ofList] at hlast
      exact reads_noAtom_append hl ho hlast more
  | inside d hn _ ih =>
      intro r hr hlast more
      obtain ⟨err', h', herr⟩ := ih hr hlast more
      exact ⟨err', .inside d hn h', herr⟩
  | @unclosed n inside rest e d hn h hc _ =>
      rintro _ ⟨⟩ hlast more
      rw [String.toList_ofList] at hlast
      refine ⟨_, .unclosed d hn (h.ok_append rfl hlast.settled more) fun last hhead => ?_, rfl⟩
      rw [List.head?_append_of_ne_nil _ hlast.settled.1] at hhead
      exact hc last hhead
  | left _ ih =>
      intro r hr hlast more
      obtain ⟨err', h', herr⟩ := ih hr hlast more
      exact ⟨err', .left h', herr⟩
  | @right n op text rest e err h₁ _ _ ih₂ =>
      intro r hr hlast more
      obtain ⟨err', h', herr⟩ := ih₂ hr hlast more
      exact ⟨err', .right (h₁.ok_append rfl (settled_symbol op rest) more) h', herr⟩
  | _ => simp

/-! ## Whole texts -/

variable {input r : String}

/-- What stands before an unexpected token in a text begins a text that is accepted, if its tree is
not too deep. -/
theorem viable_of_unexpected (h : parseWith c input = .error (.unexpectedToken r)) :
    ∃ p : String, input = p ++ r ∧ ∃ (q : String) (e : Expr), ∀ limit, e.depth ≤ limit →
      parseWith { c with maxTreeDepth := limit } (p ++ q) = .ok e := by
  have hviable : ∃ p, input.toList = p ++ r.toList ∧ Viable c (some .additive) 0 p := by
    rcases parseWith_eq_error_iff.1 h with hreads | ⟨e, rest, hreads, -, hr⟩
    · exact hreads.viable rfl
    · -- A whole expression stands before what is left.
      obtain ⟨s, hs, hderives, hopens, -⟩ := hreads.derives rfl
      obtain rfl : r = String.ofList rest := by simpa [unexpected] using hr
      rw [String.toList_ofList]
      exact ⟨s, hs, viable_of_derives hderives hopens⟩
  obtain ⟨p, htext, q, e, hderives, hopens⟩ := hviable
  refine ⟨String.ofList p, String.toList_injective (by simp [htext]), String.ofList q, e, ?_⟩
  -- A derivation knows nothing of limits, so every limit that the tree fits in will do.
  intro limit hdepth
  have htoList : (String.ofList p ++ String.ofList q).toList = p ++ q := by simp
  exact parseWith_of_derives (by rwa [htoList]) (by rwa [htoList]) (Expr.fits_of_depth_le hdepth)

/-- A text that is refused for an unexpected token is refused however it goes on, and not for a
limit, unless it ends too early. -/
theorem parseWith_append_of_unexpected (h : parseWith c input = .error (.unexpectedToken r))
    (hlast : Lasting r.toList) (more : String) :
    ∃ err, parseWith c (input ++ more) = .error err ∧ err.isLimit = false := by
  have htoList : (input ++ more).toList = input.toList ++ more.toList := by simp
  rcases parseWith_eq_error_iff.1 h with hreads | ⟨e, rest, hreads, hne, hr⟩
  · obtain ⟨err, h', herr⟩ := hreads.error_append rfl hlast more.toList
    rw [← htoList] at h'
    exact ⟨err, parseWith_of_reads_error h', herr⟩
  · obtain rfl : r = String.ofList rest := by simpa [unexpected] using hr
    rw [String.toList_ofList] at hlast
    have h' := hreads.ok_append rfl hlast.settled more.toList
    rw [← htoList] at h'
    refine ⟨unexpected (rest ++ more.toList), ?_, rfl⟩
    rw [parseWith_of_reads_ok h', if_neg (by simp [hne])]

/-- **The position of an unexpected token.** What stands before it begins a text that is accepted,
if the tree is not too deep; and unless the text just ends too early, with nothing, a sign or a
point from there on, no text that begins with it is accepted within any limits. -/
theorem exists_viable_of_unexpected (c : Config) (input r : String)
    (h : parseWith c input = .error (.unexpectedToken r)) :
    ∃ p : String, input = p ++ r
      ∧ (∃ (q : String) (least : Nat), ∀ limit, least ≤ limit →
          ∃ e, parseWith { c with maxTreeDepth := limit } (p ++ q) = .ok e)
      ∧ (r ≠ "" → r ≠ "-" → r ≠ "." →
          ∀ (more : String) (c' : Config), c'.strictDelimiters = c.strictDelimiters →
            ∀ e, parseWith c' (input ++ more) ≠ .ok e) := by
  obtain ⟨p, hp, q, e, haccepts⟩ := viable_of_unexpected h
  refine ⟨p, hp, ⟨q, e.depth, fun limit hle => ⟨e, haccepts limit hle⟩⟩, ?_⟩
  intro hempty hsign hpoint more c' hs e'
  have hlast : Lasting r.toList := by
    refine ⟨⟨?_, ?_⟩, ?_⟩
    · simpa using hempty
    · exact fun hr => hpoint (String.toList_injective hr)
    · exact fun hr => hsign (String.toList_injective hr)
  obtain ⟨err, herr, hlimit⟩ := parseWith_append_of_unexpected h hlast more
  exact not_accepted_of_error hs herr hlimit e'

/-- Where delimiters are strict, the other kind of closer is unexpected: what stands before it can
still be completed, but nothing behind it helps. -/
theorem exists_viable_of_other_closer :
    parseWith ⟨1, 9, true⟩ "(1]" = .error (.unexpectedToken "]")
      ∧ ∃ p : String, "(1]" = p ++ "]"
        ∧ (∃ (q : String) (least : Nat), ∀ limit, least ≤ limit →
            ∃ e, parseWith ⟨1, limit, true⟩ (p ++ q) = .ok e)
        ∧ ∀ (more : String) (c' : Config), c'.strictDelimiters = true →
            ∀ e, parseWith c' ("(1]" ++ more) ≠ .ok e := by
  have h : parseWith ⟨1, 9, true⟩ "(1]" = .error (.unexpectedToken "]") := by cbv
  obtain ⟨p, hp, hviable, hrefused⟩ := exists_viable_of_unexpected ⟨1, 9, true⟩ "(1]" "]" h
  exact ⟨h, p, hp, hviable, hrefused (by decide) (by decide) (by decide)⟩

end Parser

end InfixCalc
