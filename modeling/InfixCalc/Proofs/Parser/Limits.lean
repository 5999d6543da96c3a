import Mathlib
import InfixCalc.Proofs.Parser.Acceptance

/-!
# What the limits do

Two parsers that differ in their limits only read a text alike up to the first group or operator
that is too deep for one of them.

Main statements: with greater limits a text is read as before, or a limit had cut the reading off
(`Reads.raise`, and `parseWith_eq_or_cutOff` for whole texts); which of the limits cuts an accepted
text off (`nestedTooDeep_of_accepted`, `treeTooDeep_of_accepted`).
-/

namespace InfixCalc

/-- Two parsers close groups alike, and the first one has no greater limits. -/
structure Config.Tighter (c c' : Config) : Prop where
  delimiters : c.strictDelimiters = c'.strictDelimiters
  depth : c.maxDepth ≤ c'.maxDepth
  treeDepth : c.maxTreeDepth ≤ c'.maxTreeDepth

/-- Whether an error is that of a limit. -/
def ParseError.isLimit : ParseError → Bool
  | nestedTooDeep _ | treeTooDeep _ => true
  | _ => false

namespace Parser

/-- A result is the error of a limit of `c`, of one that is greater in `c'`. -/
def CutOff {α : Type} (c c' : Config) (o : Except ParseError α) : Prop :=
  (o = .error (.nestedTooDeep c.maxDepth) ∧ c.maxDepth < c'.maxDepth)
    ∨ (o = .error (.treeTooDeep c.maxTreeDepth) ∧ c.maxTreeDepth < c'.maxTreeDepth)

/-- What is cut off has no tree. -/
theorem not_cutOff_ok {α : Type} {c c' : Config} {a : α} : ¬ CutOff c c' (.ok a) := by
  simp [CutOff]

/-- What is cut off inside a text is cut off in the whole. -/
theorem CutOff.error {α β : Type} {c c' : Config} {err : ParseError}
    (h : CutOff c c' (.error err : Except ParseError α)) :
    CutOff c c' (.error err : Except ParseError β) := by
  simpa [CutOff] using h

/-! ## Readings -/

/-- **Greater limits.** What a text comes to is the error of a smaller limit, or the same with the
greater limits. -/
theorem Reads.raise {c c' : Config} (hc : c.Tighter c') {level : Option Tier} {n : Nat}
    {text : List Char} {o : Except ParseError (Expr × List Char)} (h : Reads c level n text o) :
    CutOff c c' o ∨ Reads c' level n text o := by
  induction h with
  | literal hl hx => exact .inr (.literal hl hx)
  | badLiteral hl hx => exact .inr (.badLiteral hl hx)
  | noAtom hl ho => exact .inr (.noAtom hl ho)
  | @nestedTooDeep n inside d hn =>
      rcases hc.depth.lt_or_eq with hlt | heq
      · exact .inl (.inl ⟨rfl, hlt⟩)
      · rw [heq] at hn ⊢
        exact .inr (.nestedTooDeep d hn)
  | inside d hn _ ih =>
      rcases ih with hcut | h
      · exact .inl hcut
      · exact .inr (.inside d (hn.trans_le hc.depth) h)
  | unclosed d hn _ hclose ih =>
      rw [hc.delimiters] at hclose
      exact .inr (.unclosed d (hn.trans_le hc.depth) (ih.resolve_left not_cutOff_ok) hclose)
  | group d hn _ hclose ih =>
      rw [hc.delimiters] at hclose
      exact .inr (.group d (hn.trans_le hc.depth) (ih.resolve_left not_cutOff_ok) hclose)
  | left _ ih => exact ih.imp_right .left
  | operand _ hop ih => exact .inr (.operand (ih.resolve_left not_cutOff_ok) hop)
  | right _ _ ih₁ ih₂ => exact ih₂.imp_right (.right (ih₁.resolve_left not_cutOff_ok))
  | treeTooDeep _ _ hd ih₁ ih₂ =>
      rcases hc.treeDepth.lt_or_eq with hlt | heq
      · exact .inl (.inr ⟨rfl, hlt⟩)
      · rw [heq] at hd ⊢
        exact .inr (.treeTooDeep (ih₁.resolve_left not_cutOff_ok)
          (ih₂.resolve_left not_cutOff_ok) hd)
  | binary _ _ hd ih₁ ih₂ =>
      exact .inr (.binary (ih₁.resolve_left not_cutOff_ok) (ih₂.resolve_left not_cutOff_ok)
        (hd.trans hc.treeDepth))

/-- The limit that an error names is that of the parser. -/
theorem Reads.eq_of_isLimit {c : Config} {level : Option Tier} {n : Nat} {text : List Char}
    {err : ParseError} (h : Reads c level n text (.error err)) (hlimit : err.isLimit = true) :
    err = .nestedTooDeep c.maxDepth ∨ err = .treeTooDeep c.maxTreeDepth := by
  generalize ho : Except.error err = o at h
  induction h with
  | nestedTooDeep _ _ => exact .inl (Except.error.inj ho)
  | treeTooDeep _ _ _ => exact .inr (Except.error.inj ho)
  | inside _ _ _ ih => exact ih ho
  | left _ ih => exact ih ho
  | right _ _ _ ih => exact ih ho
  | _ =>
      -- The other rules end with a tree, or with an error of the text itself.
      cases ho <;> cases hlimit

/-! ## Whole texts -/

variable {c c' : Config} {input : String}

/-- With greater limits a text has the same result, or a smaller limit has cut it off. -/
theorem parseWith_eq_or_cutOff (hc : c.Tighter c') (input : String) :
    parseWith c input = parseWith c' input ∨ CutOff c c' (parseWith c input) := by
  obtain ⟨err | ⟨e, rest⟩, h⟩ := exists_reads c (some .additive) 0 input.toList
  · rw [parseWith_of_reads_error h]
    rcases h.raise hc with hcut | h'
    · exact .inr hcut.error
    · exact .inl (parseWith_of_reads_error h').symm
  · have h' := (h.raise hc).resolve_left not_cutOff_ok
    rw [parseWith_of_reads_ok h, parseWith_of_reads_ok h']
    exact .inl rfl

/-- The limit that a parser names in an error is its own. -/
theorem eq_of_parseWith_of_isLimit {err : ParseError} (h : parseWith c input = .error err)
    (hlimit : err.isLimit = true) :
    err = .nestedTooDeep c.maxDepth ∨ err = .treeTooDeep c.maxTreeDepth := by
  rcases parseWith_eq_error_iff.1 h with hreads | ⟨_, _, -, -, rfl⟩
  · exact hreads.eq_of_isLimit hlimit
  · cases hlimit

/-- A text that is refused, but not for a limit, is not accepted within any limits. -/
theorem not_accepted_of_error {err : ParseError} (hs : c'.strictDelimiters = c.strictDelimiters)
    (h : parseWith c input = .error err) (herr : err.isLimit = false) (e : Expr) :
    parseWith c' input ≠ .ok e := by
  intro h'
  -- With limits as great as both parsers have, both of their results would stand.
  let above : Config :=
    ⟨max c.maxDepth c'.maxDepth, max c.maxTreeDepth c'.maxTreeDepth, c.strictDelimiters⟩
  have hc : c.Tighter above := ⟨rfl, Nat.le_max_left _ _, Nat.le_max_left _ _⟩
  have hc' : c'.Tighter above := ⟨hs, Nat.le_max_right _ _, Nat.le_max_right _ _⟩
  have habove : parseWith above input = .error err := by
    rcases parseWith_eq_or_cutOff hc input with heq | hcut
    · rw [← heq, h]
    · rw [h] at hcut
      rcases hcut with ⟨hcut, -⟩ | ⟨hcut, -⟩ <;> cases hcut <;> cases herr
  rcases parseWith_eq_or_cutOff hc' input with heq | hcut
  · rw [h', habove] at heq
    cases heq
  · rw [h'] at hcut
    exact not_cutOff_ok hcut

/-- A text that one parser accepts is accepted within the limits of another. -/
theorem parseWith_of_accepted {e : Expr} (hs : c.strictDelimiters = c'.strictDelimiters)
    (h : parseWith c' input = .ok e) (hopens : OpensAtMost c.maxDepth input.toList)
    (hfits : e.Fits c.maxTreeDepth) : parseWith c input = .ok e := by
  obtain ⟨hderives, -, -⟩ := derives_of_parseWith h
  rw [← hs] at hderives
  exact parseWith_of_derives hderives hopens hfits

/-- Where only the groups of an accepted text are too many, the limit of nesting cuts it off. -/
theorem nestedTooDeep_of_accepted {e : Expr} (hc : c.Tighter c') (h : parseWith c' input = .ok e)
    (hopens : ¬ OpensAtMost c.maxDepth input.toList) (hfits : e.Fits c.maxTreeDepth) :
    parseWith c input = .error (.nestedTooDeep c.maxDepth) := by
  -- The parser between the two has the smaller limit of the tree only, and accepts the text.
  let between : Config := { c' with maxTreeDepth := c.maxTreeDepth }
  have hs : between.strictDelimiters = c'.strictDelimiters := rfl
  have hbetween : parseWith between input = .ok e :=
    parseWith_of_accepted hs h (derives_of_parseWith h).2.1 hfits
  have htighter : c.Tighter between := ⟨hc.delimiters, hc.depth, le_rfl⟩
  rcases parseWith_eq_or_cutOff htighter input with heq | ⟨hcut, -⟩ | ⟨-, hlt⟩
  · exact absurd (derives_of_parseWith (heq.trans hbetween)).2.1 hopens
  · exact hcut
  · exact absurd hlt (lt_irrefl c.maxTreeDepth)

/-- Where only the tree of an accepted text is too deep, the limit of the tree cuts it off. -/
theorem treeTooDeep_of_accepted {e : Expr} (hc : c.Tighter c') (h : parseWith c' input = .ok e)
    (hopens : OpensAtMost c.maxDepth input.toList) (hfits : ¬ e.Fits c.maxTreeDepth) :
    parseWith c input = .error (.treeTooDeep c.maxTreeDepth) := by
  -- The parser between the two has the smaller limit of nesting only, and accepts the text.
  let between : Config := { c' with maxDepth := c.maxDepth }
  have hs : between.strictDelimiters = c'.strictDelimiters := rfl
  have hbetween : parseWith between input = .ok e :=
    parseWith_of_accepted hs h hopens (derives_of_parseWith h).2.2
  have htighter : c.Tighter between := ⟨hc.delimiters, le_rfl, hc.treeDepth⟩
  rcases parseWith_eq_or_cutOff htighter input with heq | ⟨-, hlt⟩ | ⟨hcut, -⟩
  · exact absurd (derives_of_parseWith (heq.trans hbetween)).2.2 hfits
  · exact absurd hlt (lt_irrefl c.maxDepth)
  · exact hcut

/-- A text that a limit cuts off is cut off by the smaller limits too. -/
theorem cut_off_of_isLimit {err : ParseError} (hc : c.Tighter c')
    (h : parseWith c' input = .error err) (hlimit : err.isLimit = true) :
    parseWith c input = .error (.nestedTooDeep c.maxDepth)
      ∨ parseWith c input = .error (.treeTooDeep c.maxTreeDepth) := by
  rcases parseWith_eq_or_cutOff hc input with heq | ⟨hcut, -⟩ | ⟨hcut, -⟩
  · rw [h] at heq
    rw [heq]
    exact (eq_of_parseWith_of_isLimit heq hlimit).imp (congrArg _) (congrArg _)
  · exact .inl hcut
  · exact .inr hcut

/-- **Limits only cut a result off, they never change it.** With smaller limits a text has the same
result or the error of a limit; a text that a limit cuts off is cut off by the smaller limits too;
and an accepted text is accepted within the smaller limits just if they admit its groups and its
tree, and otherwise cut off by the one that does not. -/
theorem limits_only_cut_off (c c' : Config) (hs : c.strictDelimiters = c'.strictDelimiters)
    (hd : c.maxDepth ≤ c'.maxDepth) (ht : c.maxTreeDepth ≤ c'.maxTreeDepth) (input : String) :
    (parseWith c input = parseWith c' input
        ∨ parseWith c input = .error (.nestedTooDeep c.maxDepth)
        ∨ parseWith c input = .error (.treeTooDeep c.maxTreeDepth))
      ∧ (∀ limit, parseWith c' input = .error (.nestedTooDeep limit)
            ∨ parseWith c' input = .error (.treeTooDeep limit) →
          parseWith c input = .error (.nestedTooDeep c.maxDepth)
            ∨ parseWith c input = .error (.treeTooDeep c.maxTreeDepth))
      ∧ ∀ e, parseWith c' input = .ok e →
          (parseWith c input = .ok e
              ↔ OpensAtMost c.maxDepth input.toList ∧ e.Fits c.maxTreeDepth)
            ∧ (¬ OpensAtMost c.maxDepth input.toList → e.Fits c.maxTreeDepth →
                parseWith c input = .error (.nestedTooDeep c.maxDepth))
            ∧ (OpensAtMost c.maxDepth input.toList → ¬ e.Fits c.maxTreeDepth →
                parseWith c input = .error (.treeTooDeep c.maxTreeDepth)) := by
  have hc : c.Tighter c' := ⟨hs, hd, ht⟩
  refine ⟨?_, ?_, fun e h => ⟨⟨?_, ?_⟩, ?_, ?_⟩⟩
  · rcases parseWith_eq_or_cutOff hc input with heq | ⟨hcut, -⟩ | ⟨hcut, -⟩
    · exact .inl heq
    · exact .inr (.inl hcut)
    · exact .inr (.inr hcut)
  · rintro limit (h | h)
    · exact cut_off_of_isLimit hc h rfl
    · exact cut_off_of_isLimit hc h rfl
  · intro h'
    exact (derives_of_parseWith h').2
  · rintro ⟨hopens, hfits⟩
    exact parseWith_of_accepted hs h hopens hfits
  · exact nestedTooDeep_of_accepted hc h
  · exact treeTooDeep_of_accepted hc h

/-- A one less than a one in two groups, which each of two smaller limits cuts off by itself. -/
theorem limits_cut_off_one_sub_one :
    parseWith ⟨2, 9, false⟩ "1-((1))"
        = .ok (.binary .sub (.value ⟨0x3ff0000000000000⟩) (.value ⟨0x3ff0000000000000⟩))
      ∧ parseWith ⟨1, 2, false⟩ "1-((1))" = .error (.nestedTooDeep 1)
      ∧ parseWith ⟨2, 1, false⟩ "1-((1))" = .error (.treeTooDeep 1) := by
  have hinner := Derives.group .round .round (fun _ => rfl) ((derives_one false).of_atom _)
  have hgroups := Derives.group .round .round (fun _ => rfl) (hinner.of_atom _)
  have hderives : Derives false (some Operator.sub.tier) "1-((1))".toList _ :=
    .binary ((derives_one false).of_atom _) (hgroups.of_atom _)
  have haccepted := parseWith_of_derives (c := ⟨2, 9, false⟩) hderives (by decide) (by decide)
  refine ⟨haccepted, ?_, ?_⟩
  · exact ((limits_only_cut_off ⟨1, 2, false⟩ ⟨2, 9, false⟩ rfl (by decide) (by decide) _).2.2 _
      haccepted).2.1 (by decide) (by decide)
  · exact ((limits_only_cut_off ⟨2, 1, false⟩ ⟨2, 9, false⟩ rfl (by decide) (by decide) _).2.2 _
      haccepted).2.2 (by decide) (by decide)

end Parser

end InfixCalc
