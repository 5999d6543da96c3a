import Mathlib
import InfixCalc.Proofs.Parser.Calls
import InfixCalc.Proofs.Parser.ChainTree
import InfixCalc.Proofs.Parser.Limits

/-!
# When the tree is too deep

The depth of a tree is checked where a chain has been read to its end and is folded. What is wrong
inside a chain comes before the chain is folded, so it is reported instead of the depth; what is
wrong behind the chain is never come to.

The parser is compared with one whose limit of the tree is not reached. As long as no chain that
this one reads to its end is too deep for the smaller limit, both read alike; at the first that is,
the parser with the smaller limit stops.

Main statement: a text is refused for its tree just if the parser without that limit reads some
chain to its end that is too deep, and otherwise both have one result
(`tree_too_deep_at_end_of_chain`).
-/

namespace InfixCalc

/-- The same settings with another limit of the tree. -/
def Config.withTreeDepth (c : Config) (limit : Nat) : Config := { c with maxTreeDepth := limit }

/-! ## Trees and the texts they stand for -/

/-- A tree has no more levels than leaves. -/
theorem Expr.depth_le_length_leaves (e : Expr) : e.depth ≤ e.leaves.length := by
  induction e with
  | value x => exact le_rfl
  | binary op left right ihLeft ihRight =>
      -- The operand that is not the deeper one has a leaf, too.
      have hleft := left.depth_pos
      have hright := right.depth_pos
      rw [depth, leaves, List.length_append]
      omega

/-- A tree takes two characters for each leaf but the first, and one for that. -/
theorem Derives.two_mul_leaves_le {strict : Bool} {level : Option Tier} {s : List Char} {e : Expr}
    (h : Derives strict level s e) : 2 * e.leaves.length ≤ s.length + 1 := by
  induction h with
  | literal h =>
      have hpos := List.length_pos_iff.2 h.wellFormed.endsOperand.ne_nil
      rw [Expr.leaves, List.length_singleton]
      omega
  | group opened closing hkind h ih =>
      simp only [List.length_append, List.length_cons]
      omega
  | operand h ih => exact ih
  | binary h₁ h₂ ih₁ ih₂ =>
      rw [Expr.leaves, List.length_append, List.length_append, List.length_cons]
      omega

/-- A tree takes two characters for each level but the first, and one for that. -/
theorem Derives.two_mul_depth_le {strict : Bool} {level : Option Tier} {s : List Char} {e : Expr}
    (h : Derives strict level s e) : 2 * e.depth ≤ s.length + 1 :=
  (Nat.mul_le_mul_left 2 e.depth_le_length_leaves).trans h.two_mul_leaves_le

namespace Parser

variable {c c' : Config} {level : Option Tier} {t : Tier} {n limit : Nat} {text : List Char}
  {input : String} {err : ParseError}

/-- Where a tree is too deep, the text is longer than two characters for each level allowed. -/
theorem Reads.length_of_treeTooDeep {o : Except ParseError (Expr × List Char)}
    (h : Reads c level n text o) (ho : o = .error (.treeTooDeep limit)) :
    2 * c.maxTreeDepth < text.length := by
  induction h with
  | inside _ _ _ ih => exact (ih ho).trans (Nat.lt_succ_self _)
  | left _ ih => exact ih ho
  | right h₁ _ _ ih =>
      obtain ⟨s, rfl, -⟩ := h₁.derives rfl
      refine (ih ho).trans_le ?_
      simp only [List.length_append, List.length_cons]
      omega
  | @treeTooDeep n op text rest rest' e₁ e₂ h₁ h₂ hd _ _ =>
      obtain ⟨s₁, rfl, hderives₁, -⟩ := h₁.derives rfl
      obtain ⟨s₂, rfl, hderives₂, -⟩ := h₂.derives rfl
      have hdepth := (Derives.binary hderives₁ hderives₂).two_mul_depth_le
      simp only [List.length_append, List.length_cons] at hdepth ⊢
      omega
  | _ => cases ho

/-- The limit of the tree is not reached: no text is refused for the depth of a tree. -/
def TreeLimitUnreached (c : Config) (input : String) : Prop :=
  ∀ limit, parseWith c input ≠ .error (.treeTooDeep limit)

/-- A limit of half the length of a text is not reached. -/
theorem treeLimitUnreached_of_length (h : input.toList.length ≤ 2 * c.maxTreeDepth) :
    TreeLimitUnreached c input := by
  intro limit herr
  rcases parseWith_eq_error_iff.1 herr with hreads | ⟨_, _, -, -, hunexpected⟩
  · exact absurd (hreads.length_of_treeTooDeep rfl) h.not_gt
  · cases hunexpected

/-! ## Errors of the readers -/

/-- A reader fails on a text with an error. -/
def Reader.Fails (c : Config) (n : Nat) (text : List Char) (err : ParseError) : Reader → Prop
  | .tier t => Parser.tier c t n text = .error err
  | .links t => Parser.links c t n text = .error err
  | .operand t => Parser.operand c t n text = .error err
  | .atom => Parser.atom c n text = .error err
  | .group => Parser.group c n text = .error err

/-- **No error is overtaken.** The error of a reader that the parser calls is the error of the
parser: whoever has called the reader fails with it, too. -/
theorem Calls.parseWith_eq_error {reader : Reader} (h : Calls c input.toList reader n text)
    (herr : reader.Fails c n text err) : parseWith c input = .error err := by
  induction h with
  | start =>
      rw [Reader.Fails] at herr
      rw [parseWith, herr]
  | made _ hmakes ih =>
      refine ih ?_
      cases hmakes with
      | first =>
          rw [Reader.Fails] at herr
          rw [Reader.Fails, tier, herr]
      | links hfirst =>
          rw [Reader.Fails] at herr
          rw [Reader.Fails, tier, hfirst]
          simp only [herr]
      | next hop =>
          rw [Reader.Fails] at herr
          rw [Reader.Fails, Parser.links, hop]
          simp only [herr]
      | more hop hnext =>
          rw [Reader.Fails] at herr
          rw [Reader.Fails, Parser.links, hop]
          simp only [hnext, herr]
      | tighter ht =>
          rw [Reader.Fails] at herr
          rw [Reader.Fails, operand_eq, ht]
          exact herr
      | atom ht =>
          rw [Reader.Fails] at herr
          rw [Reader.Fails, operand_eq, ht]
          exact herr
      | group hl =>
          rw [Reader.Fails] at herr
          rw [Reader.Fails, Parser.atom, hl]
          exact herr
      | inside ho hn =>
          rw [Reader.Fails] at herr
          rw [Reader.Fails, Parser.group]
          simp only [ho, if_neg (Nat.not_le_of_lt hn), herr]

/-! ## Chains under two limits -/

/-- A chain that is not folded is too deep. -/
theorem eq_treeTooDeep_of_foldRight {first : Node} {links : List Link}
    (h : foldRight limit first links = .error err) : err = .treeTooDeep limit := by
  rw [foldRight_eq] at h
  split at h
  · exact (Except.error.inj h).symm
  · cases h

/-- A chain that is folded is folded alike under another limit that its depth is within. -/
theorem foldRight_of_depth_le {limit' : Nat} {first node : Node} {links : List Link}
    (h : foldRight limit' first links = .ok node) (hle : links = [] ∨ node.depth ≤ limit) :
    foldRight limit first links = .ok node := by
  rw [foldRight_eq] at h ⊢
  split at h
  · cases h
  · obtain rfl := Except.ok.inj h
    rw [if_neg]
    rintro ⟨hpos, hdeep⟩
    rcases hle with rfl | hle
    · exact absurd hpos (Nat.lt_irrefl 0)
    · exact hdeep.not_ge hle

/-- A chain that is folded to a tree that fits is folded alike under that limit. -/
theorem foldRight_of_fits {limit' : Nat} {first node : Node} {links : List Link}
    (h : foldRight limit' first links = .ok node) (hnode : node = .ofTree node.tree)
    (hfits : node.tree.Fits limit) : foldRight limit first links = .ok node := by
  refine foldRight_of_depth_le h ?_
  cases links with
  | nil => exact .inl rfl
  | cons link links =>
      have hdepth : node.depth = node.tree.depth := congrArg Node.depth hnode
      obtain ⟨right, -, -, rfl⟩ := foldRight_cons_eq_ok_iff.1 h
      exact .inr (hdepth.trans_le (Expr.fits_binary.1 hfits))

/-! ## Reading alike -/

/-- On a text, all chains that the parser with the other limit reads to their end are folded alike
within its own. -/
def FoldsAlike (c : Config) (limit : Nat) (input : List Char) : Prop :=
  ∀ {t n text} {first : Reading Node text} {rest : Scan (List Link) first.rest},
    Calls (c.withTreeDepth limit) input (.tier t) n text →
    operand (c.withTreeDepth limit) t n text = .ok first →
    links (c.withTreeDepth limit) t n first.rest = .ok rest →
      foldRight c.maxTreeDepth first.value rest.value = foldRight limit first.value rest.value

mutual

/-- **Reading alike.** Where all chains are folded alike, an expression of a tier that the parser
comes to under the other limit is read alike under its own. -/
theorem tier_withTreeDepth {input : List Char} (hfold : FoldsAlike c limit input) {t : Tier}
    {n : Nat} {text : List Char} (h : Calls (c.withTreeDepth limit) input (.tier t) n text) :
    tier c t n text = tier (c.withTreeDepth limit) t n text := by
  rw [tier, tier, operand_withTreeDepth hfold (h.made .first)]
  cases hfirst : operand (c.withTreeDepth limit) t n text with
  | error err => rfl
  | ok first =>
      simp only
      rw [links_withTreeDepth hfold (h.made (.links hfirst))]
      cases hrest : links (c.withTreeDepth limit) t n first.rest with
      | error err => rfl
      | ok rest =>
          simp only
          rw [hfold h hfirst hrest]
          rfl
termination_by (text.length, 3 * t.looseness + 4)
decreasing_by
  · exact Prod.Lex.right _ (by omega)
  · exact Prod.Lex.left _ _ first.shorter

/-- Links come to the same, too. -/
theorem links_withTreeDepth {input : List Char} (hfold : FoldsAlike c limit input) {t : Tier}
    {n : Nat} {text : List Char} (h : Calls (c.withTreeDepth limit) input (.links t) n text) :
    links c t n text = links (c.withTreeDepth limit) t n text := by
  rw [links.eq_1 c, links.eq_1 (c.withTreeDepth limit)]
  cases hop : operator t text with
  | none => rfl
  | some op =>
      simp only
      rw [operand_withTreeDepth hfold (h.made (.next hop))]
      cases hnext : operand (c.withTreeDepth limit) t n op.rest with
      | error err => rfl
      | ok next =>
          simp only
          rw [links_withTreeDepth hfold (h.made (.more hop hnext))]
termination_by (text.length, 3 * t.looseness + 3)
decreasing_by
  · exact Prod.Lex.left _ _ op.shorter
  · exact Prod.Lex.left _ _ (Nat.lt_trans next.shorter op.shorter)

/-- An operand comes to the same, too. -/
theorem operand_withTreeDepth {input : List Char} (hfold : FoldsAlike c limit input) {t : Tier}
    {n : Nat} {text : List Char} (h : Calls (c.withTreeDepth limit) input (.operand t) n text) :
    operand c t n text = operand (c.withTreeDepth limit) t n text := by
  rw [operand_eq, operand_eq]
  cases ht : t.tighter with
  | some tighter => exact tier_withTreeDepth hfold (h.made (.tighter ht))
  | none => exact atom_withTreeDepth hfold (h.made (.atom ht))
termination_by (text.length, 3 * t.looseness + 2)
decreasing_by
  · exact Prod.Lex.right _ (by omega)
  · exact Prod.Lex.right _ (by have := Tier.looseness_eq_of_tighter ht; omega)

/-- An atom comes to the same, too. -/
theorem atom_withTreeDepth {input : List Char} (hfold : FoldsAlike c limit input) {n : Nat}
    {text : List Char} (h : Calls (c.withTreeDepth limit) input .atom n text) :
    atom c n text = atom (c.withTreeDepth limit) n text := by
  rw [atom, atom]
  cases hl : Literal.read text with
  | absent rest => exact group_withTreeDepth hfold (h.made (.group hl))
  | refused literal => rfl
  | read number => rfl
termination_by (text.length, 1)
decreasing_by
  · exact Prod.Lex.right _ Nat.one_pos

/-- A group comes to the same, too. -/
theorem group_withTreeDepth {input : List Char} (hfold : FoldsAlike c limit input) {n : Nat} :
    {text : List Char} → Calls (c.withTreeDepth limit) input .group n text →
      group c n text = group (c.withTreeDepth limit) n text
  | [], _ => by rw [group, group]
  | first :: inside, h => by
      rw [group, group]
      cases ho : Delimiter.ofOpener? first with
      | none => rfl
      | some d =>
          simp only
          split
          · next hn => exact (if_pos hn).symm
          · next hn =>
            rw [tier_withTreeDepth hfold (h.made (.inside ho (Nat.lt_of_not_le hn)))]
            exact (if_neg hn).symm
termination_by text => (text.length, 0)
decreasing_by
  · exact Prod.Lex.left _ _ (Nat.lt_succ_self inside.length)

end

/-! ## The parser with the smaller limit stops -/

/-- Of two parsers that differ in the limit of the tree, the one with the smaller limit reads what
the other one reads, or finds it too deep. -/
theorem eq_ok_or_treeTooDeep (hc : c.Tighter c') (hd : c.maxDepth = c'.maxDepth)
    {x x' : Except ParseError (Reading Node text)} (h : Follows c level n text (x.map seenNode))
    (h' : Follows c' level n text (x'.map seenNode)) {r : Reading Node text} (hr : x' = .ok r) :
    x = .ok r ∨ x = .error (.treeTooDeep c.maxTreeDepth) := by
  subst hr
  cases x with
  | error err =>
      rcases Reads.raise hc h with (⟨-, hlt⟩ | ⟨herr, -⟩) | hreads
      · exact absurd hd hlt.ne
      · exact .inr (congrArg Except.error (Except.error.inj herr))
      · cases hreads.unique h'.1
  | ok s =>
      left
      have hreads := (h.1.raise hc).resolve_left not_cutOff_ok
      obtain ⟨htree, hrest⟩ := Prod.mk.inj (Except.ok.inj (hreads.unique h'.1))
      have hvalue : s.value = r.value := h.2.trans ((congrArg Node.ofTree htree).trans h'.2.symm)
      obtain ⟨value, rest, hlt⟩ := s
      obtain ⟨value', rest', hlt'⟩ := r
      obtain rfl : value = value' := hvalue
      obtain rfl : rest = rest' := hrest
      rfl

/-- What the parser calls with a greater limit it calls with the smaller one, too, unless it has
found something too deep before. -/
theorem Calls.of_withTreeDepth (hle : c.maxTreeDepth ≤ limit) {reader : Reader}
    (h : Calls (c.withTreeDepth limit) input.toList reader n text) :
    Calls c input.toList reader n text
      ∨ parseWith c input = .error (.treeTooDeep c.maxTreeDepth) := by
  have hc : c.Tighter (c.withTreeDepth limit) := ⟨rfl, le_rfl, hle⟩
  have hoperand : ∀ {t n text} {r : Reading Node text}, Calls c input.toList (.operand t) n text →
      operand (c.withTreeDepth limit) t n text = .ok r →
      operand c t n text = .ok r ∨ parseWith c input = .error (.treeTooDeep c.maxTreeDepth) := by
    intro t n text r hcall hr
    refine (eq_ok_or_treeTooDeep hc rfl (operand_follows c t n text)
      (operand_follows _ t n text) hr).imp_right ?_
    exact fun herr => hcall.parseWith_eq_error herr
  induction h with
  | start => exact .inl .start
  | made _ hmakes ih =>
      rcases ih with h | herr
      · cases hmakes with
        | first => exact .inl (h.made .first)
        | links hfirst =>
            exact (hoperand (h.made .first) hfirst).imp_left fun hr => h.made (.links hr)
        | next hop => exact .inl (h.made (.next hop))
        | more hop hnext =>
            exact (hoperand (h.made (.next hop)) hnext).imp_left fun hr => h.made (.more hop hr)
        | tighter ht => exact .inl (h.made (.tighter ht))
        | atom ht => exact .inl (h.made (.atom ht))
        | group hl => exact .inl (h.made (.group hl))
        | inside ho hn => exact .inl (h.made (.inside ho hn))
      · exact .inr herr

/-! ## Whole texts -/

/-- Reading a text, the parser reads some chain to its end that has an operator in a tree of more
than `limit` levels. -/
def ReadsTooDeep (c : Config) (limit : Nat) (input : String) : Prop :=
  ∃ (t : Tier) (n : Nat) (text : List Char) (r : Reading Node text),
    Calls c input.toList (.tier t) n text ∧ tier c t n text = .ok r ∧ ¬ r.value.tree.Fits limit

/-- Where the other limit is not reached and no chain is too deep, all chains are folded alike. -/
theorem foldsAlike (hunreached : TreeLimitUnreached (c.withTreeDepth limit) input)
    (h : ¬ ReadsTooDeep (c.withTreeDepth limit) c.maxTreeDepth input) :
    FoldsAlike c limit input.toList := by
  intro t n text first rest hcall hfirst hrest
  cases hnode : foldRight limit first.value rest.value with
  | error err =>
      obtain rfl := eq_treeTooDeep_of_foldRight hnode
      have herr : (Reader.tier t).Fails (c.withTreeDepth limit) n text (.treeTooDeep limit) := by
        rw [Reader.Fails, tier, hfirst]
        simp only [hrest]
        rw [Config.withTreeDepth, hnode]
      exact absurd (hcall.parseWith_eq_error herr) (hunreached limit)
  | ok node =>
      have htier : tier (c.withTreeDepth limit) t n text
          = .ok (first.scanned (rest.map fun _ => node)) := by
        rw [tier, hfirst]
        simp only [hrest]
        rw [Config.withTreeDepth, hnode]
      have hfollows := (tier_follows (c.withTreeDepth limit) t n text).of_eq_ok htier
      refine foldRight_of_fits hnode hfollows.2 ?_
      by_contra hfits
      exact h ⟨t, n, text, _, hcall, htier, hfits⟩

/-- Where no chain is too deep, both parsers have one result. -/
theorem parseWith_withTreeDepth (hunreached : TreeLimitUnreached (c.withTreeDepth limit) input)
    (h : ¬ ReadsTooDeep (c.withTreeDepth limit) c.maxTreeDepth input) :
    parseWith c input = parseWith (c.withTreeDepth limit) input := by
  rw [parseWith, parseWith, tier_withTreeDepth (foldsAlike hunreached h) .start]

/-- Where a chain is too deep, the parser with the smaller limit finds the tree too deep. -/
theorem ReadsTooDeep.parseWith_eq
    (h : ReadsTooDeep (c.withTreeDepth limit) c.maxTreeDepth input) :
    parseWith c input = .error (.treeTooDeep c.maxTreeDepth) := by
  obtain ⟨t, n, text, r, hcall, hr, hfits⟩ := h
  have hfits_of_follows : ∀ {c' : Config}, tier c' t n text = .ok r →
      r.value.tree.Fits c'.maxTreeDepth := by
    intro c' hr'
    obtain ⟨_, -, -, -, hfits'⟩ := ((tier_follows c' t n text).of_eq_ok hr').exists_derives
    exact hfits'
  have hle : c.maxTreeDepth ≤ limit := by
    by_contra hlt
    rcases hfits_of_follows hr with hvalue | hdepth
    · exact hfits (.inl hvalue)
    · exact hfits (.inr (hdepth.trans (Nat.le_of_not_le hlt)))
  rcases hcall.of_withTreeDepth hle with hcall' | herr
  · have hc : c.Tighter (c.withTreeDepth limit) := ⟨rfl, le_rfl, hle⟩
    rcases eq_ok_or_treeTooDeep hc rfl (tier_follows c t n text) (tier_follows _ t n text) hr with
      hr' | herr
    · exact absurd (hfits_of_follows hr') hfits
    · exact hcall'.parseWith_eq_error herr
  · exact herr

/-- **When the depth of the tree is reported.** A limit as great as the text is long is not reached.
Compared with a limit that is not reached, a text is refused for the depth of its tree just if some
chain that is read to its end is too deep, whatever stands behind that chain; otherwise both limits
give one result. So what is wrong between the operands of a chain is reported whatever the depth of
the chain, and the depth of a chain that has been read to its end is reported whatever stands behind
it. -/
theorem tree_too_deep_at_end_of_chain (c : Config) (input : String) :
    (∀ limit, input.length ≤ limit → TreeLimitUnreached (c.withTreeDepth limit) input)
      ∧ (∀ limit, TreeLimitUnreached (c.withTreeDepth limit) input →
          (parseWith c input = .error (.treeTooDeep c.maxTreeDepth)
              ↔ ReadsTooDeep (c.withTreeDepth limit) c.maxTreeDepth input)
            ∧ (¬ ReadsTooDeep (c.withTreeDepth limit) c.maxTreeDepth input →
                parseWith c input = parseWith (c.withTreeDepth limit) input))
      ∧ ∀ t n text (first : Reading Node text), Calls c input.toList (.tier t) n text →
          operand c t n text = .ok first →
            (∀ err, links c t n first.rest = .error err → parseWith c input = .error err)
              ∧ ∀ rest err, links c t n first.rest = .ok rest →
                  foldRight c.maxTreeDepth first.value rest.value = .error err →
                    parseWith c input = .error (.treeTooDeep c.maxTreeDepth) := by
  refine ⟨fun limit hlength => ?_, fun limit hunreached => ⟨⟨?_, ?_⟩, ?_⟩, ?_⟩
  · refine treeLimitUnreached_of_length ?_
    rw [String.length_toList, Config.withTreeDepth]
    exact hlength.trans (Nat.le_mul_of_pos_left limit two_pos)
  · intro herr
    by_contra h
    rw [parseWith_withTreeDepth hunreached h] at herr
    exact hunreached _ herr
  · exact ReadsTooDeep.parseWith_eq
  · exact parseWith_withTreeDepth hunreached
  · intro t n text first hcall hfirst
    refine ⟨fun err herr => (hcall.made (.links hfirst)).parseWith_eq_error herr, ?_⟩
    intro rest err hrest herr
    obtain rfl := eq_treeTooDeep_of_foldRight herr
    refine hcall.parseWith_eq_error ?_
    rw [Reader.Fails, tier, hfirst]
    simp only [hrest, herr]

/-- A difference of three ones has three levels. In a group that is not closed it is too deep for
two levels, whatever is missing; with an operator too many it is never folded, so it is refused
alike under a greater limit; and a difference of two ones is too deep for one level, whatever is
left behind it. -/
theorem tree_too_deep_at_end_of_chain_unclosed :
    parseWith ⟨1, 2, true⟩ "(1-1-1" = .error (.treeTooDeep 2)
      ∧ parseWith ⟨1, 2, true⟩ "1-1-1-" = .error (.unexpectedToken "")
      ∧ parseWith ⟨1, 6, true⟩ "1-1-1-" = .error (.unexpectedToken "")
      ∧ parseWith ⟨1, 1, true⟩ "1-1)" = .error (.treeTooDeep 1) := by
  let one : Expr := .value ⟨0x3ff0000000000000⟩
  have hopen : parseWith ⟨1, 2, true⟩ "(1-1-1" = .error (.treeTooDeep 2) := by
    obtain ⟨hlong, hwins, -⟩ := tree_too_deep_at_end_of_chain ⟨1, 2, true⟩ "(1-1-1"
    refine (hwins 6 (hlong 6 (by decide))).1.2 ?_
    have htext : "(1-1-1".toList = ['(', '1', '-', '1', '-', '1'] := rfl
    rw [ReadsTooDeep, htext]
    have hgroup : Calls ⟨1, 6, true⟩ ['(', '1', '-', '1', '-', '1'] .group 0 _ :=
      (Calls.start.made .first).atom_of_operand.made (.group (Literal.read_of_none (by decide)))
    have hread : ∃ h, tier ⟨1, 6, true⟩ .additive 1 ['1', '-', '1', '-', '1']
        = .ok ⟨⟨.binary .sub one (.binary .sub one one), 3⟩, [], h⟩ := by
      refine ⟨by decide, ?_⟩
      cbv
    obtain ⟨_, hread⟩ := hread
    have hdeep : ¬ (Expr.binary .sub one (.binary .sub one one)).Fits 2 := by decide
    have hopener : Delimiter.ofOpener? '(' = some .round := rfl
    exact ⟨_, _, _, _, hgroup.made (.inside hopener (by decide)), hread, hdeep⟩
  have hunfinished : parseWith ⟨1, 2, true⟩ "1-1-1-" = .error (.unexpectedToken "") := by
    obtain ⟨-, -, hends⟩ := tree_too_deep_at_end_of_chain ⟨1, 2, true⟩ "1-1-1-"
    have hfirst : ∃ h, operand ⟨1, 2, true⟩ .additive 0 ['1', '-', '1', '-', '1', '-']
        = .ok ⟨⟨one, 1⟩, ['-', '1', '-', '1', '-'], h⟩ := by
      refine ⟨by decide, ?_⟩
      cbv
    have hlinks : links ⟨1, 2, true⟩ .additive 0 ['-', '1', '-', '1', '-']
        = .error (.unexpectedToken "") := by cbv
    obtain ⟨_, hfirst⟩ := hfirst
    exact (hends _ _ _ _ .start hfirst).1 _ hlinks
  refine ⟨hopen, hunfinished, ?_, ?_⟩
  · obtain ⟨hlong, hwins, -⟩ := tree_too_deep_at_end_of_chain ⟨1, 2, true⟩ "1-1-1-"
    obtain ⟨hdeep, halike⟩ := hwins 6 (hlong 6 (by decide))
    rw [← hunfinished]
    refine (halike ?_).symm
    rw [← hdeep, hunfinished]
    simp
  · obtain ⟨-, -, hends⟩ := tree_too_deep_at_end_of_chain ⟨1, 1, true⟩ "1-1)"
    have hfirst : ∃ h, operand ⟨1, 1, true⟩ .additive 0 ['1', '-', '1', ')']
        = .ok ⟨⟨one, 1⟩, ['-', '1', ')'], h⟩ := by
      refine ⟨by decide, ?_⟩
      cbv
    have hlinks : ∃ h, links ⟨1, 1, true⟩ .additive 0 ['-', '1', ')']
        = .ok ⟨[⟨.sub, ⟨one, 1⟩⟩], [')'], h⟩ := by
      refine ⟨by decide, ?_⟩
      cbv
    obtain ⟨_, hfirst⟩ := hfirst
    obtain ⟨_, hlinks⟩ := hlinks
    exact (hends _ _ _ _ .start hfirst).2 _ (.treeTooDeep 1) hlinks rfl

end Parser

end InfixCalc
