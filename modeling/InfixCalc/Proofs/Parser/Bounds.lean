import Mathlib
import InfixCalc.Proofs.Parser.ChainTree
import InfixCalc.Proofs.Parser.TreeLimit

/-!
# Numbers that the text bounds

The parser counts two things: the groups that are open, which grow by one where a group is entered,
and the depth of a tree, which grows by one where an operator is put on top of its operands. Both
are bounded by the text, whatever the limits are: each open group has its opener in front of it, and
each level of a tree takes two characters. So no count leaves the words of the limits, on any text
that is itself counted in such a word.

Main statements: as many groups are open as have been opened and not closed (`Calls.nesting`), the
depths computed in a fold are those of ends of the chain (`FoldComputes.le_chainDepth`), and both
are within the bytes of the text (`counts_are_bounded_by_text`).
-/

namespace InfixCalc

/-- A text has as many bytes as characters, or more. -/
theorem length_le_utf8ByteSize (s : String) : s.toList.length ≤ s.utf8ByteSize := by
  have hlist : ∀ cs : List Char, cs.length ≤ (String.ofList cs).utf8ByteSize := by
    intro cs
    induction cs with
    | nil => exact Nat.zero_le _
    | cons c cs ih =>
        have := c.utf8Size_pos
        rw [String.ofList_cons, String.utf8ByteSize_append, String.utf8ByteSize_singleton,
          List.length_cons]
        omega
  simpa using hlist s.toList

namespace Parser

variable {c : Config} {input text : List Char} {t : Tier} {n limit d : Nat} {first right : Node}

/-! ## Open groups -/

/-- An operand that is read is an expression at the front of the text, with its depth beside it. -/
theorem exists_derives_of_operand {r : Reading Node text} (h : operand c t n text = .ok r) :
    ∃ s, text = s ++ r.rest ∧ Derives c.strictDelimiters t.tighter s r.value.tree
      ∧ r.value.depth = r.value.tree.depth := by
  obtain ⟨s, hs, hderives, hdepth, -⟩ := ((operand_follows c t n text).of_eq_ok h).exists_derives
  exact ⟨s, hs, hderives, hdepth⟩

/-- Behind an expression as many groups are open as before it. -/
theorem openers_append_of_derives {strict : Bool} {level : Option Tier} {p s : List Char} {e : Expr}
    (hp : openers p = closers p + n) (h : Derives strict level s e) :
    openers (p ++ s) = closers (p ++ s) + n := by
  have hbalanced : openers s = closers s := h.balanced
  rw [openers_append, closers_append, hp, hbalanced]
  omega

/-- Behind an operator as many groups are open as before it. -/
theorem openers_append_symbol {p : List Char} (hp : openers p = closers p + n) (op : Operator) :
    openers (p ++ [op.symbol]) = closers (p ++ [op.symbol]) + n := by
  rw [openers_append, closers_append, openers_cons_of_plain (plain_symbol op),
    closers_cons_of_plain (plain_symbol op)]
  exact hp

/-- **The groups that are open.** A reader is called inside as many groups as have been opened and
not closed in front of its text, never more than the limit. -/
theorem Calls.nesting {reader : Reader} (h : Calls c input reader n text) :
    n ≤ c.maxDepth ∧ ∃ p, input = p ++ text ∧ openers p = closers p + n := by
  induction h with
  | start => exact ⟨Nat.zero_le _, [], rfl, rfl⟩
  | made _ hmakes ih =>
      obtain ⟨hn, p, rfl, hp⟩ := ih
      cases hmakes with
      | first => exact ⟨hn, p, rfl, hp⟩
      | links hfirst =>
          obtain ⟨s, hs, hderives, -⟩ := exists_derives_of_operand hfirst
          exact ⟨hn, p ++ s, by rw [List.append_assoc, ← hs],
            openers_append_of_derives hp hderives⟩
      | @next t n text op hop =>
          obtain ⟨-, htext⟩ := of_operator_eq_some hop
          exact ⟨hn, p ++ [op.value.symbol], by simpa using htext,
            openers_append_symbol hp op.value⟩
      | @more t n text op next hop hnext =>
          obtain ⟨-, htext⟩ := of_operator_eq_some hop
          obtain ⟨s, hs, hderives, -⟩ := exists_derives_of_operand hnext
          refine ⟨hn, p ++ [op.value.symbol] ++ s, ?_,
            openers_append_of_derives (openers_append_symbol hp op.value) hderives⟩
          rw [List.append_assoc, ← hs, List.append_assoc, List.singleton_append, ← htext]
      | tighter _ => exact ⟨hn, p, rfl, hp⟩
      | atom _ => exact ⟨hn, p, rfl, hp⟩
      | group _ => exact ⟨hn, p, rfl, hp⟩
      | @inside n first inside d ho hlt =>
          obtain rfl := Delimiter.ofOpener?_eq_some_iff.1 ho
          refine ⟨hlt, p ++ [d.opener], by simp, ?_⟩
          rw [openers_append, closers_append, openers_opener, closers_opener]
          omega

/-! ## Depths of trees -/

/-- Unwinding a stack comes to a depth, before that is compared with the limit. -/
inductive Unwinds (limit : Nat) : Node → List Pending → Nat → Prop
  /-- The depth of the first node that is built. -/
  | here {right : Node} {p : Pending} {pending : List Pending} :
      Unwinds limit right (p :: pending) (1 + max right.depth p.operand.depth)
  /-- A depth that is come to once that node has been found within the limit. -/
  | further {right : Node} {p : Pending} {pending : List Pending} {d : Nat}
      (hle : 1 + max right.depth p.operand.depth ≤ limit)
      (h : Unwinds limit
        ⟨.binary p.op p.operand.tree right.tree, 1 + max right.depth p.operand.depth⟩ pending d) :
      Unwinds limit right (p :: pending) d

/-- Folding a chain comes to a depth, before that is compared with the limit. -/
def FoldComputes (limit : Nat) (first : Node) (links : List Link) (d : Nat) : Prop :=
  Unwinds limit (shift first [] links).1 (shift first [] links).2 d

/-- A stack is not unwound just if a depth on the way is beyond the limit. -/
theorem unwind_refused_iff {pending : List Pending} :
    (∃ err, unwind limit right pending = .error err)
      ↔ ∃ d, Unwinds limit right pending d ∧ limit < d := by
  induction pending generalizing right with
  | nil =>
      constructor
      · rintro ⟨err, h⟩
        cases h
      · rintro ⟨d, h, -⟩
        cases h
  | cons p pending ih =>
      rw [unwind]
      split
      · next hlt => exact iff_of_true ⟨_, rfl⟩ ⟨_, .here, hlt⟩
      · next hle =>
        rw [ih]
        constructor
        · rintro ⟨d, h, hd⟩
          exact ⟨d, .further (Nat.le_of_not_lt hle) h, hd⟩
        · rintro ⟨d, h, hd⟩
          cases h with
          | here => exact absurd hd hle
          | further _ h => exact ⟨d, h, hd⟩

/-- Unwinding a stack comes to the depths of its top, and, if that is unwound, to those of what lies
below it. -/
theorem unwinds_append {top bottom : List Pending} (h : Unwinds limit right (top ++ bottom) d) :
    Unwinds limit right top d
      ∨ ∃ node, unwind limit right top = .ok node ∧ Unwinds limit node bottom d := by
  induction top generalizing right with
  | nil => exact .inr ⟨right, rfl, h⟩
  | cons p top ih =>
      rw [List.cons_append] at h
      cases h with
      | here => exact .inl .here
      | further hle h =>
          refine (ih h).imp (.further hle) ?_
          rintro ⟨node, hnode, h⟩
          refine ⟨node, ?_, h⟩
          rw [unwind, if_neg (Nat.not_lt_of_le hle)]
          exact hnode

/-- Folding a chain comes to the depths of the chain behind its first operator, and, if that is
folded, to the depth of the whole. -/
theorem FoldComputes.cons {link : Link} {links : List Link}
    (h : FoldComputes limit first (link :: links) d) :
    FoldComputes limit link.operand links d
      ∨ ∃ right, foldRight limit link.operand links = .ok right
          ∧ d = 1 + max right.depth first.depth := by
  rw [FoldComputes, shift, shift_eq_append] at h
  refine (unwinds_append h).imp_right ?_
  rintro ⟨right, hright, h⟩
  refine ⟨right, hright, ?_⟩
  cases h with
  | here => rfl
  | further _ h => cases h

/-- **Each depth that is computed in a fold is within that of the chain.** -/
theorem FoldComputes.le_chainDepth {links : List Link} (h : FoldComputes limit first links d) :
    d ≤ chainDepth first links := by
  induction links generalizing first with
  | nil => cases h
  | cons link links ih =>
      rw [chainDepth_cons]
      rcases h.cons with h | ⟨right, hright, rfl⟩
      · have := ih h
        omega
      · rw [foldRight_eq] at hright
        split at hright
        · cases hright
        · obtain rfl := Except.ok.inj hright
          exact le_rfl

/-! ## Depths of chains that are read -/

/-- An operand takes two characters for each level but the first, and one for that. -/
theorem two_mul_depth_of_operand {r : Reading Node text} (h : operand c t n text = .ok r) :
    2 * r.value.depth + r.rest.length ≤ text.length + 1 := by
  obtain ⟨s, hs, hderives, hdepth⟩ := exists_derives_of_operand h
  have hle := hderives.two_mul_depth_le
  have hlength := congrArg List.length hs
  rw [List.length_append] at hlength
  omega

/-- Links behind an operand keep that bound: an operator is a character, and the operand behind it
has one at least. The bound is for what stands before the links, too, of which `size` counts the
characters with those of the links. -/
theorem two_mul_chainDepth_of_links {size : Nat} (text : List Char) {first : Node}
    {r : Scan (List Link) text} (h : links c t n text = .ok r) (hlt : text.length < size)
    (hfirst : 2 * first.depth + text.length ≤ size + 1) :
    2 * chainDepth first r.value + r.rest.length ≤ size + 1 := by
  rcases links_cases h with rfl | ⟨op, next, more, hop, hnext, hmore, hvalue, hrest⟩
  · simpa [Scan.nothing] using hfirst
  · have ih := two_mul_chainDepth_of_links next.rest hmore next.shorter
      (two_mul_depth_of_operand hnext)
    have htext : text.length = op.rest.length + 1 :=
      congrArg List.length (of_operator_eq_some hop).2
    have hshorter := next.shorter
    have hmoreRest := more.notLonger
    rw [hvalue, hrest, chainDepth_cons]
    dsimp only
    omega
termination_by text.length
decreasing_by
  · have := op.shorter
    have := next.shorter
    omega

/-- Reading a text, the parser folds a chain that it has read to its end, and comes to a depth. -/
def ComputesDepth (c : Config) (input : List Char) (d : Nat) : Prop :=
  ∃ (t : Tier) (n : Nat) (text : List Char) (first : Reading Node text)
    (rest : Scan (List Link) first.rest),
    Calls c input (.tier t) n text ∧ operand c t n text = .ok first
      ∧ links c t n first.rest = .ok rest ∧ FoldComputes c.maxTreeDepth first.value rest.value d

/-- **Each depth that is computed takes two characters of the text for each level but the first.**
-/
theorem ComputesDepth.two_mul_le (h : ComputesDepth c input d) : 2 * d ≤ input.length + 1 := by
  obtain ⟨t, n, text, first, rest, hcall, hfirst, hrest, hfold⟩ := h
  obtain ⟨-, p, rfl, -⟩ := hcall.nesting
  have hchain := two_mul_chainDepth_of_links first.rest hrest first.shorter
    (two_mul_depth_of_operand hfirst)
  have hd := hfold.le_chainDepth
  rw [List.length_append]
  omega

/-- Where something stands that may open a group, there is room in the text for one group more than
are open. -/
theorem Calls.succ_nesting_le {first : Char} {inside : List Char}
    (h : Calls c input .group n (first :: inside)) : n + 1 ≤ input.length := by
  obtain ⟨-, p, rfl, hp⟩ := h.nesting
  have hopeners : openers p ≤ p.length := List.countP_le_length
  rw [List.length_append, List.length_cons]
  omega

/-! ## Whole texts -/

/-- **No count leaves its word.** Whatever the limits are, and whether a text is accepted or not: an
expression of a tier is read inside no more groups than the limit allows, and than have been opened
before it; a depth that is computed, by which a chain may then be refused, takes two bytes of the
text for each level but the first. So the number of groups and the depth stay within sixty-four bits
where they are increased, if the text has no more bytes than such a word counts. A tree that is
found takes as much of the text as that for its depth, and for its leaves. -/
theorem counts_are_bounded_by_text (c : Config) (input : String) :
    (∀ t n text, Calls c input.toList (.tier t) n text →
        n ≤ c.maxDepth ∧ ∃ p, input.toList = p ++ text ∧ n ≤ openers p)
      ∧ (∀ limit first links, (∃ err, foldRight limit first links = .error err)
          ↔ ∃ d, FoldComputes limit first links d ∧ limit < d)
      ∧ (∀ d, ComputesDepth c input.toList d → 2 * d - 1 ≤ input.utf8ByteSize)
      ∧ (input.utf8ByteSize < Config.limitBound →
          (∀ n first inside, Calls c input.toList .group n (first :: inside) →
              n + 1 < Config.limitBound)
            ∧ ∀ d, ComputesDepth c input.toList d → d < Config.limitBound)
      ∧ ∀ e, parseWith c input = .ok e →
          2 * e.depth - 1 ≤ input.utf8ByteSize
            ∧ e.leaves.length ≤ (input.utf8ByteSize + 1) / 2 := by
  have hbytes := length_le_utf8ByteSize input
  refine ⟨?_, fun limit first links => unwind_refused_iff, ?_, fun hsize => ⟨?_, ?_⟩, ?_⟩
  · intro t n text h
    obtain ⟨hn, p, hp, hopeners⟩ := h.nesting
    exact ⟨hn, p, hp, by omega⟩
  · intro d h
    have := h.two_mul_le
    omega
  · intro n first inside h
    exact (h.succ_nesting_le.trans hbytes).trans_lt hsize
  · intro d h
    have := h.two_mul_le
    have hpos : 1 < Config.limitBound := by decide
    omega
  · intro e h
    obtain ⟨hderives, -⟩ := derives_of_parseWith h
    have hdepth := hderives.two_mul_depth_le
    have hleaves := hderives.two_mul_leaves_le
    omega

/-- With limits as great as a word can be, a difference of two ones in a group that is not closed
has depth two and is read inside one group: both numbers are far from the end of the word. A
difference of two ones alone is as short as its depth and its leaves allow. -/
theorem counts_are_bounded_by_text_unclosed :
    let greatest : Nat := 18446744073709551615
    let c : Config := ⟨greatest, greatest, true⟩
    ComputesDepth c "(1-1".toList 2 ∧ 2 * 2 - 1 ≤ "(1-1".utf8ByteSize
      ∧ 2 < Config.limitBound ∧ 0 + 1 < Config.limitBound
      ∧ (∃ p, "(1-1".toList = p ++ ['1', '-', '1'] ∧ 1 ≤ openers p)
      ∧ ∃ e, parseWith c "1-1" = .ok e ∧ 2 * e.depth - 1 ≤ 3 ∧ e.leaves.length ≤ 2 := by
  intro greatest c
  let one : Expr := .value ⟨0x3ff0000000000000⟩
  have hgroup : Calls c ['(', '1', '-', '1'] .group 0 ['(', '1', '-', '1'] :=
    (Calls.start.made .first).atom_of_operand.made (.group (Literal.read_of_none (by decide)))
  have hcall : Calls c ['(', '1', '-', '1'] (.tier .additive) 1 ['1', '-', '1'] :=
    hgroup.made (.inside (d := .round) rfl (by decide))
  have hfirst : ∃ h, operand c .additive 1 ['1', '-', '1'] = .ok ⟨⟨one, 1⟩, ['-', '1'], h⟩ := by
    refine ⟨by decide, ?_⟩
    cbv
  have hlinks : ∃ h, links c .additive 1 ['-', '1'] = .ok ⟨[⟨.sub, ⟨one, 1⟩⟩], [], h⟩ := by
    refine ⟨by decide, ?_⟩
    cbv
  obtain ⟨_, hfirst⟩ := hfirst
  obtain ⟨_, hlinks⟩ := hlinks
  have hdepth : ComputesDepth c "(1-1".toList 2 :=
    ⟨.additive, 1, _, _, _, hcall, hfirst, hlinks, .here⟩
  have haccepted : parseWith c "1-1" = .ok (.binary .sub one one) := by cbv
  obtain ⟨hnesting, -, hdepths, hwords, -⟩ := counts_are_bounded_by_text c "(1-1"
  obtain ⟨hgroups, hwords⟩ := hwords (by decide)
  obtain ⟨-, -, -, -, htree⟩ := counts_are_bounded_by_text c "1-1"
  exact ⟨hdepth, hdepths 2 hdepth, hwords 2 hdepth, hgroups 0 _ _ hgroup, (hnesting _ _ _ hcall).2,
    _, haccepted, htree _ haccepted⟩

end Parser

end InfixCalc
