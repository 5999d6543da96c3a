import InfixCalc.Config
import InfixCalc.Delimiter
import InfixCalc.Expr
import InfixCalc.Literal
import InfixCalc.ParseError
import InfixCalc.Reading

/-!
# The parser

A text is read tier by tier. At each tier a chain of operands of the next tighter tier is read,
with operators of the tier between them, and the chain is folded to the right; below the tightest
tier stand atoms, which are literals and groups. Readers are total: each takes something from the
front of the text, so the text that is left gets shorter, or hands the same text to a tighter
tier.

Two failures only lead to something else being tried. Where no literal stands, a group is read
(`Literal.Outcome.absent`), and where no operator of the tier comes next, the chain ends (`none` of
`operator`); both are no errors here. All other failures are final: a literal without a value, a
limit, and whatever is wrong behind an operator or an opener. What is wrong at the very front of an
operand or of a group might still be recovered from, but no caller tries anything else there, so it
goes up to the result as a final failure does, and one type of error is enough for both. What was
looked for at the point of failure is not part of an error; what stands there is.

Readers are given a text as a whole and take its end for the end, so none of them asks for more of
it. A text that ends too early is refused as one that goes on otherwise, with nothing left of it,
and no reader comes to `ParseError.internal`, which would be the error for want of more text.
-/

namespace InfixCalc

namespace Parser

/-! ## Chains -/

/-- A tree with its depth beside it. -/
structure Node where
  tree : Expr
  depth : Nat
  deriving DecidableEq, Repr

/-- An operator and the operand behind it. -/
structure Link where
  op : Operator
  operand : Node
  deriving DecidableEq, Repr

/-- An operand that waits for what stands to the right of the operator behind it. -/
structure Pending where
  operand : Node
  op : Operator
  deriving DecidableEq, Repr

/-- Shifts the operands of a chain against its operators: gives the last operand, and each other
operand with the operator behind it, from right to left. -/
def shift (last : Node) (pending : List Pending) : List Link → Node × List Pending
  | [] => (last, pending)
  | link :: links => shift link.operand (⟨last, link.op⟩ :: pending) links

/-- Puts what is pending around a tree, from right to left. No operator may stand in a tree of more
than `limit` levels. -/
def unwind (limit : Nat) (right : Node) : List Pending → Except ParseError Node
  | [] => .ok right
  | p :: pending =>
    let depth := 1 + max right.depth p.operand.depth
    if limit < depth then .error (.treeTooDeep limit)
    else unwind limit ⟨.binary p.op p.operand.tree right.tree, depth⟩ pending

/-- Folds `a op b op' c` into `a op (b op' c)`. -/
def foldRight (limit : Nat) (first : Node) (links : List Link) : Except ParseError Node :=
  let shifted := shift first [] links
  unwind limit shifted.1 shifted.2

/-- Reads an operator of a tier. -/
def operator (t : Tier) : (text : List Char) → Option (Reading Operator text)
  | [] => none
  | c :: rest => (t.operator? c).map fun op => .first op c rest

/-- Reads a closer that may end a group. -/
def closer (c : Config) (opened : Delimiter) : (text : List Char) → Option (Reading Char text)
  | [] => none
  | last :: rest =>
    if Delimiter.closes c.strictDelimiters opened last then some (.first last last rest) else none

/-- Where a text stops following the grammar. -/
def unexpected (rest : List Char) : ParseError :=
  .unexpectedToken (String.ofList rest)

/-! ## Readers -/

mutual

/-- Reads an expression of a tier, inside `nesting` open groups: an operand and the links behind it,
folded to the right once all of them are read. -/
def tier (c : Config) (t : Tier) (nesting : Nat) (text : List Char) :
    Except ParseError (Reading Node text) :=
  match operand c t nesting text with
  | .error e => .error e
  | .ok first =>
    have := first.shorter
    match links c t nesting first.rest with
    | .error e => .error e
    | .ok rest =>
      match foldRight c.maxTreeDepth first.value rest.value with
      | .error e => .error e
      | .ok node => .ok (first.scanned (rest.map fun _ => node))
termination_by (text.length, 3 * t.looseness + 4)

/-- Reads the links of a chain of a tier: as long as an operator of the tier comes next, that
operator and the operand behind it. Behind an operator an operand has to stand. -/
def links (c : Config) (t : Tier) (nesting : Nat) (text : List Char) :
    Except ParseError (Scan (List Link) text) :=
  match operator t text with
  | none => .ok (.nothing [] text)
  | some op =>
    have := op.shorter
    match operand c t nesting op.rest with
    | .error e => .error e
    | .ok next =>
      have := Nat.lt_trans next.shorter op.shorter
      match links c t nesting next.rest with
      | .error e => .error e
      | .ok more =>
        .ok (op.after (next.scanned (more.map (⟨op.value, next.value⟩ :: ·)))).toScan
termination_by (text.length, 3 * t.looseness + 3)

/-- Reads an operand of a tier: an expression of the next tighter tier, or an atom. -/
def operand (c : Config) (t : Tier) (nesting : Nat) (text : List Char) :
    Except ParseError (Reading Node text) :=
  match h : t.tighter with
  | some tighter =>
    have := Tier.looseness_eq_of_tighter h
    tier c tighter nesting text
  | none => atom c nesting text
termination_by (text.length, 3 * t.looseness + 2)

/-- Reads an atom: a literal, or a group where no literal stands. -/
def atom (c : Config) (nesting : Nat) (text : List Char) :
    Except ParseError (Reading Node text) :=
  match Literal.read text with
  | .absent _ => group c nesting text
  | .refused literal => .error (.badLiteral (String.ofList literal))
  | .read number => .ok (number.map fun x => ⟨.value x, 1⟩)
termination_by (text.length, 1)

/-- Reads a group: an opener, an expression of the loosest tier, and a closer. The limit on open
groups is checked before anything inside is read. -/
def group (c : Config) (nesting : Nat) (text : List Char) :
    Except ParseError (Reading Node text) :=
  match text with
  | [] => .error (unexpected [])
  | first :: inside =>
    match Delimiter.ofOpener? first with
    | none => .error (unexpected (first :: inside))
    | some opened =>
      if c.maxDepth ≤ nesting then .error (.nestedTooDeep c.maxDepth)
      else
        match tier c .additive (nesting + 1) inside with
        | .error e => .error e
        | .ok inner =>
          match closer c opened inner.rest with
          | none => .error (unexpected inner.rest)
          | some last => .ok ((inner.after (last.map fun _ => inner.value)).behind first)
termination_by (text.length, 0)

end

end Parser

/-! ## Whole texts -/

/-- Reads a whole text as an expression, under given settings. -/
def parseWith (c : Config) (text : String) : Except ParseError Expr :=
  match Parser.tier c .additive 0 text.toList with
  | .error e => .error e
  | .ok r => if r.rest = [] then .ok r.value.tree else .error (Parser.unexpected r.rest)

/-- Reads a whole text as an expression, under the default settings. -/
def parse (text : String) : Except ParseError Expr :=
  parseWith Config.default text

end InfixCalc
