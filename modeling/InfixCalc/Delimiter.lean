/-!
# Delimiters

A group stands between an opener and a closer. There are two kinds of delimiters, round and square;
whether a closer has to be of the opener's kind is a setting.
-/

namespace InfixCalc

/-- A kind of delimiter. -/
inductive Delimiter where
  | round
  | square
  deriving DecidableEq, Repr

namespace Delimiter

/-- The character that opens a group. -/
def opener : Delimiter → Char
  | round => '('
  | square => '['

/-- The character that closes a group. -/
def closer : Delimiter → Char
  | round => ')'
  | square => ']'

/-- The kind of an opener. -/
def ofOpener? (c : Char) : Option Delimiter :=
  if c = '(' then some round else if c = '[' then some square else none

/-- The kind of a closer. -/
def ofCloser? (c : Char) : Option Delimiter :=
  if c = ')' then some round else if c = ']' then some square else none

/-- A character is an opener of a kind just if it is the opener of that kind. -/
theorem ofOpener?_eq_some_iff {c : Char} {d : Delimiter} :
    ofOpener? c = some d ↔ c = d.opener := by
  unfold ofOpener?
  split
  · subst_vars
    cases d <;> decide
  · split
    · subst_vars
      cases d <;> decide
    · cases d <;> simp [opener, *]

/-- A character is a closer of a kind just if it is the closer of that kind. -/
theorem ofCloser?_eq_some_iff {c : Char} {d : Delimiter} :
    ofCloser? c = some d ↔ c = d.closer := by
  unfold ofCloser?
  split
  · subst_vars
    cases d <;> decide
  · split
    · subst_vars
      cases d <;> decide
    · cases d <;> simp [closer, *]

/-- Whether a closer may end a group: any closer may, unless closers have to match their openers. -/
def closes (strict : Bool) (opened : Delimiter) (c : Char) : Bool :=
  match ofCloser? c with
  | none => false
  | some closing => !strict || decide (closing = opened)

end Delimiter

end InfixCalc
