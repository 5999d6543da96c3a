/-!
# Settings of the parser

Two limits, which keep recursion over a text and over its tree bounded, and how groups may close.
Each setting has a key, under which it is stored and under which the environment gives it.
-/

namespace InfixCalc

/-- The settings of a parser. -/
structure Config where
  /-- The greatest number of groups open at once. -/
  maxDepth : Nat
  /-- The greatest depth of a tree that holds an operator. -/
  maxTreeDepth : Nat
  /-- Whether a group closes only with a delimiter of the kind that opened it. -/
  strictDelimiters : Bool
  deriving DecidableEq, Repr

namespace Config

/-- The settings that hold where nothing else is asked for. -/
def default : Config := ⟨256, 4096, false⟩

instance : Inhabited Config := ⟨default⟩

/-- The limits are words of sixty-four bits: each is below this number. -/
def limitBound : Nat := 1 <<< 64

/-! ## The names of the settings -/

/-- The names of the settings. -/
inductive Field where
  | maxDepth
  | maxTreeDepth
  | strictDelimiters
  deriving DecidableEq, Repr

/-- All settings, in their order. -/
def Field.all : List Field := [.maxDepth, .maxTreeDepth, .strictDelimiters]

/-- The key of a setting. -/
def Field.key : Field → String
  | maxDepth => "max_depth"
  | maxTreeDepth => "max_tree_depth"
  | strictDelimiters => "strict_delimiters"

end Config

end InfixCalc
