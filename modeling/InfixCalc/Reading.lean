/-!
# Readings

What a reader takes from the front of a text: a value, and the text that is left. A reading keeps
the fact that the text has become shorter, so that readers which call each other can be seen to
end. A scan may take nothing at all.
-/

namespace InfixCalc

variable {α β : Type}

/-- Dropping leading characters does not make a text longer. -/
theorem length_dropWhile_le (p : Char → Bool) (text : List Char) :
    (text.dropWhile p).length ≤ text.length :=
  (List.dropWhile_suffix p).length_le

/-! ## Readings -/

/-- A value read from the front of `text`, and the shorter text that is left. -/
structure Reading (α : Type) (text : List Char) where
  value : α
  rest : List Char
  shorter : rest.length < text.length

namespace Reading

variable {text text' rest : List Char}

/-- The reading of the first character of a text, with a value. -/
def first (value : α) (c : Char) (rest : List Char) : Reading α (c :: rest) :=
  ⟨value, rest, Nat.lt_succ_self rest.length⟩

/-- The same reading with another value. -/
def map (f : α → β) (r : Reading α text) : Reading β text :=
  ⟨f r.value, r.rest, r.shorter⟩

/-- A reading from the end of a text, seen as a reading from the whole text. -/
def within (r : Reading α text) (h : text.length ≤ text'.length) : Reading α text' :=
  ⟨r.value, r.rest, Nat.lt_of_lt_of_le r.shorter h⟩

/-- A reading of what another one left, seen as a reading from where that one began. -/
def after (r : Reading β text) (s : Reading α r.rest) : Reading α text :=
  s.within (Nat.le_of_lt r.shorter)

/-- A reading behind a character, seen as a reading from that character on. -/
def behind (c : Char) (r : Reading α rest) : Reading α (c :: rest) :=
  r.within (Nat.le_succ rest.length)

@[simp] theorem map_value (f : α → β) (r : Reading α text) : (r.map f).value = f r.value := rfl

@[simp] theorem map_rest (f : α → β) (r : Reading α text) : (r.map f).rest = r.rest := rfl

@[simp] theorem within_value (r : Reading α text) (h : text.length ≤ text'.length) :
    (r.within h).value = r.value := rfl

@[simp] theorem within_rest (r : Reading α text) (h : text.length ≤ text'.length) :
    (r.within h).rest = r.rest := rfl

@[simp] theorem after_value (r : Reading β text) (s : Reading α r.rest) :
    (r.after s).value = s.value := rfl

@[simp] theorem after_rest (r : Reading β text) (s : Reading α r.rest) :
    (r.after s).rest = s.rest := rfl

@[simp] theorem behind_value (c : Char) (r : Reading α rest) :
    (r.behind c).value = r.value := rfl

@[simp] theorem behind_rest (c : Char) (r : Reading α rest) : (r.behind c).rest = r.rest := rfl

/-- Reads the next character that is not blank. -/
def next? (isBlank : Char → Bool) : (text : List Char) → Option (Reading Char text)
  | [] => none
  | c :: rest => if isBlank c then (next? isBlank rest).map (·.behind c) else some (first c c rest)

end Reading

/-! ## Scans -/

/-- A value read from the front of `text`, or from nothing at all, and the text that is left. -/
structure Scan (α : Type) (text : List Char) where
  value : α
  rest : List Char
  notLonger : rest.length ≤ text.length

namespace Scan

variable {text rest : List Char}

/-- A scan that takes nothing. -/
def nothing (value : α) (text : List Char) : Scan α text :=
  ⟨value, text, Nat.le_refl text.length⟩

/-- A scan behind a character, seen as a reading from that character on. -/
def behind (c : Char) (s : Scan α rest) : Reading α (c :: rest) :=
  ⟨s.value, s.rest, Nat.lt_succ_of_le s.notLonger⟩

/-- A reading of what a scan left, seen as a reading from where the scan began. -/
def after (s : Scan β text) (r : Reading α s.rest) : Reading α text :=
  r.within s.notLonger

/-- The same scan with another value. -/
def map (f : α → β) (s : Scan α text) : Scan β text :=
  ⟨f s.value, s.rest, s.notLonger⟩

/-- The scan that also drops leading characters of what it left. -/
def dropping (p : Char → Bool) (s : Scan α text) : Scan α text :=
  ⟨s.value, s.rest.dropWhile p, Nat.le_trans (length_dropWhile_le p s.rest) s.notLonger⟩

end Scan

namespace Reading

variable {text : List Char}

/-- A reading is a scan. -/
def toScan (r : Reading α text) : Scan α text :=
  ⟨r.value, r.rest, Nat.le_of_lt r.shorter⟩

/-- A scan of what a reading left, seen as a reading from where that one began. -/
def scanned (r : Reading β text) (s : Scan α r.rest) : Reading α text :=
  ⟨s.value, s.rest, Nat.lt_of_le_of_lt s.notLonger r.shorter⟩

end Reading

end InfixCalc
