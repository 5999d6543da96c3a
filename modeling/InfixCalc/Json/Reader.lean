import InfixCalc.Json
import InfixCalc.Reading
import InfixCalc.Text.Hex

/-!
# Reading JSON

The reader takes the whole grammar of JSON texts. Of two fields of one name in an object the later
one counts. Readers of values call each other on ever shorter texts.
-/

namespace InfixCalc

namespace Json

/-- The blanks that may stand between the parts of a value. -/
def isBlank (c : Char) : Bool := c = ' ' || c = '\t' || c = '\n' || c = '\r'

/-! ## Strings -/

/-- Reads four hexadecimal digits as a unit of sixteen bits. -/
def unit? : (text : List Char) → Option (Reading Nat text)
  | a :: b :: c :: d :: rest =>
    (Text.ofHex? [a, b, c, d]).map fun n =>
      (((Reading.first n d rest).behind c).behind b).behind a
  | _ => none

/-- The character for which a pair of surrogate units stands. -/
def charOfPair? (high low : Nat) : Option Char :=
  if 0xDC00 ≤ low ∧ low < 0xE000 then
    Text.charOfNat? (0x10000 + (high - 0xD800) * 0x400 + (low - 0xDC00))
  else none

/-- Reads the unit that follows an escaped one, escaped as well. -/
def nextUnit? : (text : List Char) → Option (Reading Nat text)
  | a :: b :: rest =>
    if a = '\\' ∧ b = 'u' then (unit? rest).map fun r => (r.behind b).behind a else none
  | _ => none

/-- Reads a character given by its units: one, or a pair of surrogates. -/
def codePoint? (text : List Char) : Option (Reading Char text) :=
  match unit? text with
  | none => none
  | some high =>
    if 0xD800 ≤ high.value ∧ high.value < 0xDC00 then
      match nextUnit? high.rest with
      | none => none
      | some low => (charOfPair? high.value low.value).map fun c => high.after (low.map fun _ => c)
    else (Text.charOfNat? high.value).map fun c => high.map fun _ => c

/-- The character for which a letter behind a backslash stands. -/
def namedEscape? : Char → Option Char
  | '"' => some '"'
  | '\\' => some '\\'
  | '/' => some '/'
  | 'b' => some '\x08'
  | 'f' => some '\x0c'
  | 'n' => some '\n'
  | 'r' => some '\r'
  | 't' => some '\t'
  | _ => none

/-- Reads what stands behind a backslash. -/
def escape? : (text : List Char) → Option (Reading Char text)
  | [] => none
  | c :: rest =>
    if c = 'u' then (codePoint? rest).map (·.behind c)
    else (namedEscape? c).map fun e => .first e c rest

/-- Reads a character of a string, escaped or not; control characters have to be escaped. -/
def char? : (text : List Char) → Option (Reading Char text)
  | [] => none
  | c :: rest =>
    if c = '\\' then (escape? rest).map (·.behind c)
    else if c.toNat < 0x20 then none
    else some (.first c c rest)

/-- Reads the rest of a string, up to the quote that ends it. -/
def string? (text : List Char) : Option (Reading (List Char) text) :=
  match text with
  | '"' :: rest => some (.first [] '"' rest)
  | text =>
    match char? text with
    | none => none
    | some c =>
      have := c.shorter
      (string? c.rest).map fun more => c.after (more.map (c.value :: ·))
termination_by text.length

/-! ## Numbers -/

/-- Reads a number: digits without a leading zero, then a fraction and an exponent if they are
there. -/
def number? (text : List Char) : Option (Number × List Char) :=
  let negative := text.head? = some '-'
  let unsigned := if negative then text.tail else text
  let whole := unsigned.takeWhile Decimal.isDigit
  if whole = [] ∨ (whole.head? = some '0' ∧ whole ≠ ['0']) then none
  else
    let (fraction, rest) := Decimal.takeFraction (unsigned.dropWhile Decimal.isDigit)
    let significand := Decimal.ofDigits (whole ++ fraction)
    match Decimal.takeExponent rest with
    | some (exponent, rest) =>
      some (.decimal ⟨negative, significand, exponent - fraction.length⟩, rest)
    | none =>
      if fraction ≠ [] then some (.decimal ⟨negative, significand, -(fraction.length : Int)⟩, rest)
      else if ¬ negative then some (.whole significand, rest)
      else if significand = 0 then some (.decimal ⟨true, 0, 0⟩, rest)
      else some (.whole (-(significand : Int)), rest)

/-! ## Values -/

/-- Puts a field in front of others, unless one of them has its name. -/
def addField (key : String) (value : Json) (fields : List (String × Json)) : List (String × Json) :=
  if (field? fields key).isSome then fields else (key, value) :: fields

/-- Reads the name of a field, and the colon behind it. -/
def key? (text : List Char) : Option (Reading String text) :=
  match Reading.next? isBlank text with
  | none => none
  | some c =>
    if c.value = '"' then
      match string? c.rest with
      | none => none
      | some key =>
        match Reading.next? isBlank key.rest with
        | none => none
        | some colon =>
          if colon.value = ':' then
            some (c.after (key.after (colon.map fun _ => String.ofList key.value)))
          else none
    else none

/-- Reads a word that stands for a value. -/
def word? (word : List Char) (value : Json) (text : List Char) : Option (Json × List Char) :=
  if word.isPrefixOf text then some (value, text.drop word.length) else none

/-- Reads a number or one of the words `null`, `true` and `false`. -/
def scalar? (text : List Char) : Option (Reading Json text) :=
  let found :=
    (number? text).map (fun (n, rest) => (number n, rest))
      <|> word? ['n', 'u', 'l', 'l'] .null text
      <|> word? ['t', 'r', 'u', 'e'] (.bool true) text
      <|> word? ['f', 'a', 'l', 's', 'e'] (.bool false) text
  match found with
  | none => none
  | some (value, rest) => if h : rest.length < text.length then some ⟨value, rest, h⟩ else none

mutual

/-- Reads a value and the blanks before it. -/
def value? (text : List Char) : Option (Reading Json text) :=
  match Reading.next? isBlank text with
  | none => none
  | some c =>
    have := c.shorter
    if c.value = '[' then
      match Reading.next? isBlank c.rest with
      | none => none
      | some next =>
        if next.value = ']' then some (c.after (next.map fun _ => array []))
        else (elements? c.rest).map fun r => c.after (r.map array)
    else if c.value = '\x7b' then
      match Reading.next? isBlank c.rest with
      | none => none
      | some next =>
        if next.value = '\x7d' then some (c.after (next.map fun _ => object []))
        else (fields? c.rest).map fun r => c.after (r.map object)
    else if c.value = '"' then
      (string? c.rest).map fun r => c.after (r.map fun s => string (String.ofList s))
    else (scalar? (c.value :: c.rest)).map (·.within c.shorter)
termination_by (text.length, 0)

/-- Reads the elements of an array that has some, up to its end. -/
def elements? (text : List Char) : Option (Reading (List Json) text) :=
  match value? text with
  | none => none
  | some element =>
    match Reading.next? isBlank element.rest with
    | none => none
    | some c =>
      have := element.shorter
      have := c.shorter
      if c.value = ']' then some (element.after (c.map fun _ => [element.value]))
      else if c.value = ',' then
        (elements? c.rest).map fun more => element.after (c.after (more.map (element.value :: ·)))
      else none
termination_by (text.length, 1)

/-- Reads the fields of an object that has some, up to its end. -/
def fields? (text : List Char) : Option (Reading (List (String × Json)) text) :=
  match key? text with
  | none => none
  | some key =>
    have := key.shorter
    match value? key.rest with
    | none => none
    | some value =>
      match Reading.next? isBlank value.rest with
      | none => none
      | some c =>
        have := value.shorter
        have := c.shorter
        if c.value = '\x7d' then
          some (key.after (value.after (c.map fun _ => [(key.value, value.value)])))
        else if c.value = ',' then
          (fields? c.rest).map fun more =>
            key.after (value.after (c.after (more.map (addField key.value value.value))))
        else none
termination_by (text.length, 1)

end

/-- The value that a whole text stands for. -/
def ofText? (text : String) : Option Json :=
  match value? text.toList with
  | none => none
  | some r => if r.rest.all isBlank then some r.value else none

end Json

end InfixCalc
