import InfixCalc.Config.Value.Word
import InfixCalc.Reading
import InfixCalc.Text.Blank
import InfixCalc.Text.Bytes

/-!
# Reading the values of variables

The text of a variable is a word, a quoted text, a sequence in square brackets or a table in curly
ones. A text that has no such form counts as it stands, so that every variable has a value.
-/

namespace InfixCalc

namespace Config

namespace Value

/-! ## Quoted texts -/

/-- The character for which a letter behind a backslash stands. -/
def namedEscape? : Char → Option Char
  | '"' => some '"'
  | '\\' => some '\\'
  | 'b' => some '\x08'
  | 'f' => some '\x0c'
  | 'n' => some '\n'
  | 'r' => some '\r'
  | 't' => some '\t'
  | _ => none

/-- Reads a character given by a fixed number of hexadecimal digits. -/
def numbered? (width : Nat) (text : List Char) : Option (Scan Char text) :=
  if (text.take width).length = width then
    match (Text.ofHex? (text.take width)).bind Text.charOfNat? with
    | none => none
    | some c => some ⟨c, text.drop width, (List.drop_suffix width text).length_le⟩
  else none

/-- Reads what stands behind a backslash. -/
def escape? : (text : List Char) → Option (Reading Char text)
  | [] => none
  | c :: rest =>
    if c = 'u' then (numbered? 4 rest).map (·.behind c)
    else if c = 'U' then (numbered? 8 rest).map (·.behind c)
    else (namedEscape? c).map fun e => .first e c rest

/-- Reads a character of a quoted text, escaped or not. Control characters do not stand there, the
tab apart. -/
def quotedChar? : (text : List Char) → Option (Reading Char text)
  | [] => none
  | c :: rest =>
    if c = '\\' then (escape? rest).map (·.behind c)
    else if (c.toNat < 0x20 ∧ c ≠ '\t') ∨ c.toNat = 0x7F then none
    else some (.first c c rest)

/-- Reads the characters of a quoted text, up to the quote that ends it. -/
def quotedChars? (text : List Char) : Option (Reading (List Char) text) :=
  match text with
  | '"' :: rest => some (.first [] '"' rest)
  | text =>
    match quotedChar? text with
    | none => none
    | some c =>
      have := c.shorter
      (quotedChars? c.rest).map fun more => c.after (more.map (c.value :: ·))
termination_by text.length

/-- A character that neither ends a quoted text nor begins an escape. -/
def isPlain (c : Char) : Bool := c ≠ '"' && c ≠ '\\'

/-- What counts of the characters `cs` that are read from a quoted text. Of the plain characters
before its first escape count those that fit into as many bytes as there are such characters; a
text without escapes counts in full. -/
def counted (text cs : List Char) : List Char :=
  let plain := text.takeWhile isPlain
  if (text.dropWhile isPlain).head? = some '\\' then
    Text.takeBytes plain.length plain ++ cs.drop plain.length
  else cs

/-- Reads the rest of a quoted text, up to the quote that ends it. -/
def quoted? (text : List Char) : Option (Reading (List Char) text) :=
  (quotedChars? text).map (·.map (counted text))

/-! ## Values -/

/-- A character that ends a word. -/
def isSeparator (c : Char) : Bool :=
  c = ',' || c = '\x7b' || c = '\x7d' || c = '[' || c = ']'

/-- A character of a key that is not quoted. -/
def isKeyChar (c : Char) : Bool := c.isAlphanum || c = '_' || c = '-'

/-- Reads the next character, blank or not. -/
def separator? (text : List Char) : Option (Reading Char text) :=
  Reading.next? (fun _ => false) text

/-- The text that a list of characters is. -/
def textOf (cs : List Char) : Value := .text (String.ofList cs)

/-- Reads a word, which may be empty, up to a separator; blanks at its ends do not count. -/
def word (text : List Char) : Scan Value text :=
  (Scan.nothing (ofWord (Text.trim (text.takeWhile fun c => !isSeparator c))) text).dropping
    fun c => !isSeparator c

/-- Reads a character between single quotes, behind the first of them. -/
def char? : (text : List Char) → Option (Reading Char text)
  | c :: quote :: rest =>
    if quote = '\x27' then some ((Reading.first c quote rest).behind c) else none
  | _ => none

/-- Reads a key, quoted or a word of letters, digits, `_` and `-`, with the blanks around it and the
sign of equality behind it. -/
def key? (text : List Char) : Option (Reading String text) :=
  match Reading.next? Text.isAsciiBlank text with
  | none => none
  | some c =>
    let key : Option (Scan (List Char) c.rest) :=
      if c.value = '"' then (quoted? c.rest).map (·.toScan)
      else if isKeyChar c.value then
        some ((Scan.nothing (c.value :: c.rest.takeWhile isKeyChar) c.rest).dropping isKeyChar)
      else none
    match key with
    | none => none
    | some key =>
      match Reading.next? Text.isAsciiBlank key.rest with
      | none => none
      | some sign =>
        if sign.value = '=' then
          some (c.after (key.after (sign.map fun _ => String.ofList key.value)))
        else none

mutual

/-- Reads a value with the blanks around it. -/
def value? (text : List Char) : Option (Scan Value text) :=
  match Reading.next? Text.isAsciiBlank text with
  | none => some ⟨ofWord [], [], Nat.zero_le text.length⟩
  | some c =>
    have := c.shorter
    let all := c.value :: c.rest
    let found : Option (Scan Value all) :=
      if ['t', 'r', 'u', 'e'].isPrefixOf all then
        some ⟨.flag true, all.drop 4, (List.drop_suffix 4 all).length_le⟩
      else if ['f', 'a', 'l', 's', 'e'].isPrefixOf all then
        some ⟨.flag false, all.drop 5, (List.drop_suffix 5 all).length_le⟩
      else if c.value = '\x7b' then
        (entries? c.rest).map fun r => ((r.map table).behind c.value).toScan
      else if c.value = '[' then
        (elements? c.rest).map fun r => ((r.map sequence).behind c.value).toScan
      else if c.value = '"' then
        (quoted? c.rest).map fun r => ((r.map (textOf ·)).behind c.value).toScan
      else if c.value = '\x27' then
        (char? c.rest).map fun r => ((r.map fun d => textOf [d]).behind c.value).toScan
      else some (word all)
    found.map fun s =>
      (⟨s.value, s.rest, Nat.le_trans s.notLonger c.shorter⟩ : Scan Value text).dropping
        Text.isAsciiBlank
termination_by (text.length, 0)

/-- Reads the elements of a sequence, up to its end; a comma may stand behind the last. -/
def elements? (text : List Char) : Option (Reading (List Value) text) :=
  match text with
  | ']' :: rest => some (.first [] ']' rest)
  | text =>
    match value? text with
    | none => none
    | some element =>
      match separator? element.rest with
      | none => none
      | some c =>
        have := element.notLonger
        have := c.shorter
        if c.value = ',' then
          (elements? c.rest).map fun more =>
            element.after (c.after (more.map (element.value :: ·)))
        else if c.value = ']' then some (element.after (c.map fun _ => [element.value]))
        else none
termination_by (text.length, 1)

/-- Reads the entries of a table, up to its end; a comma may stand behind the last. -/
def entries? (text : List Char) : Option (Reading (List (String × Value)) text) :=
  match text with
  | '\x7d' :: rest => some (.first [] '\x7d' rest)
  | text =>
    match key? text with
    | none => none
    | some key =>
      have := key.shorter
      match value? key.rest with
      | none => none
      | some value =>
        match separator? value.rest with
        | none => none
        | some c =>
          have := value.notLonger
          have := c.shorter
          let entry := (key.value, value.value)
          if c.value = ',' then
            (entries? c.rest).map fun more =>
              key.after (value.after (c.after (more.map (entry :: ·))))
          else if c.value = '\x7d' then
            some (key.after (value.after (c.map fun _ => [entry])))
          else none
termination_by (text.length, 1)

end

/-- The value of a variable: what its text is read as, and the text itself where that fails. -/
def ofText (raw : String) : Value :=
  match value? raw.toList with
  | none => .text raw
  | some s => if s.rest = [] then s.value else .text raw

end Value

end Config

end InfixCalc
