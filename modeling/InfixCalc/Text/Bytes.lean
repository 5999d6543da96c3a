/-!
# Texts counted in bytes

The part at the front of a text that fits into a number of bytes of UTF-8. Main statements: it
takes no more bytes than allowed (`utf8ByteSize_takeBytes_le`), and it has as many characters as
allowed where each character takes one byte (`takeBytes_eq_take`).
-/

namespace InfixCalc

namespace Text

/-- The characters at the front of a text that together take at most `size` bytes in UTF-8. -/
def takeBytes : Nat → List Char → List Char
  | _, [] => []
  | size, c :: rest =>
    if c.utf8Size ≤ size then c :: takeBytes (size - c.utf8Size) rest else []

/-- What is taken fits into the bytes allowed. -/
theorem utf8ByteSize_takeBytes_le (size : Nat) (text : List Char) :
    (String.ofList (takeBytes size text)).utf8ByteSize ≤ size := by
  induction text generalizing size with
  | nil => exact Nat.zero_le size
  | cons c rest ih =>
    rw [takeBytes]
    split
    · have := ih (size - c.utf8Size)
      rw [String.ofList_cons, String.utf8ByteSize_append, String.utf8ByteSize_singleton]
      omega
    · exact Nat.zero_le size

/-- Where each character takes one byte, as many characters are taken as bytes are allowed. -/
theorem takeBytes_eq_take {text : List Char} (h : ∀ c ∈ text, c.utf8Size = 1) (size : Nat) :
    takeBytes size text = text.take size := by
  induction text generalizing size with
  | nil => simp [takeBytes]
  | cons c rest ih =>
    have hc := h c List.mem_cons_self
    have hrest := ih fun d hd => h d (List.mem_cons_of_mem c hd)
    cases size with
    | zero => simp [takeBytes, hc]
    | succ size => simp [takeBytes, hc, hrest]

end Text

end InfixCalc
