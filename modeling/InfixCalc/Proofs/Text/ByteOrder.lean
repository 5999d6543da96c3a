import Mathlib

/-!
# The order of bytes

Texts are ordered by their characters, and so are their bytes in UTF-8. The first byte of a
character says how many bytes it has, and a greater character has as many or more; of two characters
of one length the bytes hold the digits of the code points, from the greatest place down.

Main statement: a text that comes before another one has bytes that come before the bytes of that
one (`bytes_lt_bytes`).
-/

namespace InfixCalc

namespace Text

/-! ## The bytes of a number -/

/-- A number as bytes: `more` bytes for the last digits to the base of 64, behind a byte that holds
what is left above `base`. -/
def digitBytes (base : Nat) : Nat → Nat → List UInt8
  | 0, v => [UInt8.ofNat (v + base)]
  | more + 1, v => digitBytes base more (v / 64) ++ [UInt8.ofNat (v % 64 + 128)]

/-- Numbers that fit into a byte are ordered as their bytes are. -/
theorem ofNat_lt_ofNat {m n : Nat} (h : m < n) (hn : n < 256) : UInt8.ofNat m < UInt8.ofNat n :=
  (UInt8.ofNat_lt_iff_lt (h.trans hn) hn).2 h

/-- The first byte of a number holds what is left when the digits behind it are taken off. -/
theorem exists_digitBytes_eq_cons (base more v : Nat) :
    ∃ digits, digitBytes base more v = UInt8.ofNat (v / 64 ^ more + base) :: digits := by
  induction more generalizing v with
  | zero => exact ⟨[], by rw [digitBytes, pow_zero, Nat.div_one]⟩
  | succ more ih =>
      obtain ⟨digits, hdigits⟩ := ih (v / 64)
      refine ⟨digits ++ [UInt8.ofNat (v % 64 + 128)], ?_⟩
      rw [digitBytes, hdigits, Nat.div_div_eq_div_mul, ← pow_succ', List.cons_append]

/-- Of two numbers with as many digits, the greater one has the greater bytes. -/
theorem digitBytes_append_lt {base more v w : Nat} (h : v < w) (hw : w / 64 ^ more + base < 256)
    (x y : List UInt8) : digitBytes base more v ++ x < digitBytes base more w ++ y := by
  induction more generalizing v w x y with
  | zero =>
      rw [pow_zero, Nat.div_one] at hw
      exact List.cons_lt_cons_iff.2 (.inl (ofNat_lt_ofNat (Nat.add_lt_add_right h base) hw))
  | succ more ih =>
      rw [digitBytes, digitBytes, List.append_assoc, List.append_assoc]
      rw [pow_succ', ← Nat.div_div_eq_div_mul] at hw
      rcases (Nat.div_le_div_right h.le : v / 64 ≤ w / 64).lt_or_eq with hlt | heq
      · exact ih hlt hw _ _
      · -- All digits but the last one are the same.
        have hlast : v % 64 + 128 < w % 64 + 128 := by omega
        rw [heq]
        exact List.append_left_lt (List.cons_lt_cons_iff.2 (.inl (ofNat_lt_ofNat hlast (by omega))))

/-- Where a first byte is greater, all of the bytes are. -/
theorem digitBytes_append_lt_of_first {base base' more more' v w : Nat}
    (h : v / 64 ^ more + base < w / 64 ^ more' + base') (hw : w / 64 ^ more' + base' < 256)
    (x y : List UInt8) : digitBytes base more v ++ x < digitBytes base' more' w ++ y := by
  obtain ⟨digits, hdigits⟩ := exists_digitBytes_eq_cons base more v
  obtain ⟨digits', hdigits'⟩ := exists_digitBytes_eq_cons base' more' w
  rw [hdigits, hdigits']
  exact List.cons_lt_cons_iff.2 (.inl (ofNat_lt_ofNat h hw))

/-! ## The bytes of a text -/

/-- The bytes of a character are those of its code point, by the length that it needs. -/
theorem utf8EncodeChar_cases (c : Char) :
    (c.toNat < 128 ∧ String.utf8EncodeChar c = digitBytes 0 0 c.toNat)
      ∨ (128 ≤ c.toNat ∧ c.toNat < 2048 ∧ String.utf8EncodeChar c = digitBytes 192 1 c.toNat)
      ∨ (2048 ≤ c.toNat ∧ c.toNat < 65536 ∧ String.utf8EncodeChar c = digitBytes 224 2 c.toNat)
      ∨ (65536 ≤ c.toNat ∧ c.toNat < 1114112
          ∧ String.utf8EncodeChar c = digitBytes 240 3 c.toNat) := by
  have hvalid : c.toNat < 1114112 := by
    have hvalid := c.valid
    simp only [UInt32.isValidChar, Nat.isValidChar] at hvalid
    change c.val.toNat < 1114112
    omega
  have hdef := String.utf8EncodeChar.eq_1 c
  rw [show c.val.toNat = c.toNat from rfl] at hdef
  simp only [digitBytes, Nat.div_div_eq_div_mul, List.cons_append, List.nil_append, Nat.add_zero]
  split at hdef
  · exact .inl ⟨by omega, hdef⟩
  · split at hdef
    · rw [Nat.mod_eq_of_lt (by omega : c.toNat / 64 < 32)] at hdef
      exact .inr (.inl ⟨by omega, by omega, hdef⟩)
    · split at hdef
      · rw [Nat.mod_eq_of_lt (by omega : c.toNat / 4096 < 16)] at hdef
        exact .inr (.inr (.inl ⟨by omega, by omega, hdef⟩))
      · rw [Nat.mod_eq_of_lt (by omega : c.toNat / 262144 < 8)] at hdef
        exact .inr (.inr (.inr ⟨by omega, hvalid, hdef⟩))

/-- **Characters are ordered as their bytes are,** whatever stands behind them. -/
theorem utf8EncodeChar_append_lt {c d : Char} (h : c < d) (x y : List UInt8) :
    String.utf8EncodeChar c ++ x < String.utf8EncodeChar d ++ y := by
  have hcode : c.toNat < d.toNat := h
  -- Of characters of one length the digits decide, of two lengths the first bytes.
  rcases utf8EncodeChar_cases c with
    ⟨hc, hbytes⟩ | ⟨hc, hc', hbytes⟩ | ⟨hc, hc', hbytes⟩ | ⟨hc, hc', hbytes⟩ <;>
  rcases utf8EncodeChar_cases d with
    ⟨hd, hbytes'⟩ | ⟨hd, hd', hbytes'⟩ | ⟨hd, hd', hbytes'⟩ | ⟨hd, hd', hbytes'⟩ <;>
  rw [hbytes, hbytes'] <;>
  first
  | exact digitBytes_append_lt hcode (by omega) x y
  | exact digitBytes_append_lt_of_first (by omega) (by omega) x y

/-- The bytes of a text in UTF-8. -/
def bytes (s : String) : List UInt8 := s.toUTF8.data.toList

/-- The bytes of a text are those of its characters. -/
theorem bytes_eq_flatMap (s : String) : bytes s = s.toList.flatMap String.utf8EncodeChar := by
  rw [bytes, String.toUTF8, ← String.utf8Encode_toList, List.utf8Encode,
    List.toList_data_toByteArray]

/-- **Texts are ordered as their bytes are.** -/
theorem bytes_lt_bytes {s t : String} (h : s < t) : bytes s < bytes t := by
  rw [bytes_eq_flatMap, bytes_eq_flatMap]
  replace h : s.toList < t.toList := h
  generalize s.toList = cs, t.toList = ds at h
  induction h with
  | @nil d ds =>
      have hne : String.utf8EncodeChar d ≠ [] := String.utf8EncodeChar_ne_nil
      obtain ⟨b, bs, hd⟩ := List.exists_cons_of_ne_nil hne
      rw [List.flatMap_cons, hd]
      exact List.nil_lt_cons _ _
  | rel hlt => exact utf8EncodeChar_append_lt hlt _ _
  | cons _ ih => exact List.append_left_lt ih

end Text

end InfixCalc
