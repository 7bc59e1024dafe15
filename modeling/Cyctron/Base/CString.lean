/- Cyctron.Base.CString
   digest: C strings as byte lists, their literals, character classes and decimal numerals. -/

import Mathlib.Algebra.Group.Nat.Defs
import Mathlib.Data.List.Infix
import Mathlib.Data.List.TakeWhile

set_option autoImplicit false
set_option relaxedAutoImplicit false

namespace Cyctron.Base.CString

/-- The bytes of a C string before its terminator; the null pointer is `none`. -/
abbrev Bytes := List UInt8

/-- A string literal of the source. -/
def ascii (s : String) : Bytes := s.toList.map fun c => UInt8.ofNat c.toNat

/-- What a reader of the C string that starts at these bytes sees. -/
def cString (b : Bytes) : Bytes := b.takeWhile (· ≠ 0)

/-- `isalnum` in the C locale. -/
def isalnum (c : UInt8) : Bool :=
  (48 ≤ c && c ≤ 57) || (65 ≤ c && c ≤ 90) || (97 ≤ c && c ≤ 122)

/-- `isspace` in the C locale. -/
def isspace (c : UInt8) : Bool := c = 32 || (9 ≤ c && c ≤ 13)

/-- The conversions `%u`, `%lu` and `%llu`. -/
def decimal (n : Nat) : Bytes := (Nat.toDigits 10 n).map fun c => UInt8.ofNat c.toNat

/-- The conversions `%d` and `%ld`. -/
def decimalInt : Int → Bytes
  | .ofNat n => decimal n
  | .negSucc n => 45 :: decimal (n + 1)

/-- `snprintf` into a buffer of the given size keeps room for the terminator. -/
def snprintf (size : Nat) (text : Bytes) : Bytes := text.take (size - 1)

/-- `strstr` finds the needle. -/
def strstr (s needle : Bytes) : Bool := decide (needle <:+: s)

theorem cString_plain {b : Bytes} (h : 0 ∉ b) : cString b = b :=
  List.takeWhile_eq_self_iff.mpr fun _ hc => decide_eq_true fun heq => h (heq ▸ hc)

theorem prefix_snprintf {size : Nat} {lead rest : Bytes} (h : lead.length < size) :
    lead <+: snprintf size (lead ++ rest) := by
  rw [snprintf, List.take_append, List.take_of_length_le (by omega)]
  exact List.prefix_append _ _

theorem snprintf_fits {size : Nat} {text : Bytes} (h : text.length < size) :
    snprintf size text = text :=
  List.take_of_length_le (by omega)

end Cyctron.Base.CString
