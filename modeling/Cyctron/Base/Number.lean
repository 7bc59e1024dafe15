/- Cyctron/Base/Number
   digest: The conversions of C strings to numbers in base 10. -/

import Cyctron.Base.CString
import Mathlib.Algebra.Group.Int.Defs

set_option autoImplicit false
set_option relaxedAutoImplicit false

namespace Cyctron.Base.Number

open Cyctron.Base.CString

def isdigit (c : UInt8) : Bool := 48 ≤ c && c ≤ 57

/-- What follows the blanks in front of a number. -/
def skipBlanks (s : Bytes) : Bytes := s.dropWhile isspace

/-- The digits of the number that `strtol` reads; without any it reads nothing. -/
def strtolDigits (s : Bytes) : Bytes :=
  let t := skipBlanks s
  (if t.head? = some 45 ∨ t.head? = some 43 then t.drop 1 else t).takeWhile isdigit

/-- `strtol` in base 10, which stops at the bounds of a `long`. -/
def strtol (s : Bytes) : Int :=
  let n : Nat := (strtolDigits s).foldl (fun n c => n * 10 + (c.toNat - 48)) 0
  if (skipBlanks s).head? = some 45 then max (-2 ^ 63) (-(n : Int)) else min (2 ^ 63 - 1) (n : Int)

def atoi (s : Bytes) : Int := (strtol s).bmod (2 ^ 32)

example : strtol (ascii " -42x") = -42 ∧ atoi (ascii "99999999999999999999") = -1 := by
  decide +kernel

end Cyctron.Base.Number
