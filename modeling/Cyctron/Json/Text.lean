/- Cyctron/Json/Text
   digest: JSON texts as byte strings: their grammar, the members of an object, decoded strings. -/

import Cyctron.Base.CString

set_option autoImplicit false
set_option relaxedAutoImplicit false

namespace Cyctron.Json.Text

open Cyctron.Base.CString

/-! The grammar is the one of RFC 8259 on the bytes of a text: a byte of a character beyond ASCII is
    one of the unescaped bytes of a string. -/

def isWs (c : UInt8) : Bool := c = 32 || c = 9 || c = 10 || c = 13

def Blank (w : Bytes) : Prop := ∀ c ∈ w, isWs c = true

def isDigit (c : UInt8) : Bool := 48 ≤ c && c ≤ 57

def isHex (c : UInt8) : Bool := isDigit c || (65 ≤ c && c ≤ 70) || (97 ≤ c && c ≤ 102)

/-- The letters of the two-byte escapes. -/
def isShort (c : UInt8) : Bool :=
  c = 34 || c = 92 || c = 47 || c = 98 || c = 102 || c = 110 || c = 114 || c = 116

/-- What stands between the quotes of a string. -/
inductive Body : Bytes → Prop
  | nil : Body []
  | plain {c : UInt8} {b : Bytes} (printable : 32 ≤ c) (quote : c ≠ 34) (backslash : c ≠ 92)
      (rest : Body b) : Body (c :: b)
  | short {c : UInt8} {b : Bytes} (letter : isShort c = true) (rest : Body b) : Body (92 :: c :: b)
  | unicode {h b : Bytes} (four : h.length = 4) (hex : ∀ c ∈ h, isHex c = true) (rest : Body b) :
      Body (92 :: 117 :: (h ++ b))

def Digits (d : Bytes) : Prop := d ≠ [] ∧ ∀ c ∈ d, isDigit c = true

/-- A number, with a condition on the digits of its exponent. -/
inductive Number (exponent : Bytes → Prop) : Bytes → Prop
  | mk {sign int frac exp : Bytes} (signed : sign = [] ∨ sign = [45])
      (digits : int = [48] ∨ (Digits int ∧ int.head? ≠ some 48))
      (fraction : frac = [] ∨ ∃ d, Digits d ∧ frac = 46 :: d)
      (scale : exp = [] ∨ ∃ e s d, (e = 101 ∨ e = 69) ∧ (s = [] ∨ s = [43] ∨ s = [45]) ∧
        Digits d ∧ exponent d ∧ exp = e :: (s ++ d)) :
      Number exponent (sign ++ (int ++ (frac ++ exp)))

/-- The parts of a text that the grammar derives. The members of an object are given by their names
and values as they are written. -/
inductive Kind
  | value
  | elements
  | members (ms : List (Bytes × Bytes))

/-- Derivations whose values are nested at most `d` deep, with a condition on the numbers. -/
inductive Derives (num : Bytes → Prop) : Kind → Nat → Bytes → Prop
  | null {d : Nat} : Derives num .value d (ascii "null")
  | true {d : Nat} : Derives num .value d (ascii "true")
  | false {d : Nat} : Derives num .value d (ascii "false")
  | number {d : Nat} {t : Bytes} (h : num t) : Derives num .value d t
  | string {d : Nat} {b : Bytes} (h : Body b) : Derives num .value d (34 :: (b ++ [34]))
  | emptyArray {d : Nat} {w : Bytes} (blank : Blank w) :
      Derives num .value (d + 1) (91 :: (w ++ [93]))
  | array {d : Nat} {e : Bytes} (h : Derives num .elements d e) :
      Derives num .value (d + 1) (91 :: (e ++ [93]))
  | emptyObject {d : Nat} {w : Bytes} (blank : Blank w) :
      Derives num .value (d + 1) (123 :: (w ++ [125]))
  | object {d : Nat} {ms : List (Bytes × Bytes)} {m : Bytes} (h : Derives num (.members ms) d m) :
      Derives num .value (d + 1) (123 :: (m ++ [125]))
  | element {d : Nat} {w v w' : Bytes} (left : Blank w) (h : Derives num .value d v)
      (right : Blank w') : Derives num .elements d (w ++ (v ++ w'))
  | elements {d : Nat} {w v w' e : Bytes} (left : Blank w) (h : Derives num .value d v)
      (right : Blank w') (rest : Derives num .elements d e) :
      Derives num .elements d (w ++ (v ++ (w' ++ 44 :: e)))
  | member {d : Nat} {w n x y v w' : Bytes} (left : Blank w) (name : Body n) (before : Blank x)
      (after : Blank y) (h : Derives num .value d v) (right : Blank w') :
      Derives num (.members [(n, v)]) d (w ++ 34 :: (n ++ 34 :: (x ++ 58 :: (y ++ (v ++ w')))))
  | members {d : Nat} {w n x y v w' m : Bytes} {ms : List (Bytes × Bytes)} (left : Blank w)
      (name : Body n) (before : Blank x) (after : Blank y) (h : Derives num .value d v)
      (right : Blank w') (rest : Derives num (.members ms) d m) :
      Derives num (.members ((n, v) :: ms)) d
        (w ++ 34 :: (n ++ 34 :: (x ++ 58 :: (y ++ (v ++ (w' ++ 44 :: m))))))

/-- A text that is one object with these members. -/
inductive Object (num : Bytes → Prop) (d : Nat) : List (Bytes × Bytes) → Bytes → Prop
  | empty {w x w' : Bytes} (left : Blank w) (inner : Blank x) (right : Blank w') :
      Object num d [] (w ++ 123 :: (x ++ 125 :: w'))
  | full {w m w' : Bytes} {ms : List (Bytes × Bytes)} (left : Blank w)
      (h : Derives num (.members ms) d m) (right : Blank w') :
      Object num d ms (w ++ 123 :: (m ++ 125 :: w'))

/-- The numbers of JSON. -/
def AnyNumber : Bytes → Prop := Number fun _ => True

/-- A JSON text. -/
def IsText (t : Bytes) : Prop :=
  ∃ d w v w', Blank w ∧ Blank w' ∧ Derives AnyNumber .value d v ∧ t = w ++ (v ++ w')

/-- A JSON text that is an object with these members. -/
def IsObject (t : Bytes) (ms : List (Bytes × Bytes)) : Prop := ∃ d, Object AnyNumber d ms t

/-- The value of the first member with this name. -/
def lookup (name : Bytes) (ms : List (Bytes × Bytes)) : Option Bytes :=
  (ms.find? fun m => m.1 = name).map Prod.snd

/-- A string as it is written. -/
def quoted (b : Bytes) : Bytes := 34 :: (b ++ [34])

def hexValue (c : UInt8) : Nat :=
  if isDigit c then c.toNat - 48 else if 65 ≤ c && c ≤ 70 then c.toNat - 55 else c.toNat - 87

def hexNumber (h : Bytes) : Nat := h.foldl (fun n c => n * 16 + hexValue c) 0

/-- The encoding of a code point in UTF-8. -/
def utf8 (n : Nat) : Bytes :=
  if n < 128 then [UInt8.ofNat n]
  else if n < 2048 then [UInt8.ofNat (192 + n / 64), UInt8.ofNat (128 + n % 64)]
  else if n < 65536 then
    [UInt8.ofNat (224 + n / 4096), UInt8.ofNat (128 + n / 64 % 64), UInt8.ofNat (128 + n % 64)]
  else [UInt8.ofNat (240 + n / 262144), UInt8.ofNat (128 + n / 4096 % 64),
    UInt8.ofNat (128 + n / 64 % 64), UInt8.ofNat (128 + n % 64)]

/-- What a two-byte escape stands for. -/
def shortValue (c : UInt8) : UInt8 :=
  if c = 98 then 8 else if c = 102 then 12 else if c = 110 then 10 else if c = 114 then 13
  else if c = 116 then 9 else c

/-- The second half of a surrogate pair, when the text begins with one. -/
def lowHalf (b : Bytes) : Option Nat :=
  if b.take 2 = [92, 117] then
    let n := hexNumber ((b.drop 2).take 4)
    if 56320 ≤ n ∧ n < 57344 then some (n - 56320) else none
  else none

/-- What the contents of a string stand for, when `k` bytes are done already. -/
def decodeFrom : Nat → Bytes → Bytes
  | _, [] => []
  | k + 1, _ :: b => decodeFrom k b
  | 0, c :: b =>
    if c ≠ 92 then c :: decodeFrom 0 b
    else if b.head? ≠ some 117 then shortValue (b.headD 0) :: decodeFrom 1 b
    else
      let n := hexNumber ((b.drop 1).take 4)
      if 55296 ≤ n ∧ n < 56320 then
        match lowHalf (b.drop 5) with
        | some l => utf8 (65536 + (n - 55296) * 1024 + l) ++ decodeFrom 11 b
        | none => utf8 n ++ decodeFrom 5 b
      else utf8 n ++ decodeFrom 5 b

/-- What the contents of a string stand for. -/
def decode (b : Bytes) : Bytes := decodeFrom 0 b

/-- The string that a value as it is written stands for, if it is one. -/
def decodeString (v : Bytes) : Option Bytes :=
  if v.head? = some 34 ∧ 1 < v.length then some (decode (v.drop 1).dropLast) else none

example : decode (ascii "a\\u00e9\\ud83d\\ude00\\n") = [97, 195, 169, 240, 159, 152, 128, 10] := by
  decide

end Cyctron.Json.Text
