/- Cyctron/Mongoose/Decimal
   digest: Numerals and the numbers that strtol reads in them. -/

import Cyctron.Base.Number
import Cyctron.Mongoose.Object

set_option autoImplicit false
set_option relaxedAutoImplicit false

namespace Cyctron.Mongoose.Decimal

open Cyctron.Base.CString Cyctron.Base.Number
open Cyctron.Json.Build (decimal_digits)
open Cyctron.Mongoose.Object (digitsValue le_digitsValue)

variable {s p d r v : Bytes} {n : Nat} {i j : Int} {c : UInt8}

section Values

private theorem digitsValue_append (n : Nat) (p d : Bytes) :
    digitsValue n (p ++ d) = digitsValue (digitsValue n p) d := List.foldl_append

/-- Further digits make a number no smaller. -/
private theorem digitsValue_prefix (h : p <+: d) (n : Nat) : digitsValue n p ≤ digitsValue n d := by
  obtain ⟨r, rfl⟩ := h
  rw [digitsValue_append]
  exact le_digitsValue r _

private theorem digitsValue_chars {l : List Char} (h : ∀ c ∈ l, c.isDigit = true) (n : Nat) :
    digitsValue n (l.map fun c => UInt8.ofNat c.toNat) = Nat.ofDigitChars 10 l n := by
  induction l generalizing n with
  | nil => rfl
  | cons c l ih =>
    obtain ⟨hc, hl⟩ := List.forall_mem_cons.mp h
    have hsmall : c.toNat < 256 := by
      simp only [Char.isDigit, Bool.and_eq_true, decide_eq_true_eq] at hc
      have hle : c.toNat ≤ 57 := hc.2
      omega
    have hbyte : (UInt8.ofNat c.toNat).toNat = c.toNat := by
      rw [UInt8.toNat_ofNat', Nat.mod_eq_of_lt hsmall]
    rw [List.map_cons, Nat.ofDigitChars_cons, ← ih hl]
    change digitsValue (n * 10 + ((UInt8.ofNat c.toNat).toNat - 48)) _ = _
    rw [hbyte, Nat.mul_comm n 10]
    rfl

theorem digitsValue_decimal (n : Nat) : digitsValue 0 (decimal n) = n := by
  have hdigits : ∀ c ∈ Nat.toDigits 10 n, c.isDigit = true :=
    fun _ hc => Nat.isDigit_of_mem_toDigits (by decide) (by decide) hc
  rw [decimal, digitsValue_chars hdigits, Nat.ofDigitChars_ten_toDigits]

theorem decimal_injective {m : Nat} (h : decimal m = decimal n) : m = n := by
  rw [← digitsValue_decimal m, h, digitsValue_decimal]

theorem decimal_no_sign (n : Nat) : (decimal n).head? ≠ some 45 := by
  intro h
  exact absurd ((decimal_digits n).2 45 (List.mem_of_mem_head? h)) (by decide)

theorem decimalInt_injective (h : decimalInt i = decimalInt j) : i = j := by
  cases i with
  | ofNat m =>
    cases j with
    | ofNat n => rw [decimal_injective h]
    | negSucc n =>
      have hsign : (decimal m).head? = some 45 := by
        change decimal m = 45 :: decimal (n + 1) at h
        rw [h, List.head?_cons]
      exact absurd hsign (decimal_no_sign m)
  | negSucc m =>
    cases j with
    | ofNat n =>
      have hsign : (decimal n).head? = some 45 := by
        change 45 :: decimal (m + 1) = decimal n at h
        rw [← h, List.head?_cons]
      exact absurd hsign (decimal_no_sign n)
    | negSucc n => rw [Nat.succ.inj (decimal_injective (List.cons.inj h).2)]

end Values

section Reading

/-- What `strtol` makes of its digits. -/
private theorem strtol_digits (s : Bytes) : strtol s =
    if (skipBlanks s).head? = some 45 then max (-2 ^ 63) (-(digitsValue 0 (strtolDigits s) : Int))
    else min (2 ^ 63 - 1) (digitsValue 0 (strtolDigits s) : Int) := rfl

theorem strtol_bounds (s : Bytes) : -2 ^ 63 ≤ strtol s ∧ strtol s ≤ 2 ^ 63 - 1 := by
  rw [strtol_digits]
  split
  · omega
  · omega

private theorem dropWhile_prefix (f : UInt8 → Bool) (h : p <+: s) :
    p.dropWhile f <+: s.dropWhile f := by
  obtain ⟨r, rfl⟩ := h
  rw [List.dropWhile_append]
  split
  · rename_i hempty
    rw [List.isEmpty_iff.mp hempty]
    exact List.nil_prefix
  · exact List.prefix_append _ _

theorem takeWhile_prefix (f : UInt8 → Bool) (h : p <+: s) : p.takeWhile f <+: s.takeWhile f := by
  obtain ⟨r, rfl⟩ := h
  rw [List.takeWhile_append]
  split
  · rename_i hall
    rw [List.takeWhile_eq_self_iff.mpr]
    · exact List.prefix_append _ _
    · exact List.takeWhile_eq_self_iff.mp ((List.takeWhile_prefix f).eq_of_length hall)
  · exact List.prefix_refl _

/-- The front of a text has the front of its digits, with the same sign. -/
private theorem strtolDigits_prefix (h : p <+: s) : strtolDigits p = [] ∨
    ((skipBlanks p).head? = (skipBlanks s).head? ∧ strtolDigits p <+: strtolDigits s) := by
  have hblanks : skipBlanks p <+: skipBlanks s := dropWhile_prefix isspace h
  unfold strtolDigits
  dsimp only
  cases hp : skipBlanks p with
  | nil => exact Or.inl rfl
  | cons c q =>
    rw [hp] at hblanks
    obtain ⟨r, hr⟩ := hblanks
    rw [List.cons_append] at hr
    rw [← hr, List.head?_cons, List.head?_cons]
    refine Or.inr ⟨rfl, takeWhile_prefix isdigit ?_⟩
    split
    · exact List.prefix_append _ _
    · exact List.cons_prefix_cons.mpr ⟨rfl, List.prefix_append _ _⟩

/-- A number that is cut is no greater, when it is not negative. -/
theorem strtol_prefix (h : p <+: s) : max 0 (strtol p) ≤ max 0 (strtol s) := by
  rcases strtolDigits_prefix h with hnone | ⟨hsign, hdigits⟩
  · have hzero : strtol p = 0 := by
      rw [strtol_digits, hnone]
      split
      · rfl
      · rfl
    rw [hzero]
    exact Int.le_max_left 0 _
  · have hvalue := digitsValue_prefix hdigits 0
    rw [strtol_digits, strtol_digits, hsign]
    split
    · omega
    · omega

end Reading

section Numerals

/-- What a numeral has behind its sign. -/
def unsigned (v : Bytes) : Bytes := if v.head? = some 45 ∨ v.head? = some 43 then v.drop 1 else v

/-- The integer that a numeral with an optional sign stands for, when a `long` has room for it. -/
def longNumeral (v : Bytes) : Option Int :=
  let n : Int := if v.head? = some 45 then -(digitsValue 0 (unsigned v) : Int)
    else digitsValue 0 (unsigned v)
  if (unsigned v ≠ [] ∧ (unsigned v).all isdigit) ∧ -2 ^ 63 ≤ n ∧ n ≤ 2 ^ 63 - 1 then some n else none

private theorem longNumeral_some (h : longNumeral v = some i) :
    (unsigned v ≠ [] ∧ ∀ c ∈ unsigned v, isdigit c = true) ∧ (-2 ^ 63 ≤ i ∧ i ≤ 2 ^ 63 - 1) ∧
      i = if v.head? = some 45 then -(digitsValue 0 (unsigned v) : Int)
        else digitsValue 0 (unsigned v) := by
  unfold longNumeral at h
  dsimp only at h
  obtain ⟨⟨⟨hne, hall⟩, hbounds⟩, hi⟩ := Option.ite_none_right_eq_some.mp h
  obtain rfl := Option.some.inj hi
  exact ⟨⟨hne, List.all_eq_true.mp hall⟩, hbounds, rfl⟩

private theorem unsigned_nil : unsigned [] = [] := rfl

/-- A numeral has no blanks before it. -/
private theorem skipBlanks_numeral (hne : unsigned v ≠ [])
    (hall : ∀ c ∈ unsigned v, isdigit c = true) :
    skipBlanks v = v := by
  cases v with
  | nil => rfl
  | cons c v =>
    have hspace : isspace c = false := by
      unfold unsigned at hne hall
      split at hall
      · rename_i hsign
        rw [List.head?_cons, Option.some_inj, Option.some_inj] at hsign
        rcases hsign with rfl | rfl
        · decide
        · decide
      · have hdigit := hall c List.mem_cons_self
        simp only [isdigit, Bool.and_eq_true, decide_eq_true_eq] at hdigit
        simp only [isspace, Bool.or_eq_false_iff, Bool.and_eq_false_iff, decide_eq_false_iff_not]
        grind
    rw [skipBlanks, List.dropWhile_cons_of_neg (Bool.eq_false_iff.mp hspace)]

private theorem skipBlanks_front (hv : skipBlanks v = v) (h : p <+: v) : skipBlanks p = p := by
  obtain ⟨r, rfl⟩ := h
  cases p with
  | nil => rfl
  | cons c p =>
    rw [List.cons_append, skipBlanks, List.dropWhile_cons] at hv
    rw [skipBlanks, List.dropWhile_cons]
    split at hv
    · have hlength := congrArg List.length hv
      have hshort := (List.dropWhile_suffix isspace (l := p ++ r)).length_le
      rw [List.length_cons] at hlength
      omega
    · rename_i hspace
      rw [if_neg hspace]

private theorem strtolDigits_unsigned (h : skipBlanks v = v) :
    strtolDigits v = (unsigned v).takeWhile isdigit := by
  unfold strtolDigits unsigned
  dsimp only
  rw [h]

/-- `strtol` reads a numeral to its end. -/
private theorem strtolDigits_numeral (hne : unsigned v ≠ [])
    (hall : ∀ c ∈ unsigned v, isdigit c = true) :
    strtolDigits v = unsigned v := by
  rw [strtolDigits_unsigned (skipBlanks_numeral hne hall)]
  exact List.takeWhile_eq_self_iff.mpr hall

theorem strtol_numeral (h : longNumeral v = some i) : strtolDigits v ≠ [] ∧ strtol v = i := by
  obtain ⟨⟨hne, hall⟩, hbounds, hi⟩ := longNumeral_some h
  have hdigits := strtolDigits_numeral hne hall
  rw [hdigits, strtol_digits, skipBlanks_numeral hne hall, hdigits]
  refine ⟨hne, ?_⟩
  split at hi
  · rename_i hsign
    rw [if_pos hsign, ← hi]
    exact max_eq_right hbounds.1
  · rename_i hsign
    rw [if_neg hsign, ← hi]
    exact min_eq_right hbounds.2

private theorem unsigned_prefix (h : p <+: v) (hne : unsigned p ≠ []) :
    p.head? = v.head? ∧ unsigned p <+: unsigned v := by
  obtain ⟨r, rfl⟩ := h
  cases p with
  | nil => exact absurd unsigned_nil hne
  | cons c p =>
    refine ⟨rfl, ?_⟩
    unfold unsigned
    rw [List.cons_append, List.head?_cons, List.head?_cons]
    split
    · exact List.prefix_append p r
    · exact List.prefix_append (c :: p) r

/-- What `strtol` reads in the front of a numeral is a numeral, and `long` has room for it. -/
theorem longNumeral_prefix (h : longNumeral v = some i) (hp : p <+: v) (hne : strtolDigits p ≠ []) :
    longNumeral p = some (strtol p) := by
  obtain ⟨⟨hv, hall⟩, hbounds, hi⟩ := longNumeral_some h
  have hrest : unsigned p ≠ [] := by
    intro hnil
    apply hne
    rw [strtolDigits_unsigned (skipBlanks_front (skipBlanks_numeral hv hall) hp), hnil]
    rfl
  obtain ⟨hhead, hcut⟩ := unsigned_prefix hp hrest
  have hdigits : ∀ c ∈ unsigned p, isdigit c = true := fun c hc => hall c (hcut.subset hc)
  have hvalue := digitsValue_prefix hcut 0
  have hread := strtolDigits_numeral hrest hdigits
  have hstrtol := strtol_digits p
  rw [skipBlanks_numeral hrest hdigits, hread] at hstrtol
  have hbounded : strtol p = if p.head? = some 45 then -(digitsValue 0 (unsigned p) : Int)
      else digitsValue 0 (unsigned p) := by
    rw [hstrtol]
    rw [← hhead] at hi
    split at hi
    · rename_i hsign
      rw [if_pos hsign, if_pos hsign]
      omega
    · rename_i hsign
      rw [if_neg hsign, if_neg hsign]
      omega
  unfold longNumeral
  dsimp only
  rw [← hbounded]
  exact if_pos ⟨⟨hrest, List.all_eq_true.mpr hdigits⟩, strtol_bounds p⟩

end Numerals

end Cyctron.Mongoose.Decimal
