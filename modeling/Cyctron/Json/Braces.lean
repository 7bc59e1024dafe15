/- Cyctron/Json/Braces
   digest: Outside its strings a text closes as many braces as it opens. -/

import Cyctron.Json.Build

set_option autoImplicit false
set_option relaxedAutoImplicit false

namespace Cyctron.Json.Braces

open Cyctron.Base.CString Cyctron.Json.Text Cyctron.Json.Build

variable {exponent : Bytes → Prop} {d : Nat} {t b : Bytes} {ms : List (Bytes × Bytes)} {k : Kind}
  {q : Bool} {n : Int}

/-- Whether a byte is inside a string, and how many braces are open, after a byte; nothing once a
string holds a control character. The count is for texts without backslashes. -/
def count : Option (Bool × Int) → UInt8 → Option (Bool × Int)
  | none, _ => none
  | some (q, n), c =>
    if c = 34 then some (!q, n)
    else if q then (if c < 32 then none else some (q, n))
    else if c = 123 then some (q, n + 1)
    else if c = 125 then some (q, n - 1)
    else some (q, n)

def scan (s : Option (Bool × Int)) (t : Bytes) : Option (Bool × Int) := t.foldl count s

theorem scan_append (s : Option (Bool × Int)) (t r : Bytes) :
    scan s (t ++ r) = scan (scan s t) r := List.foldl_append

private theorem scan_cons (s : Option (Bool × Int)) (c : UInt8) (t : Bytes) :
    scan s (c :: t) = scan (count s c) t := rfl

theorem scan_none : scan none t = none := by
  induction t with
  | nil => rfl
  | cons c t ih => exact ih

/-- Inside a string nothing counts but its end. -/
theorem scan_inside (h : ∀ c ∈ t, 32 ≤ c ∧ c ≠ 34) :
    scan (some (true, n)) t = some (true, n) := by
  induction t with
  | nil => rfl
  | cons c t ih =>
    obtain ⟨⟨hc, hquote⟩, ht⟩ := List.forall_mem_cons.mp h
    rw [scan_cons, count, if_neg hquote, if_pos rfl, if_neg (UInt8.not_lt.mpr hc)]
    exact ih ht

/-- A control character inside a string is noticed. -/
theorem scan_control (hquote : ∀ c ∈ t, c ≠ 34) (hlow : ∃ c ∈ t, c < 32) :
    scan (some (true, n)) t = none := by
  induction t with
  | nil =>
    obtain ⟨c, hc, _⟩ := hlow
    exact absurd hc List.not_mem_nil
  | cons c t ih =>
    obtain ⟨hc, ht⟩ := List.forall_mem_cons.mp hquote
    rw [scan_cons, count, if_neg hc, if_pos rfl]
    by_cases hctl : c < 32
    · rw [if_pos hctl, scan_none]
    · rw [if_neg hctl]
      refine ih ht ?_
      obtain ⟨a, ha, hlow⟩ := hlow
      rcases List.mem_cons.mp ha with rfl | ha
      · exact absurd hlow hctl
      · exact ⟨a, ha, hlow⟩

def Braceless (t : Bytes) : Prop := ∀ c ∈ t, c ≠ 123 ∧ c ≠ 125

instance (t : Bytes) : Decidable (Braceless t) :=
  List.decidableBAll (fun c => c ≠ 123 ∧ c ≠ 125) t

/-- Bytes other than braces leave the number of open braces as it is. -/
theorem scan_braceless (h : Braceless t) :
    scan (some (q, n)) t = none ∨ ∃ q', scan (some (q, n)) t = some (q', n) := by
  induction t generalizing q with
  | nil => exact Or.inr ⟨q, rfl⟩
  | cons c t ih =>
    obtain ⟨⟨hopen, hclose⟩, ht⟩ := List.forall_mem_cons.mp h
    rw [scan_cons, count]
    split_ifs
    · exact ih ht
    · exact Or.inl scan_none
    · exact ih ht
    · exact ih ht

/-- Bytes between strings that a scan passes over without a change. -/
def Neutral (t : Bytes) : Prop := ∀ c ∈ t, c ≠ 34 ∧ c ≠ 123 ∧ c ≠ 125

instance (t : Bytes) : Decidable (Neutral t) :=
  List.decidableBAll (fun c => c ≠ 34 ∧ c ≠ 123 ∧ c ≠ 125) t

theorem scan_neutral (h : Neutral t) : scan (some (false, n)) t = some (false, n) := by
  induction t with
  | nil => rfl
  | cons c t ih =>
    obtain ⟨⟨hquote, hopen, hclose⟩, ht⟩ := List.forall_mem_cons.mp h
    rw [scan_cons, count, if_neg hquote, if_neg Bool.false_ne_true, if_neg hopen, if_neg hclose]
    exact ih ht

private theorem neutral_blank {w : Bytes} (h : Blank w) : Neutral w := by
  intro c hc
  have hws := h c hc
  refine ⟨?_, ?_, ?_⟩ <;> rintro rfl <;> exact absurd hws (by decide)

theorem neutral_number (h : Number exponent t) : Neutral t := by
  intro c hc
  have hbyte := number_bytes h c hc
  refine ⟨?_, ?_, ?_⟩ <;> rintro rfl <;> exact absurd hbyte (by decide)

private theorem scan_body (h : Body b) (hb : 92 ∉ b) : scan (some (true, n)) b = some (true, n) := by
  refine scan_inside ?_
  induction h with
  | nil => exact fun _ hc => absurd hc List.not_mem_nil
  | plain printable quote _ _ ih =>
    exact List.forall_mem_cons.mpr ⟨⟨printable, quote⟩, ih (List.not_mem_of_not_mem_cons hb)⟩
  | short _ _ _ => exact absurd List.mem_cons_self hb
  | unicode _ _ _ _ => exact absurd List.mem_cons_self hb

/-- The name of a member and what stands around its colon change nothing. -/
private theorem scan_name {w m x y : Bytes} (left : Blank w) (name : Body m) (hm : 92 ∉ m)
    (before : Blank x)
    (after : Blank y) (r : Bytes) :
    scan (some (false, n)) (w ++ 34 :: (m ++ 34 :: (x ++ 58 :: (y ++ r)))) = scan (some (false, n)) r := by
  rw [scan_append, scan_neutral (neutral_blank left), scan_cons, scan_append]
  change scan (scan (some (Bool.true, n)) _) _ = _
  rw [scan_body name hm, scan_cons, scan_append]
  change scan (scan (some (Bool.false, n)) _) _ = _
  rw [scan_neutral (neutral_blank before), scan_cons, scan_append]
  change scan (scan (some (Bool.false, n)) _) _ = _
  rw [scan_neutral (neutral_blank after)]

/-- A derived text without backslashes ends outside of strings with as many braces open as at its
start. -/
private theorem scan_derives (h : Derives (Number exponent) k d t) (ht : 92 ∉ t) :
    scan (some (false, n)) t = some (false, n) := by
  induction h generalizing n with
  | null => exact scan_neutral (t := ascii "null") (by decide)
  | true => exact scan_neutral (t := ascii "true") (by decide)
  | false => exact scan_neutral (t := ascii "false") (by decide)
  | number h => exact scan_neutral (neutral_number h)
  | string h =>
    simp only [List.mem_cons, List.mem_append, not_or] at ht
    rw [scan_cons, scan_append]
    change scan (scan (some (Bool.true, n)) _) _ = _
    rw [scan_body h ht.2.1]
    rfl
  | emptyArray blank =>
    rw [scan_cons, scan_append]
    change scan (scan (some (Bool.false, n)) _) _ = _
    rw [scan_neutral (neutral_blank blank)]
    rfl
  | array _ ih =>
    simp only [List.mem_cons, List.mem_append, not_or] at ht
    rw [scan_cons, scan_append]
    change scan (scan (some (Bool.false, n)) _) _ = _
    rw [ih ht.2.1]
    rfl
  | emptyObject blank =>
    rw [scan_cons, scan_append]
    change scan (scan (some (Bool.false, n + 1)) _) _ = _
    rw [scan_neutral (neutral_blank blank)]
    change some (Bool.false, n + 1 - 1) = some (Bool.false, n)
    rw [Int.add_sub_cancel]
  | object _ ih =>
    simp only [List.mem_cons, List.mem_append, not_or] at ht
    rw [scan_cons, scan_append]
    change scan (scan (some (Bool.false, n + 1)) _) _ = _
    rw [ih ht.2.1]
    change some (Bool.false, n + 1 - 1) = some (Bool.false, n)
    rw [Int.add_sub_cancel]
  | element left _ right ih =>
    simp only [List.mem_append, not_or] at ht
    rw [scan_append, scan_append, scan_neutral (neutral_blank left), ih ht.2.1,
      scan_neutral (neutral_blank right)]
  | elements left _ right _ ih ih' =>
    simp only [List.mem_cons, List.mem_append, not_or] at ht
    rw [scan_append, scan_append, scan_append, scan_neutral (neutral_blank left), ih ht.2.1,
      scan_neutral (neutral_blank right)]
    exact ih' ht.2.2.2.2
  | member left name before after _ right ih =>
    simp only [List.mem_cons, List.mem_append, not_or] at ht
    rw [scan_name left name ht.2.2.1 before after, scan_append, ih ht.2.2.2.2.2.2.2.1,
      scan_neutral (neutral_blank right)]
  | members left name before after _ right _ ih ih' =>
    simp only [List.mem_cons, List.mem_append, not_or] at ht
    rw [scan_name left name ht.2.2.1 before after, scan_append, scan_append, ih ht.2.2.2.2.2.2.2.1,
      scan_neutral (neutral_blank right)]
    exact ih' ht.2.2.2.2.2.2.2.2.2.2

theorem scan_object (h : Object (Number exponent) d ms t) (ht : 92 ∉ t) :
    scan (some (false, 0)) t = some (false, 0) := by
  cases h with
  | empty left inner right =>
    rw [scan_append, scan_neutral (neutral_blank left), scan_cons, scan_append]
    change scan (scan (some (Bool.false, 1)) _) _ = _
    rw [scan_neutral (neutral_blank inner), scan_cons]
    exact scan_neutral (neutral_blank right)
  | full left h right =>
    simp only [List.mem_cons, List.mem_append, not_or] at ht
    rw [scan_append, scan_neutral (neutral_blank left), scan_cons, scan_append]
    change scan (scan (some (Bool.false, 1)) _) _ = _
    rw [scan_derives h ht.2.2.1, scan_cons]
    exact scan_neutral (neutral_blank right)

end Cyctron.Json.Braces
