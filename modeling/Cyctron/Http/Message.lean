/- Cyctron/Http/Message
   digest: HTTP requests as mongoose hands them over, their method, and strncmp on their slices. -/

import Cyctron.Base.CString

set_option autoImplicit false
set_option relaxedAutoImplicit false

namespace Cyctron.Http.Message

open Cyctron.Base.CString

/-- A request that `mg_http_parse` has accepted: no byte of its head is zero, the URI ends before its
question mark, and the length of the body is a word. -/
structure HttpMessage where
  method : Bytes
  uri : Bytes
  query : Bytes
  headers : List (Bytes × Bytes)
  body : Bytes
  method_plain : 0 ∉ method
  uri_plain : 0 ∉ uri ∧ 63 ∉ uri
  query_plain : 0 ∉ query
  headers_plain : ∀ h ∈ headers, 0 ∉ h.2
  body_size : body.length < 2 ^ 64

theorem plain_nil : (0 : UInt8) ∉ ([] : Bytes) := List.not_mem_nil

theorem headers_nil : ∀ h ∈ ([] : List (Bytes × Bytes)), 0 ∉ h.2 :=
  fun _ h => absurd h List.not_mem_nil

theorem size_nil : ([] : Bytes).length < 2 ^ 64 := by decide

/-- The copy of the method in a buffer of 16 bytes. -/
def methodOf (hm : HttpMessage) : Bytes := cString (hm.method.take 15)

/-- `strncmp` finds no difference; a string that ends goes on with its terminator. -/
def strncmpEq : Bytes → Bytes → Nat → Bool
  | _, _, 0 => true
  | a, b, n + 1 =>
    a.headD 0 == b.headD 0 && (a.headD 0 == 0 || strncmpEq a.tail b.tail n)

section Slices

variable {a b lit : Bytes} {n : Nat}

/-- On a slice of at least `n` bytes, the literal counts with its terminator. -/
private theorem strncmpEq_iff (hlen : n ≤ a.length) (hb : 0 ∉ b) :
    strncmpEq a b n = true ↔ (b ++ [0]).take n <+: a := by
  induction n generalizing a b with
  | zero => exact iff_of_true rfl (List.nil_prefix)
  | succ n ih =>
    cases a with
    | nil => exact absurd hlen (Nat.not_succ_le_zero n)
    | cons x a =>
      cases b with
      | nil =>
        rw [strncmpEq, List.nil_append, List.take_succ_cons, List.take_nil, List.cons_prefix_cons]
        simp only [List.headD_cons, List.headD_nil, List.nil_prefix, and_true]
        constructor
        · intro h
          exact (eq_of_beq (Bool.and_eq_true_iff.mp h).1).symm
        · rintro rfl
          rfl
      | cons y b =>
        have hy : y ≠ 0 := fun h => hb (h ▸ List.mem_cons_self)
        have hrest := ih (Nat.le_of_succ_le_succ hlen) fun h => hb (List.mem_cons_of_mem y h)
        rw [strncmpEq, List.cons_append, List.take_succ_cons, List.cons_prefix_cons, ← hrest]
        simp only [List.headD_cons, List.tail_cons, Bool.and_eq_true, Bool.or_eq_true, beq_iff_eq]
        constructor
        · rintro ⟨rfl, h⟩
          exact ⟨rfl, h.resolve_left hy⟩
        · rintro ⟨rfl, h⟩
          exact ⟨rfl, Or.inr h⟩

/-- The comparison stays within the literal. -/
theorem strncmpEq_within (hlen : n ≤ a.length) (hb : 0 ∉ b) (hn : n ≤ b.length) :
    strncmpEq a b n = true ↔ b.take n <+: a := by
  rw [strncmpEq_iff hlen hb, List.take_append_of_le_length hn]

/-- The comparison runs over the end of the literal and meets its terminator. -/
theorem strncmpEq_beyond (hlen : n ≤ a.length) (hb : 0 ∉ b) (hn : b.length < n) (ha : 0 ∉ a) :
    strncmpEq a b n = false := by
  rw [Bool.eq_false_iff]
  intro h
  have hfront := (strncmpEq_iff hlen hb).mp h
  rw [List.take_of_length_le (by rw [List.length_append]; exact hn)] at hfront
  exact ha (hfront.subset (List.mem_append_right b List.mem_cons_self))

theorem methodOf_eq (hm : HttpMessage) : methodOf hm = hm.method.take 15 :=
  cString_plain fun h => hm.method_plain (List.mem_of_mem_take h)

/-- The cut of the method shows in no comparison with a short name. -/
theorem methodOf_eq_iff (hm : HttpMessage) (short : lit.length < 15) :
    methodOf hm = lit ↔ hm.method = lit := by
  rw [methodOf_eq]
  constructor
  · intro h
    have hlength := congrArg List.length h
    rw [List.length_take] at hlength
    rw [List.take_of_length_le (by omega)] at h
    exact h
  · rintro rfl
    exact List.take_of_length_le (Nat.le_of_lt short)

end Slices

end Cyctron.Http.Message
