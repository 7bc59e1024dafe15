/- Cyctron/Machine/Storage
   digest: Storage of a fixed size that is written cell by cell; a write beyond its end is a fault. -/

import Mathlib.Data.List.Infix

set_option autoImplicit false
set_option relaxedAutoImplicit false

namespace Cyctron.Machine.Storage

universe u

variable {α : Type u} {m l r : List α} {a : α}

inductive Fault where
  | outside
  deriving Repr, DecidableEq

/-- Writing one cell. -/
def put (m : List α) (i : Nat) (a : α) : Except Fault (List α) :=
  if i < m.length then .ok (m.set i a) else .error .outside

/-- Writing several cells one after the other. -/
def copy (m : List α) (i : Nat) : List α → Except Fault (List α)
  | [] => .ok m
  | a :: l => do copy (← put m i a) (i + 1) l

/-- Storage whose front is overwritten. -/
def overlay (m l : List α) : List α := l ++ m.drop l.length

theorem overlay_nil (m : List α) : overlay m [] = m := rfl

theorem overlay_length (h : l.length ≤ m.length) : (overlay m l).length = m.length := by
  rw [overlay, List.length_append, List.length_drop]
  omega

theorem put_overlay (h : l.length < m.length) :
    put (overlay m l) l.length a = .ok (overlay m (l ++ [a])) := by
  have hfits : l.length < (overlay m l).length := by
    rw [overlay_length (Nat.le_of_lt h)]
    exact h
  rw [put, if_pos hfits, overlay, List.set_append_right _ _ (Nat.le_refl _), Nat.sub_self,
    List.drop_eq_getElem_cons h, List.set_cons_zero, overlay, List.length_append,
    List.length_singleton, List.append_assoc]
  rfl

theorem copy_overlay (h : l.length + r.length ≤ m.length) :
    copy (overlay m l) l.length r = .ok (overlay m (l ++ r)) := by
  induction r generalizing l with
  | nil =>
    rw [List.append_nil]
    rfl
  | cons a r ih =>
    rw [List.length_cons] at h
    have hnext : copy (overlay m (l ++ [a])) (l ++ [a]).length r =
        .ok (overlay m (l ++ [a] ++ r)) := by
      apply ih
      rw [List.length_append, List.length_singleton]
      omega
    rw [List.length_append, List.length_singleton, List.append_assoc,
      List.singleton_append] at hnext
    rw [copy, put_overlay (by omega)]
    exact hnext

end Cyctron.Machine.Storage
