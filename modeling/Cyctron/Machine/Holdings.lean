/- Cyctron/Machine/Holdings
   digest: What a finite set of agents holds, as a multiset, and how one agent's step moves it. -/

import Mathlib.Algebra.BigOperators.Group.Finset.Basic
import Mathlib.Algebra.BigOperators.Group.Multiset.Basic
import Mathlib.Algebra.Order.BigOperators.Group.Finset

set_option autoImplicit false
set_option relaxedAutoImplicit false

namespace Cyctron.Machine.Holdings

universe u v w

variable {ι : Type u} {τ : Type v} {β : Type w}

/-- An optional item as a multiset of at most one. -/
def items : Option β → Multiset β
  | none => 0
  | some b => {b}

@[simp] theorem items_none : items (none : Option β) = 0 := rfl

@[simp] theorem items_some (b : β) : items (some b) = {b} := rfl

section Sums

variable [Fintype ι] [DecidableEq ι] {M : Type*} [AddCommMonoid M]

/-- Replacing one agent's state replaces its summand. -/
theorem sum_update (f : τ → M) (th : ι → τ) (i : ι) (t : τ) :
    (∑ j, f (Function.update th i t j)) + f (th i) = (∑ j, f (th j)) + f t := by
  have hnew : (∑ j, f (Function.update th i t j)) =
      f t + ∑ j ∈ Finset.univ.erase i, f (th j) := by
    rw [← Finset.add_sum_erase _ _ (Finset.mem_univ i)]
    congr 1
    · simp
    · refine Finset.sum_congr rfl fun j hj => ?_
      rw [Function.update_of_ne (Finset.ne_of_mem_erase hj)]
  have hold : (∑ j, f (th j)) = f (th i) + ∑ j ∈ Finset.univ.erase i, f (th j) :=
    (Finset.add_sum_erase _ _ (Finset.mem_univ i)).symm
  rw [hnew, hold]
  calc f t + ∑ j ∈ Finset.univ.erase i, f (th j) + f (th i)
      = f (th i) + (f t + ∑ j ∈ Finset.univ.erase i, f (th j)) := add_comm _ _
    _ = f (th i) + ∑ j ∈ Finset.univ.erase i, f (th j) + f t := by
      rw [add_comm (f t), add_assoc]

/-- An agent whose summand stays the same leaves the sum as it is. -/
theorem sum_update_of_eq (f : τ → M) (th : ι → τ) (i : ι) (t : τ) (h : f t = f (th i)) :
    (∑ j, f (Function.update th i t j)) = ∑ j, f (th j) := by
  refine Finset.sum_congr rfl fun j _ => ?_
  by_cases hj : j = i
  · subst hj; simp [h]
  · simp [hj]

end Sums

section Held

variable [Fintype ι]

/-- All that the agents hold, when an agent in state `t` holds `hold t`. -/
def held (hold : τ → Option β) (th : ι → τ) : Multiset β := ∑ i, items (hold (th i))

theorem held_eq_zero {hold : τ → Option β} {th : ι → τ} (h : ∀ i, hold (th i) = none) :
    held hold th = 0 := by
  simp [held, h]

theorem mem_held {hold : τ → Option β} {th : ι → τ} {b : β} :
    b ∈ held hold th ↔ ∃ i, hold (th i) = some b := by
  rw [held, Multiset.mem_sum]
  constructor
  · rintro ⟨i, _, hb⟩
    cases hi : hold (th i) with
    | none => simp [hi] at hb
    | some c =>
      rw [hi, items_some, Multiset.mem_singleton] at hb
      exact ⟨i, hb ▸ hi⟩
  · rintro ⟨i, hi⟩
    exact ⟨i, Finset.mem_univ i, by simp [hi]⟩

variable [DecidableEq ι]

theorem held_update (hold : τ → Option β) (th : ι → τ) (i : ι) (t : τ) :
    held hold (Function.update th i t) + items (hold (th i)) = held hold th + items (hold t) :=
  sum_update (fun t => items (hold t)) th i t

theorem held_update_of_eq {hold : τ → Option β} {th : ι → τ} {i : ι} {t : τ}
    (h : hold t = hold (th i)) : held hold (Function.update th i t) = held hold th :=
  sum_update_of_eq (fun t => items (hold t)) th i t (by rw [h])

/-- The balance of one agent's step is the balance of all holdings. -/
theorem held_flow {hold : τ → Option β} {th : ι → τ} {i : ι} {t : τ} {x y : Multiset β}
    (h : items (hold (th i)) + x = items (hold t) + y) :
    held hold th + x = held hold (Function.update th i t) + y := by
  have hu := held_update hold th i t
  refine add_right_cancel (b := items (hold (th i))) ?_
  calc held hold th + x + items (hold (th i))
      = held hold th + (items (hold (th i)) + x) := by rw [add_assoc, add_comm x]
    _ = held hold th + items (hold t) + y := by rw [h, add_assoc]
    _ = held hold (Function.update th i t) + items (hold (th i)) + y := by rw [hu]
    _ = held hold (Function.update th i t) + y + items (hold (th i)) := add_right_comm _ _ _

end Held

end Cyctron.Machine.Holdings
