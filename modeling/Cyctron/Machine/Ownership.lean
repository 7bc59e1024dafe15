/- Cyctron/Machine/Ownership
   digest: Locks and their owners, read off the places where the agents stand. -/

import Mathlib.Logic.Function.Basic

set_option autoImplicit false
set_option relaxedAutoImplicit false

namespace Cyctron.Machine.Ownership

universe u v w

variable {ι : Type u} {τ : Type v} {κ : Type w}

/-- An agent owns a lock exactly while it stands at a place that holds this lock. -/
def Owns (owner : κ → Option ι) (holds : τ → Option κ) (th : ι → τ) : Prop :=
  ∀ k i, owner k = some i ↔ holds (th i) = some k

variable {owner : κ → Option ι} {holds : τ → Option κ} {th th' : ι → τ} {i j : ι} {t : τ} {k : κ}

theorem Owns.congr (h : Owns owner holds th) (same : ∀ i, holds (th' i) = holds (th i)) :
    Owns owner holds th' := by
  intro k i
  rw [same]
  exact h k i

theorem Owns.free_of_none (h : Owns owner holds th) (nobody : ∀ i, holds (th i) = none) (k : κ) :
    owner k = none := by
  cases ho : owner k with
  | none => rfl
  | some i => exact absurd ((h k i).mp ho) (by simp [nobody i])

/-- Two agents never hold the same lock. -/
theorem Owns.exclusive (h : Owns owner holds th) (hi : holds (th i) = some k)
    (hj : holds (th j) = some k) : i = j := by
  have hk := (h k i).mpr hi
  rw [(h k j).mpr hj] at hk
  exact (Option.some.inj hk).symm

variable [DecidableEq ι]

/-- A step that keeps what its agent holds. -/
theorem Owns.move (h : Owns owner holds th) (same : holds t = holds (th i)) :
    Owns owner holds (Function.update th i t) := by
  refine h.congr fun j => ?_
  by_cases hj : j = i
  · subst hj; simpa using same
  · simp [hj]

variable [DecidableEq κ]

/-- A step that takes a free lock. -/
theorem Owns.acquire (h : Owns owner holds th) (free : owner k = none)
    (before : holds (th i) = none) (after : holds t = some k) :
    Owns (Function.update owner k (some i)) holds (Function.update th i t) := by
  intro k' j
  have hkj := h k' j
  by_cases hk : k' = k
  · subst hk
    by_cases hj : j = i
    · subst hj; simp [after]
    · have hne : ¬i = j := fun he => hj he.symm
      simp only [Function.update_self, Option.some.injEq, hne, false_iff, Function.update_of_ne hj]
      rw [← hkj, free]
      simp
  · rw [Function.update_of_ne hk, hkj]
    by_cases hj : j = i
    · subst hj
      have hne : ¬k = k' := fun he => hk he.symm
      simp [before, after, hne]
    · simp [hj]

/-- A step that releases the lock that its agent holds. -/
theorem Owns.release (h : Owns owner holds th) (before : holds (th i) = some k)
    (after : holds t = none) :
    Owns (Function.update owner k none) holds (Function.update th i t) := by
  intro k' j
  have hkj := h k' j
  have hown := (h k i).mpr before
  by_cases hj : j = i
  · subst hj
    by_cases hk : k' = k
    · subst hk; simp [after]
    · rw [Function.update_of_ne hk, hkj, before]
      have hne : ¬k = k' := fun he => hk he.symm
      simp [after, hne]
  · rw [Function.update_of_ne hj]
    by_cases hk : k' = k
    · subst hk
      rw [← hkj, hown]
      have hne : ¬i = j := fun he => hj he.symm
      simp [hne]
    · rw [Function.update_of_ne hk, hkj]

end Cyctron.Machine.Ownership
