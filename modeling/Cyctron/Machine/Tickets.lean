/- Cyctron/Machine/Tickets
   digest: Tickets that are given out, held by one agent at most, and spent once. -/

import Mathlib.Data.List.Nodup
import Mathlib.Data.Set.Function
import Mathlib.Order.Interval.Set.Defs

set_option autoImplicit false
set_option relaxedAutoImplicit false

namespace Cyctron.Machine.Tickets

universe u v w

variable {ι : Type u} {τ : Type v} {β : Type w}

/-- The tickets that a dispenser has given after `k` requests. -/
def dispensed (ticket : Nat → β) (k : Nat) : List β := (List.range k).map ticket

/-- An agent in state `t` holds `hold t`. A given ticket is with one agent or was spent, and never
both. -/
structure Accounted (hold : τ → Option β) (th : ι → τ) (given spent : List β) : Prop where
  held : ∀ i b, hold (th i) = some b → b ∈ given ∧ b ∉ spent
  exclusive : ∀ i j b, hold (th i) = some b → hold (th j) = some b → i = j
  issued : ∀ b ∈ spent, b ∈ given
  once : spent.Nodup

variable {ticket : Nat → β} {hold : τ → Option β} {th : ι → τ} {given spent : List β} {k m : Nat}
  {i : ι} {t : τ} {b : β}

section Dispenser

@[simp] theorem length_dispensed : (dispensed ticket k).length = k := by
  rw [dispensed, List.length_map, List.length_range]

theorem dispensed_succ : dispensed ticket (k + 1) = dispensed ticket k ++ [ticket k] := by
  rw [dispensed, List.range_succ, List.map_append, List.map_singleton]
  rfl

/-- A ticket is new as long as the dispenser does not repeat itself. -/
theorem ticket_new (apart : Set.InjOn ticket (Set.Iio m)) (h : k < m) :
    ticket k ∉ dispensed ticket k := by
  intro hmem
  obtain ⟨j, hj, heq⟩ := List.mem_map.mp hmem
  have hlt : j < k := List.mem_range.mp hj
  exact absurd (apart (Nat.lt_trans hlt h) h heq) (Nat.ne_of_lt hlt)

end Dispenser

section Agents

theorem accounted_initial (nobody : ∀ i, hold (th i) = none) : Accounted hold th [] [] where
  held i b h := by
    rw [nobody i] at h
    cases h
  exclusive i j b h _ := by
    rw [nobody i] at h
    cases h
  issued _ hb := hb
  once := List.nodup_nil

variable [DecidableEq ι]

/-- Who holds what after one agent has moved. -/
theorem hold_update {j : ι} (h : hold (Function.update th i t j) = some b) :
    (j = i ∧ hold t = some b) ∨ (j ≠ i ∧ hold (th j) = some b) := by
  by_cases hj : j = i
  · subst hj
    rw [Function.update_self] at h
    exact Or.inl ⟨rfl, h⟩
  · rw [Function.update_of_ne hj] at h
    exact Or.inr ⟨hj, h⟩

/-- An agent takes a new ticket. -/
theorem Accounted.take (h : Accounted hold th given spent) (new : b ∉ given)
    (after : hold t = some b) : Accounted hold (Function.update th i t) (given ++ [b]) spent where
  held j c hc := by
    rcases hold_update hc with ⟨_, hc⟩ | ⟨_, hc⟩
    · obtain rfl := Option.some.inj (after.symm.trans hc)
      exact ⟨List.mem_append_right given List.mem_cons_self, fun hb => new (h.issued b hb)⟩
    · exact ⟨List.mem_append_left [b] (h.held j c hc).1, (h.held j c hc).2⟩
  exclusive j j' c hc hc' := by
    rcases hold_update hc with ⟨hj, hown⟩ | ⟨_, hkept⟩
    · rcases hold_update hc' with ⟨hj', _⟩ | ⟨_, hkept'⟩
      · exact hj.trans hj'.symm
      · obtain rfl := Option.some.inj (after.symm.trans hown)
        exact absurd (h.held j' b hkept').1 new
    · rcases hold_update hc' with ⟨_, hown'⟩ | ⟨_, hkept'⟩
      · obtain rfl := Option.some.inj (after.symm.trans hown')
        exact absurd (h.held j b hkept).1 new
      · exact h.exclusive j j' c hkept hkept'
  issued c hc := List.mem_append_left [b] (h.issued c hc)
  once := h.once

/-- An agent goes on with the ticket that it holds. -/
theorem Accounted.move (h : Accounted hold th given spent) (same : hold t = hold (th i)) :
    Accounted hold (Function.update th i t) given spent := by
  have hkeep : ∀ {j c}, hold (Function.update th i t j) = some c → hold (th j) = some c := by
    intro j c hc
    rcases hold_update hc with ⟨hj, hown⟩ | ⟨_, hkept⟩
    · rwa [hj, ← same]
    · exact hkept
  exact ⟨fun j c hc => h.held j c (hkeep hc),
    fun j j' c hc hc' => h.exclusive j j' c (hkeep hc) (hkeep hc'), h.issued, h.once⟩

/-- An agent spends its ticket. -/
theorem Accounted.spend (h : Accounted hold th given spent) (before : hold (th i) = some b)
    (after : hold t = none) : Accounted hold (Function.update th i t) given (spent ++ [b]) := by
  have hother : ∀ {j c}, hold (Function.update th i t j) = some c → j ≠ i ∧ hold (th j) = some c := by
    intro j c hc
    rcases hold_update hc with ⟨_, hc⟩ | hc
    · cases after.symm.trans hc
    · exact hc
  obtain ⟨hgiven, hunspent⟩ := h.held i b before
  constructor
  · intro j c hc
    obtain ⟨hne, hc⟩ := hother hc
    refine ⟨(h.held j c hc).1, fun hmem => ?_⟩
    rcases List.mem_append.mp hmem with hmem | hmem
    · exact (h.held j c hc).2 hmem
    · obtain rfl := List.mem_singleton.mp hmem
      exact hne (h.exclusive j i c hc before)
  · exact fun j j' c hc hc' => h.exclusive j j' c (hother hc).2 (hother hc').2
  · intro c hmem
    rcases List.mem_append.mp hmem with hmem | hmem
    · exact h.issued c hmem
    · rw [List.mem_singleton.mp hmem]
      exact hgiven
  · exact List.nodup_append.mpr ⟨h.once, List.nodup_singleton b, fun c hc d hd heq =>
      hunspent (by rwa [← List.mem_singleton.mp hd, ← heq])⟩

end Agents

end Cyctron.Machine.Tickets
