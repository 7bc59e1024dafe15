/- Cyctron/Machine/SingleFile
   digest: Items that pass through a place for one item at a time leave it in their order. -/

import Mathlib.Algebra.Order.Group.Multiset
import Cyctron.Machine.Labelled

set_option autoImplicit false
set_option relaxedAutoImplicit false

namespace Cyctron.Machine.SingleFile

open Cyctron.Machine.Labelled (System Path)

universe u v w x

variable {β : Type x}

/-- Lists of at most one item are equal when they have the same items. -/
theorem eq_of_coe_eq {l k : List β} (le : l.length ≤ 1) (h : (l : Multiset β) = k) : l = k := by
  have hp : l.Perm k := Multiset.coe_eq_coe.mp h
  match l, le with
  | [], _ => exact hp.nil_eq
  | [a], _ => exact hp.singleton_eq

/-- One step: what was inside and what enters is what leaves and what stays inside. -/
theorem step_in_order {inside entering leaving : List β} {stays : Multiset β}
    (balance : (↑inside + ↑entering : Multiset β) = stays + ↑leaving)
    (one : (↑inside + ↑entering : Multiset β).card ≤ 1) :
    ∃ rest : List β, ↑rest = stays ∧ inside ++ entering = leaving ++ rest := by
  obtain ⟨rest, rfl⟩ : ∃ rest : List β, ↑rest = stays := Quot.exists_rep stays
  refine ⟨rest, rfl, eq_of_coe_eq (by simpa using one) ?_⟩
  rw [← Multiset.coe_add, ← Multiset.coe_add, balance, add_comm]

variable {σ : Type u} {α : Type v} {ε : Type w} {M : System σ α ε} {ok : σ → α → Prop}
  {s t : σ} {tr : List ε}

/-- Along a path on which the place never has more than one item, what has entered is what
has left, in the same order, followed by what is inside. -/
theorem Path.in_order (hold : σ → Multiset β) (entered left : List ε → List β)
    (entered_nil : entered [] = []) (left_nil : left [] = [])
    (entered_append : ∀ x y, entered (x ++ y) = entered x ++ entered y)
    (left_append : ∀ x y, left (x ++ y) = left x ++ left y) (empty : hold s = 0)
    (keep : ∀ tr t a t' es, Path M ok s tr t → ok t a → M.step t a = some (t', es) →
      hold t + ↑(entered es) = hold t' + ↑(left es) ∧ (hold t + ↑(entered es)).card ≤ 1)
    (h : Path M ok s tr t) : ∃ rest : List β, ↑rest = hold t ∧ entered tr = left tr ++ rest := by
  induction h with
  | refl => exact ⟨[], empty.symm, by rw [entered_nil, left_nil]; rfl⟩
  | snoc hp hok hstep ih =>
    obtain ⟨inside, hinside, hsplit⟩ := ih
    obtain ⟨balance, one⟩ := keep _ _ _ _ _ hp hok hstep
    rw [← hinside] at balance one
    obtain ⟨rest, hrest, horder⟩ := step_in_order balance one
    refine ⟨rest, hrest, ?_⟩
    rw [entered_append, left_append, hsplit, List.append_assoc, List.append_assoc, horder]

end Cyctron.Machine.SingleFile
