/- Cyctron/Machine/Ledger
   digest: Blocks that are allocated and freed: what a record of both leaves allocated. -/

import Cyctron.Machine.Holdings

set_option autoImplicit false
set_option relaxedAutoImplicit false

namespace Cyctron.Machine.Ledger

open Cyctron.Machine.Holdings (items items_none items_some)

inductive Op
  | alloc (b : Nat)
  | free (b : Nat)
  deriving DecidableEq

/-- The record allocates no block twice, never frees a block that is not allocated, and leaves these
blocks. -/
inductive Leaves : List Op → Multiset Nat → Prop
  | start : Leaves [] 0
  | alloc {ops : List Op} {m : Multiset Nat} {b : Nat} (h : Leaves ops m) (fresh : .alloc b ∉ ops) :
      Leaves (ops ++ [.alloc b]) (b ::ₘ m)
  | free {ops : List Op} {m : Multiset Nat} {b : Nat} (h : Leaves ops (b ::ₘ m)) :
      Leaves (ops ++ [.free b]) m

/-- How often memory was asked for, and what was done with it. A block is named by the call that
gave it. -/
structure Heap where
  calls : Nat
  ops : List Op

def Heap.initial : Heap := ⟨0, []⟩

/-- `mem` says which calls succeed. -/
def Heap.malloc (mem : Nat → Bool) (h : Heap) : Heap × Option Nat :=
  if mem h.calls then (⟨h.calls + 1, h.ops ++ [.alloc h.calls]⟩, some h.calls)
  else (⟨h.calls + 1, h.ops⟩, none)

/-- Nothing is done for the null pointer. -/
def Heap.free (h : Heap) (p : Option Nat) : Heap := ⟨h.calls, h.ops ++ p.toList.map .free⟩

/-- The heap holds these blocks, and knows no others to come. -/
structure Heap.Holds (h : Heap) (m : Multiset Nat) : Prop where
  leaves : Leaves h.ops m
  below : ∀ b, .alloc b ∈ h.ops → b < h.calls

variable {ops : List Op} {m : Multiset Nat} {b : Nat} {h : Heap} {mem : Nat → Bool}

section Records

/-- Every allocation of a block is answered by a free or still there. -/
theorem Leaves.balance (h : Leaves ops m) (b : Nat) :
    ops.count (.alloc b) = ops.count (.free b) + m.count b := by
  induction h with
  | start => rfl
  | @alloc ops m c _ _ ih =>
    rw [List.count_append, List.count_append, ih]
    by_cases hb : b = c
    · subst hb
      simp
      omega
    · simp [Multiset.count_cons_of_ne hb, Ne.symm hb]
  | @free ops m c _ ih =>
    rw [List.count_append, List.count_append, ih]
    by_cases hb : b = c
    · subst hb
      simp
      omega
    · simp [Multiset.count_cons_of_ne hb, Ne.symm hb]

theorem Leaves.alloc_once (h : Leaves ops m) (b : Nat) : ops.count (.alloc b) ≤ 1 := by
  induction h with
  | start => exact Nat.zero_le 1
  | @alloc ops m c _ fresh ih =>
    rw [List.count_append]
    by_cases hb : b = c
    · subst hb
      rw [List.count_eq_zero.mpr fresh]
      simp
    · simpa [Ne.symm hb] using ih
  | @free ops m c _ ih => simpa [List.count_append] using ih

/-- A block that was allocated and is not left was freed exactly once. -/
theorem Leaves.freed_once (h : Leaves ops m) (halloc : .alloc b ∈ ops) (hm : b ∉ m) :
    ops.count (.free b) = 1 := by
  have hbalance := h.balance b
  have honce := h.alloc_once b
  have hpos := List.count_pos_iff.mpr halloc
  rw [Multiset.count_eq_zero.mpr hm] at hbalance
  omega

end Records

section Heaps

theorem holds_initial : Heap.initial.Holds 0 := ⟨.start, fun _ h => absurd h List.not_mem_nil⟩

theorem Heap.Holds.malloc (mem : Nat → Bool) (hold : h.Holds m) :
    (h.malloc mem).1.Holds (items (h.malloc mem).2 + m) := by
  rw [Heap.malloc]
  split
  · refine ⟨?_, fun b hb => ?_⟩
    · have hfresh : .alloc h.calls ∉ h.ops := fun hin => absurd (hold.below _ hin) (Nat.lt_irrefl _)
      rw [items_some, Multiset.singleton_add]
      exact hold.leaves.alloc hfresh
    · rcases List.mem_append.mp hb with hb | hb
      · exact Nat.lt_succ_of_lt (hold.below b hb)
      · obtain rfl : b = h.calls := Op.alloc.inj (List.mem_singleton.mp hb)
        exact Nat.lt_succ_self _
  · refine ⟨?_, fun b hb => Nat.lt_succ_of_lt (hold.below b hb)⟩
    rw [items_none, zero_add]
    exact hold.leaves

theorem Heap.Holds.free {p : Option Nat} (hold : h.Holds (items p + m)) : (h.free p).Holds m := by
  cases p with
  | none =>
    rw [items_none, zero_add] at hold
    refine ⟨?_, fun b hb => hold.below b ?_⟩
    · rw [Heap.free, Option.toList_none, List.map_nil, List.append_nil]
      exact hold.leaves
    · rwa [Heap.free, Option.toList_none, List.map_nil, List.append_nil] at hb
  | some c =>
    rw [items_some, Multiset.singleton_add] at hold
    refine ⟨hold.leaves.free, fun b hb => hold.below b ?_⟩
    rcases List.mem_append.mp hb with hb | hb
    · exact hb
    · cases List.mem_singleton.mp hb

end Heaps

end Cyctron.Machine.Ledger
