/- Cyctron/Realtime/Lists
   digest: The list of tasks and its count stay in order under calls on any allocated nodes. -/

import Cyctron.Realtime.Refine

set_option autoImplicit false
set_option relaxedAutoImplicit false

namespace Cyctron.Realtime.Lists

open Cyctron.Base.CString Cyctron.Realtime.Model Cyctron.Realtime.Tasks Cyctron.Realtime.Refine
open Cyctron.Machine.LinkedList
open Cyctron.Machine.LinkedQueue (Seg.congr cell_cons cell_free)
open Cyctron.Machine.Labelled (System Run anyStep)

variable {s t : Scheduler} {p : Nat} {node : RtTaskNode} {es : List Event}

/-- A call of the scheduler, or a change of the nodes that are not on its list by their owners. -/
inductive Call
  | call (a : Action)
  | allocate (p : Nat) (node : RtTaskNode) (next : Option Nat)
  | release (p : Nat)

/-- A node is allocated where none is, and the owner of a node off the list may release it. The
calls take the nodes on the list and every other allocated node. -/
def step (s : Scheduler) : Call → Outcomes
  | .call a => Model.step s a
  | .allocate p node next =>
    if s.store.cell p = none then some ({ s with store := (p, ⟨node, next⟩) :: s.store }, [])
    else none
  | .release p =>
    if p ∈ s.listed.map Prod.fst then none
    else some ({ s with store := s.store.free p }, [])

def calls : System Scheduler Call Event := ⟨.initial, step⟩

section Steps

/-- Another store with the same nodes on the list. -/
private theorem sound_withStore (h : Sound s) {st : Cyctron.Machine.LinkedQueue.Store RtTaskNode}
    (same : ∀ q ∈ s.listed.map Prod.fst, st.cell q = s.store.cell q) :
    Sound { s with store := st } ∧ ({ s with store := st } : Scheduler).listed = s.listed :=
  Sound.of_seg (Seg.congr h.seg same) h.count

private theorem start_sound (h : Sound s) (libName : Option Bytes) (env : StartEnv) :
    Sound (rtStartTask s p node libName env).1 := by
  have hset : ∀ {u : Scheduler} {f : RtTaskNode → RtTaskNode}, Sound u → Sound (u.set p f) :=
    fun hu => (hu.set _).1
  have hlisten : Sound (startListening s p node env).1 := by
    unfold startListening
    split
    · exact h
    · split
      · exact h
      · dsimp only
        split
        · exact ((hset (hset h)).withSockets _).1
        · exact hset h
  have hplugin : ∀ {u : Scheduler}, Sound u → Sound (startPlugin u p node libName env).1 := by
    intro u hu
    unfold startPlugin
    dsimp only
    split
    · exact hset hu
    · exact hset hu
  unfold rtStartTask
  split
  · exact h
  · dsimp only
    split
    · exact hplugin hlisten
    · exact hlisten

/-- A call on an allocated node keeps the list and its count in order, also off the list. -/
private theorem call_sound {a : Action} (h : Sound s) (hstep : Model.step s a = some (t, es)) :
    Sound t := by
  by_cases listed : onListed s a
  · exact step_sound h listed hstep
  · cases a with
    | start p libName env =>
      simp only [Model.step, Option.ite_none_right_eq_some, Option.map_eq_some_iff,
        Prod.mk.injEq] at hstep
      obtain ⟨_, n, _, rfl, _⟩ := hstep
      exact start_sound h libName env
    | stopTask p env =>
      simp only [Model.step, Option.map_eq_some_iff] at hstep
      obtain ⟨n, _, hcall⟩ := hstep
      exact (stopTask_refines (U := fun _ => True) h hcall).1
    | remove p env =>
      simp only [Model.step, Option.map_eq_some_iff, Prod.mk.injEq] at hstep
      obtain ⟨n, _, rfl, _⟩ := hstep
      rw [remove_unlisted h listed]
      exact h
    | setConnId p connId =>
      simp only [Model.step, Option.map_eq_some_iff, Prod.mk.injEq] at hstep
      obtain ⟨_, _, rfl, _⟩ := hstep
      exact (h.set _).1
    | setCleanup p callback =>
      simp only [Model.step, Option.map_eq_some_iff, Prod.mk.injEq] at hstep
      obtain ⟨_, _, rfl, _⟩ := hstep
      exact (h.set _).1
    | _ => exact absurd trivial listed

theorem step_sound {c : Call} (h : Sound s) (hstep : step s c = some (t, es)) : Sound t := by
  cases c with
  | call a => exact call_sound h hstep
  | allocate p node next =>
    simp only [step, Option.ite_none_right_eq_some, Option.some.injEq, Prod.mk.injEq] at hstep
    obtain ⟨free, rfl, _⟩ := hstep
    refine (sound_withStore h fun q hq => ?_).1
    have hne : q ≠ p := by
      rintro rfl
      exact Cyctron.Machine.LinkedQueue.fresh_not_mem h.seg free hq
    rw [cell_cons, if_neg hne]
  | release p =>
    simp only [step, Option.ite_none_left_eq_some, Option.some.injEq, Prod.mk.injEq] at hstep
    obtain ⟨out, rfl, _⟩ := hstep
    refine (sound_withStore h fun q hq => ?_).1
    have hne : q ≠ p := by
      rintro rfl
      exact out hq
    rw [cell_free, if_neg hne]

private theorem run_sound {tr : List Event} (run : Run calls anyStep tr s) : Sound s :=
  run.state_invariant Sound sound_initial fun _ _ _ _ h _ hstep => step_sound h hstep

end Steps

section Removal

/-- The list ends, visits no node twice and has as many nodes as are counted. -/
structure Intact (s : Scheduler) : Prop where
  seg : s.store.Seg s.tasks s.listed
  nodup : (s.listed.map Prod.fst).Nodup
  count : s.count = s.listed.length
  nonneg : 0 ≤ s.count

private theorem intact_of_sound (h : Sound s) : Intact s where
  seg := h.seg
  nodup := h.nodup
  count := h.count
  nonneg := by
    rw [h.count]
    exact Int.natCast_nonneg _

/-- Taking a task off the list leaves those before it and behind it. -/
private theorem remove_split (h : Sound s) (mem : (p, node) ∈ s.listed)
    (env : Cyctron.Event.Format.FormatEnv) :
    ∃ t x y, rtRemoveTask s p node env = (t, 0, removeEvents env (p, node)) ∧ Intact t ∧
      s.listed = x ++ (p, node) :: y ∧ t.listed = x ++ y ∧ t.count = s.count - 1 := by
  obtain ⟨t, hcall, hsound, hlisted, _, _⟩ := remove_listed h mem env
  obtain ⟨x, y, hxy⟩ := List.append_of_mem mem
  have hnodup := h.nodup
  rw [hxy] at hnodup
  have hrest : t.listed = x ++ y := by
    rw [hlisted, hxy]
    exact without_split hnodup
  refine ⟨t, x, y, hcall, intact_of_sound hsound, hxy, hrest, ?_⟩
  rw [hsound.count, h.count, hrest, hxy, List.length_append, List.length_append, List.length_cons]
  omega

theorem list_integrity {tr : List Event} (run : Run calls anyStep tr s) :
    Intact s ∧
    (∀ p node env, p ∉ s.listed.map Prod.fst → rtRemoveTask s p node env = (s, -1, [])) ∧
    ∀ p node env, (p, node) ∈ s.listed →
      ∃ t x y, rtRemoveTask s p node env = (t, 0, removeEvents env (p, node)) ∧ Intact t ∧
        s.listed = x ++ (p, node) :: y ∧ t.listed = x ++ y ∧ t.count = s.count - 1 :=
  have h := run_sound run
  ⟨intact_of_sound h, fun _ _ env out => remove_unlisted h out env,
    fun _ _ env mem => remove_split h mem env⟩

/-- Two tasks are listed, the one in front is dropped by a new start and comes back under its name;
a node that was never listed is refused. -/
theorem list_integrity_restarted : ∃ s, Intact s ∧ s.count = 2 ∧
    (∀ node env, rtRemoveTask s 9 node env = (s, -1, [])) ∧
    ∃ t x y node, s.listed = x ++ (2, node) :: y ∧ t.listed = x ++ y ∧ t.count = 1 ∧ Intact t := by
  obtain ⟨tr, s, run, hcount, hout, hmem⟩ := calls.exec_reaches anyStep
    [.allocate 9 (.fresh (ascii "x") 0 0) (some 9), .call .init,
      .call (.create (some (ascii "a")) ⟨some 1, 0, ⟨true, 0⟩⟩), .call .stop, .call .init,
      .call (.create (some (ascii "a")) ⟨some 2, 0, ⟨true, 0⟩⟩),
      .call (.stopTask 9 ⟨true, 0⟩),
      .call (.create (some (ascii "b")) ⟨some 3, 0, ⟨true, 0⟩⟩)]
    (fun _ s => s.count = 2 ∧ 9 ∉ s.listed.map Prod.fst ∧ 2 ∈ s.listed.map Prod.fst)
    (by decide +kernel)
  obtain ⟨intact, unlisted, listed⟩ := list_integrity run
  obtain ⟨⟨q, node⟩, hq, rfl⟩ := List.mem_map.mp hmem
  obtain ⟨t, x, y, _, hintact, hsplit, hrest, hless⟩ := listed 2 node ⟨true, 0⟩ hq
  refine ⟨s, intact, hcount, fun node env => unlisted 9 node env hout, t, x, y, node, hsplit, hrest,
    ?_, hintact⟩
  rw [hless, hcount]
  rfl

end Removal

end Cyctron.Realtime.Lists
