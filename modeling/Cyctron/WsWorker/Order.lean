/- Cyctron/WsWorker/Order
   digest: The order in which the calls of one connection are taken, begun and answered. -/

import Cyctron.Machine.SingleFile
import Cyctron.WsWorker.Admission

set_option autoImplicit false
set_option relaxedAutoImplicit false

namespace Cyctron.WsWorker.Order

open scoped List

open Cyctron.WsWorker.Model Cyctron.WsWorker.Inversion Cyctron.WsWorker.Stage
open Cyctron.WsWorker.Threads Cyctron.WsWorker.Flow Cyctron.WsWorker.Admission
open Cyctron.Machine.Labelled (Path Run anyStep)
open Cyctron.Machine.LinkedQueue
open Cyctron.Machine.SingleFile
open Cyctron.Machine.Holdings (held held_eq_zero items mem_held)

/-- No worker takes a call while another one has a call of the same connection whose response
is not yet pushed. -/
def takesInTurn (s : Pool) : Action → Prop
  | .dequeue _ => ∀ job ∈ s.jobs.contents.head?, ∀ v, ∀ j ∈ unanswered (s.threads v),
      j.connId ≠ job.connId
  | _ => True

instance (s : Pool) (a : Action) : Decidable (takesInTurn s a) := by
  apply a.casesOn (motive := fun a => Decidable (takesInTurn s a)) <;> intros <;>
    dsimp only [takesInTurn] <;> infer_instance

/-- The jobs of a connection. -/
def onConn (c : Nat) (l : List WsJob) : List WsJob := l.filter fun job => job.connId = c

/-- The jobs of a connection among those that workers hold up to a stage. -/
def heldOn (n c : Nat) (s : Pool) : Multiset WsJob :=
  (held (jobUpTo n) s.threads).filter fun job => job.connId = c

section Lists

variable {c : Nat} {x y : List WsJob}

private theorem onConn_append : onConn c (x ++ y) = onConn c x ++ onConn c y := List.filter_append ..

private theorem coe_onConn : (onConn c x : Multiset WsJob) =
    (x : Multiset WsJob).filter fun job => job.connId = c := rfl

end Lists

section Steps

variable {s s' : Pool} {a : Action} {es tr : List Event} {c : Nat}

private theorem heldOn_mono {m n : Nat} (le : m ≤ n) : heldOn m c s ≤ heldOn n c s :=
  Multiset.filter_le_filter _ (held_mono le)

private theorem heldOn_flow {n : Nat} {exits : List WsJob}
    (h : held (jobUpTo n) s.threads + ↑(takenJobs es) = held (jobUpTo n) s'.threads + ↑exits) :
    heldOn n c s + ↑(onConn c (takenJobs es)) = heldOn n c s' + ↑(onConn c exits) := by
  rw [heldOn, heldOn, coe_onConn, coe_onConn, ← Multiset.filter_add, ← Multiset.filter_add, h]

/-- A connection never has two calls between their dequeue and their answer. -/
private theorem one_unanswered (lists : Lists s) (h : (heldOn 5 c s).card ≤ 1)
    (ok : takesInTurn s a) (hstep : Step s a s' es) :
    (heldOn 5 c s + ↑(onConn c (takenJobs es))).card ≤ 1 := by
  cases hstep with
  | @take w job q at_ pop =>
    have hc := contents_pop lists.jobs pop
    by_cases hjob : job.connId = c
    · have hz : heldOn 5 c s = 0 := by
        refine Multiset.eq_zero_of_forall_notMem fun j hj => ?_
        obtain ⟨hheld, hjc⟩ := Multiset.mem_filter.mp hj
        obtain ⟨v, hv⟩ := mem_held.mp hheld
        exact ok job (by rw [hc]; rfl) v j hv (hjc.trans hjob.symm)
      rw [hz, zero_add]
      exact Nat.le_trans (List.length_filter_le _ _) (Nat.le_refl 1)
    · have hnil : onConn c (takenJobs [Event.taken w job]) = [] := by
        simp [onConn, takenJobs, Event.taken?, hjob]
      rw [hnil, Multiset.coe_nil, add_zero]
      exact h
  | _ =>
    change (heldOn 5 c s + 0).card ≤ 1
    rw [add_zero]
    exact h

private theorem run_one_unanswered (h : Run pool takesInTurn tr s) : (heldOn 5 c s).card ≤ 1 := by
  refine h.invariant_of (fun _ s => Lifecycle s ∧ Lists s) (fun _ s => (heldOn 5 c s).card ≤ 1)
    (fun _ _ hp => ⟨run_lifecycle hp, run_lists hp⟩) ?_ ?_
  · rw [heldOn, held_eq_zero fun _ => rfl]
    exact Nat.zero_le _
  · intro _ _ _ _ es known hone ok hstep
    have hle := one_unanswered known.2 hone ok (Step.of hstep)
    rw [heldOn_flow (Step.answerFlow known.1 (Step.of hstep)), Multiset.card_add] at hle
    omega

/-- The calls of a connection are taken, begun and answered in one and the same order. -/
private theorem run_in_order (h : Run pool takesInTurn tr s) :
    onConn c (begunJobs tr) <+: onConn c (takenJobs tr) ∧
      onConn c (answeredJobs tr) <+: onConn c (takenJobs tr) := by
  have hz : ∀ n, heldOn n c Pool.initial = 0 := by
    intro n
    rw [heldOn, held_eq_zero fun _ => rfl]
    rfl
  constructor
  · obtain ⟨rest, _, hrest⟩ := Path.in_order (heldOn 1 c) (fun tr => onConn c (takenJobs tr))
      (fun tr => onConn c (begunJobs tr)) rfl rfl (fun x y => by simp [onConn_append])
      (fun x y => by simp [onConn_append]) (hz 1) (fun _ t _ t' es hp ok hstep => by
        have hflow := heldOn_flow (c := c) (Step.beginFlow (run_lifecycle hp) (Step.of hstep))
        refine ⟨hflow, ?_⟩
        have hone := one_unanswered (run_lists hp) (run_one_unanswered (c := c) hp) ok
          (Step.of hstep)
        have hle := Multiset.card_le_card (heldOn_mono (m := 1) (n := 5) (c := c) (s := t) (by decide))
        rw [Multiset.card_add] at hone ⊢
        omega) h
    exact ⟨rest, hrest.symm⟩
  · obtain ⟨rest, _, hrest⟩ := Path.in_order (heldOn 5 c) (fun tr => onConn c (takenJobs tr))
      (fun tr => onConn c (answeredJobs tr)) rfl rfl (fun x y => by simp [onConn_append])
      (fun x y => by simp [onConn_append]) (hz 5) (fun _ _ _ _ _ hp ok hstep =>
        ⟨heldOn_flow (Step.answerFlow (run_lifecycle hp) (Step.of hstep)),
          one_unanswered (run_lists hp) (run_one_unanswered hp) ok (Step.of hstep)⟩) h
    exact ⟨rest, hrest.symm⟩

/-- The taken and the queued jobs are the accepted ones without those that a shutdown freed. -/
theorem run_kept {ok : Pool → Action → Prop} (h : Run pool ok tr s) :
    takenJobs tr ++ s.jobs.contents <+ acceptedJobs tr ∧
      (acceptedJobs tr : Multiset WsJob) =
        ↑(takenJobs tr ++ s.jobs.contents) + ↑(droppedJobs tr) := by
  refine h.invariant_of (fun _ s => Lists s)
    (fun tr s => takenJobs tr ++ s.jobs.contents <+ acceptedJobs tr ∧
      (acceptedJobs tr : Multiset WsJob) =
        ↑(takenJobs tr ++ s.jobs.contents) + ↑(droppedJobs tr)) (fun _ _ hp => run_lists hp)
    ⟨List.Sublist.refl _, rfl⟩ fun tr t a t' es lists ih _ hstep => ?_
  have hflow := Step.jobsFlow lists (Step.of hstep)
  obtain ⟨hsub, hcount⟩ := ih
  constructor
  · have hkept : takenJobs es ++ t'.jobs.contents <+ t.jobs.contents ++ acceptedJobs es := by
      rw [hflow, List.append_assoc]
      exact (List.Sublist.refl _).append (List.sublist_append_right _ _)
    calc takenJobs (tr ++ es) ++ t'.jobs.contents
        = takenJobs tr ++ (takenJobs es ++ t'.jobs.contents) := by
          rw [takenJobs_append, List.append_assoc]
      _ <+ takenJobs tr ++ (t.jobs.contents ++ acceptedJobs es) := (List.Sublist.refl _).append hkept
      _ <+ acceptedJobs tr ++ acceptedJobs es := by
          rw [← List.append_assoc]
          exact hsub.append (List.Sublist.refl _)
      _ = acceptedJobs (tr ++ es) := (acceptedJobs_append _ _).symm
  · have hbalance : (t.jobs.contents : Multiset WsJob) + ↑(acceptedJobs es) =
        ↑(takenJobs es) + ↑(droppedJobs es) + ↑t'.jobs.contents := by
      simpa using congrArg (fun l : List WsJob => (l : Multiset WsJob)) hflow
    simp only [acceptedJobs_append, takenJobs_append, droppedJobs_append, ← Multiset.coe_add]
      at hcount ⊢
    rw [hcount, add_right_comm, add_assoc (↑(takenJobs tr) : Multiset WsJob), hbalance]
    ac_rfl

/-- In every run in which no worker takes a call while another one has an unanswered call of
the same connection: the calls of each connection begin, and are answered, in the order in
which they were accepted, leaving out those that a shutdown freed. -/
theorem connection_order (h : Run pool takesInTurn tr s) :
    ∃ kept : List WsJob, kept <+ acceptedJobs tr ∧
      (acceptedJobs tr : Multiset WsJob) = ↑kept + ↑(droppedJobs tr) ∧
      ∀ c, onConn c (begunJobs tr) <+: onConn c kept ∧
        onConn c (answeredJobs tr) <+: onConn c kept := by
  obtain ⟨hsub, hcount⟩ := run_kept h
  refine ⟨_, hsub, hcount, fun c => ?_⟩
  obtain ⟨hbegun, hanswered⟩ := run_in_order (c := c) h
  have htaken : onConn c (takenJobs tr) <+: onConn c (takenJobs tr ++ s.jobs.contents) := by
    rw [onConn_append]
    exact List.prefix_append _ _
  exact ⟨hbegun.trans htaken, hanswered.trans htaken⟩

end Steps

theorem connection_order_two_calls :
    ∃ tr s, Run pool takesInTurn tr s ∧ (onConn 5 (begunJobs tr)).length = 2 ∧
      ∃ kept : List WsJob, kept <+ acceptedJobs tr ∧
        onConn 5 (begunJobs tr) <+: onConn 5 kept := by
  obtain ⟨tr, s, hrun, htwo⟩ := pool.exec_reaches takesInTurn
    (submitting (request 5 0 0) 7 ++ submitting (request 5 0 1) 8 ++
      [.lock 0, .dequeue 0, .check 0, .lockConn 0, .finish 0 0 none, .unlockConn 0,
        .build 0 true true 0, .lock 0, .pushDone 0 9, .lock 1, .dequeue 1, .check 1, .lockConn 1])
    (fun tr _ => (onConn 5 (begunJobs tr)).length = 2) (by decide)
  obtain ⟨kept, hsub, _, hall⟩ := connection_order hrun
  exact ⟨tr, s, hrun, htwo, kept, hsub, (hall 5).1⟩

/-- Both workers take a call of one connection; the second one is faster to its lock, and its
response is the first in the done queue. -/
theorem second_call_first :
    ¬∀ (tr : List Event) (s : Pool), Run pool anyStep tr s → droppedJobs tr = [] → ∀ c,
      onConn c (begunJobs tr) <+: onConn c (acceptedJobs tr) ∧
        onConn c (answeredJobs tr) <+: onConn c (acceptedJobs tr) := by
  intro hclaim
  obtain ⟨tr, s, hrun, hdropped, hbegun⟩ := pool.exec_reaches anyStep
    (submitting (request 5 0 0) 7 ++ submitting (request 5 0 1) 8 ++
      [.lock 0, .dequeue 0, .lock 1, .dequeue 1, .check 1, .lockConn 1, .finish 1 0 none,
        .unlockConn 1, .build 1 true true 0, .lock 1, .pushDone 1 9])
    (fun tr _ => droppedJobs tr = [] ∧
      ¬onConn 5 (answeredJobs tr) <+: onConn 5 (acceptedJobs tr)) (by decide)
  exact hbegun (hclaim tr s hrun hdropped 5).2

end Cyctron.WsWorker.Order
