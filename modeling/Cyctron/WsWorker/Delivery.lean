/- Cyctron/WsWorker/Delivery
   digest: While the pool serves, each accepted job has one response, delivered in push order. -/

import Cyctron.WsWorker.Locals
import Cyctron.WsWorker.Metrics

set_option autoImplicit false
set_option relaxedAutoImplicit false

namespace Cyctron.WsWorker.Delivery

open Cyctron.Base.CString (Bytes)
open Cyctron.Call.Protocol
open Cyctron.WsWorker.Model Cyctron.WsWorker.Inversion Cyctron.WsWorker.Stage
open Cyctron.WsWorker.Threads Cyctron.WsWorker.Flow Cyctron.WsWorker.Admission
open Cyctron.WsWorker.Metrics Cyctron.WsWorker.Locals
open Cyctron.Machine.Labelled (Path Run)

/-- No shutdown takes place, and the allocations of the workers succeed. -/
def serving (_ : Pool) : Action → Prop
  | .shutdownBegin | .shutdownJoin | .shutdownCleanup => False
  | .build _ respMem doneMem _ => respMem = true ∧ doneMem = true
  | _ => True

/-- The entry is the answer to the job. -/
structure AnswerTo (job : WsJob) (d : WsDone) : Prop where
  connId : d.connId = job.connId
  tag : d.tag = job.tag
  response : IsCallResponse d.json

section Steps

variable {s s' : Pool} {a : Action} {es tr : List Event}

theorem Answers.response {job : WsJob} {late : Bool} {json : Bytes} (h : Answers job late json) :
    IsCallResponse json := by
  obtain ⟨mem, elapsed, rc, out, now, hjson⟩ := h
  unfold Model.response at hjson
  split at hjson
  · exact wsCallBuildOk_response hjson
  · exact wsCallBuildError_response hjson

/-- Nothing is freed, and what is answered is pushed. -/
private theorem serving_events (ok : serving s a) (hstep : Step s a s' es) :
    droppedJobs es = [] ∧ answeredJobs es = (pushedEntries es).map Prod.fst := by
  cases hstep with
  | shutdownCleanup => exact ok.elim
  | @buildNone w job start late rc out respMem doneMem now at_ noResp =>
    rw [show respMem = true from ok.1] at noResp
    exact absurd noResp response_isSome
  | buildNoDone => exact absurd ok.2 (by simp)
  | _ => exact ⟨rfl, rfl⟩

private theorem run_serving (h : Run pool serving tr s) :
    droppedJobs tr = [] ∧ answeredJobs tr = (pushedEntries tr).map Prod.fst := by
  refine h.invariant (fun tr _ => droppedJobs tr = [] ∧
    answeredJobs tr = (pushedEntries tr).map Prod.fst) ⟨rfl, rfl⟩ ?_
  rintro tr t a t' es ⟨hdropped, hanswered⟩ ok hstep
  obtain ⟨hdropped', hanswered'⟩ := serving_events ok (Step.of hstep)
  constructor
  · rw [droppedJobs_append, hdropped, hdropped']; rfl
  · rw [answeredJobs_append, pushedEntries_append, List.map_append, hanswered, hanswered']

/-- While nothing is cleaned up, what was pushed is what was delivered and then what is still to be
delivered. -/
theorem run_push_order_of {ok : Pool → Action → Prop} (up : ∀ s, ¬ok s .shutdownCleanup)
    (h : Run pool ok tr s) :
    (pushedEntries tr).map Prod.snd = deliveredEntries tr ++ undelivered s := by
  refine h.invariant_of (fun _ s => Lists s)
    (fun tr s => (pushedEntries tr).map Prod.snd = deliveredEntries tr ++ undelivered s)
    (fun _ _ hp => run_lists hp) rfl ?_
  intro tr t a t' es lists ih hok hstep
  have hup : a ≠ .shutdownCleanup := by
    rintro rfl
    exact up t hok
  rw [pushedEntries_append, List.map_append, ih, List.append_assoc,
    Step.doneFlow lists (Step.of hstep) hup, deliveredEntries_append, List.append_assoc]

theorem run_push_order (h : Run pool serving tr s) :
    (pushedEntries tr).map Prod.snd = deliveredEntries tr ++ undelivered s :=
  run_push_order_of (fun _ hok => hok) h

private theorem answerTo_pushed (h : Run pool serving tr s) :
    ∀ p ∈ pushedEntries tr, AnswerTo p.1 p.2 := by
  intro p hp
  obtain ⟨e, he, hpe⟩ := List.mem_filterMap.mp hp
  cases e with
  | pushed job late d =>
    obtain rfl := Option.some.inj hpe
    obtain ⟨hconn, htag, hanswer⟩ := run_pushed h he
    exact ⟨hconn, htag, Answers.response hanswer⟩
  | _ => cases hpe

private theorem forall₂_of_pairs {α β : Type} {R : α → β → Prop} {l : List (α × β)}
    (h : ∀ p ∈ l, R p.1 p.2) : List.Forall₂ R (l.map Prod.fst) (l.map Prod.snd) := by
  rw [List.forall₂_map_left_iff, List.forall₂_map_right_iff, List.forall₂_same]
  exact h

/-- An accepted job is queued, in a worker's hands, answered by one entry that is still to be
delivered, or answered by one entry that was delivered. -/
theorem run_partition (h : Run pool serving tr s) : ∃ waiting out : List WsJob,
    (acceptedJobs tr : Multiset WsJob) = awaiting s + ↑waiting + ↑out ∧
    List.Forall₂ AnswerTo waiting (undelivered s) ∧
    List.Forall₂ AnswerTo out (deliveredEntries tr) := by
  obtain ⟨hdropped, hanswered⟩ := run_serving h
  have hpairs := answerTo_pushed h
  obtain ⟨before, after, hsplit, hbefore, hafter⟩ := List.map_eq_append_iff.mp (run_push_order h)
  refine ⟨after.map Prod.fst, before.map Prod.fst, ?_, ?_, ?_⟩
  · have hall := run_answered h
    rw [hdropped, hanswered, hsplit, List.map_append, Multiset.coe_nil, add_zero,
      ← Multiset.coe_add, add_comm (before.map Prod.fst : Multiset WsJob), ← add_assoc] at hall
    exact hall
  · rw [← hafter]
    apply forall₂_of_pairs
    intro p hp
    exact hpairs p (by rw [hsplit]; exact List.mem_append_right _ hp)
  · rw [← hbefore]
    apply forall₂_of_pairs
    intro p hp
    exact hpairs p (by rw [hsplit]; exact List.mem_append_left _ hp)

/-- What was delivered answers an accepted job. -/
theorem run_delivered (h : Run pool serving tr s) {d : WsDone} (hd : d ∈ deliveredEntries tr) :
    ∃ job ∈ acceptedJobs tr, AnswerTo job d := by
  have hpushed : d ∈ (pushedEntries tr).map Prod.snd := by
    rw [run_push_order h]
    exact List.mem_append_left _ hd
  obtain ⟨p, hp, rfl⟩ := List.mem_map.mp hpushed
  refine ⟨p.1, ?_, answerTo_pushed h p hp⟩
  have hanswered : p.1 ∈ answeredJobs tr := by
    rw [(run_serving h).2]
    exact List.mem_map_of_mem hp
  have hmem : p.1 ∈ (acceptedJobs tr : Multiset WsJob) := by
    rw [run_answered h]
    exact Multiset.mem_add.mpr (Or.inl (Multiset.mem_add.mpr (Or.inr hanswered)))
  exact hmem

theorem tags_eq {jobs : List WsJob} {entries : List WsDone}
    (h : List.Forall₂ AnswerTo jobs entries) : jobs.map WsJob.tag = entries.map WsDone.tag := by
  induction h with
  | nil => rfl
  | cons answer _ ih => rw [List.map_cons, List.map_cons, answer.tag, ih]

theorem run_not_stopping (h : Run pool serving tr s) : s.shutdown = .idle := by
  refine h.state_invariant (fun s => s.shutdown = .idle) rfl ?_
  intro t a t' es idle ok hstep
  have hinit : ∀ {created : Nat} {u : Pool} {rc : Int}, InitOutcome t created u rc →
      u.shutdown = .idle := by
    intro created u rc out
    cases out <;> exact idle
  cases Step.of hstep with
  | init _ _ out | submitUninit _ _ _ out _ => exact hinit out
  | submitInit _ _ _ _ out =>
    have hu := hinit out
    exact hu
  | shutdownBegin | shutdownNothing | shutdownJoin | shutdownJoined | shutdownCleanup =>
    exact ok.elim
  | _ => exact idle

/-- While the pool serves, it stays initialised. -/
theorem Step.serves_on (ok : serving s a) (on : s.gInited = true) (hstep : Step s a s' es) :
    s'.gInited = true := by
  have hinit : ∀ {created : Nat} {t : Pool} {rc : Int}, InitOutcome s created t rc →
      t.gInited = true := by
    intro created t rc out
    cases out with
    | already => exact on
    | failed off | fresh off => cases on.symm.trans off
  cases hstep with
  | init _ _ out | submitUninit _ _ _ out _ => exact hinit out
  | submitInit _ _ _ _ out => exact out.inited
  | shutdownCleanup => exact ok.elim
  | _ => exact on

end Steps

end Cyctron.WsWorker.Delivery
