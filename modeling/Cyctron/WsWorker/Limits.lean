/- Cyctron/WsWorker/Limits
   digest: How far the answer to a submit depends on the submitting connection alone. -/

import Cyctron.WsWorker.Order

set_option autoImplicit false
set_option relaxedAutoImplicit false

namespace Cyctron.WsWorker.Limits

open Cyctron.WsWorker.Model Cyctron.WsWorker.Inversion Cyctron.WsWorker.Stage
open Cyctron.WsWorker.Threads Cyctron.WsWorker.Flow Cyctron.WsWorker.Admission
open Cyctron.WsWorker.Order
open Cyctron.Machine.Labelled (Path Run anyStep)
open Cyctron.Machine.Holdings (held items)

/-- The accepted calls of a connection whose responses are still to be produced. -/
def outstanding (c : Nat) (s : Pool) : Nat := (awaiting s).countP fun job => job.connId = c

/-- The job whose response is produced while its slot still counts it. -/
def answeredInHand (t : Thread) : Option WsJob :=
  (stage t).bind fun p => if 5 < p.1 then some p.2 else none

/-- What else the slot of a connection counts: the unfinished calls of other connections with
the same remainder, and its own calls that are answered and not yet taken off the count. -/
def intruding (c : Nat) (s : Pool) : Nat :=
  ((unfinished s).countP fun job => slotOf job.connId = slotOf c ∧ job.connId ≠ c) +
    (held answeredInHand s.threads).countP fun job => job.connId = c

/-- The answer that depends on the queue length and on the connection's own calls only. -/
def OwnRefusal (c : Nat) (s : Pool) : Prop :=
  WS_WORKER_MAX_QUEUE ≤ s.jobs.contents.length ∨ WS_WORKER_MAX_PER_CONN ≤ outstanding c s

/-- Nothing else fills up the connection's slot. -/
def Undisturbed (c : Nat) (s : Pool) : Prop :=
  OwnRefusal c s ∨ outstanding c s + intruding c s < WS_WORKER_MAX_PER_CONN

section Counts

variable {s s' : Pool} {c : Nat}

private theorem unfinished_eq (s : Pool) :
    unfinished s = awaiting s + held answeredInHand s.threads := by
  have hheld : held inHand s.threads = held unanswered s.threads + held answeredInHand s.threads := by
    rw [held, held, held, ← Finset.sum_add_distrib]
    refine Finset.sum_congr rfl fun w _ => ?_
    cases s.threads w with
    | lock k | inside k => cases k <;> rfl
    | _ => rfl
  rw [unfinished, awaiting, backlog, backlog, hheld, add_assoc]

/-- The slot of a connection counts its outstanding calls and the intruding ones. -/
private theorem inSlot_unfinished :
    inSlot (slotOf c) (unfinished s) = outstanding c s + intruding c s := by
  have hsplit : ∀ m : Multiset WsJob, inSlot (slotOf c) m = (m.countP fun job => job.connId = c) +
      m.countP fun job => slotOf job.connId = slotOf c ∧ job.connId ≠ c := by
    intro m
    induction m using Multiset.induction with
    | empty => rfl
    | cons job m ih =>
      rw [inSlot] at ih ⊢
      rw [Multiset.countP_cons, Multiset.countP_cons, Multiset.countP_cons, ih]
      by_cases hjob : job.connId = c
      · simp [hjob]; omega
      · by_cases hslot : slotOf job.connId = slotOf c <;> simp [hjob, hslot]
        omega
  have hown : ((unfinished s).countP fun job => job.connId = c) =
      outstanding c s + (held answeredInHand s.threads).countP fun job => job.connId = c := by
    rw [unfinished_eq, Multiset.countP_add]
    rfl
  rw [hsplit, hown, intruding]
  omega

end Counts

/-- A reachable state in which `ws_worker_submit` decides on a job, and what it answers. -/
structure Decision where
  tr : List Event
  s : Pool
  run : Run pool anyStep tr s
  caller : Nat
  job : WsJob
  place : s.submits caller = some (.built job)
  addr : Nat
  wake : Worker → Bool
  next : Pool
  es : List Event
  step : pool.step s (.submitAdmit caller addr wake) = some (next, es)

def Decision.Refused (d : Decision) : Prop := d.es = [.refused d.job]

/-- Two decisions that look the same to their connection: the same queue length, and the same
calls of this connection with the same answers. -/
structure SameView (d e : Decision) : Prop where
  conn : d.job.connId = e.job.connId
  queueLen : d.s.gQueueLen = e.s.gQueueLen
  accepted : onConn d.job.connId (acceptedJobs d.tr) = onConn d.job.connId (acceptedJobs e.tr)
  answered : onConn d.job.connId (answeredJobs d.tr) = onConn d.job.connId (answeredJobs e.tr)
  dropped : onConn d.job.connId (droppedJobs d.tr) = onConn d.job.connId (droppedJobs e.tr)

section Decisions

variable {d e : Decision}

private theorem Decision.refused_iff (d : Decision) : d.Refused ↔ d.s.full d.job.connId := by
  obtain ⟨tr, s, _, caller, job, place, addr, wake, next, es, hstep⟩ := d
  change es = [.refused job] ↔ s.full job.connId
  cases Step.of hstep with
  | refuse at_ _ full =>
    obtain rfl := Submitting.built.inj (Option.some.inj (place.symm.trans at_))
    exact ⟨fun _ => full, fun _ => rfl⟩
  | accept at_ _ room _ _ =>
    obtain rfl := Submitting.built.inj (Option.some.inj (place.symm.trans at_))
    exact ⟨(by simp), fun full => absurd full room⟩

/-- The connection's history says how many of its calls are outstanding. -/
private theorem Decision.outstanding_eq (d : Decision) (c : Nat) :
    (onConn c (acceptedJobs d.tr)).length = outstanding c d.s +
      (onConn c (answeredJobs d.tr)).length + (onConn c (droppedJobs d.tr)).length := by
  have hall := congrArg (Multiset.countP fun job : WsJob => job.connId = c) (run_answered d.run)
  rw [Multiset.countP_add, Multiset.countP_add] at hall
  simp only [Multiset.coe_countP, List.countP_eq_length_filter] at hall
  exact hall

private theorem full_iff (d : Decision) : d.s.full d.job.connId ↔
    WS_WORKER_MAX_QUEUE ≤ d.s.jobs.contents.length ∨
      WS_WORKER_MAX_PER_CONN ≤ outstanding d.job.connId d.s + intruding d.job.connId d.s := by
  have counters := run_counters d.run
  rw [Pool.full, counters.queueLen, counters.pending, inSlot_unfinished]
  norm_cast

/-- The answer is the one that the connection's own calls call for exactly when nothing else
fills up its slot; and then it is the same in any two runs that look the same to it. -/
theorem own_limit (d : Decision) :
    ((d.Refused ↔ OwnRefusal d.job.connId d.s) ↔ Undisturbed d.job.connId d.s) ∧
      ∀ e : Decision, SameView d e → Undisturbed d.job.connId d.s →
        Undisturbed e.job.connId e.s → (d.Refused ↔ e.Refused) := by
  have hiff : ∀ d : Decision,
      (d.Refused ↔ OwnRefusal d.job.connId d.s) ↔ Undisturbed d.job.connId d.s := by
    intro d
    rw [d.refused_iff, full_iff, Undisturbed, OwnRefusal]
    omega
  refine ⟨hiff d, fun e same hd he => ?_⟩
  rw [(hiff d).mpr hd, (hiff e).mpr he, OwnRefusal, OwnRefusal, ← same.conn]
  have hlen : d.s.jobs.contents.length = e.s.jobs.contents.length := by
    have := (run_counters d.run).queueLen
    have := (run_counters e.run).queueLen
    have := same.queueLen
    omega
  have hout : outstanding d.job.connId d.s = outstanding d.job.connId e.s := by
    have hd := d.outstanding_eq d.job.connId
    have he := e.outstanding_eq d.job.connId
    rw [same.accepted, same.answered, same.dropped] at hd
    omega
  rw [hlen, hout]

/-- A schedule after which caller 0 is about to be answered gives a decision. -/
private theorem exists_decision (as : List Action)
    (P : List Event → Pool → WsJob → List Event → Prop) [∀ tr s job es, Decidable (P tr s job es)]
    (h : ((pool.guard anyStep).exec pool.initial as).any (fun q =>
      (builtJob (q.1.submits 0)).any fun job =>
        (pool.step q.1 (.submitAdmit 0 99 fun _ => true)).any fun r => P q.2 q.1 job r.2) = true) :
    ∃ d : Decision, P d.tr d.s d.job d.es := by
  obtain ⟨tr, s, hrun, hs⟩ := pool.exec_reaches anyStep as (fun tr s =>
    ((builtJob (s.submits 0)).any fun job =>
      (pool.step s (.submitAdmit 0 99 fun _ => true)).any fun r => P tr s job r.2) = true)
    (by simpa using h)
  obtain ⟨job, hjob, hr⟩ := (Option.any_eq_true _ _).mp hs
  obtain ⟨⟨next, es⟩, hstep, hP⟩ := (Option.any_eq_true _ _).mp hr
  have place : s.submits 0 = some (.built job) := by
    cases hp : s.submits 0 with
    | none => rw [hp] at hjob; cases hjob
    | some place =>
      cases place with
      | inited a => rw [hp] at hjob; cases hjob
      | built job' =>
        rw [hp] at hjob
        obtain rfl := Option.some.inj hjob
        rfl
  exact ⟨⟨tr, s, hrun, 0, job, place, 99, _, next, es, hstep⟩, of_decide_eq_true hP⟩

end Decisions

/-- Calls from one connection, up to the limit, and one more call on its way from another. -/
def crowd (first other : Nat) : List Action :=
  (List.range WS_WORKER_MAX_PER_CONN).flatMap (fun i => submitting (request first 0 i) i) ++
    [.submitInit 0 (request other 0 16) 2, .submitBuild 0 true]

theorem own_limit_seventeenth_call :
    ∃ d : Decision, d.Refused ∧ outstanding d.job.connId d.s = 16 ∧
      (d.Refused ↔ OwnRefusal d.job.connId d.s) := by
  obtain ⟨d, hrefused, hout⟩ := exists_decision (crowd 5 5)
    (fun _ s job es => es = [.refused job] ∧ outstanding job.connId s = 16) (by decide +kernel)
  exact ⟨d, hrefused, hout, (own_limit d).1.mpr (Or.inl (Or.inr (Nat.le_of_eq hout.symm)))⟩

/-- The first call of connection 21 is refused after 16 calls of connection 5 and accepted after
16 calls of connection 6. -/
theorem refused_for_another :
    ¬∀ d e : Decision, SameView d e → (d.Refused ↔ e.Refused) := by
  intro hclaim
  obtain ⟨d, hd⟩ := exists_decision (crowd 5 21) (fun tr s job es => es = [.refused job] ∧
    job.connId = 21 ∧ s.gQueueLen = 16 ∧ onConn 21 (acceptedJobs tr) = [] ∧
    onConn 21 (answeredJobs tr) = [] ∧ onConn 21 (droppedJobs tr) = []) (by decide +kernel)
  obtain ⟨e, he⟩ := exists_decision (crowd 6 21) (fun tr s job es => es ≠ [.refused job] ∧
    job.connId = 21 ∧ s.gQueueLen = 16 ∧ onConn 21 (acceptedJobs tr) = [] ∧
    onConn 21 (answeredJobs tr) = [] ∧ onConn 21 (droppedJobs tr) = []) (by decide +kernel)
  obtain ⟨hrefused, hconn, hlen, hacc, hans, hdrop⟩ := hd
  obtain ⟨haccepted, hconn', hlen', hacc', hans', hdrop'⟩ := he
  refine haccepted ((hclaim d e ⟨?_, ?_, ?_, ?_, ?_⟩).mp hrefused)
  · rw [hconn, hconn']
  · rw [hlen, hlen']
  · rw [hconn, hacc, hacc']
  · rw [hconn, hans, hans']
  · rw [hconn, hdrop, hdrop']

end Cyctron.WsWorker.Limits
