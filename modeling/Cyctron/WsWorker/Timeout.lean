/- Cyctron/WsWorker/Timeout
   digest: The queue timeout: jobs that start late, jobs that expire, and their answers. -/

import Cyctron.WsWorker.Admission
import Cyctron.WsWorker.Locals

set_option autoImplicit false
set_option relaxedAutoImplicit false

namespace Cyctron.WsWorker.Timeout

open Cyctron.Base.CString (ascii snprintf)
open Cyctron.Call.Protocol (wsCallBuildError)
open Cyctron.WsWorker.Model Cyctron.WsWorker.Inversion Cyctron.WsWorker.Stage
open Cyctron.WsWorker.Threads Cyctron.WsWorker.Flow Cyctron.WsWorker.Admission
open Cyctron.WsWorker.Locals
open Cyctron.Machine.Labelled (Path Run anyStep)
open Cyctron.Machine.Holdings (held held_flow held_eq_zero held_update_of_eq)

/-- The last clock reading at which the job may start. -/
def deadline (job : WsJob) : Int := job.submitMs + job.timeoutMs

/-- The clock does not pass the deadline of a job while its worker has made the timeout test
and still waits for the connection lock. A start is dated at the taking of this lock. -/
def startsInTime (s : Pool) : Action → Prop
  | .tick now => ∀ w, ∀ job ∈ waitingJob (s.threads w), 0 < job.timeoutMs → now ≤ deadline job
  | _ => True

instance (s : Pool) (a : Action) : Decidable (startsInTime s a) := by
  apply a.casesOn (motive := fun a => Decidable (startsInTime s a)) <;> intros <;>
    dsimp only [startsInTime] <;> infer_instance

/-- The worker's job when its timeout flag is as given and its answer is not yet pushed. -/
def endedAs (late : Bool) : Thread → Option WsJob
  | .ended job _ l _ _ => if l = late then some job else none
  | .lock (.pushDone o) | .inside (.pushDone o) => if o.timedOut = late then some o.job else none
  | .exec job _ _ | .unlockConn job _ _ _ => if false = late then some job else none
  | _ => none

/-- The event answers a job whose timeout flag is as given. -/
def Event.answeredAs? (late : Bool) : Event → Option WsJob
  | .pushed job l _ | .lost job l => if l = late then some job else none
  | _ => none

def answeredAs (late : Bool) (tr : List Event) : List WsJob := tr.filterMap (Event.answeredAs? late)

/-- The response with code -7. -/
def IsTimeoutAnswer (job : WsJob) (d : WsDone) : Prop :=
  ∃ mem now, (wsCallBuildError mem (some job.id) (-7)
    (some (snprintf 128 (ascii "call timed out in queue"))) now).2.json = some d.json

section Steps

variable {s s' t : Pool} {a : Action} {es : List Event} {created : Nat} {rc : Int} {w : Worker}

private theorem idleFree_endedAs (late : Bool) : IdleFree (endedAs late) := ⟨rfl, rfl, rfl, rfl⟩

private theorem other_events (hstep : Step s a s' es) (other : Action.worker? a = none) :
    expiredJobs es = [] ∧ startedJobs es = [] ∧ ∀ late, answeredAs late es = [] := by
  cases hstep with
  | init | submitUninit | submitInit | accept | shutdownBegin | shutdownJoin | tick | setExec
  | submitNull | submitBuild | submitNoMem | refuse | drainDetach | drainNext | drainReturn
  | shutdownNothing | shutdownJoined | shutdownCleanup => exact ⟨rfl, rfl, fun _ => rfl⟩
  | _ => cases other

/-- Every expired job is answered as timed out, and every started one as executed. -/
private theorem Step.outcomeFlow (life : Lifecycle s) (hstep : Step s a s' es) :
    held (endedAs true) s.threads + ↑((expiredJobs es).map Prod.fst) =
        held (endedAs true) s'.threads + ↑(answeredAs true es) ∧
      held (endedAs false) s.threads + ↑((startedJobs es).map Prod.fst) =
        held (endedAs false) s'.threads + ↑(answeredAs false es) := by
  cases hw : Action.worker? a with
  | none =>
    obtain ⟨hexpired, hstarted, hanswered⟩ := other_events hstep hw
    have same : ∀ late, held (endedAs late) s'.threads = held (endedAs late) s.threads :=
      fun late => Step.held_other (idleFree_endedAs late) life hstep hw
    rw [hexpired, hstarted, hanswered, hanswered, same, same]
    exact ⟨rfl, rfl⟩
  | some w =>
    cases hstep with
    | @lock _ k at_ =>
      cases k <;> exact ⟨held_flow (by rw [at_]; rfl), held_flow (by rw [at_]; rfl)⟩
    | park at_ | exit at_ | take at_ | expire at_ | pass at_ | lockConn at_ | finish at_
    | unlockConn at_ | build at_ | recordResult at_ | release at_ | spuriousWake at_ =>
      exact ⟨held_flow (by rw [at_]; rfl), held_flow (by rw [at_]; rfl)⟩
    | @buildNone _ _ _ late _ _ _ _ _ at_ | @buildNoDone _ _ _ late _ _ _ _ _ at_ =>
      cases late <;> exact ⟨held_flow (by rw [at_]; rfl), held_flow (by rw [at_]; rfl)⟩
    | @pushDone _ _ o at_ =>
      obtain ⟨job, mapped, elapsed, late, json⟩ := o
      cases late <;> exact ⟨held_flow (by rw [at_]; rfl), held_flow (by rw [at_]; rfl)⟩
    | _ => cases hw

/-- The jobs that have begun are the started and the expired ones. -/
private theorem begunJobs_eq (tr : List Event) : (begunJobs tr : Multiset WsJob) =
    ↑((startedJobs tr).map Prod.fst) + ↑((expiredJobs tr).map Prod.fst) := by
  induction tr with
  | nil => rfl
  | cons e tr ih =>
    have split : ∀ tr, begunJobs (e :: tr) = begunJobs [e] ++ begunJobs tr ∧
        startedJobs (e :: tr) = startedJobs [e] ++ startedJobs tr ∧
        expiredJobs (e :: tr) = expiredJobs [e] ++ expiredJobs tr :=
      fun tr => ⟨begunJobs_append [e] tr, startedJobs_append [e] tr, expiredJobs_append [e] tr⟩
    obtain ⟨hb, hs, he⟩ := split tr
    have hone : (begunJobs [e] : Multiset WsJob) =
        ↑((startedJobs [e]).map Prod.fst) + ↑((expiredJobs [e]).map Prod.fst) := by
      cases e <;> rfl
    rw [hb, hs, he, List.map_append, List.map_append, ← Multiset.coe_add, ← Multiset.coe_add,
      ← Multiset.coe_add, hone, ih, add_add_add_comm]

/-- Before its worker has the lock, a job that passed the timeout test is in time. -/
def InTime (s : Pool) : Prop :=
  ∀ w job start, s.threads w = .lockConn job start → 0 < job.timeoutMs → s.clock ≤ deadline job

theorem InTime.keep (life : Lifecycle s) (dated : Dated s) (h : InTime s) (ok : startsInTime s a)
    (hstep : Step s a s' es) : InTime s' := by
  have hinit : ∀ {created : Nat} {t : Pool} {rc : Int}, InitOutcome s created t rc → InTime t := by
    intro created t rc out
    cases out with
    | already | failed => exact h
    | fresh off _ =>
      intro w job start hw
      change startThreads s.threads created w = .lockConn job start at hw
      have hoff := life.all_off (Or.inl off) w
      by_cases hlt : w.val < created <;> simp [startThreads, hlt, hoff] at hw
  have moved : ∀ {w : Worker} {t : Thread}, (∀ job start, t ≠ .lockConn job start) →
      ∀ v job start, Function.update s.threads w t v = .lockConn job start →
        0 < job.timeoutMs → s.clock ≤ deadline job :=
    fun ht v job start hv => h v job start (eq_of_update hv (ht job start))
  cases hstep with
  | tick => exact fun w job start hw => ok w job (by rw [hw]; rfl)
  | init _ _ out | submitUninit _ _ _ out _ => exact hinit out
  | submitInit _ _ _ _ out =>
    have ht := hinit out
    exact ht
  | accept => exact fun w job start hw => h w job start (wakeThreads_eq_of_ne hw (by simp))
  | shutdownBegin =>
    intro w job start hw
    change wakeThreads s.threads (fun _ => true) w = _ at hw
    exact h w job start (wakeThreads_eq_of_ne hw (by simp))
  | @pass w job at_ inTime =>
    intro v job' start hv hpos
    by_cases hvw : v = w
    · subst hvw
      have heq : Thread.lockConn job s.clock = .lockConn job' start := by simpa using hv
      obtain ⟨rfl, rfl⟩ := Thread.lockConn.inj heq
      have hsensible := dated.threads v
      rw [at_] at hsensible
      rw [timedOut_iff hsensible dated.clock] at inTime
      have hle : ¬(job.submitMs : Int) + job.timeoutMs < s.clock := fun hlt => inTime ⟨hpos, hlt⟩
      exact Int.not_lt.mp hle
    · exact h v job' start (by simpa [hvw] using hv) hpos
  | shutdownJoin | lock | park | exit | take | expire | lockConn | finish | unlockConn | buildNone
  | build | buildNoDone | pushDone | recordResult | release | spuriousWake =>
    exact moved (by simp)
  | setExec | submitNull | submitBuild | submitNoMem | refuse | drainDetach | drainNext
  | drainReturn | shutdownNothing | shutdownJoined | shutdownCleanup => exact h

private theorem inTime_initial : InTime Pool.initial := by
  intro w job start hw
  cases hw

private theorem run_inTime {tr : List Event} (h : Run pool startsInTime tr s) : InTime s :=
  h.invariant_of (fun _ s => Lifecycle s ∧ Dated s) (fun _ s => InTime s)
    (fun _ _ hp => ⟨run_lifecycle hp, run_dated hp⟩) inTime_initial
    fun _ _ _ _ _ known ht ok hstep => ht.keep known.1 known.2 ok (Step.of hstep)

private theorem run_started {tr : List Event} (h : Run pool startsInTime tr s) {job : WsJob}
    {now : Nat}
    (hstart : (job, now) ∈ startedJobs tr) (hpos : 0 < job.timeoutMs) : now ≤ deadline job := by
  revert hstart
  refine h.invariant_of (fun _ s => InTime s)
    (fun tr _ => (job, now) ∈ startedJobs tr → (now : Int) ≤ deadline job)
    (fun _ _ hp => run_inTime hp) (fun hmem => absurd hmem List.not_mem_nil)
    fun tr t a t' es inTime ih _ hstep hmem => ?_
  rw [startedJobs_append, List.mem_append] at hmem
  rcases hmem with hmem | hmem
  · exact ih hmem
  cases Step.of hstep with
  | @lockConn w job' start at_ =>
    obtain ⟨rfl, rfl⟩ := Prod.mk.inj (List.mem_singleton.mp hmem)
    exact inTime w job start at_ hpos
  | _ => cases hmem

private theorem run_expired {ok : Pool → Action → Prop} {tr : List Event} (h : Run pool ok tr s)
    {job : WsJob} {start : Nat} (hexp : (job, start) ∈ expiredJobs tr) :
    0 < job.timeoutMs ∧ deadline job < start := by
  revert hexp
  refine h.invariant_of (fun _ s => Dated s)
    (fun tr _ => (job, start) ∈ expiredJobs tr → 0 < job.timeoutMs ∧ deadline job < start)
    (fun _ _ hp => run_dated hp) (fun hmem => absurd hmem List.not_mem_nil)
    fun tr t a t' es dated ih _ hstep hmem => ?_
  rw [expiredJobs_append, List.mem_append] at hmem
  rcases hmem with hmem | hmem
  · exact ih hmem
  cases Step.of hstep with
  | @expire w job' at_ late =>
    obtain ⟨rfl, rfl⟩ := Prod.mk.inj (List.mem_singleton.mp hmem)
    have hsensible := dated.threads w
    rw [at_] at hsensible
    exact (timedOut_iff hsensible dated.clock).mp late
  | _ => cases hmem

/-- Each taken job is started or expired once, or has not begun yet. -/
theorem run_begun {ok : Pool → Action → Prop} {tr : List Event} (h : Run pool ok tr s) :
    (takenJobs tr : Multiset WsJob) =
      ↑((startedJobs tr).map Prod.fst) + ↑((expiredJobs tr).map Prod.fst) +
        held unbegun s.threads := by
  have hflow := h.conserved (fun s => held unbegun s.threads) (fun tr => ↑(takenJobs tr))
    (fun tr => ↑(begunJobs tr)) rfl rfl (fun x y => by simp) (fun x y => by simp)
    fun _ _ _ _ _ hp _ hstep => Step.beginFlow (run_lifecycle hp) (Step.of hstep)
  rw [show held unbegun pool.initial.threads = 0 from held_eq_zero fun _ => rfl, zero_add,
    begunJobs_eq] at hflow
  rw [hflow, add_comm]

/-- Each expired job is answered as timed out once, or its answer is on the way. -/
private theorem run_expired_answered {ok : Pool → Action → Prop} {tr : List Event}
    (h : Run pool ok tr s) :
    (↑((expiredJobs tr).map Prod.fst) : Multiset WsJob) =
      ↑(answeredAs true tr) + held (endedAs true) s.threads := by
  have hflow := h.conserved (fun s => held (endedAs true) s.threads)
    (fun tr => ↑((expiredJobs tr).map Prod.fst)) (fun tr => ↑(answeredAs true tr)) rfl rfl
    (fun x y => by simp) (fun x y => by simp [answeredAs])
    fun _ _ _ _ _ hp _ hstep => (Step.outcomeFlow (run_lifecycle hp) (Step.of hstep)).1
  rw [show held (endedAs true) pool.initial.threads = 0 from held_eq_zero fun _ => rfl,
    zero_add] at hflow
  rw [hflow, add_comm]

/-- In every run in which the clock does not pass the deadline of a job between its timeout
test and the start of its executor: no job is started after its deadline, only late jobs
expire, every taken job does one or the other once, and each expired one is answered with
code -7 once. -/
theorem queue_timeout {tr : List Event} (h : Run pool startsInTime tr s) :
    (∀ job now, (job, now) ∈ startedJobs tr → 0 < job.timeoutMs → now ≤ deadline job) ∧
    (∀ job start, (job, start) ∈ expiredJobs tr → 0 < job.timeoutMs ∧ deadline job < start) ∧
    (takenJobs tr : Multiset WsJob) = ↑((startedJobs tr).map Prod.fst) +
      ↑((expiredJobs tr).map Prod.fst) + held unbegun s.threads ∧
    (↑((expiredJobs tr).map Prod.fst) : Multiset WsJob) =
      ↑(answeredAs true tr) + held (endedAs true) s.threads ∧
    (∀ job d, Event.pushed job true d ∈ tr → IsTimeoutAnswer job d) := by
  refine ⟨fun job now hs hpos => run_started h hs hpos, fun job start he => run_expired h he,
    run_begun h, run_expired_answered h, fun job d hp => ?_⟩
  obtain ⟨_, _, mem, elapsed, rc, out, now, hjson⟩ := run_pushed h hp
  exact ⟨mem, now, hjson⟩

end Steps

/-- A call waits behind another one of its connection until its time is over, and expires. -/
theorem queue_timeout_one_expired :
    ∃ tr s, Run pool startsInTime tr s ∧ (expiredJobs tr).length = 1 ∧
      (↑((expiredJobs tr).map Prod.fst) : Multiset WsJob) =
        ↑(answeredAs true tr) + held (endedAs true) s.threads := by
  obtain ⟨tr, s, hrun, hone⟩ := pool.exec_reaches startsInTime
    (submitting (request 5 0 0) 7 ++ submitting (request 5 10 1) 8 ++
      [.lock 0, .dequeue 0, .check 0, .lockConn 0, .tick 200, .lock 1, .dequeue 1, .check 1,
        .build 1 true true 0])
    (fun tr _ => (expiredJobs tr).length = 1) (by decide)
  exact ⟨tr, s, hrun, hone, (queue_timeout hrun).2.2.2.1⟩

/-- A call passes the timeout test, waits for the lock of its connection until its time is
over, and is executed. -/
theorem started_after_deadline :
    ¬∀ (tr : List Event) (s : Pool), Run pool anyStep tr s → ∀ job now,
      (job, now) ∈ startedJobs tr → 0 < job.timeoutMs → now ≤ deadline job := by
  intro hclaim
  obtain ⟨tr, s, hrun, ⟨job, now⟩, hmem, hpos, hlate⟩ := pool.exec_reaches anyStep
    (submitting (request 5 0 0) 7 ++ submitting (request 5 10 1) 8 ++
      [.lock 0, .dequeue 0, .check 0, .lockConn 0, .lock 1, .dequeue 1, .check 1, .tick 200,
        .finish 0 0 none, .unlockConn 0, .lockConn 1])
    (fun tr _ => ∃ p ∈ startedJobs tr, 0 < p.1.timeoutMs ∧ deadline p.1 < p.2)
    (by decide)
  have := hclaim tr s hrun job now hmem hpos
  exact absurd hlate (Int.not_lt.mpr this)

end Cyctron.WsWorker.Timeout
