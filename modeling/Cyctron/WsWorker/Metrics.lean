/- Cyctron/WsWorker/Metrics
   digest: The statistics account for every admitted call while the pool stays up. -/

import Cyctron.WsWorker.Admission

set_option autoImplicit false
set_option relaxedAutoImplicit false

namespace Cyctron.WsWorker.Metrics

open Cyctron.Base.CString (Bytes)
open Cyctron.Call.Protocol (WS_CALL_OK wsCallBuildOk wsCallBuildError)
open Cyctron.WsWorker.Model Cyctron.WsWorker.Inversion Cyctron.WsWorker.Stage
open Cyctron.WsWorker.Threads Cyctron.WsWorker.Flow Cyctron.WsWorker.Admission
open Cyctron.Machine.Labelled (Path Run)
open Cyctron.Machine.LinkedQueue
open Cyctron.Machine.Holdings (held held_flow held_update_of_eq held_eq_zero)

/-- No shutdown begins and every response buffer can be allocated. -/
def staysUp (_ : Pool) : Action → Prop
  | .shutdownBegin => False
  | .build _ respMem _ _ => respMem = true
  | _ => True

instance (s : Pool) (a : Action) : Decidable (staysUp s a) := by
  apply a.casesOn (motive := fun a => Decidable (staysUp s a)) <;> intros <;>
    dsimp only [staysUp] <;> infer_instance

/-- The calls that were admitted and whose result is not yet recorded. -/
def inFlight (s : Pool) : Nat := s.jobs.contents.length + (held unrecorded s.threads).card

/-- The summed time and the timeouts stay within what the counts allow. -/
structure TimeLaw (st : WsWorkerStats) : Prop where
  timeouts : st.timeouts ≤ st.failed
  time : st.totalUs ≤ (st.ok + st.failed) * st.maxUs

structure Accounted (s : Pool) : Prop where
  idle : s.shutdown = .idle
  unused : s.gInited = false → s.jobs.contents = [] ∧ ∀ c, s.submits c = none
  total : s.gStats.total = s.gStats.ok + s.gStats.failed + inFlight s
  law : TimeLaw s.gStats

section Recording

variable {st : WsWorkerStats} {mapped : Int} {elapsed : Nat} {late : Bool}

private theorem record_total : (st.record mapped elapsed late).total = st.total := by
  by_cases hm : mapped = WS_CALL_OK <;> by_cases he : st.maxUs < elapsed <;>
    simp [WsWorkerStats.record, hm, he]

private theorem record_count :
    (st.record mapped elapsed late).ok + (st.record mapped elapsed late).failed =
    st.ok + st.failed + 1 := by
  by_cases hm : mapped = WS_CALL_OK <;> by_cases he : st.maxUs < elapsed <;>
    simp [WsWorkerStats.record, hm, he] <;> omega

private theorem record_totalUs : (st.record mapped elapsed late).totalUs = st.totalUs + elapsed := by
  by_cases hm : mapped = WS_CALL_OK <;> by_cases he : st.maxUs < elapsed <;>
    simp [WsWorkerStats.record, hm, he]

private theorem record_maxUs : (st.record mapped elapsed late).maxUs = max st.maxUs elapsed := by
  by_cases hm : mapped = WS_CALL_OK <;> by_cases he : st.maxUs < elapsed <;>
    simp [WsWorkerStats.record, hm, he] <;> omega

theorem TimeLaw.record (h : TimeLaw st) : TimeLaw (st.record mapped elapsed late) where
  timeouts := by
    have := h.timeouts
    by_cases hm : mapped = WS_CALL_OK <;> by_cases he : st.maxUs < elapsed <;> cases late <;>
      simp [WsWorkerStats.record, hm, he] <;> omega
  time := by
    rw [record_count, record_totalUs, record_maxUs, Nat.succ_mul]
    have hle : (st.ok + st.failed) * st.maxUs ≤ (st.ok + st.failed) * max st.maxUs elapsed :=
      Nat.mul_le_mul_left _ (Nat.le_max_left _ _)
    have := h.time
    have := Nat.le_max_right st.maxUs elapsed
    omega

/-- A response is built whenever its buffer can be allocated. -/
theorem response_isSome {job : WsJob} {rc : Int} {out : Option Bytes} {now : Int} :
    (response true job elapsed late rc out now).json ≠ none := by
  unfold response
  split <;> exact Option.some_ne_none _

end Recording

section Steps

variable {s s' t : Pool} {a : Action} {es : List Event} {created : Nat} {rc : Int}

theorem accounted_initial : Accounted Pool.initial where
  idle := rfl
  unused _ := ⟨rfl, fun _ => rfl⟩
  total := by
    rw [inFlight, held_eq_zero fun _ => rfl]
    rfl
  law := ⟨Nat.le_refl _, Nat.le_refl _⟩

/-- A fresh start counts from zero, and nothing is in flight then. -/
theorem Accounted.init (life : Lifecycle s) (h : Accounted s) (out : InitOutcome s created t rc) :
    Accounted t := by
  cases out with
  | already on => exact ⟨h.idle, fun off => absurd (on.symm.trans off) (by simp), h.total, h.law⟩
  | failed off _ =>
    have hzero : inFlight s = 0 := by
      rw [inFlight, (h.unused off).1,
        held_eq_zero fun w => by rw [life.all_off (Or.inl off) w]; rfl]
      rfl
    refine ⟨h.idle, fun _ => h.unused off, ?_, ⟨Nat.le_refl _, Nat.le_refl _⟩⟩
    change 0 = 0 + inFlight s
    rw [hzero]
  | fresh off _ =>
    have hoff := life.all_off (Or.inl off)
    have hzero : s.jobs.contents.length +
        (held unrecorded (startThreads s.threads created)).card = 0 := by
      rw [(h.unused off).1, held_startThreads (idleFree_jobUpTo 6) created hoff,
        held_eq_zero fun w => by rw [hoff w]; rfl]
      rfl
    refine ⟨h.idle, (by simp), ?_, ⟨Nat.le_refl _, Nat.le_refl _⟩⟩
    change 0 = 0 + (s.jobs.contents.length +
      (held unrecorded (startThreads s.threads created)).card)
    rw [hzero]

private theorem Accounted.congr (h : Accounted s) (idle : t.shutdown = s.shutdown)
    (inited : t.gInited = s.gInited) (submits : t.submits = s.submits) (jobs : t.jobs = s.jobs)
    (stats : t.gStats = s.gStats)
    (hands : held unrecorded t.threads = held unrecorded s.threads) : Accounted t := by
  refine ⟨idle.trans h.idle, ?_, ?_, ?_⟩
  · rw [inited, jobs, submits]; exact h.unused
  · rw [stats, inFlight, jobs, hands]; exact h.total
  · rw [stats]; exact h.law

theorem Accounted.keep (life : Lifecycle s) (lists : Lists s) (h : Accounted s)
    (up : staysUp s a) (hstep : Step s a s' es) : Accounted s' := by
  cases hstep with
  | init _ _ out | submitUninit _ _ _ out _ => exact h.init life out
  | submitInit _ _ _ _ out =>
    have ht := h.init life out
    have hon := out.inited
    exact ⟨ht.idle, fun off => absurd (hon.symm.trans off) (by simp), ht.total, ht.law⟩
  | submitBuild at_ | submitNoMem at_ | refuse at_ =>
    exact ⟨h.idle, fun off => absurd (at_.symm.trans ((h.unused off).2 _)) (by simp), h.total,
      ⟨h.law.timeouts, h.law.time⟩⟩
  | @accept c p wake job at_ _ _ fresh _ =>
    refine ⟨h.idle, fun off => absurd (at_.symm.trans ((h.unused off).2 _)) (by simp), ?_,
      ⟨h.law.timeouts, h.law.time⟩⟩
    have htotal := h.total
    have hheld : held unrecorded (wakeThreads s.threads wake) = held unrecorded s.threads :=
      held_wakeThreads (idleFree_jobUpTo 6)
    change s.gStats.total + 1 = s.gStats.ok + s.gStats.failed + ((s.jobs.push p job).contents.length +
      (held unrecorded (wakeThreads s.threads wake)).card)
    rw [contents_push lists.jobs fresh, List.length_append, List.length_singleton, hheld]
    rw [inFlight] at htotal
    omega
  | @take w job q at_ pop =>
    have hc := contents_pop lists.jobs pop
    have hflow : held unrecorded s.threads + {job} =
        held unrecorded (Function.update s.threads w (.taken job)) + 0 :=
      held_flow (by rw [at_]; rfl)
    refine ⟨h.idle, fun off => absurd (hc.symm.trans (h.unused off).1) (by simp), ?_, h.law⟩
    have htotal := h.total
    have hcard := congrArg Multiset.card hflow
    rw [inFlight, hc, List.length_cons] at htotal
    simp only [Multiset.card_add, Multiset.card_singleton, Multiset.card_zero] at hcard
    change s.gStats.total = s.gStats.ok + s.gStats.failed + (q.contents.length +
      (held unrecorded (Function.update s.threads w (.taken job))).card)
    omega
  | @recordResult w o at_ =>
    have hflow : held unrecorded s.threads + 0 =
        held unrecorded (Function.update s.threads w (.lock (.release o.job))) + {o.job} :=
      held_flow (by rw [at_]; rfl)
    refine ⟨h.idle, h.unused, ?_, h.law.record⟩
    have htotal := h.total
    have hcard := congrArg Multiset.card hflow
    rw [inFlight] at htotal
    simp only [Multiset.card_add, Multiset.card_singleton, Multiset.card_zero] at hcard
    change (s.gStats.record o.mapped o.elapsed o.timedOut).total =
      (s.gStats.record o.mapped o.elapsed o.timedOut).ok +
        (s.gStats.record o.mapped o.elapsed o.timedOut).failed + (s.jobs.contents.length +
          (held unrecorded (Function.update s.threads w (.lock (.release o.job)))).card)
    rw [record_total, record_count]
    omega
  | buildNone at_ noResp =>
    obtain rfl : _ = true := up
    exact absurd noResp response_isSome
  | shutdownBegin => exact up.elim
  | shutdownJoin at_ | shutdownJoined at_ => cases h.idle.symm.trans at_
  | shutdownCleanup _ at_ => cases h.idle.symm.trans at_
  | tick | setExec | submitNull | drainDetach | drainNext | drainReturn | shutdownNothing =>
    exact ⟨h.idle, h.unused, h.total, h.law⟩
  | lock at_ | park at_ | exit at_ | expire at_ | pass at_ | lockConn at_ | finish at_
  | unlockConn at_ | build at_ | buildNoDone at_ | pushDone at_ | release at_ | spuriousWake at_ =>
    exact h.congr rfl rfl rfl rfl rfl (held_update_of_eq (by rw [at_]; rfl))

private theorem run_accounted {tr : List Event} (h : Run pool staysUp tr s) : Accounted s :=
  h.invariant_of (fun _ s => Lifecycle s ∧ Lists s) (fun _ s => Accounted s)
    (fun _ _ hp => ⟨run_lifecycle hp, run_lists hp⟩) accounted_initial
    fun _ _ _ _ _ known ha up hstep => ha.keep known.1 known.2 up (Step.of hstep)

/-- While the pool stays up the total splits into the recorded, the queued and the taken calls,
timeouts are failures, and the reported maximum is never below the average. -/
theorem metrics_conserved {tr : List Event} (h : Run pool staysUp tr s) :
    let st := wsWorkerStats s
    st.total = st.ok + st.failed + s.jobs.contents.length + (held unrecorded s.threads).card ∧
      st.timeouts ≤ st.failed ∧ st.totalUs ≤ (st.ok + st.failed) * st.maxUs ∧
      st.totalUs / (st.ok + st.failed) ≤ st.maxUs := by
  have acc := run_accounted h
  refine ⟨?_, acc.law.timeouts, acc.law.time, Nat.div_le_of_le_mul acc.law.time⟩
  have htotal := acc.total
  rw [inFlight] at htotal
  change s.gStats.total = s.gStats.ok + s.gStats.failed + s.jobs.contents.length +
    (held unrecorded s.threads).card
  omega

end Steps

/-- One call recorded, another one queued. -/
theorem metrics_conserved_two_calls :
    ∃ tr s, Run pool staysUp tr s ∧ (wsWorkerStats s).total = 2 ∧ (wsWorkerStats s).ok = 1 ∧
      (wsWorkerStats s).totalUs = 40 ∧
      (wsWorkerStats s).totalUs / ((wsWorkerStats s).ok + (wsWorkerStats s).failed) ≤
        (wsWorkerStats s).maxUs := by
  obtain ⟨tr, s, hrun, htotal, hok, htime⟩ := pool.exec_reaches staysUp
    (submitting (request 5 0 0) 7 ++ submitting (request 6 0 1) 8 ++
      [.lock 0, .dequeue 0, .check 0, .lockConn 0, .finish 0 0 none, .unlockConn 0, .tick 40,
        .build 0 true true 0, .lock 0, .pushDone 0 9, .lock 0, .recordResult 0])
    (fun _ s => (wsWorkerStats s).total = 2 ∧ (wsWorkerStats s).ok = 1 ∧
      (wsWorkerStats s).totalUs = 40)
    (by decide)
  exact ⟨tr, s, hrun, htotal, hok, htime, (metrics_conserved hrun).2.2.2⟩

end Cyctron.WsWorker.Metrics
