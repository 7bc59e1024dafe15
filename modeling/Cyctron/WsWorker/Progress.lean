/- Cyctron/WsWorker/Progress
   digest: The workers are never stuck before an unfinished job, and their work is bounded. -/

import Cyctron.WsWorker.Serial
import Cyctron.WsWorker.Wakeup

set_option autoImplicit false
set_option relaxedAutoImplicit false

namespace Cyctron.WsWorker.Progress

open Cyctron.WsWorker.Model Cyctron.WsWorker.Inversion Cyctron.WsWorker.Stage
open Cyctron.WsWorker.Threads Cyctron.WsWorker.Flow Cyctron.WsWorker.Admission
open Cyctron.WsWorker.Wakeup Cyctron.WsWorker.Serial
open Cyctron.Machine.Labelled (Path Run anyStep System.Enabled)
open Cyctron.Machine.LinkedQueue
open Cyctron.Machine.Holdings (sum_update mem_held)

/-- The worker that an action moves forward; a wakeup without a signal is not counted, and
`finish` stands for an executor call that returns. -/
def Action.advances? : Action → Option Worker
  | .spuriousWake _ => none
  | a => Action.worker? a

/-- Some worker can go on. -/
def CanAdvance (s : Pool) : Prop :=
  ∃ a w, Action.advances? a = some w ∧ pool.Enabled s a

def executing : Thread → Option WsJob
  | .exec job _ _ => some job
  | _ => none

/-- The worker is blocked, or about to be, on `g_mutex` or on a connection lock. -/
def isLocking : Thread → Bool
  | .lock _ | .lockConn _ _ => true
  | _ => false

/-- A bound on the steps that a worker takes before it asks for the next job. -/
def sectionRank : CriticalSection → Nat
  | .dequeue => 0
  | .pushDone _ => 7
  | .recordResult _ => 5
  | .release _ => 3

def rank : Thread → Nat
  | .off | .wait | .exited => 0
  | .lock k => sectionRank k + 2
  | .inside k => sectionRank k + 1
  | .taken _ => 14
  | .lockConn _ _ => 13
  | .exec _ _ _ => 12
  | .unlockConn _ _ _ _ => 11
  | .ended _ _ _ _ _ => 10

/-- The steps that the workers can take at most without another submit. -/
def work (s : Pool) : Nat := 14 * s.jobs.contents.length + ∑ w, rank (s.threads w)

section Steps

variable {s s' t : Pool} {a : Action} {es : List Event} {v w : Worker}

theorem advances_worker (h : Action.advances? a = some w) : Action.worker? a = some w := by
  cases a <;> first | exact h | cases h

/-- The owner of `g_mutex` can always go on. -/
private theorem canAdvance_of_inside {k : CriticalSection} (lists : Lists s)
    (at_ : s.threads w = .inside k) : CanAdvance s := by
  cases k with
  | dequeue =>
    refine ⟨.dequeue w, w, rfl, ?_⟩
    change (workerLoopDequeue s w).isSome = true
    rw [workerLoopDequeue, at_]
    cases hhead : s.jobs.head with
    | none => cases hr : s.gRunning <;> rfl
    | some p =>
      obtain ⟨job, q, hpop⟩ := lists.jobs.pop_some (by simp [hhead])
      simp [hpop]
  | pushDone o =>
    obtain ⟨p, hp⟩ := exists_fresh s.done.store
    refine ⟨.pushDone w p, w, rfl, ?_⟩
    change (pushDone s w p).isSome = true
    simp [pushDone, at_, hp]
  | recordResult o =>
    refine ⟨.recordResult w, w, rfl, ?_⟩
    change (recordResult s w).isSome = true
    simp [recordResult, at_]
  | release job =>
    refine ⟨.release w, w, rfl, ?_⟩
    change (workerLoopRelease s w).isSome = true
    simp [workerLoopRelease, at_]

/-- While `g_mutex` is taken, its owner can go on. -/
theorem canAdvance_of_locked (lists : Lists s) (locks : Locks s) (held : s.gMutex = some v) :
    CanAdvance s := by
  have hv := (locks.mutex () v).mp held
  cases hin : s.threads v with
  | inside k => exact canAdvance_of_inside lists hin
  | _ => rw [hin] at hv; cases hv

/-- The owner of a connection lock can always go on: its executor call returns. -/
private theorem canAdvance_of_holding (locks : Locks s) {sl : Slot} (held : s.gConnLocks sl = some w) :
    CanAdvance s := by
  have hheld := (locks.conn sl w).mp held
  cases hw : s.threads w with
  | exec job start called =>
    refine ⟨.finish w (-1) none, w, rfl, ?_⟩
    change (workerLoopFinish s w (-1) none).isSome = true
    simp [workerLoopFinish, hw]
  | unlockConn job start rc out =>
    refine ⟨.unlockConn w, w, rfl, ?_⟩
    change (workerLoopUnlockConn s w).isSome = true
    simp [workerLoopUnlockConn, hw]
  | _ => rw [hw] at hheld; cases hheld

/-- Whoever is neither parked nor gone lets some worker go on: himself, or the owner of the
lock that he waits for, who waits for nothing. -/
theorem canAdvance_of_runnable (lists : Lists s) (locks : Locks s)
    (runnable : isRunnable (s.threads w) = true) : CanAdvance s := by
  cases hw : s.threads w with
  | off | wait | exited => rw [hw] at runnable; cases runnable
  | inside k => exact canAdvance_of_inside lists hw
  | lock k =>
    cases hm : s.gMutex with
    | none =>
      refine ⟨.lock w, w, rfl, ?_⟩
      change (workerLoopLock s w).isSome = true
      simp [workerLoopLock, hw, hm]
    | some v => exact canAdvance_of_locked lists locks hm
  | taken job =>
    refine ⟨.check w, w, rfl, ?_⟩
    change (workerLoopCheck s w).isSome = true
    simp only [workerLoopCheck, hw]
    split <;> rfl
  | lockConn job start =>
    cases hc : s.gConnLocks (slotOf job.connId) with
    | none =>
      refine ⟨.lockConn w, w, rfl, ?_⟩
      change (workerLoopLockConn s w).isSome = true
      simp [workerLoopLockConn, hw, hc]
    | some v => exact canAdvance_of_holding locks hc
  | exec job start called =>
    exact canAdvance_of_holding locks ((locks.conn (slotOf job.connId) w).mpr (by rw [hw]; rfl))
  | unlockConn job start rc out =>
    exact canAdvance_of_holding locks ((locks.conn (slotOf job.connId) w).mpr (by rw [hw]; rfl))
  | ended job start late rc out =>
    refine ⟨.build w true true 0, w, rfl, ?_⟩
    change (workerLoopBuild s w true true 0).isSome = true
    simp only [workerLoopBuild, hw]
    split <;> rfl

/-- As long as a job is unfinished somebody can go on, unless all workers have left. -/
theorem canAdvance_or_gone (life : Lifecycle s) (lists : Lists s) (locks : Locks s)
    (awake : Awake s) (more : unfinished s ≠ 0) :
    CanAdvance s ∨ s.gRunning = false ∧ ∀ w, s.threads w ≠ .off → s.threads w = .exited := by
  by_cases hqueue : s.jobs.contents = []
  · obtain ⟨job, hjob⟩ := Multiset.exists_mem_of_ne_zero more
    rw [unfinished, backlog, hqueue, Multiset.coe_nil, zero_add, mem_held] at hjob
    obtain ⟨w, hw⟩ := hjob
    refine Or.inl (canAdvance_of_runnable (w := w) lists locks (isRunnable_iff.mpr ?_))
    refine ⟨?_, ?_, ?_⟩ <;> intro ht <;> rw [ht] at hw <;> cases hw
  · rcases awake.cases life lists hqueue with ⟨w, hw⟩ | hgone
    · exact Or.inl (canAdvance_of_runnable lists locks hw)
    · exact Or.inr hgone

private theorem work_update {u : Thread} (jobs : s'.jobs.contents = s.jobs.contents)
    (threads : s'.threads = Function.update s.threads w u) (less : rank u < rank (s.threads w)) :
    work s' < work s := by
  have hsum := sum_update rank s.threads w u
  rw [work, work, jobs, threads]
  omega

/-- Every step of a worker uses up some of the work. -/
theorem Step.work_lt (lists : Lists s) (hstep : Step s a s' es)
    (hadv : Action.advances? a = some w) : work s' < work s := by
  cases hstep with
  | @take v job q at_ pop =>
    -- one job less in the queue pays for the whole round that its worker begins
    have hc := contents_pop lists.jobs pop
    have hsum := sum_update rank s.threads v (.taken job)
    rw [at_, show rank (.inside .dequeue) = 1 from rfl, show rank (.taken job) = 14 from rfl] at hsum
    change 14 * q.contents.length + ∑ u, rank (Function.update s.threads v (.taken job) u) <
      14 * s.jobs.contents.length + ∑ u, rank (s.threads u)
    rw [hc, List.length_cons]
    omega
  | lock at_ | park at_ | exit at_ | expire at_ | pass at_ | lockConn at_ | finish at_
  | unlockConn at_ | buildNone at_ | build at_ | buildNoDone at_ | pushDone at_ | recordResult at_
  | release at_ => exact work_update rfl rfl (by rw [at_]; simp [rank, sectionRank])
  | _ => cases hadv

/-- The workers cannot go on for ever without another submit. -/
theorem schedule_length_le (lists : Lists s) {as : List Action} {tr : List Event}
    (workers : ∀ a ∈ as, ∃ w, Action.advances? a = some w) (h : pool.exec s as = some (t, tr)) :
    as.length + work t ≤ work s :=
  pool.exec_length_le work Lists (fun a => ∃ w, Action.advances? a = some w)
    (fun _ _ _ _ hl _ hstep => hl.keep (Step.of hstep))
    (fun _ _ _ _ hl ⟨_, hw⟩ hstep => Step.work_lt hl (Step.of hstep) hw) lists workers h

/-- In every reachable state at most one executor call runs for a connection, nobody holds a
lock while he waits for another, and while an accepted job is unfinished some worker can go on
when the executor calls return, except after all workers have left a pool being shut down. -/
theorem serial_execution {tr : List Event} (h : Run pool anyStep tr s) :
    (∀ v w j k, executing (s.threads v) = some j → executing (s.threads w) = some k →
      j.connId = k.connId → v = w) ∧
    (∀ w, isLocking (s.threads w) = true → s.gMutex ≠ some w ∧ ∀ sl, s.gConnLocks sl ≠ some w) ∧
    (unfinished s ≠ 0 →
      CanAdvance s ∨ s.gRunning = false ∧ ∀ w, s.threads w ≠ .off → s.threads w = .exited) := by
  have locks := run_locks h
  refine ⟨?_, ?_, canAdvance_or_gone (run_lifecycle h) (run_lists h) locks (run_awake h)⟩
  · intro v w j k hv hw hjk
    have holds : ∀ {u : Worker} {job : WsJob}, executing (s.threads u) = some job →
        connLock (s.threads u) = some (slotOf job.connId) := by
      intro u job hu
      cases ht : s.threads u with
      | exec job' start called =>
        rw [ht] at hu
        obtain rfl := Option.some.inj hu
        rfl
      | _ => rw [ht] at hu; cases hu
    refine locks.conn.exclusive (holds hv) ?_
    rw [holds hw, hjk]
  · intro w hwait
    have hnone : mutexHeld (s.threads w) = none ∧ connLock (s.threads w) = none := by
      cases ht : s.threads w with
      | lock | lockConn => exact ⟨rfl, rfl⟩
      | _ => rw [ht] at hwait; cases hwait
    refine ⟨fun hm => ?_, fun sl hc => ?_⟩
    · exact absurd ((locks.mutex () w).mp hm) (by simp [hnone.1])
    · exact absurd ((locks.conn sl w).mp hc) (by simp [hnone.2])

end Steps

/-- Two calls of one connection, the first of them executing and the second held back. -/
theorem serial_execution_two_calls :
    ∃ tr s, Run pool anyStep tr s ∧ (executing (s.threads 0)).isSome = true ∧
      unfinished s ≠ 0 ∧
      (CanAdvance s ∨ s.gRunning = false ∧ ∀ w, s.threads w ≠ .off → s.threads w = .exited) := by
  obtain ⟨tr, s, hrun, hexec, hqueue⟩ := pool.exec_reaches anyStep
    (submitting (request 5 0 0) 7 ++ submitting (request 5 0 1) 8 ++
      [.lock 0, .dequeue 0, .check 0, .lockConn 0])
    (fun _ s => (executing (s.threads 0)).isSome = true ∧ s.jobs.contents ≠ [])
    (by decide)
  have hmore : unfinished s ≠ 0 := by
    intro hz
    rw [unfinished, backlog, add_eq_zero] at hz
    exact hqueue (by simpa using hz.1)
  exact ⟨tr, s, hrun, hexec, hmore, (serial_execution hrun).2.2 hmore⟩

/-- An accepted job can be left when no worker is: the submit raced with a shutdown. -/
theorem stuck_after_exit :
    ¬∀ (tr : List Event) (s : Pool), Run pool anyStep tr s → unfinished s ≠ 0 → CanAdvance s := by
  intro hclaim
  obtain ⟨tr, s, hrun, hqueue, hgone⟩ := pool.exec_reaches anyStep raceWithShutdown
    (fun _ s => s.jobs.contents ≠ [] ∧ ∀ w, s.threads w = .exited) (by decide)
  have hmore : unfinished s ≠ 0 := by
    intro hz
    rw [unfinished, backlog, add_eq_zero] at hz
    exact hqueue (by simpa using hz.1)
  obtain ⟨a, w, hadv, henabled⟩ := hclaim tr s hrun hmore
  obtain ⟨⟨s', es⟩, hstep⟩ := Option.isSome_iff_exists.mp henabled
  obtain ⟨t, f⟩ := Step.workerFrame (Step.of hstep) (advances_worker hadv)
  exact f.wasOn.2 (hgone w)

end Cyctron.WsWorker.Progress
