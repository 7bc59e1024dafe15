/- Cyctron/WsWorker/Inversion
   digest: What each step of the pool can do, as one inversion of the step function. -/

import Cyctron.WsWorker.Model

set_option autoImplicit false
set_option relaxedAutoImplicit false

namespace Cyctron.WsWorker.Inversion

open Cyctron.Base.CString Cyctron.Call.Protocol Cyctron.WsWorker.Model
open Cyctron.Machine.LinkedQueue (Fifo Node)

/-- The connection locks after `pthread_once`. -/
def onceLocks (s : Pool) : Slot → Option Worker :=
  if s.gOnce then s.gConnLocks else fun _ => none

def startThreads (th : Worker → Thread) (created : Nat) : Worker → Thread :=
  fun w => if w.val < created then .lock .dequeue else th w

/-- What `ws_worker_init` can do. -/
inductive InitOutcome (s : Pool) (created : Nat) : Pool → Int → Prop
  | already (on : s.gInited = true) :
      InitOutcome s created { s with gOnce := true, gConnLocks := onceLocks s } 0
  | failed (off : s.gInited = false) (nobody : s.gThreadCount + created = 0) :
      InitOutcome s created
        { s with
          gOnce := true
          gConnLocks := onceLocks s
          gRunning := false
          gInited := false
          gStats := .zero } (-1)
  | fresh (off : s.gInited = false) (somebody : 0 < s.gThreadCount + created) :
      InitOutcome s created
        { s with
          gOnce := true
          gConnLocks := onceLocks s
          gRunning := true
          gInited := true
          gStats := .zero
          threads := startThreads s.threads created
          gThreadCount := s.gThreadCount + created } 0

private theorem once_eq (s : Pool) :
    (if s.gOnce then s else { s with gOnce := true, gConnLocks := fun _ => none }) =
      { s with gOnce := true, gConnLocks := onceLocks s } := by
  cases h : s.gOnce
  · simp [onceLocks, h]
  · simp only [if_true, onceLocks, h]
    cases s
    simp_all

theorem initOutcome (s : Pool) (created : Nat) :
    InitOutcome s created (wsWorkerInit s created).1 (wsWorkerInit s created).2 := by
  simp only [wsWorkerInit, once_eq]
  split
  · rename_i on
    exact .already on
  · rename_i hoff
    have off : s.gInited = false := by simpa using hoff
    by_cases hc : s.gThreadCount + created = 0
    · obtain rfl : created = 0 := by omega
      have hzero : s.gThreadCount = 0 := hc
      rw [if_pos hc]
      simpa [hzero] using InitOutcome.failed off hc
    · rw [if_neg hc]
      exact .fresh off (by omega)

/-- Success of `ws_worker_init` means that the pool is initialised. -/
theorem InitOutcome.inited {s t : Pool} {created : Nat} (h : InitOutcome s created t 0) :
    t.gInited = true := by
  cases h with
  | already on => exact on
  | fresh => rfl

/-- Everything that a step can do, one constructor for each outcome. -/
inductive Step (s : Pool) : Action → Pool → List Event → Prop
  | tick {now : Nat} (later : s.clock ≤ now) (fits : now < 2 ^ 63) :
      Step s (.tick now) { s with clock := now } []
  | setExec (installed : Bool) : Step s (.setExec installed) { s with gExec := installed } []
  | init {created : Nat} {t : Pool} {rc : Int} (free : s.gMutex = none)
      (le : created ≤ WS_WORKER_THREADS) (out : InitOutcome s created t rc) :
      Step s (.init created) t []
  | submitNull {c : Nat} {a : SubmitArgs} {created : Nat} (idle : s.submits c = none)
      (null : a.id = none ∨ a.lib = none ∨ a.symbol = none) :
      Step s (.submitInit c a created) s [.failed a.tag]
  | submitUninit {c : Nat} {a : SubmitArgs} {created : Nat} {t : Pool} {rc : Int}
      (idle : s.submits c = none) (free : s.gMutex = none) (le : created ≤ WS_WORKER_THREADS)
      (out : InitOutcome s created t rc) (bad : rc ≠ 0) :
      Step s (.submitInit c a created) t [.failed a.tag]
  | submitInit {c : Nat} {a : SubmitArgs} {created : Nat} {t : Pool}
      (idle : s.submits c = none) (free : s.gMutex = none) (le : created ≤ WS_WORKER_THREADS)
      (args : a.id ≠ none ∧ a.lib ≠ none ∧ a.symbol ≠ none)
      (out : InitOutcome s created t 0) :
      Step s (.submitInit c a created)
        { t with submits := Function.update t.submits c (some (.inited a)) } []
  | submitBuild {c : Nat} {a : SubmitArgs} (at_ : s.submits c = some (.inited a)) :
      Step s (.submitBuild c true)
        { s with submits := Function.update s.submits c (some (.built (newJob a s.clock))) } []
  | submitNoMem {c : Nat} {a : SubmitArgs} (at_ : s.submits c = some (.inited a)) :
      Step s (.submitBuild c false)
        { s with submits := Function.update s.submits c none } [.failed a.tag]
  | refuse {c p : Nat} {wake : Worker → Bool} {job : WsJob}
      (at_ : s.submits c = some (.built job)) (free : s.gMutex = none)
      (full : s.full job.connId) :
      Step s (.submitAdmit c p wake)
        { s with
          gStats := { s.gStats with busy := s.gStats.busy + 1 }
          submits := Function.update s.submits c none } [.refused job]
  | accept {c p : Nat} {wake : Worker → Bool} {job : WsJob}
      (at_ : s.submits c = some (.built job)) (free : s.gMutex = none)
      (room : ¬s.full job.connId) (fresh : s.jobs.store.cell p = none)
      (signal : signals s.threads wake) :
      Step s (.submitAdmit c p wake)
        { s with
          jobs := s.jobs.push p job
          gQueueLen := s.gQueueLen + 1
          gConnPending := Function.update s.gConnPending (slotOf job.connId)
            (s.gConnPending (slotOf job.connId) + 1)
          gStats := { s.gStats with total := s.gStats.total + 1 }
          threads := wakeThreads s.threads wake
          submits := Function.update s.submits c none } [.accepted job]
  | drainDetach (free : s.gMutex = none) (idle : s.drain = none) :
      Step s .drainDetach { s with done := s.done.detach, drain := some s.done.head } []
  | drainNext {p : Nat} {n : Node WsDone} (at_ : s.drain = some (some p))
      (cell : s.done.store.cell p = some n) :
      Step s .drainNext { s with done := s.done.release p, drain := some n.next }
        [.delivered n.val]
  | drainReturn (at_ : s.drain = some none) : Step s .drainNext { s with drain := none } []
  | shutdownBegin (free : s.gMutex = none) (idle : s.shutdown = .idle) (on : s.gInited = true) :
      Step s .shutdownBegin
        { s with
          gRunning := false
          threads := wakeThreads s.threads fun _ => true
          shutdown := .joining 0 } []
  | shutdownNothing (free : s.gMutex = none) (idle : s.shutdown = .idle)
      (off : s.gInited = false) : Step s .shutdownBegin s [.shutdownReturned]
  | shutdownJoin {i : Nat} (at_ : s.shutdown = .joining i) (lt : i < s.gThreadCount)
      (bound : i < WS_WORKER_THREADS) (gone : s.threads ⟨i, bound⟩ = .exited) :
      Step s .shutdownJoin
        { s with
          threads := Function.update s.threads ⟨i, bound⟩ .off
          shutdown := .joining (i + 1) } []
  | shutdownJoined {i : Nat} (at_ : s.shutdown = .joining i) (ge : s.gThreadCount ≤ i) :
      Step s .shutdownJoin { s with gThreadCount := 0, shutdown := .cleanup } []
  | shutdownCleanup (free : s.gMutex = none) (at_ : s.shutdown = .cleanup) :
      Step s .shutdownCleanup
        { s with
          jobs := s.jobs.clear
          gQueueLen := 0
          gConnPending := fun _ => 0
          done := s.done.clear
          gInited := false
          shutdown := .idle } [.dropped s.jobs.contents, .shutdownReturned]
  | lock {w : Worker} {k : CriticalSection} (at_ : s.threads w = .lock k)
      (free : s.gMutex = none) :
      Step s (.lock w)
        { s with gMutex := some w, threads := Function.update s.threads w (.inside k) } []
  | park {w : Worker} (at_ : s.threads w = .inside .dequeue) (empty : s.jobs.head = none)
      (running : s.gRunning = true) :
      Step s (.dequeue w)
        { s with gMutex := none, threads := Function.update s.threads w .wait } []
  | exit {w : Worker} (at_ : s.threads w = .inside .dequeue) (empty : s.jobs.head = none)
      (stopped : s.gRunning = false) :
      Step s (.dequeue w)
        { s with gMutex := none, threads := Function.update s.threads w .exited } []
  | take {w : Worker} {job : WsJob} {q : Fifo WsJob} (at_ : s.threads w = .inside .dequeue)
      (pop : s.jobs.pop = some (job, q)) :
      Step s (.dequeue w)
        { s with
          gMutex := none
          threads := Function.update s.threads w (.taken job)
          jobs := q
          gQueueLen := s.gQueueLen - 1 } [.taken w job]
  | expire {w : Worker} {job : WsJob} (at_ : s.threads w = .taken job)
      (late : timedOut job s.clock) :
      Step s (.check w)
        { s with
          threads := Function.update s.threads w (.ended job s.clock true (-7) none) }
        [.expired w job s.clock]
  | pass {w : Worker} {job : WsJob} (at_ : s.threads w = .taken job)
      (inTime : ¬timedOut job s.clock) :
      Step s (.check w)
        { s with threads := Function.update s.threads w (.lockConn job s.clock) } []
  | lockConn {w : Worker} {job : WsJob} {start : Nat} (at_ : s.threads w = .lockConn job start)
      (free : s.gConnLocks (slotOf job.connId) = none) :
      Step s (.lockConn w)
        { s with
          threads := Function.update s.threads w (.exec job start s.gExec)
          gConnLocks := Function.update s.gConnLocks (slotOf job.connId) (some w) }
        [.started w job s.clock]
  | finish {w : Worker} {job : WsJob} {start : Nat} {called : Bool} {rc : Int}
      {out : Option Bytes} (at_ : s.threads w = .exec job start called)
      (exec : called = true ∨ (rc = -1 ∧ out = none)) :
      Step s (.finish w rc out)
        { s with threads := Function.update s.threads w (.unlockConn job start rc out) } []
  | unlockConn {w : Worker} {job : WsJob} {start : Nat} {rc : Int} {out : Option Bytes}
      (at_ : s.threads w = .unlockConn job start rc out) :
      Step s (.unlockConn w)
        { s with
          threads := Function.update s.threads w (.ended job start false rc out)
          gConnLocks := Function.update s.gConnLocks (slotOf job.connId) none } []
  | buildNone {w : Worker} {job : WsJob} {start : Nat} {late : Bool} {rc : Int}
      {out : Option Bytes} {respMem doneMem : Bool} {now : Int}
      (at_ : s.threads w = .ended job start late rc out)
      (noResp : (response respMem job (sub64 s.clock start) late rc out now).json = none) :
      Step s (.build w respMem doneMem now)
        { s with threads := Function.update s.threads w (.lock (.release job)) } [.lost job late]
  | build {w : Worker} {job : WsJob} {start : Nat} {late : Bool} {rc : Int}
      {out : Option Bytes} {respMem : Bool} {now : Int} {json : Bytes}
      (at_ : s.threads w = .ended job start late rc out)
      (resp : (response respMem job (sub64 s.clock start) late rc out now).json = some json) :
      Step s (.build w respMem true now)
        { s with
          threads := Function.update s.threads w (.lock (.pushDone
            ⟨job, mappedCode late rc, sub64 s.clock start, late, json⟩)) } []
  | buildNoDone {w : Worker} {job : WsJob} {start : Nat} {late : Bool} {rc : Int}
      {out : Option Bytes} {respMem : Bool} {now : Int} {json : Bytes}
      (at_ : s.threads w = .ended job start late rc out)
      (resp : (response respMem job (sub64 s.clock start) late rc out now).json = some json) :
      Step s (.build w respMem false now)
        { s with
          threads := Function.update s.threads w (.lock (.recordResult
            ⟨job, mappedCode late rc, sub64 s.clock start, late, json⟩)) } [.lost job late]
  | pushDone {w : Worker} {p : Nat} {o : Outcome} (at_ : s.threads w = .inside (.pushDone o))
      (fresh : s.done.store.cell p = none) :
      Step s (.pushDone w p)
        { s with
          gMutex := none
          threads := Function.update s.threads w (.lock (.recordResult o))
          done := s.done.push p ⟨o.job.connId, o.json, o.job.tag⟩ }
        [.pushed o.job o.timedOut ⟨o.job.connId, o.json, o.job.tag⟩]
  | recordResult {w : Worker} {o : Outcome} (at_ : s.threads w = .inside (.recordResult o)) :
      Step s (.recordResult w)
        { s with
          gMutex := none
          threads := Function.update s.threads w (.lock (.release o.job))
          gStats := s.gStats.record o.mapped o.elapsed o.timedOut } []
  | release {w : Worker} {job : WsJob} (at_ : s.threads w = .inside (.release job)) :
      Step s (.release w)
        { s with
          gMutex := none
          threads := Function.update s.threads w (.lock .dequeue)
          gConnPending := if 0 < s.gConnPending (slotOf job.connId) then
              Function.update s.gConnPending (slotOf job.connId)
                (s.gConnPending (slotOf job.connId) - 1)
            else s.gConnPending } [.finished job]
  | spuriousWake {w : Worker} (at_ : s.threads w = .wait) :
      Step s (.spuriousWake w)
        { s with threads := Function.update s.threads w (.lock .dequeue) } []

section Inversion

variable {s s' : Pool} {es : List Event}

private theorem of_submitInit {c created : Nat} {a : SubmitArgs}
    (h : wsWorkerSubmitInit s c a created = some (s', es)) :
    Step s (.submitInit c a created) s' es := by
  unfold wsWorkerSubmitInit at h
  split at h
  · cases h
  · rename_i hidle
    have idle : s.submits c = none := by simpa using hidle
    split at h
    · rename_i null
      cases h
      exact .submitNull idle null
    · rename_i hargs
      have args : a.id ≠ none ∧ a.lib ≠ none ∧ a.symbol ≠ none := by
        refine ⟨fun he => hargs (Or.inl he), fun he => hargs (Or.inr (Or.inl he)),
          fun he => hargs (Or.inr (Or.inr he))⟩
      split at h
      · rename_i hg
        have out := initOutcome s created
        dsimp only at h
        split at h
        · rename_i bad
          cases h
          exact .submitUninit idle hg.1 hg.2 out bad
        · rename_i good
          cases h
          rw [show (wsWorkerInit s created).2 = 0 by simpa using good] at out
          exact .submitInit idle hg.1 hg.2 args out
      · cases h

private theorem of_submitAdmit {c p : Nat} {wake : Worker → Bool}
    (h : wsWorkerSubmitAdmit s c p wake = some (s', es)) :
    Step s (.submitAdmit c p wake) s' es := by
  unfold wsWorkerSubmitAdmit at h
  split at h
  · rename_i job hat
    split at h
    · cases h
    · rename_i hm
      have free : s.gMutex = none := by simpa using hm
      split at h
      · rename_i full
        cases h
        exact .refuse hat free full
      · rename_i room
        split at h
        · rename_i hp
          cases h
          exact .accept hat free room hp.1 hp.2
        · cases h
  · cases h

private theorem of_shutdownJoin (h : wsWorkerShutdownJoin s = some (s', es)) :
    Step s .shutdownJoin s' es := by
  unfold wsWorkerShutdownJoin at h
  split at h
  · rename_i i hat
    split at h
    · rename_i lt
      split at h
      · rename_i bound
        split at h
        · rename_i gone
          cases h
          exact .shutdownJoin hat lt bound gone
        · cases h
      · cases h
    · rename_i ge
      cases h
      exact .shutdownJoined hat (by omega)
  · cases h

private theorem of_dequeue {w : Worker} (h : workerLoopDequeue s w = some (s', es)) :
    Step s (.dequeue w) s' es := by
  unfold workerLoopDequeue at h
  split at h
  · rename_i hat
    split at h
    · rename_i empty
      split at h
      · rename_i running
        cases h
        exact .park hat empty running
      · rename_i stopped
        cases h
        exact .exit hat empty (by simpa using stopped)
    · obtain ⟨⟨job, q⟩, pop, heq⟩ := Option.map_eq_some_iff.mp h
      cases heq
      exact .take hat pop
  · cases h

private theorem of_build {w : Worker} {respMem doneMem : Bool} {now : Int}
    (h : workerLoopBuild s w respMem doneMem now = some (s', es)) :
    Step s (.build w respMem doneMem now) s' es := by
  unfold workerLoopBuild at h
  split at h
  · rename_i job start late rc out hat
    dsimp only at h
    split at h
    · rename_i noResp
      cases h
      exact .buildNone hat noResp
    · rename_i json resp
      cases doneMem with
      | true => cases h; exact .build hat resp
      | false => cases h; exact .buildNoDone hat resp
  · cases h

/-- A step that is enabled is one of the listed ones. -/
theorem Step.of {a : Action} (h : pool.step s a = some (s', es)) : Step s a s' es := by
  change step s a = some (s', es) at h
  cases a with
  | tick now =>
    simp only [step, Model.tick, Option.ite_none_right_eq_some] at h
    obtain ⟨⟨later, fits⟩, h⟩ := h
    cases h
    exact .tick later fits
  | setExec installed => cases h; exact .setExec installed
  | init created =>
    simp only [step, wsWorkerInitCall, Option.ite_none_right_eq_some] at h
    obtain ⟨⟨free, le⟩, h⟩ := h
    cases h
    exact .init free le (initOutcome s created)
  | submitInit c a created => exact of_submitInit h
  | submitBuild c mem =>
    simp only [step, wsWorkerSubmitBuild] at h
    split at h
    · rename_i a hat
      cases mem with
      | true => cases h; exact .submitBuild hat
      | false => cases h; exact .submitNoMem hat
    · cases h
  | submitAdmit c p wake => exact of_submitAdmit h
  | drainDetach =>
    simp only [step, wsWorkerDrainDetach, Option.ite_none_right_eq_some] at h
    obtain ⟨⟨free, idle⟩, h⟩ := h
    cases h
    exact .drainDetach free idle
  | drainNext =>
    simp only [step, wsWorkerDrainNext] at h
    split at h
    · rename_i p hat
      obtain ⟨n, cell, heq⟩ := Option.map_eq_some_iff.mp h
      cases heq
      exact .drainNext hat cell
    · rename_i hat
      cases h
      exact .drainReturn hat
    · cases h
  | shutdownBegin =>
    simp only [step, wsWorkerShutdownBegin, Option.ite_none_right_eq_some] at h
    obtain ⟨⟨free, idle⟩, h⟩ := h
    split at h
    · rename_i on
      cases h
      exact .shutdownBegin free idle on
    · rename_i off
      cases h
      exact .shutdownNothing free idle (by simpa using off)
  | shutdownJoin => exact of_shutdownJoin h
  | shutdownCleanup =>
    simp only [step, wsWorkerShutdownCleanup, Option.ite_none_right_eq_some] at h
    obtain ⟨⟨free, hat⟩, h⟩ := h
    cases h
    exact .shutdownCleanup free hat
  | lock w =>
    simp only [step, workerLoopLock] at h
    split at h
    · rename_i k hat
      simp only [Option.ite_none_right_eq_some] at h
      obtain ⟨free, h⟩ := h
      cases h
      exact .lock hat free
    · cases h
  | dequeue w => exact of_dequeue h
  | check w =>
    simp only [step, workerLoopCheck] at h
    split at h
    · rename_i job hat
      split at h
      · rename_i late
        cases h
        exact .expire hat late
      · rename_i inTime
        cases h
        exact .pass hat inTime
    · cases h
  | lockConn w =>
    simp only [step, workerLoopLockConn] at h
    split at h
    · rename_i job start hat
      simp only [Option.ite_none_right_eq_some] at h
      obtain ⟨free, h⟩ := h
      cases h
      exact .lockConn hat free
    · cases h
  | finish w rc out =>
    simp only [step, workerLoopFinish] at h
    split at h
    · rename_i job start called hat
      simp only [Option.ite_none_right_eq_some] at h
      obtain ⟨exec, h⟩ := h
      cases h
      exact .finish hat exec
    · cases h
  | unlockConn w =>
    simp only [step, workerLoopUnlockConn] at h
    split at h
    · rename_i job start rc out hat
      cases h
      exact .unlockConn hat
    · cases h
  | build w respMem doneMem now => exact of_build h
  | pushDone w p =>
    simp only [step, Model.pushDone] at h
    split at h
    · rename_i o hat
      simp only [Option.ite_none_right_eq_some] at h
      obtain ⟨fresh, h⟩ := h
      cases h
      exact .pushDone hat fresh
    · cases h
  | recordResult w =>
    simp only [step, Model.recordResult] at h
    split at h
    · rename_i o hat
      cases h
      exact .recordResult hat
    · cases h
  | release w =>
    simp only [step, workerLoopRelease] at h
    split at h
    · rename_i job hat
      cases h
      exact .release hat
    · cases h
  | spuriousWake w =>
    simp only [step, Model.spuriousWake] at h
    split at h
    · rename_i hat
      cases h
      exact .spuriousWake hat
    · cases h

end Inversion

end Cyctron.WsWorker.Inversion
