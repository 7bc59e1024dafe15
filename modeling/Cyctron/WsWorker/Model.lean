/- Cyctron/WsWorker/Model
   digest: The worker pool of ws_worker.c as a labelled system over its shared variables. -/

import Cyctron.Machine.Labelled
import Cyctron.Machine.LinkedQueue
import Cyctron.Call.Protocol
import Mathlib.Algebra.Order.BigOperators.Group.Finset
import Mathlib.Algebra.Order.Group.Multiset
import Mathlib.Data.Fintype.EquivFin
import Mathlib.Data.List.Perm.Subperm

set_option autoImplicit false
set_option relaxedAutoImplicit false

namespace Cyctron.WsWorker.Model

open Cyctron.Base.CString Cyctron.Call.Protocol
open Cyctron.Machine.Labelled (System)
open Cyctron.Machine.LinkedQueue (Fifo)

abbrev WS_WORKER_MAX_QUEUE : Nat := 64
abbrev WS_WORKER_MAX_PER_CONN : Nat := 16
abbrev WS_WORKER_THREADS : Nat := 2
abbrev WS_CONN_LOCKS : Nat := 16

abbrev Worker := Fin WS_WORKER_THREADS
abbrev Slot := Fin WS_CONN_LOCKS

/-- `conn_id % WS_CONN_LOCKS` -/
def slotOf (connId : Nat) : Slot := ⟨connId % WS_CONN_LOCKS, Nat.mod_lt _ (by decide)⟩

/-- The arguments of `ws_worker_submit`. The tag is not in the source: it names the call, so
that runs can be told apart, and no step reads it. -/
structure SubmitArgs where
  connId : Nat
  id : Option Bytes
  lib : Option Bytes
  symbol : Option Bytes
  args : Option Bytes
  timeoutMs : Int
  tag : Nat
  deriving DecidableEq

structure WsJob where
  connId : Nat
  id : Bytes
  lib : Bytes
  symbol : Bytes
  args : Bytes
  timeoutMs : Int
  submitMs : Nat
  tag : Nat
  deriving DecidableEq

structure WsDone where
  connId : Nat
  json : Bytes
  tag : Nat
  deriving DecidableEq

structure WsWorkerStats where
  total : Nat
  ok : Nat
  failed : Nat
  timeouts : Nat
  busy : Nat
  totalUs : Nat
  maxUs : Nat
  deriving DecidableEq

def WsWorkerStats.zero : WsWorkerStats := ⟨0, 0, 0, 0, 0, 0, 0⟩

/-- The locals of `worker_loop` once the response is built. -/
structure Outcome where
  job : WsJob
  mapped : Int
  elapsed : Nat
  timedOut : Bool
  json : Bytes
  deriving DecidableEq

/-- The critical sections of a worker on `g_mutex`. -/
inductive CriticalSection
  | dequeue
  | pushDone (o : Outcome)
  | recordResult (o : Outcome)
  | release (job : WsJob)
  deriving DecidableEq

/-- Where a worker stands. A worker woken in `pthread_cond_wait` has to take `g_mutex` again
and then tests the loop condition, so it stands at `lock dequeue`. At `exec` the flag says
whether there was an executor to call. -/
inductive Thread
  | off
  | lock (k : CriticalSection)
  | inside (k : CriticalSection)
  | wait
  | taken (job : WsJob)
  | lockConn (job : WsJob) (start : Nat)
  | exec (job : WsJob) (start : Nat) (called : Bool)
  | unlockConn (job : WsJob) (start : Nat) (rc : Int) (out : Option Bytes)
  | ended (job : WsJob) (start : Nat) (timedOut : Bool) (rc : Int) (out : Option Bytes)
  | exited
  deriving DecidableEq

def Thread.isWaiting : Thread → Bool
  | .wait => true
  | _ => false

/-- Where a caller of `ws_worker_submit` stands between its critical sections. -/
inductive Submitting
  | inited (a : SubmitArgs)
  | built (job : WsJob)
  deriving DecidableEq

/-- Where the caller of `ws_worker_shutdown` stands. -/
inductive Shutdown
  | idle
  | joining (i : Nat)
  | cleanup
  deriving DecidableEq

/-- The shared variables, the places of all threads, and the clock. The cells of the two
lists live in the stores of `jobs` and `done`; `drain` is the cursor `d` of the drain in
progress. Callers take and leave `g_mutex` within one step, so it is free or a worker's. -/
structure Pool where
  gMutex : Option Worker
  jobs : Fifo WsJob
  done : Fifo WsDone
  gQueueLen : Int
  gRunning : Bool
  gInited : Bool
  gOnce : Bool
  gThreadCount : Nat
  gExec : Bool
  gStats : WsWorkerStats
  gConnPending : Slot → Int
  gConnLocks : Slot → Option Worker
  threads : Worker → Thread
  submits : Nat → Option Submitting
  shutdown : Shutdown
  drain : Option (Option Nat)
  clock : Nat

def Pool.initial : Pool where
  gMutex := none
  jobs := .empty
  done := .empty
  gQueueLen := 0
  gRunning := false
  gInited := false
  gOnce := false
  gThreadCount := 0
  gExec := true
  gStats := .zero
  gConnPending _ := 0
  gConnLocks _ := none
  threads _ := .off
  submits _ := none
  shutdown := .idle
  drain := none
  clock := 0

/-- What a run shows. -/
inductive Event
  | accepted (job : WsJob)
  | refused (job : WsJob)
  | failed (tag : Nat)
  | taken (w : Worker) (job : WsJob)
  | expired (w : Worker) (job : WsJob) (start : Nat)
  | started (w : Worker) (job : WsJob) (now : Nat)
  | lost (job : WsJob) (timedOut : Bool)
  | pushed (job : WsJob) (timedOut : Bool) (d : WsDone)
  | finished (job : WsJob)
  | delivered (d : WsDone)
  | dropped (jobs : List WsJob)
  | shutdownReturned
  deriving DecidableEq

abbrev Outcomes := Option (Pool × List Event)

/-- Subtraction of `unsigned long long`. -/
def sub64 (a b : Nat) : Nat := (a + 2 ^ 64 - b) % 2 ^ 64

/-- The cast to a 64-bit `long`. -/
def toLong (n : Nat) : Int := if n < 2 ^ 63 then n else n - 2 ^ 64

def Pool.setThread (s : Pool) (w : Worker) (t : Thread) : Pool :=
  { s with threads := Function.update s.threads w t }

def Pool.unlock (s : Pool) : Pool := { s with gMutex := none }

/-- `created` counts the threads that `pthread_create` starts before it first fails. -/
def wsWorkerInit (s : Pool) (created : Nat) : Pool × Int :=
  let s := if s.gOnce then s else { s with gOnce := true, gConnLocks := fun _ => none }
  if s.gInited then (s, 0)
  else
    let s := { s with
      gRunning := true
      gInited := true
      gStats := .zero
      threads := fun w => if w.val < created then .lock .dequeue else s.threads w
      gThreadCount := s.gThreadCount + created }
    if s.gThreadCount = 0 then ({ s with gRunning := false, gInited := false }, -1) else (s, 0)

def wsWorkerInitCall (s : Pool) (created : Nat) : Outcomes :=
  if s.gMutex = none ∧ created ≤ WS_WORKER_THREADS then some ((wsWorkerInit s created).1, [])
  else none

/-- `ws_worker_submit` up to the call of `ws_worker_init`. -/
def wsWorkerSubmitInit (s : Pool) (c : Nat) (a : SubmitArgs) (created : Nat) : Outcomes :=
  if s.submits c ≠ none then none
  else if a.id = none ∨ a.lib = none ∨ a.symbol = none then some (s, [.failed a.tag])
  else if s.gMutex = none ∧ created ≤ WS_WORKER_THREADS then
    let r := wsWorkerInit s created
    if r.2 ≠ 0 then some (r.1, [.failed a.tag])
    else some ({ r.1 with submits := Function.update r.1.submits c (some (.inited a)) }, [])
  else none

/-- The job that `ws_worker_submit` fills in at clock `now`. -/
def newJob (a : SubmitArgs) (now : Nat) : WsJob where
  connId := a.connId
  id := a.id.getD []
  lib := a.lib.getD []
  symbol := a.symbol.getD []
  args := a.args.getD (ascii "\x7b\x7d")
  timeoutMs := a.timeoutMs
  submitMs := now
  tag := a.tag

/-- `mem` says whether `calloc` and the four copies succeed. -/
def wsWorkerSubmitBuild (s : Pool) (c : Nat) (mem : Bool) : Outcomes :=
  match s.submits c with
  | some (.inited a) =>
    if mem then
      some ({ s with submits := Function.update s.submits c (some (.built (newJob a s.clock))) }, [])
    else some ({ s with submits := Function.update s.submits c none }, [.failed a.tag])
  | _ => none

/-- `pthread_cond_signal` wakes at least one parked worker when there is one. -/
def signals (th : Worker → Thread) (wake : Worker → Bool) : Prop :=
  (∃ w, (th w).isWaiting = true) → ∃ w, (th w).isWaiting = true ∧ wake w = true

instance (th : Worker → Thread) (wake : Worker → Bool) : Decidable (signals th wake) := by
  unfold signals; infer_instance

def wakeThreads (th : Worker → Thread) (wake : Worker → Bool) : Worker → Thread :=
  fun w => if (th w).isWaiting && wake w then .lock .dequeue else th w

/-- The test that refuses a submit. -/
def Pool.full (s : Pool) (connId : Nat) : Prop :=
  WS_WORKER_MAX_QUEUE ≤ s.gQueueLen ∨ WS_WORKER_MAX_PER_CONN ≤ s.gConnPending (slotOf connId)

instance (s : Pool) (connId : Nat) : Decidable (s.full connId) := by
  unfold Pool.full; infer_instance

/-- The last critical section of `ws_worker_submit`; `p` is the address of the job. -/
def wsWorkerSubmitAdmit (s : Pool) (c : Nat) (p : Nat) (wake : Worker → Bool) : Outcomes :=
  match s.submits c with
  | some (.built job) =>
    if s.gMutex ≠ none then none
    else if s.full job.connId then
      some ({ s with
        gStats := { s.gStats with busy := s.gStats.busy + 1 }
        submits := Function.update s.submits c none }, [.refused job])
    else if s.jobs.store.cell p = none ∧ signals s.threads wake then
      let slot := slotOf job.connId
      some ({ s with
        jobs := s.jobs.push p job
        gQueueLen := s.gQueueLen + 1
        gConnPending := Function.update s.gConnPending slot (s.gConnPending slot + 1)
        gStats := { s.gStats with total := s.gStats.total + 1 }
        threads := wakeThreads s.threads wake
        submits := Function.update s.submits c none }, [.accepted job])
    else none
  | _ => none

/-- The critical section of `ws_worker_drain`. -/
def wsWorkerDrainDetach (s : Pool) : Outcomes :=
  if s.gMutex = none ∧ s.drain = none then
    some ({ s with done := s.done.detach, drain := some s.done.head }, [])
  else none

/-- One round of the loop of `ws_worker_drain`, or its return. -/
def wsWorkerDrainNext (s : Pool) : Outcomes :=
  match s.drain with
  | some (some p) => (s.done.store.cell p).map fun n =>
      ({ s with done := s.done.release p, drain := some n.next }, [.delivered n.val])
  | some none => some ({ s with drain := none }, [])
  | none => none

def wsWorkerShutdownBegin (s : Pool) : Outcomes :=
  if s.gMutex = none ∧ s.shutdown = .idle then
    if s.gInited then
      some ({ s with
        gRunning := false
        threads := wakeThreads s.threads fun _ => true
        shutdown := .joining 0 }, [])
    else some (s, [.shutdownReturned])
  else none

/-- One `pthread_join`, or the end of the join loop. -/
def wsWorkerShutdownJoin (s : Pool) : Outcomes :=
  match s.shutdown with
  | .joining i =>
    if i < s.gThreadCount then
      if h : i < WS_WORKER_THREADS then
        if s.threads ⟨i, h⟩ = .exited then
          some ({ s.setThread ⟨i, h⟩ .off with shutdown := .joining (i + 1) }, [])
        else none
      else none
    else some ({ s with gThreadCount := 0, shutdown := .cleanup }, [])
  | _ => none

def wsWorkerShutdownCleanup (s : Pool) : Outcomes :=
  if s.gMutex = none ∧ s.shutdown = .cleanup then
    some ({ s with
      jobs := s.jobs.clear
      gQueueLen := 0
      gConnPending := fun _ => 0
      done := s.done.clear
      gInited := false
      shutdown := .idle }, [.dropped s.jobs.contents, .shutdownReturned])
  else none

/-- `pthread_mutex_lock(&g_mutex)` of a worker. -/
def workerLoopLock (s : Pool) (w : Worker) : Outcomes :=
  match s.threads w with
  | .lock k => if s.gMutex = none then
      some ({ s.setThread w (.inside k) with gMutex := some w }, []) else none
  | _ => none

/-- The loop test of `worker_loop` and what follows it up to the unlock: park, exit or take. -/
def workerLoopDequeue (s : Pool) (w : Worker) : Outcomes :=
  match s.threads w with
  | .inside .dequeue =>
    match s.jobs.head with
    | none =>
      if s.gRunning then some ((s.setThread w .wait).unlock, [])
      else some ((s.setThread w .exited).unlock, [])
    | some _ => s.jobs.pop.map fun r =>
        ({ (s.setThread w (.taken r.1)).unlock with
            jobs := r.2
            gQueueLen := s.gQueueLen - 1 }, [.taken w r.1])
  | _ => none

/-- The timeout test of `worker_loop`. -/
def timedOut (job : WsJob) (start : Nat) : Prop :=
  0 < job.timeoutMs ∧ job.timeoutMs < toLong (sub64 start job.submitMs)

instance (job : WsJob) (start : Nat) : Decidable (timedOut job start) := by
  unfold timedOut; infer_instance

def workerLoopCheck (s : Pool) (w : Worker) : Outcomes :=
  match s.threads w with
  | .taken job =>
    if timedOut job s.clock then
      some (s.setThread w (.ended job s.clock true (-7) none), [.expired w job s.clock])
    else some (s.setThread w (.lockConn job s.clock), [])
  | _ => none

/-- The connection lock is taken and the executor, when there is one, is called. The start is dated
here. -/
def workerLoopLockConn (s : Pool) (w : Worker) : Outcomes :=
  match s.threads w with
  | .lockConn job start =>
    if s.gConnLocks (slotOf job.connId) = none then
      some ({ s.setThread w (.exec job start s.gExec) with
        gConnLocks := Function.update s.gConnLocks (slotOf job.connId) (some w) },
        [.started w job s.clock])
    else none
  | _ => none

/-- The executor returns; without one the code is -1. -/
def workerLoopFinish (s : Pool) (w : Worker) (rc : Int) (out : Option Bytes) : Outcomes :=
  match s.threads w with
  | .exec job start called =>
    if called = true ∨ (rc = -1 ∧ out = none) then
      some (s.setThread w (.unlockConn job start rc out), [])
    else none
  | _ => none

def workerLoopUnlockConn (s : Pool) (w : Worker) : Outcomes :=
  match s.threads w with
  | .unlockConn job start rc out =>
    some ({ s.setThread w (.ended job start false rc out) with
      gConnLocks := Function.update s.gConnLocks (slotOf job.connId) none }, [])
  | _ => none

/-- The code and the response that `worker_loop` builds for a job. -/
def mappedCode (timedOut : Bool) (rc : Int) : Int := if timedOut then -7 else wsCallMapRc rc

def errorText (timedOut : Bool) (rc : Int) : Bytes :=
  if timedOut then snprintf 128 (ascii "call timed out in queue")
  else snprintf 128 (ascii "ffi rc=" ++ decimalInt rc)

def response (mem : Bool) (job : WsJob) (elapsed : Nat) (timedOut : Bool) (rc : Int)
    (out : Option Bytes) (now : Int) : WsCallResp :=
  if mappedCode timedOut rc = WS_CALL_OK then
    (wsCallBuildOk mem (some job.id) (some job.lib) (some job.symbol) elapsed out now).2
  else (wsCallBuildError mem (some job.id) (mappedCode timedOut rc)
    (some (errorText timedOut rc)) now).2

/-- The response is built and `push_done` allocates its entry. `respMem` and `doneMem` say
whether the two allocations succeed and `now` is the value of `time(NULL)`. -/
def workerLoopBuild (s : Pool) (w : Worker) (respMem doneMem : Bool) (now : Int) : Outcomes :=
  match s.threads w with
  | .ended job start timedOut rc out =>
    let elapsed := sub64 s.clock start
    match (response respMem job elapsed timedOut rc out now).json with
    | none => some (s.setThread w (.lock (.release job)), [.lost job timedOut])
    | some json =>
      let o : Outcome := ⟨job, mappedCode timedOut rc, elapsed, timedOut, json⟩
      if doneMem then some (s.setThread w (.lock (.pushDone o)), [])
      else some (s.setThread w (.lock (.recordResult o)), [.lost job timedOut])
  | _ => none

/-- The critical section of `push_done`; `p` is the address of the entry. -/
def pushDone (s : Pool) (w : Worker) (p : Nat) : Outcomes :=
  match s.threads w with
  | .inside (.pushDone o) =>
    if s.done.store.cell p = none then
      let d : WsDone := ⟨o.job.connId, o.json, o.job.tag⟩
      some ({ (s.setThread w (.lock (.recordResult o))).unlock with
        done := s.done.push p d }, [.pushed o.job o.timedOut d])
    else none
  | _ => none

def WsWorkerStats.record (st : WsWorkerStats) (mapped : Int) (elapsed : Nat) (timedOut : Bool) :
    WsWorkerStats :=
  let st := if mapped = WS_CALL_OK then { st with ok := st.ok + 1 }
    else { st with
      failed := st.failed + 1
      timeouts := if timedOut then st.timeouts + 1 else st.timeouts }
  let st := { st with totalUs := st.totalUs + elapsed }
  if st.maxUs < elapsed then { st with maxUs := elapsed } else st

def recordResult (s : Pool) (w : Worker) : Outcomes :=
  match s.threads w with
  | .inside (.recordResult o) =>
    some ({ (s.setThread w (.lock (.release o.job))).unlock with
      gStats := s.gStats.record o.mapped o.elapsed o.timedOut }, [])
  | _ => none

/-- The last critical section of a round: the pending count of the job's slot goes down. -/
def workerLoopRelease (s : Pool) (w : Worker) : Outcomes :=
  match s.threads w with
  | .inside (.release job) =>
    let slot := slotOf job.connId
    some ({ (s.setThread w (.lock .dequeue)).unlock with
      gConnPending := if 0 < s.gConnPending slot then
          Function.update s.gConnPending slot (s.gConnPending slot - 1)
        else s.gConnPending }, [.finished job])
  | _ => none

/-- A parked worker may wake without a signal. -/
def spuriousWake (s : Pool) (w : Worker) : Outcomes :=
  match s.threads w with
  | .wait => some (s.setThread w (.lock .dequeue), [])
  | _ => none

/-- `installed` says whether the function pointer is not null. -/
def wsWorkerSetExec (s : Pool) (installed : Bool) : Pool := { s with gExec := installed }

/-- The monotonic clock moves on; its readings in milliseconds fit a `long`. -/
def tick (s : Pool) (now : Nat) : Outcomes :=
  if s.clock ≤ now ∧ now < 2 ^ 63 then some ({ s with clock := now }, []) else none

inductive Action
  | tick (now : Nat)
  | setExec (installed : Bool)
  | init (created : Nat)
  | submitInit (c : Nat) (a : SubmitArgs) (created : Nat)
  | submitBuild (c : Nat) (mem : Bool)
  | submitAdmit (c : Nat) (p : Nat) (wake : Worker → Bool)
  | drainDetach
  | drainNext
  | shutdownBegin
  | shutdownJoin
  | shutdownCleanup
  | lock (w : Worker)
  | dequeue (w : Worker)
  | check (w : Worker)
  | lockConn (w : Worker)
  | finish (w : Worker) (rc : Int) (out : Option Bytes)
  | unlockConn (w : Worker)
  | build (w : Worker) (respMem doneMem : Bool) (now : Int)
  | pushDone (w : Worker) (p : Nat)
  | recordResult (w : Worker)
  | release (w : Worker)
  | spuriousWake (w : Worker)

def step (s : Pool) : Action → Outcomes
  | .tick now => tick s now
  | .setExec installed => some (wsWorkerSetExec s installed, [])
  | .init created => wsWorkerInitCall s created
  | .submitInit c a created => wsWorkerSubmitInit s c a created
  | .submitBuild c mem => wsWorkerSubmitBuild s c mem
  | .submitAdmit c p wake => wsWorkerSubmitAdmit s c p wake
  | .drainDetach => wsWorkerDrainDetach s
  | .drainNext => wsWorkerDrainNext s
  | .shutdownBegin => wsWorkerShutdownBegin s
  | .shutdownJoin => wsWorkerShutdownJoin s
  | .shutdownCleanup => wsWorkerShutdownCleanup s
  | .lock w => workerLoopLock s w
  | .dequeue w => workerLoopDequeue s w
  | .check w => workerLoopCheck s w
  | .lockConn w => workerLoopLockConn s w
  | .finish w rc out => workerLoopFinish s w rc out
  | .unlockConn w => workerLoopUnlockConn s w
  | .build w respMem doneMem now => workerLoopBuild s w respMem doneMem now
  | .pushDone w p => pushDone s w p
  | .recordResult w => recordResult s w
  | .release w => workerLoopRelease s w
  | .spuriousWake w => spuriousWake s w

/-- The worker pool. -/
def pool : System Pool Action Event := ⟨.initial, step⟩

/-- `ws_worker_stats` -/
def wsWorkerStats (s : Pool) : WsWorkerStats := s.gStats

end Cyctron.WsWorker.Model
