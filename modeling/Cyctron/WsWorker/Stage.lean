/- Cyctron/WsWorker/Stage
   digest: How far a worker is with its job, and the jobs and entries that a trace reports. -/

import Cyctron.Machine.Holdings
import Cyctron.WsWorker.Inversion

set_option autoImplicit false
set_option relaxedAutoImplicit false

namespace Cyctron.WsWorker.Stage

open Cyctron.WsWorker.Model Cyctron.WsWorker.Inversion
open Cyctron.Machine.Holdings (held items held_flow)

/-- The stages of a job in a worker's hands, in the order of `worker_loop`: 0 taken, 1 checked,
2 executing, 3 executed, 4 unlocked or timed out, 5 response built, 6 response pushed,
7 result recorded. -/
def sectionStage : CriticalSection → Option (Nat × WsJob)
  | .dequeue => none
  | .pushDone o => some (5, o.job)
  | .recordResult o => some (6, o.job)
  | .release job => some (7, job)

def stage : Thread → Option (Nat × WsJob)
  | .off | .wait | .exited => none
  | .lock k | .inside k => sectionStage k
  | .taken job => some (0, job)
  | .lockConn job _ => some (1, job)
  | .exec job _ _ => some (2, job)
  | .unlockConn job _ _ _ => some (3, job)
  | .ended job _ _ _ _ => some (4, job)

/-- The worker's job when it is at the given stage or before it. -/
def jobUpTo (n : Nat) (t : Thread) : Option WsJob :=
  (stage t).bind fun p => if p.1 ≤ n then some p.2 else none

/-- The job that a worker has taken and not yet finished with. -/
abbrev inHand : Thread → Option WsJob := jobUpTo 7

/-- The job whose response is not yet pushed. -/
abbrev unanswered : Thread → Option WsJob := jobUpTo 5

/-- The job whose result is not yet recorded. -/
abbrev unrecorded : Thread → Option WsJob := jobUpTo 6

/-- The job that holds its connection lock, or may still wait for it. -/
abbrev serving : Thread → Option WsJob := jobUpTo 3

/-- The job that has neither timed out nor been started. -/
abbrev unbegun : Thread → Option WsJob := jobUpTo 1

/-- The job that passed the timeout test and waits for its connection lock. -/
def waitingJob : Thread → Option WsJob
  | .lockConn job _ => some job
  | _ => none

/-- The job that a caller of `ws_worker_submit` has filled in. -/
def builtJob : Option Submitting → Option WsJob
  | some (.built job) => some job
  | _ => none

section Stages

variable {job : WsJob} {o : Outcome} {start : Nat} {late : Bool} {rc : Int}
  {out : Option Cyctron.Base.CString.Bytes} {k : CriticalSection} {n : Nat}

@[simp] theorem stage_off : stage .off = none := rfl
@[simp] theorem stage_wait : stage .wait = none := rfl
@[simp] theorem stage_exited : stage .exited = none := rfl
@[simp] theorem stage_taken : stage (.taken job) = some (0, job) := rfl
@[simp] theorem stage_lockConn : stage (.lockConn job start) = some (1, job) := rfl
@[simp] theorem stage_exec {called : Bool} : stage (.exec job start called) = some (2, job) := rfl
@[simp] theorem stage_unlockConn : stage (.unlockConn job start rc out) = some (3, job) := rfl
@[simp] theorem stage_ended : stage (.ended job start late rc out) = some (4, job) := rfl
@[simp] theorem stage_lock : stage (.lock k) = sectionStage k := rfl
@[simp] theorem stage_inside : stage (.inside k) = sectionStage k := rfl
@[simp] theorem sectionStage_dequeue : sectionStage .dequeue = none := rfl
@[simp] theorem sectionStage_pushDone : sectionStage (.pushDone o) = some (5, o.job) := rfl
@[simp] theorem sectionStage_recordResult : sectionStage (.recordResult o) = some (6, o.job) := rfl
@[simp] theorem sectionStage_release : sectionStage (.release job) = some (7, job) := rfl

end Stages

/-- A thread that stands where the moved one does not was not moved. -/
theorem eq_of_update {th : Worker → Thread} {v w : Worker} {t u : Thread}
    (h : Function.update th w t v = u) (ht : t ≠ u) : th v = u := by
  by_cases hv : v = w
  · subst hv
    exact absurd (by simpa using h) ht
  · simpa [hv] using h

section Waking

variable {th : Worker → Thread} {wake : Worker → Bool}

theorem wakeThreads_cases (th : Worker → Thread) (wake : Worker → Bool) (w : Worker) :
    (th w = .wait ∧ wake w = true ∧ wakeThreads th wake w = .lock .dequeue) ∨
      wakeThreads th wake w = th w := by
  cases h : th w <;> cases hw : wake w <;> simp [wakeThreads, h, hw, Thread.isWaiting]

/-- What a thread holds when it holds nothing before a job is taken or after it is left. -/
structure IdleFree {β : Type} (hold : Thread → Option β) : Prop where
  off : hold .off = none
  wait : hold .wait = none
  exited : hold .exited = none
  asking : hold (.lock .dequeue) = none

theorem idleFree_jobUpTo (n : Nat) : IdleFree (jobUpTo n) := ⟨rfl, rfl, rfl, rfl⟩

variable {β : Type} {hold : Thread → Option β}

/-- A woken worker holds what it held when it was parked: nothing. -/
theorem held_wakeThreads (free : IdleFree hold) : held hold (wakeThreads th wake) = held hold th := by
  refine Finset.sum_congr rfl fun w _ => ?_
  rcases wakeThreads_cases th wake w with ⟨hw, _, h⟩ | h
  · rw [h, hw, free.asking, free.wait]
  · rw [h]

theorem held_startThreads (free : IdleFree hold) (created : Nat) (h : ∀ w, th w = .off) :
    held hold (startThreads th created) = held hold th := by
  refine Finset.sum_congr rfl fun w _ => ?_
  rw [h w, free.off]
  unfold startThreads
  split
  · rw [free.asking]
  · rw [h w, free.off]

/-- Whatever is held up to a stage is held up to every later one. -/
theorem held_mono {m n : Nat} (le : m ≤ n) : held (jobUpTo m) th ≤ held (jobUpTo n) th := by
  refine Finset.sum_le_sum fun w _ => ?_
  cases h : stage (th w) with
  | none => simp [jobUpTo, h]
  | some p =>
    by_cases hm : p.1 ≤ m
    · simp [jobUpTo, h, hm, Nat.le_trans hm le]
    · simp [jobUpTo, h, hm]

end Waking

section Traces

def Event.accepted? : Event → Option WsJob
  | .accepted job => some job
  | _ => none

def Event.refused? : Event → Option WsJob
  | .refused job => some job
  | _ => none

def Event.taken? : Event → Option WsJob
  | .taken _ job => some job
  | _ => none

def Event.expired? : Event → Option (WsJob × Nat)
  | .expired _ job start => some (job, start)
  | _ => none

def Event.started? : Event → Option (WsJob × Nat)
  | .started _ job now => some (job, now)
  | _ => none

/-- A job begins when it is started or times out. -/
def Event.begun? : Event → Option WsJob
  | .started _ job _ | .expired _ job _ => some job
  | _ => none

def Event.pushed? : Event → Option (WsJob × WsDone)
  | .pushed job _ d => some (job, d)
  | _ => none

/-- A job is answered when its response is pushed or lost for want of memory. -/
def Event.answered? : Event → Option WsJob
  | .pushed job _ _ | .lost job _ => some job
  | _ => none

def Event.finished? : Event → Option WsJob
  | .finished job => some job
  | _ => none

def Event.delivered? : Event → Option WsDone
  | .delivered d => some d
  | _ => none

def Event.dropped? : Event → List WsJob
  | .dropped jobs => jobs
  | _ => []

def acceptedJobs (tr : List Event) : List WsJob := tr.filterMap Event.accepted?
def refusedJobs (tr : List Event) : List WsJob := tr.filterMap Event.refused?
def takenJobs (tr : List Event) : List WsJob := tr.filterMap Event.taken?
def expiredJobs (tr : List Event) : List (WsJob × Nat) := tr.filterMap Event.expired?
def startedJobs (tr : List Event) : List (WsJob × Nat) := tr.filterMap Event.started?
def begunJobs (tr : List Event) : List WsJob := tr.filterMap Event.begun?
def pushedEntries (tr : List Event) : List (WsJob × WsDone) := tr.filterMap Event.pushed?
def answeredJobs (tr : List Event) : List WsJob := tr.filterMap Event.answered?
def finishedJobs (tr : List Event) : List WsJob := tr.filterMap Event.finished?
def deliveredEntries (tr : List Event) : List WsDone := tr.filterMap Event.delivered?
def droppedJobs (tr : List Event) : List WsJob := tr.flatMap Event.dropped?

variable (x y : List Event)

@[simp] theorem acceptedJobs_append : acceptedJobs (x ++ y) = acceptedJobs x ++ acceptedJobs y :=
  List.filterMap_append

@[simp] theorem refusedJobs_append : refusedJobs (x ++ y) = refusedJobs x ++ refusedJobs y :=
  List.filterMap_append

@[simp] theorem takenJobs_append : takenJobs (x ++ y) = takenJobs x ++ takenJobs y :=
  List.filterMap_append

@[simp] theorem expiredJobs_append : expiredJobs (x ++ y) = expiredJobs x ++ expiredJobs y :=
  List.filterMap_append

@[simp] theorem startedJobs_append : startedJobs (x ++ y) = startedJobs x ++ startedJobs y :=
  List.filterMap_append

@[simp] theorem begunJobs_append : begunJobs (x ++ y) = begunJobs x ++ begunJobs y :=
  List.filterMap_append

@[simp] theorem pushedEntries_append :
    pushedEntries (x ++ y) = pushedEntries x ++ pushedEntries y :=
  List.filterMap_append

@[simp] theorem answeredJobs_append : answeredJobs (x ++ y) = answeredJobs x ++ answeredJobs y :=
  List.filterMap_append

@[simp] theorem finishedJobs_append : finishedJobs (x ++ y) = finishedJobs x ++ finishedJobs y :=
  List.filterMap_append

@[simp] theorem deliveredEntries_append :
    deliveredEntries (x ++ y) = deliveredEntries x ++ deliveredEntries y :=
  List.filterMap_append

@[simp] theorem droppedJobs_append : droppedJobs (x ++ y) = droppedJobs x ++ droppedJobs y :=
  List.flatMap_append

end Traces

section Frames

/-- The worker whose step it is. -/
def Action.worker? : Action → Option Worker
  | .lock w | .dequeue w | .check w | .lockConn w | .finish w _ _ | .unlockConn w
  | .build w _ _ _ | .pushDone w _ | .recordResult w | .release w | .spuriousWake w => some w
  | _ => none

/-- What a step of worker `w` to `t` leaves to the other parties. -/
structure WorkerFrame (s : Pool) (w : Worker) (t : Thread) (s' : Pool) : Prop where
  threads : s'.threads = Function.update s.threads w t
  wasOn : s.threads w ≠ .off ∧ s.threads w ≠ .exited
  isOn : t ≠ .off
  parks : t = .wait → s.gRunning = true ∧ s.jobs.head = none
  leaves : t = .exited → s.gRunning = false ∧ s.jobs.head = none
  running : s'.gRunning = s.gRunning
  inited : s'.gInited = s.gInited
  once : s'.gOnce = s.gOnce
  count : s'.gThreadCount = s.gThreadCount
  submits : s'.submits = s.submits
  shutdown : s'.shutdown = s.shutdown
  drain : s'.drain = s.drain
  clock : s'.clock = s.clock

theorem Step.workerFrame {s s' : Pool} {a : Action} {es : List Event} {w : Worker}
    (h : Step s a s' es) (hw : Action.worker? a = some w) : ∃ t, WorkerFrame s w t s' := by
  cases h with
  | lock at_ _ | expire at_ _ | pass at_ _ | lockConn at_ _ | finish at_ _ | unlockConn at_
  | buildNone at_ _ | build at_ _ | buildNoDone at_ _ | pushDone at_ _ | recordResult at_
  | release at_ | spuriousWake at_ | take at_ _ =>
    obtain rfl := Option.some.inj hw
    exact ⟨_, rfl, by simp [at_], (by simp), (by simp), (by simp), rfl, rfl, rfl, rfl, rfl,
      rfl, rfl, rfl⟩
  | park at_ empty running =>
    obtain rfl := Option.some.inj hw
    exact ⟨_, rfl, by simp [at_], (by simp), fun _ => ⟨running, empty⟩, (by simp), rfl,
      rfl, rfl, rfl, rfl, rfl, rfl, rfl⟩
  | exit at_ empty stopped =>
    obtain rfl := Option.some.inj hw
    exact ⟨_, rfl, by simp [at_], (by simp), (by simp), fun _ => ⟨stopped, empty⟩, rfl,
      rfl, rfl, rfl, rfl, rfl, rfl, rfl⟩
  | _ => cases hw

end Frames

end Cyctron.WsWorker.Stage
