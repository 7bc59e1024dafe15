/- Cyctron/WsWorker/Starvation
   digest: When a worker blocked on a connection lock holds back the jobs of other connections. -/

import Cyctron.WsWorker.Serial
import Cyctron.WsWorker.Admission
import Cyctron.WsWorker.Locals

set_option autoImplicit false
set_option relaxedAutoImplicit false

namespace Cyctron.WsWorker.Starvation

open Cyctron.WsWorker.Model Cyctron.WsWorker.Inversion Cyctron.WsWorker.Stage
open Cyctron.WsWorker.Threads Cyctron.WsWorker.Flow Cyctron.WsWorker.Admission
open Cyctron.WsWorker.Locals Cyctron.WsWorker.Serial
open Cyctron.Machine.Labelled (Path Run anyStep)
open Cyctron.Machine.LinkedQueue

/-- A worker is blocked on a connection lock while the queue holds a job of another connection
whose lock is free. -/
def Starved (s : Pool) : Prop :=
  ∃ w, ∃ job ∈ waitingJob (s.threads w), s.gConnLocks (slotOf job.connId) ≠ none ∧
    ∃ j ∈ s.jobs.contents, j.connId ≠ job.connId ∧ s.gConnLocks (slotOf j.connId) = none

/-- The slot whose lock the worker holds or is going to ask for: its job is taken, not yet too
late, and not yet executed. -/
def contends (clock : Nat) : Thread → Option Slot
  | .taken job => if timedOut job clock then none else some (slotOf job.connId)
  | .lockConn job _ | .exec job _ _ | .unlockConn job _ _ _ => some (slotOf job.connId)
  | _ => none

/-- Two workers contend for one slot. -/
def BothContend (s : Pool) (k : Slot) : Prop :=
  ∃ v w, v ≠ w ∧ contends s.clock (s.threads v) = some k ∧ contends s.clock (s.threads w) = some k

instance (s : Pool) (k : Slot) : Decidable (BothContend s k) := by
  unfold BothContend; infer_instance

/-- A worker takes a job that another worker contends with only when the jobs left behind all
fall in the same slot; and while two workers contend for a slot, only jobs of this slot are
accepted. -/
def keepsApart (s : Pool) : Action → Prop
  | .dequeue _ => ∀ job ∈ s.jobs.contents.head?, ¬timedOut job s.clock →
      (∃ v, contends s.clock (s.threads v) = some (slotOf job.connId)) →
      ∀ j ∈ s.jobs.contents.tail, slotOf j.connId = slotOf job.connId
  | .submitAdmit c _ _ => ∀ job ∈ builtJob (s.submits c), ¬s.full job.connId →
      ∀ k, BothContend s k → slotOf job.connId = k
  | _ => True

instance (s : Pool) (a : Action) : Decidable (keepsApart s a) := by
  apply a.casesOn (motive := fun a => Decidable (keepsApart s a)) <;> intros <;>
    dsimp only [keepsApart] <;> infer_instance

/-- While two workers contend for a slot, only jobs of this slot are queued. -/
def Clustered (s : Pool) : Prop :=
  ∀ k, BothContend s k → ∀ j ∈ s.jobs.contents, slotOf j.connId = k

section Steps

variable {s s' t : Pool} {a : Action} {es : List Event} {created : Nat} {rc : Int}

private theorem BothContend.of_eq {k : Slot} (h : BothContend t k)
    (same : ∀ w, contends t.clock (t.threads w) = some k →
      contends s.clock (s.threads w) = some k) : BothContend s k := by
  obtain ⟨v, w, hne, hv, hw⟩ := h
  exact ⟨v, w, hne, same v hv, same w hw⟩

/-- A step after which nobody contends who did not before, and nothing new is queued. -/
private theorem Clustered.of_less (h : Clustered s)
    (less : ∀ w k, contends t.clock (t.threads w) = some k →
      contends s.clock (s.threads w) = some k)
    (jobs : ∀ j ∈ t.jobs.contents, j ∈ s.jobs.contents) : Clustered t :=
  fun k hk j hj => h k (hk.of_eq fun w => less w k) j (jobs j hj)

private theorem less_update {th : Worker → Thread} {w : Worker} {u : Thread} {clock : Nat}
    (h : ∀ k, contends clock u = some k → contends clock (th w) = some k) (v : Worker) (k : Slot)
    (hv : contends clock (Function.update th w u v) = some k) :
    contends clock (th v) = some k := by
  by_cases hvw : v = w
  · subst hvw
    exact h k (by simpa using hv)
  · simpa [hvw] using hv

private theorem less_wake {th : Worker → Thread} {wake : Worker → Bool} {clock : Nat} (v : Worker)
    (k : Slot) (hv : contends clock (wakeThreads th wake v) = some k) :
    contends clock (th v) = some k := by
  rcases wakeThreads_cases th wake v with ⟨_, _, h⟩ | h
  · rw [h] at hv; cases hv
  · rwa [h] at hv

/-- Once a job is too late it stays too late. -/
private theorem less_tick {clock now : Nat} {u : Thread} {k : Slot} (sensible : Sensible clock u)
    (later : clock ≤ now) (fits : now < 2 ^ 63) (h : contends now u = some k) :
    contends clock u = some k := by
  cases u with
  | taken job =>
    simp only [contends] at h ⊢
    have hsub : job.submitMs ≤ clock := sensible
    split at h
    · cases h
    · rename_i hnow
      rw [timedOut_iff (Nat.le_trans hsub later) fits] at hnow
      have hstill : ¬timedOut job clock := by
        rw [timedOut_iff hsub (Nat.lt_of_le_of_lt later fits)]
        exact fun hlate => hnow ⟨hlate.1, by omega⟩
      rw [if_neg hstill]
      exact h
  | _ => exact h

private theorem Clustered.init (life : Lifecycle s) (h : Clustered s)
    (out : InitOutcome s created t rc) : Clustered t := by
  cases out with
  | already | failed => exact h
  | fresh off _ =>
    refine h.of_less (fun w k hw => ?_) fun j hj => hj
    have hoff := life.all_off (Or.inl off) w
    change contends s.clock (startThreads s.threads created w) = some k at hw
    by_cases hlt : w.val < created <;> simp [startThreads, hlt, hoff, contends] at hw

/-- The taken job contends with another worker only where the condition looks at what is left
in the queue. -/
private theorem Clustered.take {w : Worker} {job : WsJob} {q : Fifo WsJob} (h : Clustered s)
    (pop : s.jobs.contents = job :: q.contents) (ok : keepsApart s (.dequeue w))
    (jobs : t.jobs = q) (threads : t.threads = Function.update s.threads w (.taken job))
    (clock : t.clock = s.clock) : Clustered t := by
  rintro k ⟨u, v, hne, hu, hv⟩ j hj
  rw [jobs] at hj
  rw [threads, clock] at hu hv
  have hjs : j ∈ s.jobs.contents := by rw [pop]; exact List.mem_cons_of_mem _ hj
  have other : ∀ {x : Worker}, x ≠ w →
      contends s.clock (Function.update s.threads w (.taken job) x) = some k →
      contends s.clock (s.threads x) = some k := fun hx hc => by simpa [hx] using hc
  have mine : ∀ {x : Worker}, x ≠ w → contends s.clock (s.threads x) = some k →
      contends s.clock (.taken job) = some k → slotOf j.connId = k := by
    intro x _ hx hc
    simp only [contends] at hc
    split at hc
    · cases hc
    · rename_i inTime
      obtain rfl := Option.some.inj hc
      exact ok job (by rw [pop]; rfl) inTime ⟨x, hx⟩ j (by rw [pop]; exact hj)
  by_cases huw : u = w
  · subst huw
    exact mine (Ne.symm hne) (other (Ne.symm hne) hv) (by simpa using hu)
  · by_cases hvw : v = w
    · subst hvw
      exact mine huw (other huw hu) (by simpa using hv)
    · exact h k ⟨u, v, hne, other huw hu, other hvw hv⟩ j hjs

theorem Clustered.keep (life : Lifecycle s) (lists : Lists s) (dated : Dated s) (h : Clustered s)
    (ok : keepsApart s a) (hstep : Step s a s' es) : Clustered s' := by
  cases hstep with
  | tick later fits =>
    exact h.of_less (fun w k => less_tick (dated.threads w) later fits) fun j hj => hj
  | init _ _ out | submitUninit _ _ _ out _ => exact h.init life out
  | submitInit _ _ _ _ out =>
    have ht := h.init life out
    exact ht
  | @accept c p wake job at_ _ room fresh _ =>
    intro k hk j hj
    have hk' : BothContend s k := hk.of_eq fun w => less_wake w k
    change j ∈ (s.jobs.push p job).contents at hj
    rw [contents_push lists.jobs fresh, List.mem_append, List.mem_singleton] at hj
    rcases hj with hj | rfl
    · exact h k hk' j hj
    · exact ok j (by rw [at_]; rfl) room k hk'
  | shutdownBegin =>
    refine h.of_less (fun w k hw => ?_) fun j hj => hj
    change contends s.clock (wakeThreads s.threads (fun _ => true) w) = some k at hw
    exact less_wake w k hw
  | shutdownJoin => exact h.of_less (less_update fun k hk => by cases hk) fun j hj => hj
  | shutdownCleanup =>
    intro k _ j hj
    have hc : s.jobs.clear.contents = [] := contents_clear
    rw [hc] at hj
    exact absurd hj List.not_mem_nil
  | take _ pop => exact h.take (contents_pop lists.jobs pop) ok rfl rfl rfl
  | pass at_ inTime =>
    refine h.of_less (less_update fun k hk => ?_) fun j hj => hj
    rw [at_, contends, if_neg inTime]
    exact hk
  | lockConn at_ | finish at_ | unlockConn at_ =>
    refine h.of_less (less_update fun k hk => ?_) fun j hj => hj
    rw [at_]
    first | exact hk | cases hk
  | lock | park | exit | expire | buildNone | build | buildNoDone | pushDone
  | recordResult | release | spuriousWake =>
    exact h.of_less (less_update fun k hk => by cases hk) fun j hj => hj
  | setExec | submitNull | submitBuild | submitNoMem | refuse | drainDetach | drainNext
  | drainReturn | shutdownNothing | shutdownJoined => exact h

private theorem run_clustered {tr : List Event} (h : Run pool keepsApart tr s) : Clustered s := by
  refine h.invariant_of (fun _ s => Lifecycle s ∧ Lists s ∧ Dated s) (fun _ s => Clustered s)
    (fun _ _ hp => ⟨run_lifecycle hp, run_lists hp, run_dated hp⟩) ?_ ?_
  · exact fun k _ j hj => absurd hj List.not_mem_nil
  · exact fun _ _ _ _ _ known hc ok hstep => hc.keep known.1 known.2.1 known.2.2 ok (Step.of hstep)

/-- In every run in which no worker takes a job that another worker contends with while a job
of another slot stays queued, and no job of another slot is accepted while two workers contend
for a slot: a worker blocked on a connection lock never holds back a job whose lock is free. -/
theorem work_conserving {tr : List Event} (h : Run pool keepsApart tr s) : ¬Starved s := by
  rintro ⟨w, job, hwait, hlocked, j, hj, _, hfree⟩
  have locks := run_locks h
  obtain ⟨u, hu⟩ := Option.ne_none_iff_exists'.mp hlocked
  have hheld := (locks.conn (slotOf job.connId) u).mp hu
  have hw : contends s.clock (s.threads w) = some (slotOf job.connId) := by
    cases ht : s.threads w with
    | lockConn job' start =>
      rw [ht] at hwait
      obtain rfl := Option.some.inj hwait
      rfl
    | _ => rw [ht] at hwait; cases hwait
  have huc : contends s.clock (s.threads u) = some (slotOf job.connId) := by
    cases ht : s.threads u with
    | exec | unlockConn => rw [ht] at hheld; exact hheld
    | _ => rw [ht] at hheld; cases hheld
  have hne : u ≠ w := by
    rintro rfl
    cases ht : s.threads u with
    | lockConn => rw [ht] at hheld; cases hheld
    | _ => rw [ht] at hwait; cases hwait
  have hslot := run_clustered h (slotOf job.connId) ⟨u, w, hne, huc, hw⟩ j hj
  rw [hslot, hu] at hfree
  cases hfree

end Steps

/-- A worker blocked behind a call of its connection, with another such call queued. -/
theorem work_conserving_one_blocked :
    ∃ tr s, Run pool keepsApart tr s ∧ (waitingJob (s.threads 1)).isSome = true ∧
      s.jobs.contents.length = 1 ∧ ¬Starved s := by
  obtain ⟨tr, s, hrun, hwait, hlen⟩ := pool.exec_reaches keepsApart
    (submitting (request 5 0 0) 7 ++ submitting (request 5 0 1) 8 ++
      submitting (request 5 0 2) 9 ++
      [.lock 0, .dequeue 0, .check 0, .lockConn 0, .lock 1, .dequeue 1, .check 1])
    (fun _ s => (waitingJob (s.threads 1)).isSome = true ∧ s.jobs.contents.length = 1) (by decide)
  exact ⟨tr, s, hrun, hwait, hlen, work_conserving hrun⟩

/-- The slow call of connection 5 blocks both workers, and the call of connection 6 waits. -/
theorem starved_by_slow_call :
    ¬∀ (tr : List Event) (s : Pool), Run pool anyStep tr s → ¬Starved s := by
  intro hclaim
  obtain ⟨tr, s, hrun, w, job, hwait, hlocked, hqueued⟩ := pool.exec_reaches anyStep
    (submitting (request 5 0 0) 7 ++ submitting (request 5 0 1) 8 ++
      submitting (request 6 0 2) 9 ++
      [.lock 0, .dequeue 0, .check 0, .lockConn 0, .lock 1, .dequeue 1, .check 1])
    (fun _ s => ∃ w, ∃ job ∈ waitingJob (s.threads w), s.gConnLocks (slotOf job.connId) ≠ none ∧
      ∃ j ∈ s.jobs.contents, j.connId ≠ job.connId ∧ s.gConnLocks (slotOf j.connId) = none)
    (by decide)
  exact hclaim tr s hrun ⟨w, job, hwait, hlocked, hqueued⟩

end Cyctron.WsWorker.Starvation
