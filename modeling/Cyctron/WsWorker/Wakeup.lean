/- Cyctron/WsWorker/Wakeup
   digest: A queued job always finds a worker awake, unless every worker has left. -/

import Cyctron.WsWorker.Admission

set_option autoImplicit false
set_option relaxedAutoImplicit false

namespace Cyctron.WsWorker.Wakeup

open Cyctron.WsWorker.Model Cyctron.WsWorker.Inversion Cyctron.WsWorker.Stage
open Cyctron.WsWorker.Threads Cyctron.WsWorker.Flow Cyctron.WsWorker.Admission
open Cyctron.Machine.Labelled (Path Run anyStep)
open Cyctron.Machine.LinkedQueue

/-- A started worker that is neither parked nor gone: it can run, or waits for a lock only. -/
def isRunnable : Thread → Bool
  | .off | .wait | .exited => false
  | _ => true

theorem isRunnable_iff {t : Thread} :
    isRunnable t = true ↔ t ≠ .off ∧ t ≠ .wait ∧ t ≠ .exited := by
  cases t <;> simp [isRunnable]

/-- No worker sleeps on a queued job while all others sleep as well. -/
def Awake (s : Pool) : Prop :=
  s.jobs.head ≠ none → (∃ w, s.threads w = .wait) → ∃ v, isRunnable (s.threads v) = true

section Steps

variable {s s' t : Pool} {a : Action} {es : List Event} {created : Nat} {rc : Int}

private theorem awake_initial : Awake Pool.initial := fun h => absurd rfl h

/-- The threads of a pool that was off all start awake. -/
theorem Awake.init (life : Lifecycle s) (h : Awake s) (out : InitOutcome s created t rc) :
    Awake t := by
  cases out with
  | already | failed => exact h
  | fresh off _ =>
    rintro _ ⟨w, hw⟩
    refine ⟨w, ?_⟩
    have hoff := life.all_off (Or.inl off) w
    change startThreads s.threads created w = .wait at hw
    by_cases hlt : w.val < created <;> simp [startThreads, hlt, hoff] at hw

theorem Awake.keep (life : Lifecycle s) (h : Awake s) (hstep : Step s a s' es) : Awake s' := by
  cases hw : Action.worker? a with
  | some w =>
    obtain ⟨t, f⟩ := Step.workerFrame hstep hw
    by_cases ht : isRunnable t = true
    · exact fun _ _ => ⟨w, by rw [f.threads, Function.update_self]; exact ht⟩
    · -- the worker parks or leaves, which it does on an empty queue only
      intro hhead
      have hempty : s.jobs.head = none := by
        by_cases hwait : t = .wait
        · exact (f.parks hwait).2
        · by_cases hex : t = .exited
          · exact (f.leaves hex).2
          · exact absurd (isRunnable_iff.mpr ⟨f.isOn, hwait, hex⟩) ht
      cases hstep with
      | take _ pop => exact absurd (pop_none_of_head hempty) (by simp [pop])
      | lock | park | exit | expire | pass | lockConn | finish | unlockConn | buildNone | build
      | buildNoDone | pushDone | recordResult | release | spuriousWake => exact absurd hempty hhead
      | _ => cases hw
  | none =>
    cases hstep with
    | init _ _ out | submitUninit _ _ _ out _ => exact h.init life out
    | submitInit _ _ _ _ out =>
      have ht := h.init life out
      exact ht
    | accept _ _ _ _ signal =>
      rintro _ ⟨w, hwait⟩
      -- somebody was parked before the signal, so the signal woke somebody
      have hparked := wakeThreads_eq_of_ne hwait (by simp)
      obtain ⟨v, hv, hwake⟩ := signal ⟨w, by rw [hparked]; rfl⟩
      refine ⟨v, ?_⟩
      change isRunnable (wakeThreads s.threads _ v) = true
      simp [wakeThreads, hv, hwake, isRunnable]
    | shutdownBegin =>
      rintro _ ⟨w, hwait⟩
      exact absurd hwait (wakeThreads_all_ne_wait w)
    | @shutdownJoin i at_ lt bound gone =>
      rintro _ ⟨w, hwait⟩
      have hw : s.threads w = .wait := by
        by_cases hwi : w = ⟨i, bound⟩
        · subst hwi; simp at hwait
        · simpa [hwi] using hwait
      cases (life.parked w hw).symm.trans (life.gone _ gone)
    | shutdownCleanup => exact fun hhead => absurd rfl hhead
    | tick | setExec | submitNull | submitBuild | submitNoMem | refuse | drainDetach | drainNext
    | drainReturn | shutdownNothing | shutdownJoined => exact h
    | _ => cases hw

theorem run_awake {ok : Pool → Action → Prop} {tr : List Event} (h : Run pool ok tr s) : Awake s :=
  h.invariant_of (fun _ s => Lifecycle s) (fun _ s => Awake s) (fun _ _ hp => run_lifecycle hp)
    awake_initial fun _ _ _ _ _ life ha _ hstep => ha.keep life (Step.of hstep)

/-- With a job queued, somebody is awake, or everybody has left after `g_running` was cleared. -/
theorem Awake.cases (life : Lifecycle s) (lists : Lists s) (h : Awake s)
    (queued : s.jobs.contents ≠ []) :
    (∃ w, isRunnable (s.threads w) = true) ∨
      s.gRunning = false ∧ ∀ w, s.threads w ≠ .off → s.threads w = .exited := by
  have hhead : s.jobs.head ≠ none := fun he => queued (lists.jobs.null_iff.2.mp he)
  by_cases hrun : ∃ w, isRunnable (s.threads w) = true
  · exact Or.inl hrun
  have hgone : ∀ w, s.threads w ≠ .off → s.threads w = .exited := by
    intro w hon
    by_contra hex
    have hwait : s.threads w ≠ .wait := fun hw => hrun (h hhead ⟨w, hw⟩)
    exact hrun ⟨w, isRunnable_iff.mpr ⟨hon, hwait, hex⟩⟩
  refine Or.inr ⟨?_, hgone⟩
  by_contra hr
  have hrunning : s.gRunning = true := by simpa using hr
  obtain ⟨hinit, hidle⟩ := life.running_iff.mp hrunning
  have hpos := life.count_pos hinit (by simp [hidle])
  have hon : s.threads ⟨0, by decide⟩ ≠ .off :=
    (life.on_iff _).mpr ⟨by rw [hidle]; exact Nat.le_refl _, hpos⟩
  exact hr (life.gone _ (hgone _ hon))

/-- Over any interleaving of submits, workers and shutdowns: while a job is queued and workers
are started and not joined, one of them is awake, except after every one of them has left a
pool that is being shut down; and none is parked once `g_running` is cleared. -/
theorem no_lost_wakeup {tr : List Event} (h : Run pool anyStep tr s) :
    (s.jobs.contents ≠ [] → (∃ w, s.threads w ≠ .off) →
      (∃ w, isRunnable (s.threads w) = true) ∨
        s.gRunning = false ∧ ∀ w, s.threads w ≠ .off → s.threads w = .exited) ∧
    (s.gRunning = false → ∀ w, s.threads w ≠ .wait) := by
  have life := run_lifecycle h
  refine ⟨fun queued _ => (run_awake h).cases life (run_lists h) queued, fun hstop w hw => ?_⟩
  cases (life.parked w hw).symm.trans hstop

end Steps

theorem no_lost_wakeup_one_queued :
    ∃ tr s, Run pool anyStep tr s ∧ s.jobs.contents ≠ [] ∧
      ((∃ w, isRunnable (s.threads w) = true) ∨
        s.gRunning = false ∧ ∀ w, s.threads w ≠ .off → s.threads w = .exited) := by
  obtain ⟨tr, s, hrun, hqueued, hon⟩ := pool.exec_reaches anyStep
    (.init 2 :: [.lock 0, .dequeue 0, .lock 1, .dequeue 1] ++ submitting (request 5 0 0) 7)
    (fun _ s => s.jobs.contents ≠ [] ∧ ∃ w, s.threads w ≠ .off) (by decide)
  exact ⟨tr, s, hrun, hqueued, (no_lost_wakeup hrun).1 hqueued hon⟩

/-- Caller 0 has passed `ws_worker_init` when a shutdown begins; both workers leave the empty
queue, and then the job is admitted. -/
def raceWithShutdown : List Action :=
  [.submitInit 0 (request 5 0 0) 2, .submitBuild 0 true, .shutdownBegin, .lock 0, .dequeue 0,
    .lock 1, .dequeue 1, .submitAdmit 0 7 fun _ => true]

/-- A job can be queued while both workers are started, not joined, and gone. -/
theorem queued_after_exit :
    ¬∀ (tr : List Event) (s : Pool), Run pool anyStep tr s → s.jobs.contents ≠ [] →
      (∃ w, s.threads w ≠ .off) → ∃ w, isRunnable (s.threads w) = true := by
  intro hclaim
  obtain ⟨tr, s, hrun, hqueued, hon, hgone⟩ := pool.exec_reaches anyStep raceWithShutdown
    (fun _ s => s.jobs.contents ≠ [] ∧ (∃ w, s.threads w ≠ .off) ∧
      ∀ w, isRunnable (s.threads w) = false) (by decide)
  obtain ⟨w, hw⟩ := hclaim tr s hrun hqueued hon
  cases hw.symm.trans (hgone w)

end Cyctron.WsWorker.Wakeup
