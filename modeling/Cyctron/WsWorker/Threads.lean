/- Cyctron/WsWorker/Threads
   digest: Which threads exist while the pool is off, running or being shut down. -/

import Cyctron.WsWorker.Stage

set_option autoImplicit false
set_option relaxedAutoImplicit false

namespace Cyctron.WsWorker.Threads

open Cyctron.WsWorker.Model Cyctron.WsWorker.Inversion Cyctron.WsWorker.Stage
open Cyctron.Machine.Labelled (Path Run)

/-- The number of threads that the shutdown in progress has joined. -/
def joined : Shutdown → Nat
  | .joining i => i
  | .idle | .cleanup => 0

/-- The lifecycle of the pool on the components that it is about. -/
structure LifecycleAt (running inited once : Bool) (count : Nat) (th : Worker → Thread)
    (sh : Shutdown) : Prop where
  running_iff : running = true ↔ inited = true ∧ sh = .idle
  shutting : sh ≠ .idle → inited = true
  on_iff : ∀ w, th w ≠ .off ↔ joined sh ≤ w.val ∧ w.val < count
  count_le : count ≤ WS_WORKER_THREADS
  count_zero : inited = false ∨ sh = .cleanup → count = 0
  count_pos : inited = true → sh ≠ .cleanup → 0 < count
  parked : ∀ w, th w = .wait → running = true
  gone : ∀ w, th w = .exited → running = false
  once_done : inited = true → once = true

abbrev Lifecycle (s : Pool) : Prop :=
  LifecycleAt s.gRunning s.gInited s.gOnce s.gThreadCount s.threads s.shutdown

section Components

variable {running inited once : Bool} {count : Nat} {th : Worker → Thread} {sh : Shutdown}

theorem LifecycleAt.all_off (h : LifecycleAt running inited once count th sh)
    (hz : inited = false ∨ sh = .cleanup) (w : Worker) : th w = .off := by
  by_contra hw
  have := ((h.on_iff w).mp hw).2
  have := h.count_zero hz
  omega

theorem LifecycleAt.once_of_on {w : Worker} (h : LifecycleAt running inited once count th sh)
    (hw : th w ≠ .off) : once = true := by
  refine h.once_done ?_
  by_contra hi
  exact hw (h.all_off (Or.inl (by simpa using hi)) w)

theorem LifecycleAt.update {w : Worker} {t : Thread}
    (h : LifecycleAt running inited once count th sh) (hw : th w ≠ .off) (ht : t ≠ .off)
    (parks : t = .wait → running = true) (leaves : t = .exited → running = false) :
    LifecycleAt running inited once count (Function.update th w t) sh := by
  refine { h with on_iff := ?_, parked := ?_, gone := ?_ }
  · intro v
    by_cases hv : v = w
    · subst hv
      simpa [ht] using (h.on_iff v).mp hw
    · simpa [hv] using h.on_iff v
  · intro v hv
    by_cases hvw : v = w
    · subst hvw
      exact parks (by simpa using hv)
    · exact h.parked v (by simpa [hvw] using hv)
  · intro v hv
    by_cases hvw : v = w
    · subst hvw
      exact leaves (by simpa using hv)
    · exact h.gone v (by simpa [hvw] using hv)

theorem wakeThreads_eq_of_ne {wake : Worker → Bool} {w : Worker} {t : Thread}
    (h : wakeThreads th wake w = t) (ht : t ≠ .lock .dequeue) : th w = t := by
  rcases wakeThreads_cases th wake w with ⟨_, _, hw⟩ | hw
  · exact absurd (h.symm.trans hw) ht
  · exact hw.symm.trans h

private theorem wakeThreads_off_iff {wake : Worker → Bool} {w : Worker} :
    wakeThreads th wake w = .off ↔ th w = .off := by
  rcases wakeThreads_cases th wake w with ⟨h, _, hw⟩ | hw
  · rw [hw, h]
    simp
  · rw [hw]

theorem LifecycleAt.wake {wake : Worker → Bool}
    (h : LifecycleAt running inited once count th sh) :
    LifecycleAt running inited once count (wakeThreads th wake) sh where
  running_iff := h.running_iff
  shutting := h.shutting
  on_iff w := by rw [Ne, wakeThreads_off_iff]; exact h.on_iff w
  count_le := h.count_le
  count_zero := h.count_zero
  count_pos := h.count_pos
  parked w hw := h.parked w (wakeThreads_eq_of_ne hw (by simp))
  gone w hw := h.gone w (wakeThreads_eq_of_ne hw (by simp))
  once_done := h.once_done

/-- After the broadcast nobody is parked. -/
theorem wakeThreads_all_ne_wait (w : Worker) : wakeThreads th (fun _ => true) w ≠ .wait := by
  intro hw
  rcases wakeThreads_cases th (fun _ => true) w with ⟨_, _, h⟩ | h
  · rw [h] at hw; cases hw
  · have hwait := h.symm.trans hw
    simp [wakeThreads, hwait, Thread.isWaiting] at hw

end Components

section Steps

variable {s s' t : Pool} {a : Action} {es : List Event} {created : Nat} {rc : Int}

private theorem lifecycle_initial : Lifecycle Pool.initial where
  running_iff := by simp [Pool.initial]
  shutting := by simp [Pool.initial]
  on_iff w := by simp [Pool.initial, joined]
  count_le := by simp [Pool.initial]
  count_zero := by simp [Pool.initial]
  count_pos := by simp [Pool.initial]
  parked w := by simp [Pool.initial]
  gone w := by simp [Pool.initial]
  once_done := by simp [Pool.initial]

/-- An initialised pool is only marked, another one gets its threads or stays off. -/
theorem Lifecycle.init (h : Lifecycle s) (le : created ≤ WS_WORKER_THREADS)
    (out : InitOutcome s created t rc) : Lifecycle t := by
  cases out with
  | already => exact { h with once_done := fun _ => rfl }
  | failed off hc =>
    have hoff := h.all_off (Or.inl off)
    have hidle : s.shutdown = .idle := by
      by_contra hsh
      exact absurd (h.shutting hsh) (by simp [off])
    exact { h with
      running_iff := by simp
      shutting := fun hsh => absurd hidle hsh
      count_zero := fun _ => h.count_zero (Or.inl off)
      count_pos := by simp
      parked := fun w hw => absurd ((hoff w).symm.trans hw) (by simp)
      gone := fun _ _ => rfl
      once_done := by simp }
  | fresh off hc =>
    have hoff := h.all_off (Or.inl off)
    have hzero := h.count_zero (Or.inl off)
    have hidle : s.shutdown = .idle := by
      by_contra hsh
      exact absurd (h.shutting hsh) (by simp [off])
    have hstart : ∀ w, startThreads s.threads created w = .lock .dequeue ∧ w.val < created ∨
        startThreads s.threads created w = .off ∧ ¬w.val < created := by
      intro w
      by_cases hw : w.val < created
      · exact Or.inl ⟨by simp [startThreads, hw], hw⟩
      · exact Or.inr ⟨by simp [startThreads, hw, hoff w], hw⟩
    refine ⟨by simp [hidle], fun hsh => absurd hidle hsh, ?_, ?_, ?_, fun _ _ => hc, ?_, ?_,
      fun _ => rfl⟩
    · intro w
      change startThreads s.threads created w ≠ .off ↔
        joined s.shutdown ≤ w.val ∧ w.val < s.gThreadCount + created
      rw [hidle, hzero]
      rcases hstart w with ⟨hw, hlt⟩ | ⟨hw, hge⟩
      · rw [hw]; simp [joined, hlt]
      · rw [hw]; simpa [joined] using Nat.le_of_not_lt hge
    · change s.gThreadCount + created ≤ WS_WORKER_THREADS
      omega
    · rintro (hi | hsh)
      · cases hi
      · cases hidle.symm.trans hsh
    · intro w hw
      rcases hstart w with ⟨h', _⟩ | ⟨h', _⟩ <;> cases h'.symm.trans hw
    · intro w hw
      rcases hstart w with ⟨h', _⟩ | ⟨h', _⟩ <;> cases h'.symm.trans hw

theorem Lifecycle.keep (h : Lifecycle s) (hstep : Step s a s' es) : Lifecycle s' := by
  cases hw : Action.worker? a with
  | some w =>
    obtain ⟨t, f⟩ := Step.workerFrame hstep hw
    rw [Lifecycle, f.running, f.inited, f.once, f.count, f.shutdown, f.threads]
    exact h.update f.wasOn.1 f.isOn (fun ht => (f.parks ht).1) fun ht => (f.leaves ht).1
  | none =>
    cases hstep with
    | init _ le out => exact h.init le out
    | submitUninit _ _ le out _ => exact h.init le out
    | submitInit _ _ le _ out =>
      have ht := h.init le out
      exact ht
    | accept => exact h.wake
    | shutdownBegin _ idle on =>
      have hwake : LifecycleAt s.gRunning s.gInited s.gOnce s.gThreadCount
          (wakeThreads s.threads fun _ => true) s.shutdown := h.wake
      refine { hwake with
        running_iff := by simp
        shutting := fun _ => on
        on_iff := fun w => ?_
        count_zero := ?_
        count_pos := fun _ _ => h.count_pos on (by simp [idle])
        parked := fun w hw => absurd hw (wakeThreads_all_ne_wait w)
        gone := fun _ _ => rfl }
      · have := hwake.on_iff w
        rwa [idle] at this
      · rintro (hi | hsh)
        · exact h.count_zero (Or.inl hi)
        · cases hsh
    | @shutdownJoin i at_ lt bound gone =>
      have hstop := h.gone _ gone
      have hinit := h.shutting (by simp [at_])
      refine ⟨by simp [hstop], fun _ => hinit, fun w => ?_, h.count_le, ?_, ?_, ?_,
        fun _ _ => hstop, h.once_done⟩
      · have hon := h.on_iff w
        rw [at_] at hon
        by_cases hwi : w = ⟨i, bound⟩
        · subst hwi
          simp [joined]
        · have hne : w.val ≠ i := fun he => hwi (Fin.ext he)
          simp only [Function.update_of_ne hwi, joined] at hon ⊢
          rw [hon]
          omega
      · rintro (hi | hsh)
        · exact h.count_zero (Or.inl hi)
        · cases hsh
      · intro _ _
        exact h.count_pos hinit (by simp [at_])
      · intro w hw
        by_cases hwi : w = ⟨i, bound⟩
        · subst hwi
          simp at hw
        · exact h.parked w (by simpa [hwi] using hw)
    | shutdownJoined at_ ge =>
      have hinit := h.shutting (by simp [at_])
      have hstop : s.gRunning = false := by
        by_contra hr
        have := (h.running_iff.mp (by simpa using hr)).2
        rw [at_] at this
        cases this
      refine { h with
        running_iff := by simp [hstop]
        shutting := fun _ => hinit
        on_iff := fun w => ?_
        count_le := Nat.zero_le _
        count_zero := fun _ => rfl
        count_pos := fun _ hne => absurd rfl hne }
      have hon := h.on_iff w
      rw [at_] at hon
      simp only [joined] at hon ⊢
      rw [hon]
      omega
    | shutdownCleanup _ at_ =>
      have hoff := h.all_off (Or.inr at_)
      have hstop : s.gRunning = false := by
        by_contra hr
        have := (h.running_iff.mp (by simpa using hr)).2
        rw [at_] at this
        cases this
      exact { h with
        running_iff := by simp [hstop]
        shutting := fun hsh => absurd rfl hsh
        on_iff := fun w => by
          have hon := h.on_iff w
          rw [at_] at hon
          exact hon
        count_zero := fun _ => h.count_zero (Or.inr at_)
        count_pos := by simp
        once_done := by simp }
    | tick | setExec | submitNull | submitBuild | submitNoMem | refuse | drainDetach | drainNext
    | drainReturn | shutdownNothing => exact h
    | _ => cases hw

theorem run_lifecycle {ok : Pool → Action → Prop} {tr : List Event}
    (h : Run pool ok tr s) : Lifecycle s :=
  h.state_invariant Lifecycle lifecycle_initial fun _ _ _ _ hs _ hstep => hs.keep (Step.of hstep)

end Steps

end Cyctron.WsWorker.Threads
