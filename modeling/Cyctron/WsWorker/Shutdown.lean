/- Cyctron/WsWorker/Shutdown
   digest: What a shutdown leaves behind, and how the next submit starts from there. -/

import Cyctron.WsWorker.Progress
import Cyctron.WsWorker.Timeout
import Cyctron.WsWorker.Order

set_option autoImplicit false
set_option relaxedAutoImplicit false

namespace Cyctron.WsWorker.Shutdown

open Cyctron.WsWorker.Model Cyctron.WsWorker.Inversion Cyctron.WsWorker.Stage
open Cyctron.WsWorker.Threads Cyctron.WsWorker.Flow Cyctron.WsWorker.Admission
open Cyctron.WsWorker.Wakeup Cyctron.WsWorker.Serial Cyctron.WsWorker.Progress
open Cyctron.WsWorker.Timeout Cyctron.WsWorker.Order
open Cyctron.Machine.Labelled (Path Run anyStep System.exec_path)
open Cyctron.Machine.LinkedQueue
open Cyctron.Machine.Holdings (held held_eq_zero)

/-- What can go on while nobody submits or initialises and no further shutdown begins. -/
def quiet (_ : Pool) : Action → Prop
  | .init _ | .submitInit _ _ _ | .submitBuild _ _ | .submitAdmit _ _ _ | .shutdownBegin => False
  | _ => True

instance (s : Pool) (a : Action) : Decidable (quiet s a) := by
  apply a.casesOn (motive := fun a => Decidable (quiet s a)) <;> intros <;>
    dsimp only [quiet] <;> infer_instance

/-- What can go on while caller `c` alone is between its first and its last critical section. -/
def alone (c : Nat) (s : Pool) : Action → Prop
  | .submitBuild c' _ => c' = c
  | a => quiet s a

/-- A pool that is off has no response left in the done list. -/
def Cleared (s : Pool) : Prop := s.gInited = false → s.done.contents = []

/-- Some worker has left, or will never come back: the queue was found empty. -/
def Leaving (s : Pool) : Prop :=
  (∃ w, s.threads w = .exited) ∨ 0 < joined s.shutdown ∨ s.shutdown = .cleanup ∨ s.gInited = false

/-- A shutdown that began with the given queue, as long as nobody submits. -/
structure Stopping (queued : List WsJob) (tr : List Event) (t : Pool) : Prop where
  nobody : ∀ c, t.submits c = none
  accepted : acceptedJobs tr = []
  dropped : droppedJobs tr = []
  taken : queued = takenJobs tr ++ t.jobs.contents
  stopped : t.gInited = true → t.shutdown ≠ .idle
  emptied : Leaving t → t.jobs.contents = []

section Steps

variable {s s' t : Pool} {a : Action} {es tr : List Event} {created : Nat} {rc : Int}
  {queued : List WsJob}

theorem Cleared.keep (life : Lifecycle s) (lists : Lists s) (h : Cleared s)
    (hstep : Step s a s' es) : Cleared s' := by
  cases hstep with
  | submitInit _ _ _ _ out =>
    have hon := out.inited
    intro off
    cases hon.symm.trans off
  | init _ _ out | submitUninit _ _ _ out _ =>
    cases out with
    | already on =>
      intro off
      cases on.symm.trans off
    | failed off => exact fun _ => h off
    | fresh =>
      intro off
      cases off
  | drainDetach => exact fun _ => contents_detach
  | drainNext at_ cell =>
    intro off
    have hdone := lists.done
    rw [at_] at hdone
    obtain ⟨_, _, _, _, hcontents⟩ := hdone.release
    exact hcontents.trans (h off)
  | @pushDone w p o at_ =>
    intro off
    have hoff := life.all_off (Or.inl off) w
    cases at_.symm.trans hoff
  | shutdownCleanup => exact fun _ => contents_clear
  | _ => exact h

private theorem run_cleared {ok : Pool → Action → Prop} (h : Run pool ok tr s) : Cleared s :=
  h.invariant_of (fun _ s => Lifecycle s ∧ Lists s) (fun _ s => Cleared s)
    (fun _ _ hp => ⟨run_lifecycle hp, run_lists hp⟩) (fun _ => rfl)
    fun _ _ _ _ _ known hc _ hstep => hc.keep known.1 known.2 (Step.of hstep)

private theorem quiet_events (ok : quiet s a) (hstep : Step s a s' es) :
    acceptedJobs es = [] ∧ s'.submits = s.submits ∧
      (droppedJobs es = [] ∨ s.shutdown = .cleanup) := by
  cases hstep with
  | init | submitNull | submitUninit | submitInit | submitBuild | submitNoMem | refuse | accept
  | shutdownBegin | shutdownNothing => exact ok.elim
  | shutdownCleanup _ at_ => exact ⟨rfl, rfl, Or.inr at_⟩
  | _ => exact ⟨rfl, rfl, Or.inl rfl⟩

/-- A worker leaves only when it finds the queue empty. -/
private theorem leaving_back (life : Lifecycle s) (lists : Lists s) (ok : quiet s a)
    (hstep : Step s a s' es) (h : Leaving s') : Leaving s ∨ s.jobs.contents = [] := by
  cases hw : Action.worker? a with
  | some w =>
    obtain ⟨u, f⟩ := Step.workerFrame hstep hw
    rw [Leaving, f.threads, f.shutdown, f.inited] at h
    rcases h with ⟨v, hv⟩ | h
    · by_cases hvw : v = w
      · subst hvw
        have hempty := (f.leaves (by simpa using hv)).2
        exact Or.inr (lists.jobs.null_iff.2.mp hempty)
      · exact Or.inl (Or.inl ⟨v, by simpa [hvw] using hv⟩)
    · exact Or.inl (Or.inr h)
  | none =>
    cases hstep with
    | shutdownJoin _ _ _ gone => exact Or.inl (Or.inl ⟨_, gone⟩)
    | @shutdownJoined i at_ ge =>
      have hon := life.shutting (by simp [at_])
      have hpos := life.count_pos hon (by simp [at_])
      refine Or.inl (Or.inr (Or.inl ?_))
      rw [at_, joined]
      omega
    | shutdownCleanup _ at_ => exact Or.inl (Or.inr (Or.inr (Or.inl at_)))
    | init | submitNull | submitUninit | submitInit | submitBuild | submitNoMem | refuse | accept
    | shutdownBegin | shutdownNothing => exact ok.elim
    | tick | setExec | drainDetach | drainNext | drainReturn => exact Or.inl h
    | _ => cases hw

theorem Stopping.keep (life : Lifecycle t) (lists : Lists t) (h : Stopping queued tr t)
    (ok : quiet t a) (hstep : Step t a s' es) : Stopping queued (tr ++ es) s' := by
  obtain ⟨haccepted, hsubmits, hdropped⟩ := quiet_events ok hstep
  have hflow := Step.jobsFlow lists hstep
  rw [haccepted, List.append_nil] at hflow
  have hdrop : droppedJobs es = [] := by
    rcases hdropped with hd | hcleanup
    · exact hd
    · rw [h.emptied (Or.inr (Or.inr (Or.inl hcleanup)))] at hflow
      have hnil := List.append_eq_nil_iff.mp hflow.symm
      exact (List.append_eq_nil_iff.mp hnil.1).2
  rw [hdrop, List.append_nil] at hflow
  refine ⟨fun c => by rw [hsubmits]; exact h.nobody c, ?_, ?_, ?_, ?_, ?_⟩
  · rw [acceptedJobs_append, h.accepted, haccepted]; rfl
  · rw [droppedJobs_append, h.dropped, hdrop]; rfl
  · rw [takenJobs_append, List.append_assoc, ← hflow]
    exact h.taken
  · cases hw : Action.worker? a with
    | some w =>
      obtain ⟨u, f⟩ := Step.workerFrame hstep hw
      rw [f.inited, f.shutdown]
      exact h.stopped
    | none =>
      cases hstep with
      | shutdownJoin | shutdownJoined => simp
      | shutdownCleanup => simp
      | init | submitNull | submitUninit | submitInit | submitBuild | submitNoMem | refuse | accept
      | shutdownBegin | shutdownNothing => exact ok.elim
      | tick | setExec | drainDetach | drainNext | drainReturn => exact h.stopped
      | _ => cases hw
  · intro hleaving
    have hempty : t.jobs.contents = [] :=
      (leaving_back life lists ok hstep hleaving).elim h.emptied id
    rw [hempty] at hflow
    exact (List.append_eq_nil_iff.mp hflow.symm).2

/-- The call begins with a broadcast, or returns at once from a pool that is off. -/
theorem Stopping.call (life : Lifecycle s) (nobody : ∀ c, s.submits c = none)
    (covered : s.gInited = true ∨ s.jobs.contents = []) (hstep : Step s .shutdownBegin s' es) :
    Stopping s.jobs.contents es s' := by
  cases hstep with
  | shutdownBegin _ idle on =>
    refine ⟨nobody, rfl, rfl, rfl, fun _ => (by simp), ?_⟩
    rintro (⟨w, hw⟩ | hj | hc | hoff)
    · change wakeThreads s.threads (fun _ => true) w = .exited at hw
      have hgone := life.gone w (wakeThreads_eq_of_ne hw (by simp))
      cases hgone.symm.trans (life.running_iff.mpr ⟨on, idle⟩)
    · exact absurd hj (Nat.lt_irrefl 0)
    · cases hc
    · cases on.symm.trans hoff
  | shutdownNothing _ _ off =>
    refine ⟨nobody, rfl, rfl, rfl, fun on => absurd (on.symm.trans off) (by simp), fun _ => ?_⟩
    exact covered.resolve_left fun on => absurd (on.symm.trans off) (by simp)

/-- A pool that is off, as the static variables describe it before the first call. -/
structure Off (t : Pool) : Prop where
  threads : ∀ w, t.threads w = .off
  count : t.gThreadCount = 0
  stopped : t.gRunning = false
  off : t.gInited = false
  jobs : t.jobs = .empty
  queueLen : t.gQueueLen = 0
  pending : ∀ sl, t.gConnPending sl = 0
  done : t.done.head = none ∧ t.done.tail = none
  mutex : t.gMutex = none
  locks : ∀ sl, t.gConnLocks sl = none
  nobody : ∀ c, t.submits c = none
  idle : t.shutdown = .idle

private theorem off_of_run (h : Run pool anyStep tr t) (nobody : ∀ c, t.submits c = none)
    (off : t.gInited = false) (empty : t.jobs.contents = []) : Off t := by
  have life := run_lifecycle h
  have lists := run_lists h
  have locks := run_locks h
  have counters := run_counters h
  have hoff := life.all_off (Or.inl off)
  have hzero : unfinished t = 0 := by
    rw [unfinished, backlog, empty, held_eq_zero fun w => by rw [hoff w]; rfl]
    rfl
  have hdone := lists.done.null_iff
  have hhead := hdone.2.mpr (run_cleared h off)
  refine ⟨hoff, life.count_zero (Or.inl off), ?_, off, eq_empty_of_contents lists.jobs empty, ?_,
    fun sl => ?_, ⟨hhead, hdone.1.mpr hhead⟩, ?_, ?_, nobody, ?_⟩
  · by_contra hr
    have hon := (life.running_iff.mp (by simpa using hr)).1
    cases hon.symm.trans off
  · rw [counters.queueLen, empty]; rfl
  · rw [counters.pending, hzero]; rfl
  · exact locks.mutex.free_of_none (fun w => by rw [hoff w]; rfl) ()
  · exact locks.conn.free_of_none fun w => by rw [hoff w]; rfl
  · by_contra hsh
    cases (life.shutting hsh).symm.trans off

/-- A pool that is off differs from the initial one in the clock, the executor, the old
statistics, the set-up of the locks, and the responses that a drain holds. -/
theorem Off.fresh (h : Off t) : t = { Pool.initial with
    gOnce := t.gOnce, gExec := t.gExec, gStats := t.gStats, done := ⟨none, none, t.done.store⟩,
    drain := t.drain, clock := t.clock } := by
  have hdone : t.done = ⟨none, none, t.done.store⟩ := by
    calc t.done = ⟨t.done.head, t.done.tail, t.done.store⟩ := rfl
      _ = ⟨none, none, t.done.store⟩ := by rw [h.done.1, h.done.2]
  have hthreads : t.threads = fun _ => .off := funext h.threads
  have hpending : t.gConnPending = fun _ => 0 := funext h.pending
  have hlocks : t.gConnLocks = fun _ => none := funext h.locks
  have hsubmits : t.submits = fun _ => none := funext h.nobody
  rw [← hdone]
  calc t = ⟨t.gMutex, t.jobs, t.done, t.gQueueLen, t.gRunning, t.gInited, t.gOnce, t.gThreadCount,
        t.gExec, t.gStats, t.gConnPending, t.gConnLocks, t.threads, t.submits, t.shutdown, t.drain,
        t.clock⟩ := rfl
    _ = _ := by
      rw [h.mutex, h.jobs, h.queueLen, h.stopped, h.off, h.count, hpending, hlocks, hthreads,
        hsubmits, h.idle]
      rfl

/-- The pool that the first submit starts. -/
def started (c : Nat) (a : SubmitArgs) (created : Nat) : Pool := { Pool.initial with
  gOnce := true
  gInited := true
  gRunning := true
  threads := startThreads Pool.initial.threads created
  gThreadCount := created
  submits := Function.update Pool.initial.submits c (some (.inited a)) }

/-- A submit starts a pool that was shut down as it starts a fresh one. -/
theorem Off.start {c : Nat} {a : SubmitArgs} (h : Off t)
    (args : a.id ≠ none ∧ a.lib ≠ none ∧ a.symbol ≠ none) (some_ : 0 < created)
    (le : created ≤ WS_WORKER_THREADS) :
    pool.step t (.submitInit c a created) = some ({ started c a created with
      gExec := t.gExec, done := t.done, drain := t.drain, clock := t.clock }, []) := by
  have hargs : ¬(a.id = none ∨ a.lib = none ∨ a.symbol = none) := by
    rintro (he | he | he)
    · exact args.1 he
    · exact args.2.1 he
    · exact args.2.2 he
  have hne : created ≠ 0 := Nat.pos_iff_ne_zero.mp some_
  have hdone : t.done = ⟨none, none, t.done.store⟩ := by
    calc t.done = ⟨t.done.head, t.done.tail, t.done.store⟩ := rfl
      _ = ⟨none, none, t.done.store⟩ := by rw [h.done.1, h.done.2]
  have hfresh := h.fresh
  rw [hdone]
  clear h hdone
  generalize t.gOnce = once, t.gExec = exec, t.gStats = stats, t.done.store = store,
    t.drain = drain, t.clock = clock at hfresh ⊢
  subst hfresh
  cases once
  · simp [pool, step, wsWorkerSubmitInit, wsWorkerInit, Pool.initial, hargs, hne, le, started]
    rfl
  · simp [pool, step, wsWorkerSubmitInit, wsWorkerInit, Pool.initial, hargs, hne, le, started]
    rfl

private theorem alone_of_quiet {c : Nat} (h : quiet s a) : alone c s a := by
  cases a <;> first | exact h | exact h.elim

/-- Without a shutdown call the pool stays up, and without an admission nothing comes in. -/
private theorem stays_up {c : Nat} (on : t.gInited = true) (idle : t.shutdown = .idle)
    (ok : alone c t a) (hstep : Step t a s' es) :
    (s'.gInited = true ∧ s'.shutdown = .idle) ∧ acceptedJobs es = [] ∧ droppedJobs es = [] := by
  cases hw : Action.worker? a with
  | some w =>
    obtain ⟨u, f⟩ := Step.workerFrame hstep hw
    refine ⟨⟨f.inited.trans on, f.shutdown.trans idle⟩, ?_⟩
    cases hstep with
    | lock | park | exit | take | expire | pass | lockConn | finish | unlockConn | buildNone | build
    | buildNoDone | pushDone | recordResult | release | spuriousWake => exact ⟨rfl, rfl⟩
    | _ => cases hw
  | none =>
    cases hstep with
    | shutdownJoin at_ | shutdownJoined at_ => cases idle.symm.trans at_
    | shutdownCleanup _ at_ => cases idle.symm.trans at_
    | init | submitNull | submitUninit | submitInit | refuse | accept | shutdownBegin
    | shutdownNothing => exact ok.elim
    | tick | setExec | submitBuild | submitNoMem | drainDetach | drainNext | drainReturn =>
      exact ⟨⟨on, idle⟩, rfl, rfl⟩
    | _ => cases hw

private theorem path_stays_up {c : Nat} (on : s.gInited = true) (idle : s.shutdown = .idle)
    (path : Path pool (alone c) s tr t) :
    (t.gInited = true ∧ t.shutdown = .idle) ∧ acceptedJobs tr = [] ∧ droppedJobs tr = [] := by
  refine path.invariant (fun tr t => (t.gInited = true ∧ t.shutdown = .idle) ∧
    acceptedJobs tr = [] ∧ droppedJobs tr = []) ⟨⟨on, idle⟩, rfl, rfl⟩ ?_
  rintro tr t a t' es ⟨⟨on, idle⟩, hacc, hdrop⟩ ok hstep
  obtain ⟨hup, hacc', hdrop'⟩ := stays_up on idle ok (Step.of hstep)
  refine ⟨hup, ?_, ?_⟩
  · rw [acceptedJobs_append, hacc, hacc']; rfl
  · rw [droppedJobs_append, hdrop, hdrop']; rfl

/-- In a pool that is up and has nothing unfinished, the next submit is not refused. -/
private theorem accepts_next {c p : Nat} {wake : Worker → Bool} {job : WsJob}
    (h : Run pool anyStep tr t) (vacant : unfinished t = 0)
    (place : t.submits c = some (.built job))
    (hstep : pool.step t (.submitAdmit c p wake) = some (s', es)) :
    es = [.accepted job] ∧ s'.gInited = t.gInited ∧ s'.shutdown = t.shutdown ∧
      s'.jobs.contents = [job] ∧ held inHand s'.threads = 0 := by
  have lists := run_lists h
  have counters := run_counters h
  have hempty : t.jobs.contents = [] ∧ held inHand t.threads = 0 := by
    rw [unfinished, backlog, add_eq_zero] at vacant
    exact ⟨by simpa using vacant.1, vacant.2⟩
  cases Step.of hstep with
  | refuse at_ _ full =>
    have hlen := counters.queueLen
    have hpending := counters.pending
    rw [hempty.1] at hlen
    simp only [vacant] at hpending
    rcases full with hq | hp
    · rw [hlen] at hq; exact absurd hq (by decide)
    · rw [hpending, inSlot_zero] at hp; exact absurd hp (by decide)
  | accept at_ _ _ fresh _ =>
    obtain rfl := Submitting.built.inj (Option.some.inj (place.symm.trans at_))
    refine ⟨rfl, rfl, rfl, ?_, (held_wakeThreads (idleFree_jobUpTo 7)).trans hempty.2⟩
    have hpush := contents_push lists.jobs (v := job) fresh
    rwa [hempty.1] at hpush

/-- The only accepted job is begun, answered and finished when no worker can go on. -/
private theorem executes_only {job : WsJob} {tr₀ : List Event} (h : Run pool anyStep tr₀ s)
    (on : s.gInited = true) (idle : s.shutdown = .idle) (queue : s.jobs.contents = [job])
    (hands : held inHand s.threads = 0) (path : Path pool quiet s tr t) :
    CanAdvance t ∨
      begunJobs tr = [job] ∧ answeredJobs tr = [job] ∧ finishedJobs tr = [job] := by
  have hrun := h.trans (path.mono fun _ _ _ => trivial)
  have life := run_lifecycle hrun
  obtain ⟨⟨hon, hidle⟩, haccepted, hdropped⟩ :=
    path_stays_up on idle (path.mono fun _ _ => alone_of_quiet (c := 0))
  by_cases hvacant : unfinished t = 0
  · refine Or.inr ?_
    have hsource : ∀ n, n ≤ 7 → backlog n s = {job} := by
      intro n hn
      have hz : held (jobUpTo n) s.threads = 0 := nonpos_iff_eq_zero.mp (hands ▸ held_mono hn)
      rw [backlog, queue, hz]
      rfl
    have settle : ∀ {n : Nat} {exits : List WsJob}, n ≤ 7 →
        backlog n s + ↑(acceptedJobs tr) = backlog n t + (↑exits + ↑(droppedJobs tr)) →
        exits = [job] := by
      intro n exits hn hflow
      rw [hsource n hn, backlog_eq_zero hn hvacant, haccepted, hdropped] at hflow
      exact Multiset.coe_eq_singleton.mp (by simpa using hflow.symm)
    refine ⟨settle (n := 1) (by decide) ?_, settle (n := 5) (by decide) ?_,
      settle (n := 7) (by decide) ?_⟩
    · exact path_backlog begunJobs rfl begunJobs_append Step.beginFlow h path
    · exact path_backlog answeredJobs rfl answeredJobs_append Step.answerFlow h path
    · exact path_backlog finishedJobs rfl finishedJobs_append Step.handFlow h path
  · refine Or.inl ?_
    apply (canAdvance_or_gone life (run_lists hrun) (run_locks hrun) (run_awake hrun) hvacant).elim id
    rintro ⟨hstop, _⟩
    cases (life.running_iff.mpr ⟨hon, hidle⟩).symm.trans hstop

/-- The next submit starts the pool as a fresh one is started; its job is accepted whatever the
workers do in between, and they begin, answer and finish it in a bounded number of steps. -/
structure Restarts (t : Pool) : Prop where
  starts : ∀ {c created : Nat} {a : SubmitArgs}, a.id ≠ none ∧ a.lib ≠ none ∧ a.symbol ≠ none →
    0 < created → created ≤ WS_WORKER_THREADS →
    pool.step Pool.initial (.submitInit c a created) = some (started c a created, []) ∧
    pool.step t (.submitInit c a created) = some ({ started c a created with
      gExec := t.gExec, done := t.done, drain := t.drain, clock := t.clock }, [])
  accepts : ∀ {c created p : Nat} {a : SubmitArgs} {wake : Worker → Bool} {job : WsJob}
    {t₁ t₂ t₃ : Pool} {es₁ tr₂ es₃ : List Event},
    a.id ≠ none ∧ a.lib ≠ none ∧ a.symbol ≠ none → 0 < created → created ≤ WS_WORKER_THREADS →
    pool.step t (.submitInit c a created) = some (t₁, es₁) →
    Path pool (alone c) t₁ tr₂ t₂ → t₂.submits c = some (.built job) →
    pool.step t₂ (.submitAdmit c p wake) = some (t₃, es₃) →
    es₃ = [.accepted job] ∧
      ∀ {t₄ : Pool} {tr₄ : List Event}, Path pool quiet t₃ tr₄ t₄ →
        (CanAdvance t₄ ∨
          begunJobs tr₄ = [job] ∧ answeredJobs tr₄ = [job] ∧ finishedJobs tr₄ = [job]) ∧
        ∀ {as : List Action} {t₅ : Pool} {tr₅ : List Event},
          (∀ a ∈ as, ∃ w, Action.advances? a = some w) → pool.exec t₄ as = some (t₅, tr₅) →
          as.length ≤ work t₄

private theorem off_initial : Off Pool.initial :=
  ⟨fun _ => rfl, rfl, rfl, rfl, rfl, rfl, fun _ => rfl, ⟨rfl, rfl⟩, rfl, fun _ => rfl, fun _ => rfl,
    rfl⟩

private theorem Off.restarts (h : Run pool anyStep tr t) (off : Off t) : Restarts t where
  starts args some_ le := ⟨off_initial.start args some_ le, off.start args some_ le⟩
  accepts := by
    intro c created p a wake job t₁ t₂ t₃ es₁ tr₂ es₃ args some_ le hinit path place hadmit
    have hstart := hinit.symm.trans (off.start args some_ le)
    have heq := (Prod.mk.inj (Option.some.inj hstart)).1
    have hthreads : t₁.threads = startThreads Pool.initial.threads created := by rw [heq]; rfl
    have hjobs : t₁.jobs.contents = [] := by rw [heq]; rfl
    have hrun₁ := h.snoc trivial hinit
    have hvacant₁ : backlog 7 t₁ = 0 := by
      have hoff : ∀ w, Pool.initial.threads w = .off := fun _ => rfl
      rw [backlog, hjobs, hthreads, held_startThreads (idleFree_jobUpTo 7) created hoff,
        held_eq_zero fun w => by rw [hoff w]; rfl]
      rfl
    obtain ⟨⟨hon, hidle⟩, haccepted, _⟩ :=
      path_stays_up (by rw [heq]; rfl) (by rw [heq]; rfl) path
    have hvacant₂ : unfinished t₂ = 0 := by
      have hflow := path_backlog finishedJobs rfl finishedJobs_append Step.handFlow hrun₁ path
      rw [hvacant₁, haccepted] at hflow
      exact (add_eq_zero.mp hflow.symm).1
    have hrun₂ := hrun₁.trans (path.mono fun _ _ _ => trivial)
    obtain ⟨rfl, hon₃, hidle₃, hqueue, hhands⟩ := accepts_next hrun₂ hvacant₂ place hadmit
    have hrun₃ := hrun₂.snoc trivial hadmit
    refine ⟨rfl, fun rest => ⟨?_, fun workers hexec => ?_⟩⟩
    · exact executes_only hrun₃ (hon₃.trans hon) (hidle₃.trans hidle) hqueue hhands rest
    · have hrun₄ := hrun₃.trans (rest.mono fun _ _ _ => trivial)
      have hlen := schedule_length_le (run_lists hrun₄) workers hexec
      omega

/-- From every reachable state that no submit is in, and in which the pool is initialised or has
nothing queued: when a shutdown returns without another submit, every queued job was taken in
order, every accepted job was executed or answered as timed out unless an earlier shutdown had
freed it, the pool is off and empty, and the next submit starts it afresh. -/
theorem graceful_shutdown {tr₀ es₁ : List Event} {s₁ : Pool} (h : Run pool anyStep tr₀ s)
    (nobody : ∀ c, s.submits c = none) (covered : s.gInited = true ∨ s.jobs.contents = [])
    (call : pool.step s .shutdownBegin = some (s₁, es₁)) (rest : Path pool quiet s₁ tr t)
    (returned : t.shutdown = .idle) :
    (takenJobs (es₁ ++ tr) = s.jobs.contents ∧ droppedJobs (es₁ ++ tr) = []) ∧
    (acceptedJobs tr₀ : Multiset WsJob) =
      ↑((startedJobs (tr₀ ++ (es₁ ++ tr))).map Prod.fst) +
        ↑((expiredJobs (tr₀ ++ (es₁ ++ tr))).map Prod.fst) + ↑(droppedJobs tr₀) ∧
    (acceptedJobs tr₀ : Multiset WsJob) =
      ↑(answeredJobs (tr₀ ++ (es₁ ++ tr))) + ↑(droppedJobs tr₀) ∧
    Off t ∧ t.done.contents = [] ∧ Restarts t := by
  have hbegin : Stopping s.jobs.contents es₁ s₁ :=
    .call (run_lifecycle h) nobody covered (Step.of call)
  have hrun₁ := h.snoc trivial call
  have hstop : Stopping s.jobs.contents (es₁ ++ tr) t := by
    refine rest.invariant_of (fun _ t => Lifecycle t ∧ Lists t)
      (fun tr t => Stopping s.jobs.contents (es₁ ++ tr) t) (fun tr t hp => ?_) ?_ ?_
    · have hrun := hrun₁.trans (hp.mono fun _ _ _ => trivial)
      exact ⟨run_lifecycle hrun, run_lists hrun⟩
    · rw [List.append_nil]; exact hbegin
    · intro tr t a t' es known hs ok hstep
      rw [← List.append_assoc]
      exact hs.keep known.1 known.2 ok (Step.of hstep)
  have hrun : Run pool anyStep (tr₀ ++ (es₁ ++ tr)) t := by
    rw [← List.append_assoc]
    exact hrun₁.trans (rest.mono fun _ _ _ => trivial)
  have hoff : t.gInited = false := by
    by_contra hon
    exact hstop.stopped (by simpa using hon) returned
  have hempty := hstop.emptied (Or.inr (Or.inr (Or.inr hoff)))
  have off := off_of_run hrun hstop.nobody hoff hempty
  have hheld : ∀ n, held (jobUpTo n) t.threads = 0 :=
    fun n => held_eq_zero fun w => by rw [off.threads w]; rfl
  have haccepted : acceptedJobs (tr₀ ++ (es₁ ++ tr)) = acceptedJobs tr₀ := by
    rw [acceptedJobs_append, hstop.accepted, List.append_nil]
  have hdropped : droppedJobs (tr₀ ++ (es₁ ++ tr)) = droppedJobs tr₀ := by
    rw [droppedJobs_append, hstop.dropped, List.append_nil]
  refine ⟨⟨?_, hstop.dropped⟩, ?_, ?_, off, run_cleared hrun hoff, off.restarts hrun⟩
  · have htaken := hstop.taken
    rw [hempty, List.append_nil] at htaken
    exact htaken.symm
  · have hkept := (run_kept hrun).2
    rw [haccepted, hdropped, hempty, List.append_nil, run_begun hrun, hheld 1, add_zero] at hkept
    exact hkept
  · have hanswered := run_answered hrun
    rw [haccepted, hdropped, awaiting, backlog, hempty, hheld 5, Multiset.coe_nil, zero_add,
      zero_add] at hanswered
    exact hanswered

/-- Until it returns, a shutdown is never stuck: a worker, a join or the clean-up can go on. -/
theorem shutdown_goes_on (h : Run pool anyStep tr t) (going : t.shutdown ≠ .idle) :
    CanAdvance t ∨ pool.Enabled t .shutdownJoin ∨ pool.Enabled t .shutdownCleanup := by
  have life := run_lifecycle h
  have locks := run_locks h
  have hstop : t.gRunning = false := by
    by_contra hr
    exact going (life.running_iff.mp (by simpa using hr)).2
  cases hsh : t.shutdown with
  | idle => exact absurd hsh going
  | cleanup =>
    have hoff := life.all_off (Or.inr hsh)
    have hmutex := locks.mutex.free_of_none (fun w => by rw [hoff w]; rfl) ()
    refine Or.inr (Or.inr ?_)
    change (wsWorkerShutdownCleanup t).isSome = true
    simp [wsWorkerShutdownCleanup, hmutex, hsh]
  | joining i =>
    by_cases hlt : i < t.gThreadCount
    · have hbound : i < WS_WORKER_THREADS := Nat.lt_of_lt_of_le hlt life.count_le
      by_cases hgone : t.threads ⟨i, hbound⟩ = .exited
      · refine Or.inr (Or.inl ?_)
        change (wsWorkerShutdownJoin t).isSome = true
        simp [wsWorkerShutdownJoin, hsh, hlt, hbound, hgone]
      · -- the next worker to join has not left, and nobody is parked any more
        have hon : t.threads ⟨i, hbound⟩ ≠ .off :=
          (life.on_iff _).mpr ⟨by rw [hsh]; exact Nat.le_refl i, hlt⟩
        have hwait : t.threads ⟨i, hbound⟩ ≠ .wait := fun hw =>
          absurd ((life.parked _ hw).symm.trans hstop) (by simp)
        exact Or.inl (canAdvance_of_runnable (run_lists h) locks
          (isRunnable_iff.mpr ⟨hon, hwait, hgone⟩))
    · refine Or.inr (Or.inl ?_)
      change (wsWorkerShutdownJoin t).isSome = true
      simp [wsWorkerShutdownJoin, hsh, hlt]

end Steps

/-- What a worker does with a job that it has taken, its executor call returning 0; the entry of
the done list gets the address `p`. -/
def serve (w : Worker) (p : Nat) : List Action :=
  [.check w, .lockConn w, .finish w 0 none, .unlockConn w, .build w true true 0, .lock w,
    .pushDone w p, .lock w, .recordResult w, .lock w, .release w]

/-- The shutdown finds one call in a worker's hands and the other one queued. -/
theorem graceful_shutdown_two_calls :
    ∃ tr₀ s s₁ es₁ tr t, Run pool anyStep tr₀ s ∧ pool.step s .shutdownBegin = some (s₁, es₁) ∧
      Path pool quiet s₁ tr t ∧ s.jobs.contents.length = 1 ∧
      takenJobs (es₁ ++ tr) = s.jobs.contents ∧ Off t := by
  have hbusy : ((pool.guard anyStep).exec pool.initial (submitting (request 5 0 0) 7 ++
      submitting (request 6 0 1) 8 ++ [.lock 0, .dequeue 0])).isSome = true := rfl
  generalize hr : Option.get _ hbusy = r
  have hrun : Run pool anyStep r.2 r.1 := System.exec_path (by rw [← hr, Option.some_get])
  have hcall : (pool.step r.1 .shutdownBegin).isSome = true := by subst hr; rfl
  generalize hr₁ : Option.get _ hcall = r₁
  have hcalled : pool.step r.1 .shutdownBegin = some (r₁.1, r₁.2) := by
    rw [← hr₁, Option.some_get]
  have hdown : ((pool.guard quiet).exec r₁.1 (serve 0 9 ++ [.lock 1, .dequeue 1] ++ serve 1 10 ++
      leave 0 ++ leave 1 ++ joinAll)).isSome = true := by
    subst hr₁ hr; rfl
  generalize hr₂ : Option.get _ hdown = r₂
  have hpath : Path pool quiet r₁.1 r₂.2 r₂.1 := System.exec_path (by rw [← hr₂, Option.some_get])
  have hnobody : ∀ c, r.1.submits c = none := by
    intro c
    subst hr
    cases c <;> rfl
  have hresult := graceful_shutdown hrun hnobody (Or.inl (by subst hr; rfl)) hcalled hpath
    (by subst hr₂ hr₁ hr; rfl)
  exact ⟨_, _, _, _, _, _, hrun, hcalled, hpath, by subst hr; rfl, hresult.1.1,
    hresult.2.2.2.1⟩

/-- Caller 0 has passed `ws_worker_init` when a whole shutdown of workers `v` and `w` takes
place. -/
def submitAcrossShutdown (v w : Worker) : List Action :=
  [.submitInit 0 (request 5 0 0) 2, .submitBuild 0 true, .shutdownBegin] ++ leave v ++ leave w ++
    joinAll ++ [.submitAdmit 0 7 fun _ => true]

/-- A call accepted after a shutdown has already cleaned up stays queued in a pool that is off,
and the next shutdown returns at once without it. -/
theorem queued_after_shutdown :
    ¬∀ (tr₀ : List Event) (s s₁ : Pool) (es₁ : List Event) (tr : List Event) (t : Pool),
      Run pool anyStep tr₀ s → (∀ c, s.submits c = none) →
      pool.step s .shutdownBegin = some (s₁, es₁) → Path pool quiet s₁ tr t →
      t.shutdown = .idle → t.jobs.contents = [] := by
  intro hclaim
  have hlate : ((pool.guard anyStep).exec pool.initial (submitAcrossShutdown 0 1)).isSome = true :=
    rfl
  generalize hr : Option.get _ hlate = r
  have hrun : Run pool anyStep r.2 r.1 := System.exec_path (by rw [← hr, Option.some_get])
  have hnobody : ∀ c, r.1.submits c = none := by
    intro c
    subst hr
    cases c <;> rfl
  have hcalled : pool.step r.1 .shutdownBegin = some (r.1, [.shutdownReturned]) := by
    subst hr; rfl
  have hqueued : r.1.jobs.contents.length = 1 := by subst hr; rfl
  have hempty := hclaim _ _ _ _ _ _ hrun hnobody hcalled .refl (by subst hr; rfl)
  rw [hempty] at hqueued
  cases hqueued

end Cyctron.WsWorker.Shutdown
