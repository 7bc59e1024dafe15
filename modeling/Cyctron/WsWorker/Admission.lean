/- Cyctron/WsWorker/Admission
   digest: The queue length and the pending counts say how many jobs are queued and in hand. -/

import Cyctron.WsWorker.Flow

set_option autoImplicit false
set_option relaxedAutoImplicit false

namespace Cyctron.WsWorker.Admission

open Cyctron.Base.CString (ascii)
open Cyctron.WsWorker.Model Cyctron.WsWorker.Inversion Cyctron.WsWorker.Stage
open Cyctron.WsWorker.Threads Cyctron.WsWorker.Flow
open Cyctron.Machine.Labelled (Path Run anyStep)
open Cyctron.Machine.LinkedQueue
open Cyctron.Machine.Holdings (held held_eq_zero)

/-- The jobs in the queue and those that workers hold up to a stage. -/
def backlog (n : Nat) (s : Pool) : Multiset WsJob :=
  ↑s.jobs.contents + held (jobUpTo n) s.threads

/-- The accepted jobs that no worker has finished with. -/
abbrev unfinished : Pool → Multiset WsJob := backlog 7

/-- The accepted jobs whose answer is still to come. -/
abbrev awaiting : Pool → Multiset WsJob := backlog 5

/-- How many of the jobs fall in a slot. -/
def inSlot (sl : Slot) (m : Multiset WsJob) : Nat := m.countP fun job => slotOf job.connId = sl

structure Counters (s : Pool) : Prop where
  queueLen : s.gQueueLen = s.jobs.contents.length
  queueMax : s.jobs.contents.length ≤ WS_WORKER_MAX_QUEUE
  pending : ∀ sl, s.gConnPending sl = inSlot sl (unfinished s)
  pendingMax : ∀ sl, inSlot sl (unfinished s) ≤ WS_WORKER_MAX_PER_CONN

section Counts

variable {sl : Slot} {m m' : Multiset WsJob} {job : WsJob}

@[simp] theorem inSlot_zero : inSlot sl 0 = 0 := rfl

@[simp] theorem inSlot_add : inSlot sl (m + m') = inSlot sl m + inSlot sl m' :=
  Multiset.countP_add _ _ _

private theorem inSlot_single : inSlot sl {job} = if slotOf job.connId = sl then 1 else 0 := by
  rw [inSlot, ← Multiset.cons_zero, Multiset.countP_cons]
  simp

end Counts

section Steps

variable {s s' t : Pool} {a : Action} {es : List Event} {created : Nat} {rc : Int}

/-- What is accepted stays in the queue or in hand until it leaves the hands or is freed. -/
private theorem Step.backlogFlow {n : Nat} {exits : List WsJob} (h : Lists s) (hstep : Step s a s' es)
    (hand : held (jobUpTo n) s.threads + ↑(takenJobs es) =
      held (jobUpTo n) s'.threads + ↑exits) :
    backlog n s + ↑(acceptedJobs es) = backlog n s' + ↑exits + ↑(droppedJobs es) := by
  have hjobs : (s.jobs.contents : Multiset WsJob) + ↑(acceptedJobs es) =
      ↑(takenJobs es) + ↑(droppedJobs es) + ↑s'.jobs.contents := by
    simpa using congrArg (fun l : List WsJob => (l : Multiset WsJob)) (Step.jobsFlow h hstep)
  calc backlog n s + ↑(acceptedJobs es)
      = ↑s.jobs.contents + ↑(acceptedJobs es) + held (jobUpTo n) s.threads := add_right_comm _ _ _
    _ = ↑(takenJobs es) + ↑(droppedJobs es) + ↑s'.jobs.contents + held (jobUpTo n) s.threads := by
      rw [hjobs]
    _ = held (jobUpTo n) s.threads + ↑(takenJobs es) + (↑(droppedJobs es) + ↑s'.jobs.contents) := by
      ac_rfl
    _ = held (jobUpTo n) s'.threads + ↑exits + (↑(droppedJobs es) + ↑s'.jobs.contents) := by
      rw [hand]
    _ = backlog n s' + ↑exits + ↑(droppedJobs es) := by rw [backlog]; ac_rfl

/-- What is accepted is unfinished until it is finished or freed by a shutdown. -/
private theorem Step.unfinishedFlow (life : Lifecycle s) (h : Lists s) (hstep : Step s a s' es) :
    unfinished s + ↑(acceptedJobs es) =
      unfinished s' + ↑(finishedJobs es) + ↑(droppedJobs es) :=
  Step.backlogFlow h hstep (Step.handFlow life hstep)

private theorem backlog_initial (n : Nat) : backlog n Pool.initial = 0 := by
  rw [backlog, held_eq_zero fun _ => rfl]
  rfl

private theorem backlog_mono {m n : Nat} (le : m ≤ n) : backlog m s ≤ backlog n s :=
  add_le_add_right (held_mono le) _

/-- Nothing waits at an early stage when nothing waits at any. -/
theorem backlog_eq_zero {m n : Nat} (le : m ≤ n) (h : backlog n s = 0) : backlog m s = 0 :=
  nonpos_iff_eq_zero.mp (h ▸ backlog_mono le)

private theorem counters_initial : Counters Pool.initial := by
  have hz : unfinished Pool.initial = 0 := backlog_initial 7
  refine ⟨rfl, Nat.zero_le _, fun sl => ?_, fun sl => ?_⟩
  · rw [hz]; rfl
  · rw [hz]; exact Nat.zero_le _

private theorem Counters.congr (h : Counters s) (len : t.gQueueLen = s.gQueueLen)
    (pending : t.gConnPending = s.gConnPending) (jobs : t.jobs.contents = s.jobs.contents)
    (same : unfinished t = unfinished s) : Counters t := by
  refine ⟨?_, ?_, fun sl => ?_, fun sl => ?_⟩
  · rw [len, jobs]; exact h.queueLen
  · rw [jobs]; exact h.queueMax
  · rw [pending, same]; exact h.pending sl
  · rw [same]; exact h.pendingMax sl

/-- An admitted job raises the count of its slot by one. -/
private theorem Counters.accept {job : WsJob} (h : Counters s) (room : ¬s.full job.connId)
    (len : t.gQueueLen = s.gQueueLen + 1)
    (pending : t.gConnPending = Function.update s.gConnPending (slotOf job.connId)
      (s.gConnPending (slotOf job.connId) + 1))
    (jobs : t.jobs.contents = s.jobs.contents ++ [job])
    (more : unfinished t = unfinished s + {job}) : Counters t := by
  obtain ⟨hqueue, hconn⟩ := not_or.mp room
  have hlen := h.queueLen
  have hp := h.pending (slotOf job.connId)
  have hcount : ∀ sl, inSlot sl (unfinished t) =
      inSlot sl (unfinished s) + if slotOf job.connId = sl then 1 else 0 := by
    intro sl
    rw [more, inSlot_add, inSlot_single]
  refine ⟨?_, ?_, fun sl => ?_, fun sl => ?_⟩
  · rw [len, jobs, List.length_append]
    simp [hlen]
  · rw [jobs, List.length_append, List.length_singleton]
    omega
  · rw [pending, hcount sl]
    by_cases hsl : slotOf job.connId = sl
    · subst hsl
      simp [hp]
    · have hne : sl ≠ slotOf job.connId := fun he => hsl he.symm
      simp [hsl, hne, h.pending sl]
  · rw [hcount sl]
    by_cases hsl : slotOf job.connId = sl
    · subst hsl
      simp only [if_true]
      omega
    · simpa [hsl] using h.pendingMax sl

/-- A job in hand has its slot counted, so the guarded decrement takes place. -/
private theorem Counters.release {job : WsJob} (h : Counters s)
    (len : t.gQueueLen = s.gQueueLen) (jobs : t.jobs.contents = s.jobs.contents)
    (pending : t.gConnPending = if 0 < s.gConnPending (slotOf job.connId) then
        Function.update s.gConnPending (slotOf job.connId)
          (s.gConnPending (slotOf job.connId) - 1)
      else s.gConnPending)
    (less : unfinished s = unfinished t + {job}) : Counters t := by
  have hcount : ∀ sl, inSlot sl (unfinished s) =
      inSlot sl (unfinished t) + if slotOf job.connId = sl then 1 else 0 := by
    intro sl
    rw [less, inSlot_add, inSlot_single]
  have hp := h.pending (slotOf job.connId)
  have hpos : 0 < s.gConnPending (slotOf job.connId) := by
    rw [hp, hcount]
    simp
  refine ⟨?_, ?_, fun sl => ?_, fun sl => ?_⟩
  · rw [len, jobs]; exact h.queueLen
  · rw [jobs]; exact h.queueMax
  · rw [pending, if_pos hpos]
    have hs := h.pending sl
    rw [hcount sl] at hs
    by_cases hsl : slotOf job.connId = sl
    · subst hsl
      simp only [if_true] at hs
      rw [Function.update_self]
      omega
    · have hne : sl ≠ slotOf job.connId := fun he => hsl he.symm
      rw [Function.update_of_ne hne]
      simpa [hsl] using hs
  · have := hcount sl
    have := h.pendingMax sl
    omega

theorem Counters.keep (life : Lifecycle s) (hl : Lists s) (h : Counters s)
    (hstep : Step s a s' es) : Counters s' := by
  have hflow := Step.unfinishedFlow life hl hstep
  have same : acceptedJobs es = [] → finishedJobs es = [] → droppedJobs es = [] →
      unfinished s' = unfinished s := by
    intro ha hf hd
    simpa [ha, hf, hd] using hflow.symm
  have more : ∀ job, acceptedJobs es = [job] → finishedJobs es = [] → droppedJobs es = [] →
      unfinished s' = unfinished s + {job} := by
    intro job ha hf hd
    simpa [ha, hf, hd] using hflow.symm
  have less : ∀ job, acceptedJobs es = [] → finishedJobs es = [job] → droppedJobs es = [] →
      unfinished s = unfinished s' + {job} := by
    intro job ha hf hd
    simpa [ha, hf, hd] using hflow
  cases hstep with
  | init _ _ out | submitUninit _ _ _ out _ =>
    cases out <;> exact h.congr rfl rfl rfl (same rfl rfl rfl)
  | submitInit _ _ _ _ out => cases out <;> exact h.congr rfl rfl rfl (same rfl rfl rfl)
  | accept _ _ room fresh _ =>
    exact h.accept room rfl rfl (contents_push hl.jobs fresh) (more _ rfl rfl rfl)
  | take _ pop =>
    have hsame := same rfl rfl rfl
    have hc := contents_pop hl.jobs pop
    have hlen := h.queueLen
    have hmax := h.queueMax
    rw [hc, List.length_cons] at hlen hmax
    refine ⟨?_, Nat.le_of_succ_le hmax, fun sl => ?_, fun sl => ?_⟩
    · change s.gQueueLen - 1 = _
      rw [hlen]
      simp
    · rw [hsame]; exact h.pending sl
    · rw [hsame]; exact h.pendingMax sl
  | release => exact h.release rfl rfl rfl (less _ rfl rfl rfl)
  | shutdownCleanup _ at_ =>
    -- every thread is joined, so the bulk reset forgets no job in hand
    have hz : unfinished { s with
        jobs := s.jobs.clear, gQueueLen := 0, gConnPending := fun _ => 0, done := s.done.clear,
        gInited := false, shutdown := .idle } = 0 := by
      rw [unfinished, backlog, held_eq_zero fun w => by
        change inHand (s.threads w) = none
        rw [life.all_off (Or.inr at_) w]; rfl]
      change (s.jobs.clear.contents : Multiset WsJob) + 0 = 0
      rw [contents_clear]
      rfl
    have hc : s.jobs.clear.contents = [] := contents_clear
    refine ⟨?_, ?_, fun sl => ?_, fun sl => ?_⟩
    · change (0 : Int) = s.jobs.clear.contents.length
      rw [hc]; rfl
    · change s.jobs.clear.contents.length ≤ _
      rw [hc]; exact Nat.zero_le _
    · rw [hz]; rfl
    · rw [hz]; exact Nat.zero_le _
  | _ => exact h.congr rfl rfl rfl (same rfl rfl rfl)

theorem run_counters {ok : Pool → Action → Prop} {tr : List Event} (h : Run pool ok tr s) :
    Counters s :=
  h.invariant_of (fun _ s => Lifecycle s ∧ Lists s) (fun _ s => Counters s)
    (fun _ _ hp => ⟨run_lifecycle hp, run_lists hp⟩) counters_initial
    fun _ _ _ _ _ known hc _ hstep => hc.keep known.1 known.2 (Step.of hstep)

/-- The links from the head end at the tail, and the two pointers are null together. -/
def WellLinked {α : Type} (q : Fifo α) : Prop :=
  q.store.Seg q.head (q.store.chain q.head) ∧
    q.tail = ((q.store.chain q.head).map Prod.fst).getLast? ∧ (q.tail = none ↔ q.head = none)

private theorem wellLinked {α : Type} {q : Fifo α} {d : Option Nat} (h : q.Sound d) :
    WellLinked q :=
  ⟨h.tail_eq.1, h.tail_eq.2, h.null_iff.1⟩

/-- The step moves caller `c` and changes no shared variable. -/
def OnlyMoves (c : Nat) (s s' : Pool) : Prop :=
  ∃ place, s' = { s with submits := Function.update s.submits c place }

/-- A start of the pool: the queue, the done list and the pending counts stay as they are. -/
def OnlyStarts (s t : Pool) : Prop :=
  ∃ on th n, t = { s with
    gOnce := true
    gConnLocks := onceLocks s
    gRunning := on
    gInited := on
    gStats := .zero
    threads := th
    gThreadCount := n }

/-- The steps of a submit that is then refused: a pool that is off is started first. -/
structure RefusalFrame (s : Pool) : Prop where
  init : ∀ {c created : Nat} {a : SubmitArgs} {s' : Pool} {es : List Event},
    pool.step s (.submitInit c a created) = some (s', es) →
      OnlyMoves c s s' ∨ (s.gInited = false ∧ OnlyStarts s (wsWorkerInit s created).1 ∧
        OnlyMoves c (wsWorkerInit s created).1 s')
  build : ∀ {c : Nat} {mem : Bool} {s' : Pool} {es : List Event},
    pool.step s (.submitBuild c mem) = some (s', es) → OnlyMoves c s s'
  refuse : ∀ {c p : Nat} {wake : Worker → Bool} {job : WsJob} {s' : Pool},
    pool.step s (.submitAdmit c p wake) = some (s', [.refused job]) →
      OnlyMoves c { s with gStats := { s.gStats with busy := s.gStats.busy + 1 } } s'

/-- `ws_worker_init` leaves a pool that is on alone, and starts one that is off. -/
theorem init_frame (life : Lifecycle s) (created : Nat) :
    (wsWorkerInit s created).1 = s ∨ (s.gInited = false ∧ OnlyStarts s (wsWorkerInit s created).1) := by
  have out := initOutcome s created
  generalize (wsWorkerInit s created).1 = t at out ⊢
  generalize (wsWorkerInit s created).2 = rc at out
  cases out with
  | already on =>
    have honce := life.once_done on
    have hlocks : onceLocks s = s.gConnLocks := by simp [onceLocks, honce]
    refine Or.inl ?_
    rw [hlocks, ← honce]
  | failed off => exact Or.inr ⟨off, false, s.threads, s.gThreadCount, rfl⟩
  | fresh off => exact Or.inr ⟨off, true, startThreads s.threads created, s.gThreadCount + created, rfl⟩

/-- The first critical section of a submit: it may start the pool, and the caller moves on. -/
private theorem submitInit_moves {c : Nat} {args : SubmitArgs}
    (h : pool.step s (.submitInit c args created) = some (s', es)) :
    OnlyMoves c s s' ∨ OnlyMoves c (wsWorkerInit s created).1 s' := by
  change wsWorkerSubmitInit s c args created = some (s', es) at h
  rw [wsWorkerSubmitInit] at h
  by_cases idle : s.submits c = none
  · rw [if_neg (not_not.mpr idle)] at h
    split at h
    · obtain ⟨rfl, -⟩ := Prod.mk.inj (Option.some.inj h)
      exact Or.inl ⟨none, by rw [← idle, Function.update_eq_self]⟩
    · split at h
      · dsimp only at h
        split at h
        · obtain ⟨rfl, -⟩ := Prod.mk.inj (Option.some.inj h)
          exact Or.inr ⟨_, by rw [Function.update_eq_self]⟩
        · obtain ⟨rfl, -⟩ := Prod.mk.inj (Option.some.inj h)
          exact Or.inr ⟨_, rfl⟩
      · cases h
  · rw [if_pos idle] at h
    cases h

private theorem refusalFrame (life : Lifecycle s) : RefusalFrame s where
  init {c created a s' es} h := by
    rcases submitInit_moves h with hmoves | hmoves
    · exact Or.inl hmoves
    · rcases init_frame life created with hsame | ⟨off, hstarts⟩
      · rw [hsame] at hmoves
        exact Or.inl hmoves
      · exact Or.inr ⟨off, hstarts, hmoves⟩
  build h := by
    cases Step.of h with
    | submitBuild | submitNoMem => exact ⟨_, rfl⟩
  refuse h := by
    cases Step.of h with
    | refuse => exact ⟨none, rfl⟩

/-- In every reachable state the queue length, both tails and the pending counts are right,
the bounds hold, and a refused submit counts as busy; it changes nothing else unless it has to start
the pool. -/
theorem admission_counters {tr : List Event} (h : Run pool anyStep tr s) :
    (s.gQueueLen = (s.jobs.store.chain s.jobs.head).length ∧ s.gQueueLen ≤ WS_WORKER_MAX_QUEUE) ∧
    WellLinked s.jobs ∧ WellLinked s.done ∧
    (∀ sl, s.gConnPending sl =
        inSlot sl ↑s.jobs.contents + inSlot sl (held inHand s.threads) ∧
      s.gConnPending sl ≤ WS_WORKER_MAX_PER_CONN) ∧
    RefusalFrame s := by
  have lists := run_lists h
  have counters := run_counters h
  have hlen : (s.jobs.store.chain s.jobs.head).length = s.jobs.contents.length := by
    rw [Fifo.contents, Store.values, List.length_map]
  refine ⟨⟨?_, ?_⟩, wellLinked lists.jobs, wellLinked lists.done, fun sl => ⟨?_, ?_⟩,
    refusalFrame (run_lifecycle h)⟩
  · rw [hlen]; exact counters.queueLen
  · rw [counters.queueLen]; exact_mod_cast counters.queueMax
  · rw [counters.pending, unfinished, backlog, inSlot_add]; rfl
  · rw [counters.pending]; exact_mod_cast counters.pendingMax sl

/-- Along a path that begins in a reachable state the backlog accounts for what is accepted. -/
theorem path_backlog {n : Nat} (exits : List Event → List WsJob) (exits_nil : exits [] = [])
    (exits_append : ∀ x y, exits (x ++ y) = exits x ++ exits y)
    (flow : ∀ {s s' : Pool} {a : Action} {es : List Event}, Lifecycle s → Step s a s' es →
      held (jobUpTo n) s.threads + ↑(takenJobs es) = held (jobUpTo n) s'.threads + ↑(exits es))
    {ok : Pool → Action → Prop} {tr₀ tr : List Event} (h : Run pool anyStep tr₀ s)
    (path : Path pool ok s tr t) :
    backlog n s + ↑(acceptedJobs tr) = backlog n t + (↑(exits tr) + ↑(droppedJobs tr)) := by
  refine path.conserved (backlog n) (fun tr => ↑(acceptedJobs tr))
    (fun tr => ↑(exits tr) + ↑(droppedJobs tr)) rfl (by rw [exits_nil]; rfl) (fun x y => by simp)
    (fun x y => ?_) fun _ _ _ _ _ hp _ hstep => ?_
  · simp only [exits_append, droppedJobs_append, ← Multiset.coe_add]
    ac_rfl
  · have hrun := h.trans (hp.mono fun _ _ _ => trivial)
    rw [← add_assoc]
    exact Step.backlogFlow (run_lists hrun) (Step.of hstep)
      (flow (run_lifecycle hrun) (Step.of hstep))

/-- The accepted jobs are those that wait for their answer, those that have it, and those that
a shutdown freed. -/
theorem run_answered {ok : Pool → Action → Prop} {tr : List Event} (h : Run pool ok tr s) :
    (acceptedJobs tr : Multiset WsJob) =
      awaiting s + ↑(answeredJobs tr) + ↑(droppedJobs tr) := by
  have hflow := path_backlog answeredJobs rfl answeredJobs_append Step.answerFlow
    (.refl : Run pool anyStep [] pool.initial) h
  rw [show backlog 5 pool.initial = 0 from backlog_initial 5, zero_add] at hflow
  rw [hflow, add_assoc]

end Steps

/-- A request on a connection, with a time limit. -/
def request (connId : Nat) (timeoutMs : Int) (tag : Nat) : SubmitArgs :=
  ⟨connId, some (ascii "1"), some (ascii "math"), some (ascii "add"), none, timeoutMs, tag⟩

/-- Caller 0 submits; the job gets the address `p` and all parked workers wake. -/
def submitting (a : SubmitArgs) (p : Nat) : List Action :=
  [.submitInit 0 a 2, .submitBuild 0 true, .submitAdmit 0 p fun _ => true]

theorem admission_counters_one_queued :
    ∃ tr s, Run pool anyStep tr s ∧ s.gQueueLen = 1 ∧
      s.gQueueLen = (s.jobs.store.chain s.jobs.head).length ∧ s.gConnPending (slotOf 5) ≤ 16 := by
  obtain ⟨tr, s, hrun, hlen⟩ := pool.exec_reaches anyStep (submitting (request 5 0 0) 7)
    (fun _ s => s.gQueueLen = 1) (by decide)
  have hall := admission_counters hrun
  exact ⟨tr, s, hrun, hlen, hall.1.1, (hall.2.2.2.1 (slotOf 5)).2⟩

/-- A submit of caller `c` from its first to its last critical section, with no other step between
them, which is refused. -/
def RefusedSubmit (c : Nat) (s t : Pool) : Prop :=
  ∃ a created p wake job, pool.exec s [.submitInit c a created, .submitBuild c true,
    .submitAdmit c p wake] = some (t, [.refused job])

/-- Worker `w` leaves the empty queue of a pool that is being shut down. -/
def leave (w : Worker) : List Action := [.lock w, .dequeue w]

/-- The joins of both workers, the end of the join loop and the clean-up. -/
def joinAll : List Action := [.shutdownJoin, .shutdownJoin, .shutdownJoin, .shutdownCleanup]

/-- Sixteen callers pass `ws_worker_init` before a whole shutdown and are admitted after it. -/
def lateCrowd : List Action :=
  (List.range WS_WORKER_MAX_PER_CONN).flatMap (fun c => [.submitInit c (request 5 0 c) 2,
    .submitBuild c true]) ++ [.shutdownBegin] ++
    (List.finRange WS_WORKER_THREADS).flatMap leave ++ joinAll ++
    (List.range WS_WORKER_MAX_PER_CONN).map fun c => .submitAdmit c c fun _ => true

def seventeenth : List Action :=
  [.submitInit 16 (request 5 0 16) 2, .submitBuild 16 true, .submitAdmit 16 16 fun _ => true]

/-- A call that is refused because of what a shutdown has left behind has started the pool before. -/
theorem refused_after_start :
    ¬∀ (tr : List Event) (s : Pool) (c : Nat) (t : Pool), Run pool anyStep tr s →
      RefusedSubmit c s t →
        OnlyMoves c { s with gStats := { s.gStats with busy := s.gStats.busy + 1 } } t := by
  intro hclaim
  obtain ⟨tr, s, hrun, hoff, hcall⟩ := pool.exec_reaches anyStep lateCrowd
    (fun _ s => s.gInited = false ∧ ((pool.exec s seventeenth).any fun q =>
      q.1.gInited = true ∧ q.2 = [.refused (newJob (request 5 0 16) 0)]) = true) (by decide +kernel)
  obtain ⟨⟨t, es⟩, hexec, hq⟩ := (Option.any_eq_true _ _).mp hcall
  obtain ⟨hon, rfl⟩ := of_decide_eq_true hq
  obtain ⟨place, ht⟩ := hclaim tr s 16 t hrun ⟨_, _, _, _, _, hexec⟩
  rw [ht] at hon
  exact Bool.noConfusion (hoff.symm.trans hon)

end Cyctron.WsWorker.Admission
