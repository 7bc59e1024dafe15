/- Cyctron/Server/Progress
   digest: The server is never stuck before an answer, and the steps to the answers are bounded. -/

import Cyctron.Server.Messages
import Cyctron.WsWorker.Progress

set_option autoImplicit false
set_option relaxedAutoImplicit false

namespace Cyctron.Server.Progress

open Cyctron.Call.Protocol Cyctron.Server.Connections Cyctron.Server.Model
open Cyctron.Server.Inversion Cyctron.Server.Control Cyctron.Server.Messages
open Cyctron.WsWorker.Model (Pool SubmitArgs Submitting WsJob Worker Thread pool wakeThreads)
open Cyctron.WsWorker.Stage (Action.worker? wakeThreads_cases)
open Cyctron.WsWorker.Flow (Lists undelivered run_lists)
open Cyctron.WsWorker.Admission (awaiting backlog_eq_zero)
open Cyctron.WsWorker.Progress
open Cyctron.WsWorker.Threads (run_lifecycle)
open Cyctron.WsWorker.Serial (run_locks)
open Cyctron.WsWorker.Wakeup (run_awake)
open Cyctron.WsWorker.Delivery (serving run_not_stopping)
open Cyctron.Machine.Labelled (Run System.Enabled)
open Cyctron.Machine.LinkedQueue (contents_push values_push values_none contents_detach exists_fresh)

/-- The steps that bring an answer forward: those of the submit in progress, of the workers, and
of a drain that has something to deliver. -/
def moves (s : ServerState) : Action → Prop
  | .submit _ _ _ | .drainNext => True
  | .drain => s.pool.done.contents ≠ []
  | .background a => (Action.advances? a).isSome = true
  | _ => False

instance (s : ServerState) (a : Action) : Decidable (moves s a) := by
  apply a.casesOn (motive := fun a => Decidable (moves s a)) <;> intros <;>
    dsimp only [moves] <;> infer_instance

/-- The rounds of the drain in progress. -/
def roundsLeft (p : Pool) : Nat := p.drain.elim 0 fun d => (p.done.store.values d).length + 1

/-- What the main thread has still to do for the responses that are pushed. -/
def toDeliver (p : Pool) : Nat := 3 * p.done.contents.length + roundsLeft p

/-- What the submit in progress can still cost, with all that it can give the workers to do. -/
def callCost : Main → Option Submitting → Nat
  | .calling _ _, none => 75
  | .calling _ _, some (.inited _) => 74
  | .calling _ _, some (.built _) => 73
  | _, _ => 0

/-- A bound on the steps that bring answers forward while no message comes. -/
def effort (s : ServerState) : Nat :=
  4 * work s.pool + toDeliver s.pool + callCost s.main (s.pool.submits 0)

section PoolSteps

variable {s t : Pool} {es : List WsWorker.Model.Event} {a : SubmitArgs} {part : SubmitPart}
  {b : WsWorker.Model.Action} {w : Worker} {c : Nat}

private theorem rank_wake (th : Worker → Thread) (wake : Worker → Bool) (w : Worker) :
    rank (wakeThreads th wake w) ≤ rank (th w) + 2 := by
  rcases wakeThreads_cases th wake w with ⟨_, _, hw⟩ | hw
  · rw [hw, show rank (.lock .dequeue) = 2 from rfl]
    omega
  · rw [hw]
    omega

private theorem sum_rank_wake (th : Worker → Thread) (wake : Worker → Bool) :
    ∑ w, rank (wakeThreads th wake w) ≤ ∑ w, rank (th w) + 4 := by
  calc ∑ w, rank (wakeThreads th wake w)
      ≤ ∑ w, (rank (th w) + 2) := Finset.sum_le_sum fun w _ => rank_wake th wake w
    _ = ∑ w, rank (th w) + 4 := by rw [Finset.sum_add_distrib]; rfl

/-- An accepted job is a whole round for a worker, and the signal may wake both. -/
private theorem work_accept {p : Nat} {wake : Worker → Bool} {job : WsJob} (lists : Lists s)
    (move : pool.step s (.submitAdmit 0 p wake) = some (t, [.accepted job])) :
    work t ≤ work s + 18 ∧ toDeliver t = toDeliver s := by
  cases WsWorker.Inversion.Step.of move with
  | accept _ _ _ fresh =>
    have hsum := sum_rank_wake s.threads wake
    refine ⟨?_, rfl⟩
    change 14 * (s.jobs.push p job).contents.length + ∑ w, rank (wakeThreads s.threads wake w) ≤
      14 * s.jobs.contents.length + ∑ w, rank (s.threads w) + 18
    rw [contents_push lists.jobs fresh, List.length_append, List.length_singleton]
    omega

/-- What is left to pay after a critical section with the given events. -/
def costAfter (c : Nat) (a : SubmitArgs) (es : List WsWorker.Model.Event) (place : Option Submitting) : Nat :=
  if submitResult es = none then callCost (.calling c a) place else 0

/-- Each critical section of the submit costs something. -/
private theorem part_cost (lists : Lists s) (on : s.gInited = true)
    (move : pool.step s (part.action a) = some (t, es)) :
    4 * work t + toDeliver t + costAfter c a es (t.submits 0) <
      4 * work s + toDeliver s + callCost (.calling c a) (s.submits 0) := by
  have same : work t = work s → toDeliver t = toDeliver s →
      costAfter c a es (t.submits 0) < callCost (.calling c a) (s.submits 0) →
      4 * work t + toDeliver t + costAfter c a es (t.submits 0) <
        4 * work s + toDeliver s + callCost (.calling c a) (s.submits 0) := by
    omega
  cases part with
  | init =>
    cases WsWorker.Inversion.Step.of move with
    | submitNull idle => exact same rfl rfl (by simp [costAfter, submitResult, callCost, idle])
    | submitUninit idle _ _ out bad =>
      cases out with
      | already => exact absurd rfl bad
      | failed off => cases on.symm.trans off
      | fresh => exact absurd rfl bad
    | submitInit idle _ _ _ out =>
      cases out with
      | already => exact same rfl rfl (by simp [costAfter, submitResult, callCost, idle])
      | fresh off => cases on.symm.trans off
  | build =>
    cases WsWorker.Inversion.Step.of move with
    | submitBuild at_ | submitNoMem at_ =>
      exact same rfl rfl (by simp [costAfter, submitResult, callCost, at_])
  | enqueue =>
    cases WsWorker.Inversion.Step.of move with
    | refuse at_ => exact same rfl rfl (by simp [costAfter, submitResult, callCost, at_])
    | accept at_ =>
      obtain ⟨hwork, hdeliver⟩ := work_accept lists move
      rw [at_, hdeliver, show callCost (.calling c a) (some (.built _)) = 73 from rfl]
      change 4 * work _ + toDeliver s + 0 < _
      omega

/-- A worker pushes at most one response in a step. -/
private theorem toDeliver_advance (lists : Lists s) (adv : Action.advances? b = some w)
    (move : pool.step s b = some (t, es)) : toDeliver t ≤ toDeliver s + 3 := by
  cases WsWorker.Inversion.Step.of move with
  | @pushDone w p o at_ fresh =>
    have hdone := lists.done
    have hrounds : roundsLeft { s with done := s.done.push p ⟨o.job.connId, o.json, o.job.tag⟩ } =
        roundsLeft s := by
      cases hd : s.drain with
      | none => simp [roundsLeft, hd]
      | some d =>
        have hsound : s.done.Sound d := by rw [hd] at hdone; exact hdone
        simp [roundsLeft, hd, values_push hsound fresh]
    change 3 * (s.done.push p ⟨o.job.connId, o.json, o.job.tag⟩).contents.length +
      roundsLeft { s with done := s.done.push p ⟨o.job.connId, o.json, o.job.tag⟩ } ≤ _
    rw [hrounds, contents_push hdone fresh, List.length_append, List.length_singleton, toDeliver]
    omega
  | lock | park | exit | take | expire | pass | lockConn | finish | unlockConn | buildNone | build
  | buildNoDone | recordResult | release => exact Nat.le_add_right _ 3
  | _ => cases adv

/-- A drain that has something to deliver takes fewer rounds than are set aside for it. -/
private theorem toDeliver_detach (idle : s.drain = none) (some_ : s.done.contents ≠ [])
    (move : pool.step s .drainDetach = some (t, es)) :
    work t = work s ∧ t.submits = s.submits ∧ toDeliver t < toDeliver s := by
  cases WsWorker.Inversion.Step.of move with
  | drainDetach =>
    refine ⟨rfl, rfl, ?_⟩
    have hpos := List.length_pos_of_ne_nil some_
    have hrounds : roundsLeft s = 0 := by rw [roundsLeft, idle]; rfl
    change 3 * s.done.detach.contents.length + ((s.done.store.values s.done.head).length + 1) <
      3 * s.done.contents.length + roundsLeft s
    change 0 < (s.done.store.values s.done.head).length at hpos
    rw [contents_detach, hrounds]
    change 3 * 0 + ((s.done.store.values s.done.head).length + 1) <
      3 * (s.done.store.values s.done.head).length + 0
    omega

private theorem toDeliver_next (lists : Lists s) (move : pool.step s .drainNext = some (t, es)) :
    work t = work s ∧ t.submits = s.submits ∧ toDeliver t < toDeliver s := by
  cases WsWorker.Inversion.Step.of move with
  | @drainNext p n at_ cell =>
    refine ⟨rfl, rfl, ?_⟩
    have hdone := lists.done
    rw [at_] at hdone
    obtain ⟨n', hn, _, hvalues, hcontents⟩ := hdone.release
    obtain rfl := Option.some.inj (cell.symm.trans hn)
    change 3 * (s.done.release p).contents.length +
      (((s.done.release p).store.values n.next).length + 1) <
      3 * s.done.contents.length + s.drain.elim 0 fun d => (s.done.store.values d).length + 1
    rw [at_, hcontents]
    change _ < _ + ((s.done.store.values (some p)).length + 1)
    rw [hvalues, List.length_cons]
    omega
  | drainReturn at_ =>
    refine ⟨rfl, rfl, ?_⟩
    rw [toDeliver, toDeliver, roundsLeft, roundsLeft, at_]
    exact Nat.lt_succ_of_le (Nat.le_add_right _ _)

end PoolSteps

section Steps

variable {mg : MgJson} {s s' : ServerState} {a : Action} {es : List Event}

/-- Every step that brings an answer forward uses up some of the effort. -/
private theorem Step.effort_lt (h : Controlled s) (lists : Lists s.pool) (hm : moves s a)
    (hstep : Step mg s a s' es) : effort s' < effort s := by
  cases hstep with
  | start | conn | reject | call => exact hm.elim
  | @submitting c args part _ _ t es at_ move still =>
    rw [Controlled, at_] at h
    have hcost := part_cost (c := c) lists h.2.2.1 move
    rw [costAfter, if_pos still, ← at_] at hcost
    exact hcost
  | @refused c _ _ _ _ _ _ _ at_ move result | @accepted c _ _ _ _ _ _ at_ move result =>
    rw [Controlled, at_] at h
    have hcost := part_cost (c := c) lists h.2.2.1 move
    rw [costAfter, if_neg (by simp [result]), ← at_] at hcost
    exact hcost
  | @drain t es at_ move =>
    rw [Controlled, at_] at h
    obtain ⟨hwork, hsubmits, hlt⟩ := toDeliver_detach h.2.1 hm move
    change 4 * work t + toDeliver t + 0 < _
    rw [hwork, effort]
    omega
  | @deliver d t at_ move =>
    obtain ⟨hwork, hsubmits, hlt⟩ := toDeliver_next lists move
    change 4 * work t + toDeliver t + callCost s.main (t.submits 0) < _
    rw [hwork, hsubmits, effort]
    omega
  | @drained t at_ move =>
    obtain ⟨hwork, hsubmits, hlt⟩ := toDeliver_next lists move
    change 4 * work t + toDeliver t + 0 < _
    rw [hwork, effort]
    omega
  | @background b t es own move =>
    obtain ⟨w, hw⟩ := Option.isSome_iff_exists.mp hm
    have hwork := Step.work_lt lists (WsWorker.Inversion.Step.of move) hw
    have hdeliver := toDeliver_advance lists hw move
    have hsubmits := (background_frame own move).1
    change 4 * work t + toDeliver t + callCost s.main (t.submits 0) < _
    rw [hsubmits, effort]
    omega

theorem Step.lists (h : Lists s.pool) (hstep : Step mg s a s' es) : Lists s'.pool := by
  cases hstep with
  | conn | reject | call => exact h
  | start _ move | submitting _ move | refused _ move | accepted _ move | drain _ move
  | deliver _ move | drained _ move | background _ move =>
    exact h.keep (WsWorker.Inversion.Step.of move)

/-- The server cannot go on for ever without another message. -/
theorem schedule_length_le {tr₀ tr : List Event} (h : Run (server mg) memoryHolds tr₀ s)
    {as : List Action} (hexec : ((server mg).guard moves).exec s as = some (s', tr)) :
    as.length + effort s' ≤ effort s := by
  refine ((server mg).guard moves).exec_length_le effort
    (fun s => Controlled s ∧ Lists s.pool) (fun _ => True) ?_ ?_
    ⟨run_controlled h, run_lists (run_pool h)⟩ (fun _ _ => trivial) hexec
  · rintro s a t es ⟨hc, hl⟩ _ hstep
    obtain ⟨_, hstep⟩ := Option.ite_none_right_eq_some.mp hstep
    exact ⟨hc.keep (Step.of hstep), Step.lists hl (Step.of hstep)⟩
  · rintro s a t es ⟨hc, hl⟩ _ hstep
    obtain ⟨hm, hstep⟩ := Option.ite_none_right_eq_some.mp hstep
    exact Step.effort_lt hc hl hm (Step.of hstep)

private theorem enabled_background {b : WsWorker.Model.Action} (own : isBackground b = true)
    (enabled : pool.Enabled s.pool b) : (server mg).Enabled s (.background b) := by
  change (background s b).isSome = true
  rw [background, if_pos own, Option.isSome_map]
  exact enabled

private theorem enabled_submit {c : Nat} {args : SubmitArgs} {part : SubmitPart}
    (at_ : s.main = .calling c args) (enabled : pool.Enabled s.pool (part.action args)) :
    (server mg).Enabled s (.submit part true 0) := by
  change (handleCallSubmit s part true 0).isSome = true
  rw [handleCallSubmit, at_]
  exact Option.isSome_map.trans enabled

/-- While the mutex is free, the submit in progress can go on. -/
private theorem submit_goes_on {c : Nat} {args : SubmitArgs} (at_ : s.main = .calling c args)
    (place : s.pool.submits 0 = none ∨ Inside args (s.pool.submits 0))
    (free : s.pool.gMutex = none) : ∃ part, (server mg).Enabled s (.submit part true 0) := by
  rcases place with hnone | hin | ⟨now, hin⟩
  · refine ⟨.init 0, enabled_submit at_ ?_⟩
    change (WsWorker.Model.wsWorkerSubmitInit s.pool 0 args 0).isSome = true
    rw [WsWorker.Model.wsWorkerSubmitInit, if_neg (fun h => h hnone)]
    split
    · rfl
    · rw [if_pos ⟨free, Nat.zero_le _⟩]
      dsimp only
      split <;> rfl
  · refine ⟨.build true, enabled_submit at_ ?_⟩
    change (WsWorker.Model.wsWorkerSubmitBuild s.pool 0 true).isSome = true
    simp [WsWorker.Model.wsWorkerSubmitBuild, hin]
  · obtain ⟨p, hp⟩ := exists_fresh s.pool.jobs.store
    refine ⟨.enqueue p fun _ => true, enabled_submit at_ ?_⟩
    change (WsWorker.Model.wsWorkerSubmitAdmit s.pool 0 p fun _ => true).isSome = true
    have hwake : WsWorker.Model.signals s.pool.threads fun _ => true := by
      rintro ⟨w, hw⟩
      exact ⟨w, hw, rfl⟩
    simp only [WsWorker.Model.wsWorkerSubmitAdmit, hin, free, ne_eq, not_true, if_false]
    split
    · rfl
    · rw [if_pos ⟨hp, hwake⟩]
      rfl

/-- A drain in progress can go on. -/
private theorem drainNext_enabled {p : Pool} (lists : Lists p) (going : p.drain ≠ none) :
    pool.Enabled p .drainNext := by
  obtain ⟨d, hd⟩ := Option.ne_none_iff_exists'.mp going
  change (WsWorker.Model.wsWorkerDrainNext p).isSome = true
  rw [WsWorker.Model.wsWorkerDrainNext, hd]
  cases d with
  | none => rfl
  | some c =>
    have hdone := lists.done
    rw [hd] at hdone
    obtain ⟨n, hcell, _⟩ := hdone.release
    simp [hcell]

/-- When nothing can be brought forward, nothing waits for an answer. -/
theorem settled {tr : List Event} (h : Run (server mg) memoryHolds tr s)
    (stuck : ∀ a, moves s a → ¬(server mg).Enabled s a) :
    s.messages = 0 ∨
      pendingCall s.main = [] ∧ undelivered s.pool = [] ∧ awaiting s.pool = 0 := by
  have hpool := run_pool h
  have life := run_lifecycle hpool
  have lists := run_lists hpool
  have locks := run_locks hpool
  have hcontrol := run_controlled h
  have hadvance : ¬CanAdvance s.pool := by
    rintro ⟨b, w, hb, henabled⟩
    have hown : isBackground b = true := by
      have hworker := advances_worker hb
      cases b <;> first | rfl | cases hworker
    have hmoves : moves s (.background b) := by
      change (Action.advances? b).isSome = true
      rw [hb]; rfl
    exact stuck _ hmoves (enabled_background hown henabled)
  have hfree : s.pool.gMutex = none := by
    cases hm : s.pool.gMutex with
    | none => rfl
    | some w => exact absurd (canAdvance_of_locked lists locks hm) hadvance
  cases hmain : s.main with
  | starting | exited =>
    rw [Controlled, hmain] at hcontrol
    exact Or.inl hcontrol.2.2
  | calling c args =>
    rw [Controlled, hmain] at hcontrol
    obtain ⟨part, henabled⟩ := submit_goes_on hmain hcontrol.1 hfree
    exact absurd henabled (stuck _ trivial)
  | draining =>
    rw [Controlled, hmain] at hcontrol
    refine absurd ?_ (stuck .drainNext trivial)
    change (drainNext s).isSome = true
    rw [drainNext, hmain]
    exact Option.isSome_map.trans (drainNext_enabled lists hcontrol.2.1)
  | idle =>
    rw [Controlled, hmain] at hcontrol
    obtain ⟨_, hquiet, hon⟩ := hcontrol
    refine Or.inr ⟨rfl, ?_, ?_⟩
    · have hempty : s.pool.done.contents = [] := by
        by_contra hmore
        refine stuck .drain hmore ?_
        change (drain s).isSome = true
        rw [drain, hmain]
        refine Option.isSome_map.trans ?_
        change (WsWorker.Model.wsWorkerDrainDetach s.pool).isSome = true
        rw [WsWorker.Model.wsWorkerDrainDetach, if_pos ⟨hfree, hquiet⟩]
        rfl
      rw [undelivered, hquiet, hempty, List.append_nil]
      exact values_none _
    · apply backlog_eq_zero (n := 7) (by decide)
      by_contra hmore
      rcases canAdvance_or_gone life lists locks (run_awake hpool) hmore with hgo | ⟨hstop, _⟩
      · exact hadvance hgo
      · have hrunning := life.running_iff.mpr ⟨hon, run_not_stopping hpool⟩
        cases hrunning.symm.trans hstop

end Steps

end Cyctron.Server.Progress
