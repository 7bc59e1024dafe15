/- Cyctron/WsWorker/Locals
   digest: What a worker's locals say about its job, and what every pushed response is. -/

import Cyctron.WsWorker.Flow

set_option autoImplicit false
set_option relaxedAutoImplicit false

namespace Cyctron.WsWorker.Locals

open Cyctron.Base.CString (Bytes)
open Cyctron.WsWorker.Model Cyctron.WsWorker.Inversion Cyctron.WsWorker.Stage
open Cyctron.WsWorker.Threads Cyctron.WsWorker.Flow
open Cyctron.Machine.Labelled (Path Run)
open Cyctron.Machine.LinkedQueue

/-- The text is a response that the worker builds for the job, timed out or not. -/
def Answers (job : WsJob) (late : Bool) (json : Bytes) : Prop :=
  ∃ mem elapsed rc out now, (response mem job elapsed late rc out now).json = some json

def SensibleSection : CriticalSection → Prop
  | .pushDone o => Answers o.job o.timedOut o.json
  | _ => True

/-- The locals of a worker at a clock reading: the job was submitted before the round's start,
and the timeout flag is the outcome of the test at the start. -/
def Sensible (clock : Nat) : Thread → Prop
  | .taken job => job.submitMs ≤ clock
  | .lockConn job start | .exec job start _ | .unlockConn job start _ _ =>
    job.submitMs ≤ start ∧ start ≤ clock ∧ ¬timedOut job start
  | .ended job start late _ _ =>
    job.submitMs ≤ start ∧ start ≤ clock ∧ (late = true ↔ timedOut job start)
  | .lock k | .inside k => SensibleSection k
  | .off | .wait | .exited => True

structure Dated (s : Pool) : Prop where
  clock : s.clock < 2 ^ 63
  built : ∀ c job, s.submits c = some (.built job) → job.submitMs ≤ s.clock
  queued : ∀ job ∈ s.jobs.contents, job.submitMs ≤ s.clock
  threads : ∀ w, Sensible s.clock (s.threads w)

/-- With sensible clock readings the machine arithmetic of the timeout test is exact. -/
theorem timedOut_iff {job : WsJob} {start : Nat} (le : job.submitMs ≤ start)
    (fits : start < 2 ^ 63) :
    timedOut job start ↔ 0 < job.timeoutMs ∧ (job.submitMs : Int) + job.timeoutMs < start := by
  have hsub : sub64 start job.submitMs = start - job.submitMs := by
    rw [sub64, Nat.add_comm, Nat.add_sub_assoc le, Nat.add_mod_left, Nat.mod_eq_of_lt (by omega)]
  have hlong : toLong (start - job.submitMs) = (start : Int) - job.submitMs := by
    rw [toLong, if_pos (by omega)]
    omega
  rw [timedOut, hsub, hlong]
  omega

section Steps

variable {s s' t : Pool} {a : Action} {es : List Event} {created : Nat} {rc : Int} {w : Worker}

private theorem Sensible.mono {c c' : Nat} {t : Thread} (h : Sensible c t) (le : c ≤ c') :
    Sensible c' t := by
  cases t with
  | taken job => exact Nat.le_trans h le
  | lockConn | exec | unlockConn | ended => exact ⟨h.1, Nat.le_trans h.2.1 le, h.2.2⟩
  | _ => exact h

private theorem sensible_wake {th : Worker → Thread} {wake : Worker → Bool} {clock : Nat}
    (h : ∀ w, Sensible clock (th w)) (w : Worker) : Sensible clock (wakeThreads th wake w) := by
  rcases wakeThreads_cases th wake w with ⟨_, _, hw⟩ | hw
  · rw [hw]; exact trivial
  · rw [hw]; exact h w

private theorem sensible_update {th : Worker → Thread} {clock : Nat} {t : Thread}
    (h : ∀ w, Sensible clock (th w)) (ht : Sensible clock t) (v : Worker) :
    Sensible clock (Function.update th w t v) := by
  by_cases hv : v = w
  · subst hv; simpa using ht
  · simpa [hv] using h v

private theorem dated_initial : Dated Pool.initial where
  clock := by decide
  built := by
    intro c job h
    cases h
  queued := by
    intro job h
    cases h
  threads _ := trivial

private theorem Dated.init (h : Dated s) (out : InitOutcome s created t rc) : Dated t := by
  cases out with
  | already | failed => exact ⟨h.clock, h.built, h.queued, h.threads⟩
  | fresh =>
    refine ⟨h.clock, h.built, h.queued, fun w => ?_⟩
    change Sensible s.clock (startThreads s.threads created w)
    unfold startThreads
    split
    · exact trivial
    · exact h.threads w

/-- Only one caller moves, and to a place where it has no job with a later date. -/
private theorem built_update {sub : Nat → Option Submitting} {clock c : Nat}
    {place : Option Submitting}
    (h : ∀ c job, sub c = some (.built job) → job.submitMs ≤ clock)
    (hp : ∀ job, place = some (.built job) → job.submitMs ≤ clock) (c' : Nat) (job : WsJob)
    (hc : Function.update sub c place c' = some (.built job)) : job.submitMs ≤ clock := by
  by_cases he : c' = c
  · subst he
    exact hp job (by simpa using hc)
  · exact h c' job (by simpa [he] using hc)

theorem Dated.keep (lists : Lists s) (h : Dated s) (hstep : Step s a s' es) : Dated s' := by
  have moved : ∀ {w : Worker} {t : Thread}, Sensible s.clock t → ∀ v,
      Sensible s.clock (Function.update s.threads w t v) :=
    fun ht v => sensible_update h.threads ht v
  cases hstep with
  | tick later fits =>
    refine ⟨fits, fun c job hc => Nat.le_trans (h.built c job hc) later,
      fun job hj => Nat.le_trans (h.queued job hj) later, fun w => (h.threads w).mono later⟩
  | init _ _ out | submitUninit _ _ _ out _ => exact h.init out
  | submitInit _ _ _ _ out =>
    have ht := h.init out
    exact ⟨ht.clock, built_update ht.built (by simp), ht.queued, ht.threads⟩
  | submitBuild =>
    refine ⟨h.clock, built_update h.built fun job hj => ?_, h.queued, h.threads⟩
    obtain rfl := Submitting.built.inj (Option.some.inj hj)
    exact Nat.le_refl _
  | submitNoMem | refuse => exact ⟨h.clock, built_update h.built (by simp), h.queued, h.threads⟩
  | accept at_ _ _ fresh _ =>
    refine ⟨h.clock, built_update h.built (by simp), fun job hj => ?_, sensible_wake h.threads⟩
    have hj' := hj
    rw [contents_push lists.jobs fresh, List.mem_append, List.mem_singleton] at hj'
    rcases hj' with hj' | rfl
    · exact h.queued job hj'
    · exact h.built _ _ at_
  | shutdownBegin => exact ⟨h.clock, h.built, h.queued, sensible_wake h.threads⟩
  | shutdownJoin => exact ⟨h.clock, h.built, h.queued, moved trivial⟩
  | shutdownCleanup =>
    refine ⟨h.clock, h.built, fun job hj => ?_, h.threads⟩
    have hc : s.jobs.clear.contents = [] := contents_clear
    rw [hc] at hj
    exact absurd hj List.not_mem_nil
  | take _ pop =>
    have hc := contents_pop lists.jobs pop
    refine ⟨h.clock, h.built, fun job hj => h.queued job ?_, moved (h.queued _ ?_)⟩
    · rw [hc]; exact List.mem_cons_of_mem _ hj
    · rw [hc]; exact List.mem_cons_self
  | @lock w k at_ =>
    have ht := h.threads w
    rw [at_] at ht
    exact ⟨h.clock, h.built, h.queued, moved ht⟩
  | @expire w job at_ late =>
    have ht := h.threads w
    rw [at_] at ht
    exact ⟨h.clock, h.built, h.queued, moved ⟨ht, Nat.le_refl _, fun _ => late, fun _ => rfl⟩⟩
  | @pass w job at_ inTime =>
    have ht := h.threads w
    rw [at_] at ht
    exact ⟨h.clock, h.built, h.queued, moved ⟨ht, Nat.le_refl _, inTime⟩⟩
  | @lockConn w _ _ at_ | @finish w _ _ _ _ _ at_ =>
    have ht := h.threads w
    rw [at_] at ht
    exact ⟨h.clock, h.built, h.queued, moved ht⟩
  | @unlockConn w _ _ _ _ at_ =>
    have ht := h.threads w
    rw [at_] at ht
    exact ⟨h.clock, h.built, h.queued,
      moved ⟨ht.1, ht.2.1, (by simp), fun late => absurd late ht.2.2⟩⟩
  | build _ resp => exact ⟨h.clock, h.built, h.queued, moved ⟨_, _, _, _, _, resp⟩⟩
  | park | exit | buildNone | buildNoDone | pushDone | recordResult | release | spuriousWake =>
    exact ⟨h.clock, h.built, h.queued, moved trivial⟩
  | _ => exact ⟨h.clock, h.built, h.queued, h.threads⟩

theorem run_dated {ok : Pool → Action → Prop} {tr : List Event} (h : Run pool ok tr s) : Dated s :=
  h.invariant_of (fun _ s => Lists s) (fun _ s => Dated s) (fun _ _ hp => run_lists hp)
    dated_initial fun _ _ _ _ _ lists hd _ hstep => hd.keep lists (Step.of hstep)

/-- Every pushed response is one for its job, and goes to the connection that submitted it. -/
theorem run_pushed {ok : Pool → Action → Prop} {tr : List Event} (h : Run pool ok tr s)
    {job : WsJob} {late : Bool} {d : WsDone} (hpushed : Event.pushed job late d ∈ tr) :
    d.connId = job.connId ∧ d.tag = job.tag ∧ Answers job late d.json := by
  revert hpushed
  refine h.invariant_of (fun _ s => Dated s)
    (fun tr _ => Event.pushed job late d ∈ tr →
      d.connId = job.connId ∧ d.tag = job.tag ∧ Answers job late d.json)
    (fun _ _ hp => run_dated hp) (fun hmem => absurd hmem List.not_mem_nil)
    fun tr t a t' es dated ih _ hstep hmem => ?_
  rcases List.mem_append.mp hmem with hmem | hmem
  · exact ih hmem
  cases Step.of hstep with
  | @pushDone w p o at_ fresh =>
    obtain ⟨rfl, rfl, rfl⟩ := Event.pushed.inj (List.mem_singleton.mp hmem)
    have ht := dated.threads w
    rw [at_] at ht
    exact ⟨rfl, rfl, ht⟩
  | _ => simp at hmem

end Steps

end Cyctron.WsWorker.Locals
