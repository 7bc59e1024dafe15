/- Cyctron/WsWorker/Flow
   digest: The two lists stay well formed, and jobs and responses move along without loss. -/

import Cyctron.WsWorker.Threads

set_option autoImplicit false
set_option relaxedAutoImplicit false

namespace Cyctron.WsWorker.Flow

open Cyctron.WsWorker.Model Cyctron.WsWorker.Inversion Cyctron.WsWorker.Stage
open Cyctron.WsWorker.Threads
open Cyctron.Machine.Labelled (Path Run)
open Cyctron.Machine.LinkedQueue
open Cyctron.Machine.Holdings (held items held_flow held_update_of_eq)

/-- Nothing is detached from the job list, and from the done list what the drain holds. -/
structure Lists (s : Pool) : Prop where
  jobs : s.jobs.Sound none
  done : s.done.Sound s.drain.join

/-- The responses that are pushed and not yet handed to the callback, the oldest first. -/
def undelivered (s : Pool) : List WsDone :=
  s.done.store.values s.drain.join ++ s.done.contents

section Steps

variable {s s' t : Pool} {a : Action} {es : List Event} {created : Nat} {rc : Int}

private theorem lists_initial : Lists Pool.initial := ⟨sound_empty, sound_empty⟩

theorem InitOutcome.lists (out : InitOutcome s created t rc) :
    t.jobs = s.jobs ∧ t.done = s.done ∧ t.drain = s.drain := by
  cases out <;> exact ⟨rfl, rfl, rfl⟩

private theorem Lists.congr (h : Lists s) (same : t.jobs = s.jobs ∧ t.done = s.done ∧
    t.drain = s.drain) : Lists t := by
  refine ⟨?_, ?_⟩
  · rw [same.1]; exact h.jobs
  · rw [same.2.1, same.2.2]; exact h.done

theorem Lists.keep (h : Lists s) (hstep : Step s a s' es) : Lists s' := by
  cases hstep with
  | init _ _ out | submitUninit _ _ _ out _ => exact h.congr (InitOutcome.lists out)
  | submitInit _ _ _ _ out =>
    have ht := h.congr (InitOutcome.lists out)
    exact ⟨ht.jobs, ht.done⟩
  | accept _ _ _ fresh _ => exact ⟨h.jobs.push fresh, h.done⟩
  | take _ pop => exact ⟨h.jobs.pop pop, h.done⟩
  | pushDone _ fresh => exact ⟨h.jobs, h.done.push fresh⟩
  | drainDetach _ idle =>
    have hdone := h.done
    rw [idle] at hdone
    exact ⟨h.jobs, hdone.detach⟩
  | drainNext at_ cell =>
    have hdone := h.done
    rw [at_] at hdone
    obtain ⟨n, hn, hsound, _⟩ := hdone.release
    rw [cell] at hn
    obtain rfl := Option.some.inj hn
    exact ⟨h.jobs, hsound⟩
  | drainReturn at_ =>
    have hdone := h.done
    rw [at_] at hdone
    exact ⟨h.jobs, hdone⟩
  | shutdownCleanup => exact ⟨h.jobs.clear, h.done.clear⟩
  | _ => exact ⟨h.jobs, h.done⟩

theorem run_lists {ok : Pool → Action → Prop} {tr : List Event} (h : Run pool ok tr s) : Lists s :=
  h.state_invariant Lists lists_initial fun _ _ _ _ hs _ hstep => hs.keep (Step.of hstep)

/-- Jobs leave the queue in the order in which they entered it. -/
theorem Step.jobsFlow (h : Lists s) (hstep : Step s a s' es) :
    s.jobs.contents ++ acceptedJobs es =
      takenJobs es ++ droppedJobs es ++ s'.jobs.contents := by
  cases hstep with
  | init _ _ out | submitUninit _ _ _ out _ =>
    rw [(InitOutcome.lists out).1]
    exact List.append_nil _
  | submitInit _ _ _ _ out =>
    have ht := congrArg Fifo.contents (InitOutcome.lists out).1
    exact (List.append_nil _).trans ht.symm
  | accept _ _ _ fresh _ => exact (contents_push h.jobs fresh).symm
  | take _ pop =>
    rw [contents_pop h.jobs pop]
    exact List.append_nil _
  | shutdownCleanup =>
    change s.jobs.contents ++ [] = [] ++ (s.jobs.contents ++ []) ++ s.jobs.clear.contents
    rw [contents_clear]
    simp
  | _ => exact List.append_nil _

/-- Responses are handed over in the order in which they were pushed. -/
theorem Step.doneFlow (h : Lists s) (hstep : Step s a s' es) (up : a ≠ .shutdownCleanup) :
    undelivered s ++ (pushedEntries es).map Prod.snd = deliveredEntries es ++ undelivered s' := by
  cases hstep with
  | init _ _ out | submitUninit _ _ _ out _ =>
    obtain ⟨_, hdone, hdrain⟩ := InitOutcome.lists out
    rw [undelivered, undelivered, hdone, hdrain]
    exact List.append_nil _
  | @submitInit c _ _ t _ _ _ _ out =>
    obtain ⟨_, hdone, hdrain⟩ := InitOutcome.lists out
    have ht : undelivered t = undelivered s := by rw [undelivered, undelivered, hdone, hdrain]
    exact (List.append_nil _).trans ht.symm
  | @drainDetach _ idle =>
    have hd : s.drain.join = none := by rw [idle]; rfl
    change s.done.store.values s.drain.join ++ s.done.contents ++ [] =
      s.done.contents ++ s.done.detach.contents
    rw [hd, values_none, contents_detach]
    simp
  | @drainNext p n at_ cell =>
    have hd : s.drain.join = some p := by rw [at_]; rfl
    have hdone := h.done
    rw [hd] at hdone
    obtain ⟨n', hn, _, hvalues, hcontents⟩ := hdone.release
    rw [cell] at hn
    obtain rfl := Option.some.inj hn
    change s.done.store.values s.drain.join ++ s.done.contents ++ [] =
      n.val :: ((s.done.release p).store.values n.next ++ (s.done.release p).contents)
    rw [hd, hvalues, hcontents]
    simp
  | drainReturn at_ =>
    have hd : s.drain.join = none := by rw [at_]; rfl
    change s.done.store.values s.drain.join ++ s.done.contents ++ [] =
      s.done.store.values none ++ s.done.contents
    rw [hd]
    simp
  | @pushDone w p o _ fresh =>
    change s.done.store.values s.drain.join ++ s.done.contents ++ [⟨o.job.connId, o.json, o.job.tag⟩] =
      (s.done.push p ⟨o.job.connId, o.json, o.job.tag⟩).store.values s.drain.join ++
        (s.done.push p ⟨o.job.connId, o.json, o.job.tag⟩).contents
    rw [values_push h.done fresh, contents_push h.done fresh, List.append_assoc]
  | shutdownCleanup => exact absurd rfl up
  | _ => exact List.append_nil _

/-- Nobody gains or loses anything but by a worker's own step. -/
theorem Step.held_other {β : Type} {hold : Thread → Option β} (free : IdleFree hold)
    (life : Lifecycle s) (hstep : Step s a s' es) (other : Action.worker? a = none) :
    held hold s'.threads = held hold s.threads := by
  have hinit : ∀ {created : Nat} {t : Pool} {rc : Int}, InitOutcome s created t rc →
      held hold t.threads = held hold s.threads := by
    intro created t rc out
    cases out with
    | already | failed => rfl
    | fresh off _ => exact held_startThreads free created fun w => life.all_off (Or.inl off) w
  cases hstep with
  | init _ _ out | submitUninit _ _ _ out _ => exact hinit out
  | submitInit _ _ _ _ out =>
    have ht := hinit out
    exact ht
  | accept | shutdownBegin => exact held_wakeThreads free
  | shutdownJoin _ _ _ gone => exact held_update_of_eq (by rw [gone, free.off, free.exited])
  | tick | setExec | submitNull | submitBuild | submitNoMem | refuse | drainDetach | drainNext
  | drainReturn | shutdownNothing | shutdownJoined | shutdownCleanup => rfl
  | _ => cases other

private theorem other_events (hstep : Step s a s' es) (other : Action.worker? a = none) :
    takenJobs es = [] ∧ begunJobs es = [] ∧ answeredJobs es = [] ∧ finishedJobs es = [] := by
  cases hstep with
  | init | submitUninit | submitInit | accept | shutdownBegin | shutdownJoin | tick | setExec
  | submitNull | submitBuild | submitNoMem | refuse | drainDetach | drainNext | drainReturn
  | shutdownNothing | shutdownJoined | shutdownCleanup => exact ⟨rfl, rfl, rfl, rfl⟩
  | _ => cases other

private theorem flows (life : Lifecycle s) (hstep : Step s a s' es) :
    held inHand s.threads + ↑(takenJobs es) = held inHand s'.threads + ↑(finishedJobs es) ∧
    held unanswered s.threads + ↑(takenJobs es) = held unanswered s'.threads + ↑(answeredJobs es) ∧
    held unbegun s.threads + ↑(takenJobs es) = held unbegun s'.threads + ↑(begunJobs es) := by
  cases hw : Action.worker? a with
  | none =>
    obtain ⟨htaken, hbegun, hanswered, hfinished⟩ := other_events hstep hw
    have same : ∀ n, held (jobUpTo n) s'.threads = held (jobUpTo n) s.threads :=
      fun n => Step.held_other (idleFree_jobUpTo n) life hstep hw
    rw [htaken, hbegun, hanswered, hfinished, same 7, same 5, same 1]
    exact ⟨rfl, rfl, rfl⟩
  | some w =>
    cases hstep with
    | lock at_ | park at_ | exit at_ | take at_ | expire at_ | pass at_ | lockConn at_ | finish at_
    | unlockConn at_ | buildNone at_ | build at_ | buildNoDone at_ | pushDone at_ | recordResult at_
    | release at_ | spuriousWake at_ =>
      exact ⟨held_flow (by rw [at_]; rfl), held_flow (by rw [at_]; rfl),
        held_flow (by rw [at_]; rfl)⟩
    | _ => cases hw

/-- Every job in a worker's hands was taken and is not finished. -/
theorem Step.handFlow (life : Lifecycle s) (hstep : Step s a s' es) :
    held inHand s.threads + ↑(takenJobs es) = held inHand s'.threads + ↑(finishedJobs es) :=
  (flows life hstep).1

/-- Every job that was taken is answered or still on its way to its answer. -/
theorem Step.answerFlow (life : Lifecycle s) (hstep : Step s a s' es) :
    held unanswered s.threads + ↑(takenJobs es) =
      held unanswered s'.threads + ↑(answeredJobs es) :=
  (flows life hstep).2.1

/-- Every job that was taken has begun or is about to. -/
theorem Step.beginFlow (life : Lifecycle s) (hstep : Step s a s' es) :
    held unbegun s.threads + ↑(takenJobs es) = held unbegun s'.threads + ↑(begunJobs es) :=
  (flows life hstep).2.2

end Steps

end Cyctron.WsWorker.Flow
