/- Cyctron/WsWorker/Serial
   digest: Ownership of g_mutex and of the connection locks, and serial execution. -/

import Cyctron.Machine.Ownership
import Cyctron.WsWorker.Threads

set_option autoImplicit false
set_option relaxedAutoImplicit false

namespace Cyctron.WsWorker.Serial

open Cyctron.WsWorker.Model Cyctron.WsWorker.Inversion Cyctron.WsWorker.Stage
open Cyctron.WsWorker.Threads
open Cyctron.Machine.Labelled (Path Run)
open Cyctron.Machine.Ownership (Owns)

/-- The connection lock that a worker holds. -/
def connLock : Thread → Option Slot
  | .exec job _ _ | .unlockConn job _ _ _ => some (slotOf job.connId)
  | _ => none

def isInside : Thread → Bool
  | .inside _ => true
  | _ => false

/-- The one mutex as a lock of the unit index. -/
def mutexHeld (t : Thread) : Option Unit := if isInside t then some () else none

structure Locks (s : Pool) : Prop where
  mutex : Owns (fun _ => s.gMutex) mutexHeld s.threads
  conn : Owns s.gConnLocks connLock s.threads
  unset : s.gOnce = false → ∀ sl, s.gConnLocks sl = none

section Steps

variable {s s' t : Pool} {a : Action} {es : List Event} {created : Nat} {rc : Int} {w : Worker}

private theorem locks_initial : Locks Pool.initial where
  mutex k w := by simp [Pool.initial, mutexHeld, isInside]
  conn k w := by simp [Pool.initial, connLock]
  unset _ sl := rfl

private theorem mutex_enter {m : Option Worker} {th : Worker → Thread} {u : Thread}
    (h : Owns (fun _ : Unit => m) mutexHeld th) (free : m = none)
    (before : isInside (th w) = false) (after : isInside u = true) :
    Owns (fun _ : Unit => some w) mutexHeld (Function.update th w u) := by
  have ha := h.acquire (k := ()) (i := w) (t := u) free (by simp [mutexHeld, before])
    (by simp [mutexHeld, after])
  convert ha using 1
  funext x
  simp

private theorem mutex_leave {m : Option Worker} {th : Worker → Thread} {u : Thread}
    (h : Owns (fun _ : Unit => m) mutexHeld th) (before : isInside (th w) = true)
    (after : isInside u = false) :
    Owns (fun _ : Unit => none) mutexHeld (Function.update th w u) := by
  have ha := h.release (k := ()) (i := w) (t := u) (by simp [mutexHeld, before])
    (by simp [mutexHeld, after])
  convert ha using 1
  funext x
  simp

private theorem onceLocks_eq (h : Locks s) : onceLocks s = s.gConnLocks := by
  unfold onceLocks
  split
  · rfl
  · rename_i hoff
    funext sl
    exact (h.unset (by simpa using hoff) sl).symm

theorem Locks.init (life : Lifecycle s) (h : Locks s) (out : InitOutcome s created t rc) :
    Locks t := by
  cases out with
  | already | failed =>
    refine ⟨h.mutex, ?_, (by simp)⟩
    have := h.conn
    rwa [← onceLocks_eq h] at this
  | fresh off _ =>
    have hoff := life.all_off (Or.inl off)
    have hstart : ∀ w, startThreads s.threads created w = .lock .dequeue ∨
        startThreads s.threads created w = .off := by
      intro w
      by_cases hw : w.val < created
      · exact Or.inl (by simp [startThreads, hw])
      · exact Or.inr (by simp [startThreads, hw, hoff w])
    refine ⟨h.mutex.congr fun w => ?_, ?_, (by simp)⟩
    · change mutexHeld (startThreads s.threads created w) = _
      rcases hstart w with hw | hw
      · rw [hw, hoff w]; rfl
      · rw [hw, hoff w]
    · have hconn : Owns s.gConnLocks connLock (startThreads s.threads created) := by
        refine h.conn.congr fun w => ?_
        rcases hstart w with hw | hw
        · rw [hw, hoff w]; rfl
        · rw [hw, hoff w]
      rwa [← onceLocks_eq h] at hconn

private theorem wake_congr {κ : Type} {holds : Thread → Option κ} {th : Worker → Thread}
    {wake : Worker → Bool} (hw : holds .wait = holds (.lock .dequeue)) (w : Worker) :
    holds (wakeThreads th wake w) = holds (th w) := by
  rcases wakeThreads_cases th wake w with ⟨h, _, h'⟩ | h
  · rw [h', h, hw]
  · rw [h]

/-- Owners stay owners until they unlock, and locks are taken only when they are free. -/
theorem Locks.keep (life : Lifecycle s) (h : Locks s) (hstep : Step s a s' es) : Locks s' := by
  cases hstep with
  | init _ _ out => exact h.init life out
  | submitUninit _ _ _ out _ => exact h.init life out
  | submitInit _ _ _ _ out =>
    have ht := h.init life out
    exact ⟨ht.mutex, ht.conn, ht.unset⟩
  | accept | shutdownBegin =>
    exact ⟨h.mutex.congr (wake_congr rfl), h.conn.congr (wake_congr rfl), h.unset⟩
  | shutdownJoin _ _ _ gone =>
    exact ⟨h.mutex.move (by rw [gone]; rfl), h.conn.move (by rw [gone]; rfl), h.unset⟩
  | lock at_ free =>
    exact ⟨mutex_enter h.mutex free (by rw [at_]; rfl) rfl, h.conn.move (by rw [at_]; rfl), h.unset⟩
  | park at_ _ _ | exit at_ _ _ | take at_ _ | pushDone at_ _ | recordResult at_ | release at_ =>
    exact ⟨mutex_leave h.mutex (by rw [at_]; rfl) rfl, h.conn.move (by rw [at_]; rfl), h.unset⟩
  | expire at_ _ | pass at_ _ | finish at_ _ | buildNone at_ _ | build at_ _ | buildNoDone at_ _
  | spuriousWake at_ =>
    exact ⟨h.mutex.move (by rw [at_]; rfl), h.conn.move (by rw [at_]; rfl), h.unset⟩
  | lockConn at_ free =>
    have hon := life.once_of_on (by rw [at_]; simp)
    exact ⟨h.mutex.move (by rw [at_]; rfl), h.conn.acquire free (by rw [at_]; rfl) rfl,
      fun hf => absurd (hon.symm.trans hf) (by simp)⟩
  | unlockConn at_ =>
    have hon := life.once_of_on (by rw [at_]; simp)
    exact ⟨h.mutex.move (by rw [at_]; rfl), h.conn.release (by rw [at_]; rfl) rfl,
      fun hf => absurd (hon.symm.trans hf) (by simp)⟩
  | tick | setExec | submitNull | submitBuild | submitNoMem | refuse | drainDetach | drainNext
  | drainReturn | shutdownNothing | shutdownJoined | shutdownCleanup =>
    exact ⟨h.mutex, h.conn, h.unset⟩

theorem run_locks {ok : Pool → Action → Prop} {tr : List Event} (h : Run pool ok tr s) : Locks s :=
  h.invariant_of (fun _ s => Lifecycle s) (fun _ s => Locks s) (fun _ _ hp => run_lifecycle hp)
    locks_initial fun _ _ _ _ _ life hl _ hstep => hl.keep life (Step.of hstep)

end Steps

end Cyctron.WsWorker.Serial
