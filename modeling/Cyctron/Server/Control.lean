/- Cyctron/Server/Control
   digest: Where the main thread stands in the pool, and server runs as runs of the pool. -/

import Cyctron.Server.Inversion
import Cyctron.WsWorker.Delivery

set_option autoImplicit false
set_option relaxedAutoImplicit false

namespace Cyctron.Server.Control

open Cyctron.Base.CString Cyctron.Call.Protocol Cyctron.Server.Connections Cyctron.Server.Model
open Cyctron.Server.Inversion
open Cyctron.WsWorker.Model (Pool SubmitArgs Submitting WsDone newJob wsWorkerInit pool)
open Cyctron.WsWorker.Inversion (InitOutcome initOutcome)
open Cyctron.WsWorker.Stage (Action.worker? acceptedJobs)
open Cyctron.WsWorker.Delivery (serving Step.serves_on)
open Cyctron.Machine.Labelled (Path Run)

def Event.received? : Event → Option Nat
  | .received n _ => some n
  | _ => none

def Event.responded? : Event → Option Nat
  | .responded n _ => some n
  | _ => none

def Event.pool? : Event → Option WsWorker.Model.Event
  | .pool e => some e
  | _ => none

def receivedNumbers (tr : List Event) : List Nat := tr.filterMap Event.received?
def respondedNumbers (tr : List Event) : List Nat := tr.filterMap Event.responded?
def poolTrace (tr : List Event) : List WsWorker.Model.Event := tr.filterMap Event.pool?

/-- Every allocation of the step succeeds. -/
def memoryHolds (_ : ServerState) : Action → Prop
  | .message _ _ mem respMem _ => mem.argsCopy = true ∧ mem.dfltCopy = true ∧ respMem = true
  | .submit (.build mem) respMem _ => mem = true ∧ respMem = true
  | .submit _ respMem _ => respMem = true
  | .background (.build _ respMem doneMem _) => respMem = true ∧ doneMem = true
  | _ => True

instance (s : ServerState) (a : Action) : Decidable (memoryHolds s a) := by
  unfold memoryHolds; split <;> infer_instance

/-- A caller that is inside `ws_worker_submit` for the given arguments. -/
def Inside (a : SubmitArgs) (place : Option Submitting) : Prop :=
  place = some (.inited a) ∨ ∃ now, place = some (.built (newJob a now))

/-- What the place of the main thread says about the rest of the server. -/
def Standing (conns : ConnState) (p : Pool) (messages : Nat) : Main → Prop
  | .starting | .exited => p.submits 0 = none ∧ p.drain = none ∧ messages = 0
  | .idle => p.submits 0 = none ∧ p.drain = none ∧ p.gInited = true
  | .calling c a => (p.submits 0 = none ∨ Inside a (p.submits 0)) ∧ p.drain = none ∧
    p.gInited = true ∧ ∃ k, conns.conns c = some k ∧ k.id = a.connId ∧ k.isWebsocket = true
  | .draining => p.submits 0 = none ∧ p.drain ≠ none ∧ p.gInited = true

abbrev Controlled (s : ServerState) : Prop := Standing s.conns s.pool s.messages s.main

section Traces

variable {x y : List Event} {es : List WsWorker.Model.Event} {s : ConnState} {c n : Nat}
  {data : Bytes} {id : Option Bytes} {code now : Int} {d : WsDone}

@[simp] theorem receivedNumbers_append :
    receivedNumbers (x ++ y) = receivedNumbers x ++ receivedNumbers y :=
  List.filterMap_append

@[simp] theorem respondedNumbers_append :
    respondedNumbers (x ++ y) = respondedNumbers x ++ respondedNumbers y :=
  List.filterMap_append

@[simp] theorem poolTrace_append : poolTrace (x ++ y) = poolTrace x ++ poolTrace y :=
  List.filterMap_append

@[simp] theorem receivedNumbers_pool : receivedNumbers (es.map .pool) = [] := by
  rw [receivedNumbers, List.filterMap_map]
  exact List.filterMap_eq_nil_iff.mpr fun _ _ => rfl

@[simp] theorem respondedNumbers_pool : respondedNumbers (es.map .pool) = [] := by
  rw [respondedNumbers, List.filterMap_map]
  exact List.filterMap_eq_nil_iff.mpr fun _ _ => rfl

@[simp] theorem poolTrace_pool : poolTrace (es.map .pool) = es := by
  rw [poolTrace, List.filterMap_map]
  exact List.filterMap_some

theorem traces_received {id : Nat} : receivedNumbers (.received n id :: x) = n :: receivedNumbers x ∧
    respondedNumbers (.received n id :: x) = respondedNumbers x ∧
    poolTrace (.received n id :: x) = poolTrace x := ⟨rfl, rfl, rfl⟩

theorem traces_delivered : receivedNumbers (.pool (.delivered d) :: x) = receivedNumbers x ∧
    respondedNumbers (.pool (.delivered d) :: x) = respondedNumbers x ∧
    poolTrace (.pool (.delivered d) :: x) = .delivered d :: poolTrace x := ⟨rfl, rfl, rfl⟩

theorem not_received {id : Nat} (h : receivedNumbers x = []) : .received n id ∉ x := by
  intro hmem
  have hn : n ∈ receivedNumbers x := List.mem_filterMap.mpr ⟨_, hmem, rfl⟩
  rw [h] at hn
  cases hn

theorem not_responded {json : Bytes} (h : respondedNumbers x = []) : .responded n json ∉ x := by
  intro hmem
  have hn : n ∈ respondedNumbers x := List.mem_filterMap.mpr ⟨_, hmem, rfl⟩
  rw [h] at hn
  cases hn

theorem eventPushTo_cases : eventPushTo s c data = [] ∨
    ∃ connId, eventPushTo s c data = [.sent connId data] := by
  unfold eventPushTo
  split
  · split
    · exact Or.inr ⟨_, rfl⟩
    · exact Or.inl rfl
  · exact Or.inl rfl

theorem eventPushTo_live {k : MgConnection} (live : s.conns c = some k)
    (ws : k.isWebsocket = true) : eventPushTo s c data = [.sent k.id data] := by
  simp [eventPushTo, live, ws]

private theorem wsCallDone_cases : (wsCallDone s d).2 = [] ∨
    ∃ e, (wsCallDone s d).2 = [e] ∧ Event.received? e = none ∧ Event.responded? e = none ∧
      Event.pool? e = none := by
  unfold wsCallDone
  dsimp only
  split
  · rename_i c _
    rcases @eventPushTo_cases (wsConnFind s d.connId).1 c d.json with h | ⟨connId, h⟩
    · exact Or.inl h
    · exact Or.inr ⟨_, h, rfl, rfl, rfl⟩
  · exact Or.inr ⟨_, rfl, rfl, rfl, rfl⟩

/-- With memory, `handle_call` builds one response and pushes it. -/
theorem respond_eq {message : Bytes} : ∃ json, IsCallResponse json ∧
    respond s c n true id code message now = .responded n json :: eventPushTo s c json := by
  have hsome : (wsCallBuildError true id code (some message) now).2.json ≠ none :=
    Option.some_ne_none _
  obtain ⟨json, hjson⟩ := Option.ne_none_iff_exists'.mp hsome
  refine ⟨json, wsCallBuildError_response hjson, ?_⟩
  have hrc : (wsCallBuildError true id code (some message) now).1 = 0 := rfl
  rw [respond, if_pos hrc, hjson]

theorem traces_respond {message : Bytes} :
    receivedNumbers (respond s c n true id code message now) = [] ∧
    respondedNumbers (respond s c n true id code message now) = [n] ∧
    poolTrace (respond s c n true id code message now) = [] := by
  obtain ⟨json, _, hrespond⟩ := @respond_eq s c n id code now message
  rw [hrespond]
  rcases @eventPushTo_cases s c json with h | ⟨connId, h⟩ <;> rw [h] <;> exact ⟨rfl, rfl, rfl⟩

/-- Responses are no events of the pool. -/
private theorem poolTrace_respond {mem : Bool} {message : Bytes} :
    poolTrace (respond s c n mem id code message now) = [] := by
  cases mem with
  | false => rfl
  | true => exact traces_respond.2.2

theorem traces_wsCallDone : receivedNumbers (wsCallDone s d).2 = [] ∧
    respondedNumbers (wsCallDone s d).2 = [] ∧ poolTrace (wsCallDone s d).2 = [] := by
  rcases @wsCallDone_cases s d with h | ⟨e, h, hr, ha, hp⟩
  · rw [h]; exact ⟨rfl, rfl, rfl⟩
  · rw [h]
    refine ⟨?_, ?_, ?_⟩
    · rw [receivedNumbers, List.filterMap_cons_none hr]; rfl
    · rw [respondedNumbers, List.filterMap_cons_none ha]; rfl
    · rw [poolTrace, List.filterMap_cons_none hp]; rfl

end Traces

section PoolSteps

variable {s t : Pool} {es : List WsWorker.Model.Event} {a : SubmitArgs} {part : SubmitPart}
  {b : WsWorker.Model.Action}

/-- What one critical section of the submit shows of its result. -/
theorem part_events (move : pool.step s (part.action a) = some (t, es)) :
    (es = [] ∧ submitResult es = none) ∨
    (acceptedJobs es = [] ∧ submitResult es = some (-1)) ∨
    ∃ job, es = [.accepted job] ∧ s.submits 0 = some (.built job) := by
  cases part with
  | init =>
    cases WsWorker.Inversion.Step.of move with
    | submitNull | submitUninit => exact Or.inr (Or.inl ⟨rfl, rfl⟩)
    | submitInit => exact Or.inl ⟨rfl, rfl⟩
  | build =>
    cases WsWorker.Inversion.Step.of move with
    | submitBuild => exact Or.inl ⟨rfl, rfl⟩
    | submitNoMem => exact Or.inr (Or.inl ⟨rfl, rfl⟩)
  | enqueue =>
    cases WsWorker.Inversion.Step.of move with
    | refuse => exact Or.inr (Or.inl ⟨rfl, rfl⟩)
    | accept at_ => exact Or.inr (Or.inr ⟨_, rfl, at_⟩)

theorem init_frame {created : Nat} {rc : Int} (out : InitOutcome s created t rc) :
    t.submits = s.submits ∧ t.drain = s.drain := by
  cases out <;> exact ⟨rfl, rfl⟩

/-- The submit goes on for its arguments, and ends when it has a result. -/
theorem part_frame (place : s.submits 0 = none ∨ Inside a (s.submits 0))
    (move : pool.step s (part.action a) = some (t, es)) :
    t.drain = s.drain ∧ (t.submits 0 = none ∨ submitResult es = none ∧ Inside a (t.submits 0)) := by
  cases part with
  | init =>
    cases WsWorker.Inversion.Step.of move with
    | submitNull idle => exact ⟨rfl, Or.inl idle⟩
    | submitUninit idle _ _ out =>
      obtain ⟨hsubmits, hdrain⟩ := init_frame out
      exact ⟨hdrain, Or.inl (by rw [hsubmits]; exact idle)⟩
    | submitInit _ _ _ _ out =>
      have hdrain := (init_frame out).2
      exact ⟨hdrain, Or.inr ⟨rfl, Or.inl (by simp)⟩⟩
  | build =>
    cases WsWorker.Inversion.Step.of move with
    | @submitBuild _ a' at_ =>
      refine ⟨rfl, Or.inr ⟨rfl, Or.inr ⟨s.clock, ?_⟩⟩⟩
      obtain rfl : a' = a := by
        rcases place with h | h | ⟨now, h⟩
        · cases at_.symm.trans h
        · exact Submitting.inited.inj (Option.some.inj (at_.symm.trans h))
        · cases Option.some.inj (at_.symm.trans h)
      simp
    | submitNoMem => exact ⟨rfl, Or.inl (by simp)⟩
  | enqueue =>
    cases WsWorker.Inversion.Step.of move with
    | refuse | accept => exact ⟨rfl, Or.inl (by simp)⟩

/-- A worker or the clock touches neither the submit nor the drain. -/
theorem background_frame (own : isBackground b = true) (move : pool.step s b = some (t, es)) :
    t.submits = s.submits ∧ t.drain = s.drain ∧ t.gInited = s.gInited ∧ acceptedJobs es = [] := by
  cases hw : Action.worker? b with
  | some w =>
    obtain ⟨u, f⟩ := WsWorker.Stage.Step.workerFrame (WsWorker.Inversion.Step.of move) hw
    refine ⟨f.submits, f.drain, f.inited, ?_⟩
    cases WsWorker.Inversion.Step.of move with
    | init | submitNull | submitUninit | submitInit | submitBuild | submitNoMem | refuse | accept
    | drainDetach | drainNext | drainReturn | shutdownBegin | shutdownNothing | shutdownJoin
    | shutdownJoined | shutdownCleanup | tick | setExec => cases hw
    | _ => rfl
  | none =>
    cases WsWorker.Inversion.Step.of move with
    | tick => exact ⟨rfl, rfl, rfl, rfl⟩
    | init | submitNull | submitUninit | submitInit | submitBuild | submitNoMem | refuse | accept
    | drainDetach | drainNext | drainReturn | shutdownBegin | shutdownNothing | shutdownJoin
    | shutdownJoined | shutdownCleanup | setExec => cases own
    | _ => cases hw

end PoolSteps

section Steps

variable {mg : MgJson} {s s' : ServerState} {a : Action} {es tr : List Event}

/-- The pool of a server that has memory serves: nobody shuts it down. -/
private theorem serving_of_own {b : WsWorker.Model.Action} (own : isBackground b = true)
    (mem : memoryHolds s (.background b)) : serving s.pool b := by
  cases b with
  | shutdownBegin | shutdownJoin | shutdownCleanup => cases own
  | build => exact mem
  | _ => exact trivial

theorem respMem_of_submit {part : SubmitPart} {respMem : Bool} {now : Int}
    (mem : memoryHolds s (.submit part respMem now)) : respMem = true := by
  cases part with
  | build => exact mem.2
  | init | enqueue => exact mem

private theorem serving_part {part : SubmitPart} {args : SubmitArgs} :
    serving s.pool (part.action args) := by
  cases part <;> exact trivial

/-- What a step of the server does in the pool: the initialisation, a part of the submit, a part of
the drain, or what the workers and the clock do of their own. -/
inductive PoolMove (a : Action) : WsWorker.Model.Action → Prop
  | init {created : Nat} : PoolMove a (.init created)
  | part {part : SubmitPart} {args : SubmitArgs} : PoolMove a (part.action args)
  | drainDetach : PoolMove a .drainDetach
  | drainNext : PoolMove a .drainNext
  | own {b : WsWorker.Model.Action} (own : isBackground b = true) (act : a = .background b) :
      PoolMove a b

/-- What a step shows of the pool is one step of the pool, or nothing moves in it. -/
theorem Step.pool_move (hstep : Step mg s a s' es) : (poolTrace es = [] ∧ s'.pool = s.pool) ∨
    ∃ b, PoolMove a b ∧ pool.step s.pool b = some (s'.pool, poolTrace es) := by
  cases hstep with
  | conn | call => exact Or.inl ⟨rfl, rfl⟩
  | reject => exact Or.inl ⟨poolTrace_respond, rfl⟩
  | start _ move =>
    rw [poolTrace_pool]
    exact Or.inr ⟨_, .init, move⟩
  | drain _ move =>
    rw [poolTrace_pool]
    exact Or.inr ⟨_, .drainDetach, move⟩
  | submitting _ move | accepted _ move =>
    rw [poolTrace_pool]
    exact Or.inr ⟨_, .part, move⟩
  | refused _ move =>
    rw [poolTrace_append, poolTrace_pool, poolTrace_respond, List.append_nil]
    exact Or.inr ⟨_, .part, move⟩
  | @deliver d _ _ move =>
    rw [traces_delivered.2.2, traces_wsCallDone.2.2]
    exact Or.inr ⟨_, .drainNext, move⟩
  | drained _ move => exact Or.inr ⟨_, .drainNext, move⟩
  | background own move =>
    rw [poolTrace_pool]
    exact Or.inr ⟨_, .own own rfl, move⟩

private theorem Step.pool_path (mem : memoryHolds s a) (hstep : Step mg s a s' es) :
    Path pool serving s.pool (poolTrace es) s'.pool := by
  rcases Step.pool_move hstep with ⟨hes, hpool⟩ | ⟨b, move, hmove⟩
  · rw [hes, hpool]
    exact .refl
  · refine .single ?_ hmove
    cases move with
    | part => exact serving_part
    | own own act => exact serving_of_own own (act ▸ mem)
    | _ => exact trivial

/-- A run of the server is a run of the pool that serves. -/
theorem run_pool (h : Run (server mg) memoryHolds tr s) : Run pool serving (poolTrace tr) s.pool :=
  h.project ServerState.pool poolTrace rfl (fun _ _ => poolTrace_append)
    fun _ _ _ _ mem hstep => Step.pool_path mem (Step.of hstep)

/-- Marking a connection as closing changes nothing else about it. -/
private theorem mark_live {conns conns' : ConnState} {b : ConnAction} {c : Nat} {k : MgConnection}
    (mark : isMark b = true) (move : conns.step b = some conns') (live : conns.conns c = some k) :
    ∃ k', conns'.conns c = some k' ∧ k'.id = k.id ∧ k'.isWebsocket = k.isWebsocket := by
  cases b with
  | setClosing d =>
    simp only [ConnState.step, setClosing, Option.map_eq_some_iff] at move
    obtain ⟨_, _, rfl⟩ := move
    obtain ⟨k', hk', rfl | rfl⟩ := modify_of_some live d fun k => { k with isClosing := true }
    · exact ⟨k', hk', rfl, rfl⟩
    · exact ⟨{ k with isClosing := true }, hk', rfl, rfl⟩
  | _ => cases mark

private theorem standing_conn {conns conns' : ConnState} {p : Pool} {n : Nat} {m : Main}
    {b : ConnAction} (h : Standing conns p n m) (free : m = .idle ∨ isMark b = true)
    (move : conns.step b = some conns') : Standing conns' p n m := by
  cases m with
  | calling c args =>
    obtain ⟨hplace, hdrain, hon, k, hlive, hid, hws⟩ := h
    have hmark := free.resolve_left (by simp)
    obtain ⟨k', hlive', hid', hws'⟩ := mark_live hmark move hlive
    exact ⟨hplace, hdrain, hon, k', hlive', hid'.trans hid, hws'.trans hws⟩
  | starting | idle | draining | exited => exact h

private theorem standing_background {conns : ConnState} {p q : Pool} {n : Nat} {m : Main}
    (h : Standing conns p n m) (submits : q.submits = p.submits) (drain : q.drain = p.drain)
    (inited : q.gInited = p.gInited) : Standing conns q n m := by
  cases m <;> simpa only [Standing, submits, drain, inited] using h

private theorem controlled_initial : Controlled ServerState.initial := ⟨rfl, rfl, rfl⟩

theorem Controlled.keep (h : Controlled s) (hstep : Step mg s a s' es) : Controlled s' := by
  cases hstep with
  | @start created t es at_ move state =>
    have out := initOutcome s.pool created
    rw [Controlled, at_] at h
    rw [← state] at out
    obtain ⟨hsubmits, hdrain⟩ := init_frame out
    obtain ⟨hnone, hquiet, hzero⟩ := h
    rw [← hsubmits] at hnone
    rw [← hdrain] at hquiet
    dsimp only [Controlled]
    split
    · rename_i hrc
      rw [hrc] at out
      exact ⟨hnone, hquiet, out.inited⟩
    · exact ⟨hnone, hquiet, hzero⟩
  | conn free move => exact standing_conn h free move
  | reject at_ =>
    rw [Controlled, at_] at h
    change Standing s.conns s.pool (s.messages + 1) s.main
    rw [at_]
    exact h
  | @call c k _ _ _ _ args at_ live ws from_ =>
    rw [Controlled, at_] at h
    exact ⟨Or.inl h.1, h.2.1, h.2.2, k, live, from_.symm, ws⟩
  | @submitting c args part _ _ t es at_ move still =>
    rw [Controlled, at_] at h
    obtain ⟨hplace, hquiet, hon, hlive⟩ := h
    obtain ⟨hdrain, hin⟩ := part_frame hplace move
    change Standing s.conns t s.messages s.main
    rw [at_]
    refine ⟨hin.imp_right And.right, hdrain.trans hquiet, ?_, hlive⟩
    exact Step.serves_on serving_part hon (WsWorker.Inversion.Step.of move)
  | @refused _ _ _ _ _ _ t _ at_ move result | @accepted _ _ _ _ _ t _ at_ move result =>
    rw [Controlled, at_] at h
    obtain ⟨hplace, hquiet, hon, _⟩ := h
    obtain ⟨hdrain, hin⟩ := part_frame hplace move
    refine ⟨?_, hdrain.trans hquiet, ?_⟩
    · rcases hin with hnone | ⟨still, _⟩
      · exact hnone
      · cases result.symm.trans still
    · exact Step.serves_on serving_part hon (WsWorker.Inversion.Step.of move)
  | drain at_ move =>
    rw [Controlled, at_] at h
    cases WsWorker.Inversion.Step.of move with
    | drainDetach => exact ⟨h.1, (by simp), h.2.2⟩
  | @deliver d t at_ move =>
    rw [Controlled, at_] at h
    change Standing (wsCallDone s.conns d).1 t s.messages s.main
    rw [at_]
    cases WsWorker.Inversion.Step.of move with
    | drainNext => exact ⟨h.1, (by simp), h.2.2⟩
  | drained at_ move =>
    rw [Controlled, at_] at h
    cases WsWorker.Inversion.Step.of move with
    | drainReturn => exact ⟨h.1, rfl, h.2.2⟩
  | background own move =>
    obtain ⟨hsubmits, hdrain, hinited, _⟩ := background_frame own move
    exact standing_background h hsubmits hdrain hinited

theorem run_controlled {ok : ServerState → Action → Prop} (h : Run (server mg) ok tr s) :
    Controlled s :=
  h.state_invariant Controlled controlled_initial fun _ _ _ _ hc _ hstep => hc.keep (Step.of hstep)

end Steps

end Cyctron.Server.Control
