/- Cyctron/Server/Model
   digest: The server: its main loop with handle_call and the drain, beside the worker pool. -/

import Cyctron.Server.Connections
import Cyctron.WsWorker.Stage

set_option autoImplicit false
set_option relaxedAutoImplicit false

namespace Cyctron.Server.Model

open Cyctron.Base.CString Cyctron.Call.Protocol Cyctron.Server.Connections
open Cyctron.WsWorker.Model (Pool SubmitArgs WsDone Worker wsWorkerInit wsWorkerInitCall pool)
open Cyctron.Machine.Labelled (System)

/-- Where the main thread stands. In `calling` it is in `ws_worker_submit`, called for the
connection at address `c`; the tag of the arguments is the number of the message. -/
inductive Main
  | starting
  | idle
  | calling (c : Nat) (a : SubmitArgs)
  | draining
  | exited
  deriving DecidableEq

/-- The number of messages is not in the source; it names them. -/
structure ServerState where
  conns : ConnState
  pool : Pool
  main : Main
  messages : Nat

def ServerState.initial : ServerState := ⟨.initial, .initial, .starting, 0⟩

/-- What a run shows: message `n` reaches `handle_call`, `handle_call` builds a response to it,
a text frame goes out on the connection with a number, `ws_call_done` drops an entry, and the
events of the pool. `delivered` of the pool is the call of `ws_call_done`. -/
inductive Event
  | received (n : Nat) (connId : Nat)
  | responded (n : Nat) (json : Bytes)
  | sent (connId : Nat) (json : Bytes)
  | dropped (d : WsDone)
  | pool (e : WsWorker.Model.Event)
  deriving DecidableEq

abbrev Outcomes := Option (ServerState × List Event)

/-- `event_push_to` -/
def eventPushTo (s : ConnState) (c : Nat) (data : Bytes) : List Event :=
  match s.conns c with
  | some k => if k.isWebsocket then [.sent k.id data] else []
  | none => []

/-- The error response of `handle_call` to message `n`; `mem` says whether it can be allocated. -/
def respond (s : ConnState) (c n : Nat) (mem : Bool) (id : Option Bytes) (code : Int)
    (message : Bytes) (now : Int) : List Event :=
  let r := wsCallBuildError mem id code (some message) now
  if r.1 = 0 then
    match r.2.json with
    | some json => .responded n json :: eventPushTo s c json
    | none => []
  else []

/-- The size of the buffer `err` of `handle_call`. -/
def errSize : Nat := 128

/-- `handle_call` up to the call of `ws_worker_submit`, for a message on a WebSocket. -/
def handleCall (mg : MgJson) (s : ServerState) (c : Nat) (payload : Bytes) (mem : ParseAlloc)
    (respMem : Bool) (now : Int) : Outcomes :=
  match s.main, s.conns.conns c with
  | .idle, some k =>
    if k.fn = .wsEvHandler ∧ k.isWebsocket = true then
      let r := wsCallParse mg mem (some payload) errSize
      let t := { s with messages := s.messages + 1 }
      if r.code ≠ WS_CALL_OK then
        some (t, .received s.messages k.id ::
          respond s.conns c s.messages respMem r.req.id r.code r.err now)
      else
        some ({ t with main := .calling c ⟨k.id, r.req.id, r.req.lib, r.req.symbol, r.req.args,
          r.req.timeoutMs, s.messages⟩ }, [.received s.messages k.id])
    else none
  | _, _ => none

/-- The critical sections of `ws_worker_submit`, which the main thread runs as caller 0. -/
inductive SubmitPart
  | init (created : Nat)
  | build (mem : Bool)
  | enqueue (p : Nat) (wake : Worker → Bool)

def SubmitPart.action (a : SubmitArgs) : SubmitPart → WsWorker.Model.Action
  | .init created => .submitInit 0 a created
  | .build mem => .submitBuild 0 mem
  | .enqueue p wake => .submitAdmit 0 p wake

/-- What `ws_worker_submit` returns, if it does. -/
def submitResult : List WsWorker.Model.Event → Option Int
  | [.accepted _] => some 0
  | [.refused _] | [.failed _] => some (-1)
  | _ => none

/-- `ws_worker_submit` and what `handle_call` does after it. -/
def handleCallSubmit (s : ServerState) (part : SubmitPart) (respMem : Bool) (now : Int) : Outcomes :=
  match s.main with
  | .calling c a => (pool.step s.pool (part.action a)).map fun r =>
    let t := { s with pool := r.1 }
    match submitResult r.2 with
    | none => (t, r.2.map .pool)
    | some rc =>
      if rc ≠ 0 then
        ({ t with main := .idle },
          r.2.map .pool ++ respond s.conns c a.tag respMem a.id (-6) (ascii "worker busy") now)
      else ({ t with main := .idle }, r.2.map .pool)
  | _ => none

def wsCallDone (s : ConnState) (d : WsDone) : ConnState × List Event :=
  let r := wsConnFind s d.connId
  match r.2 with
  | some c => (r.1, eventPushTo r.1 c d.json)
  | none => (r.1, [.dropped d])

/-- The beginning of `ws_drain_call_results`. -/
def drain (s : ServerState) : Outcomes :=
  match s.main with
  | .idle => (pool.step s.pool .drainDetach).map fun r =>
    ({ s with pool := r.1, main := .draining }, r.2.map .pool)
  | _ => none

/-- One round of the drain with its callback, or its return. -/
def drainNext (s : ServerState) : Outcomes :=
  match s.main with
  | .draining => (pool.step s.pool .drainNext).map fun r =>
    match r.2 with
    | [.delivered d] =>
      let q := wsCallDone s.conns d
      ({ s with pool := r.1, conns := q.1 }, r.2.map .pool ++ q.2)
    | _ => ({ s with pool := r.1, main := .idle }, r.2.map .pool)
  | _ => none

/-- `ws_worker_init` in `main`. -/
def start (s : ServerState) (created : Nat) : Outcomes :=
  match s.main with
  | .starting => (wsWorkerInitCall s.pool created).map fun r =>
    ({ s with pool := r.1, main := if (wsWorkerInit s.pool created).2 = 0 then .idle else .exited },
      r.2.map .pool)
  | _ => none

def isMark : ConnAction → Bool
  | .setClosing _ => true
  | _ => false

/-- Connections change while the main thread is in `mg_mgr_poll`; one may be marked as closing
at any moment. -/
def connStep (s : ServerState) (a : ConnAction) : Outcomes :=
  if s.main = .idle ∨ isMark a = true then
    (s.conns.step a).map fun conns => ({ s with conns := conns }, [])
  else none

/-- A step of a worker, or of the clock. -/
def isBackground : WsWorker.Model.Action → Bool
  | .tick _ => true
  | a => (WsWorker.Stage.Action.worker? a).isSome

def background (s : ServerState) (a : WsWorker.Model.Action) : Outcomes :=
  if isBackground a then
    (pool.step s.pool a).map fun r => ({ s with pool := r.1 }, r.2.map .pool)
  else none

inductive Action
  | start (created : Nat)
  | conn (a : ConnAction)
  | message (c : Nat) (payload : Bytes) (mem : ParseAlloc) (respMem : Bool) (now : Int)
  | submit (part : SubmitPart) (respMem : Bool) (now : Int)
  | drain
  | drainNext
  | background (a : WsWorker.Model.Action)

def step (mg : MgJson) (s : ServerState) : Action → Outcomes
  | .start created => start s created
  | .conn a => connStep s a
  | .message c payload mem respMem now => handleCall mg s c payload mem respMem now
  | .submit part respMem now => handleCallSubmit s part respMem now
  | .drain => drain s
  | .drainNext => drainNext s
  | .background a => background s a

/-- The server over a JSON reader. -/
def server (mg : MgJson) : System ServerState Action Event := ⟨.initial, step mg⟩

end Cyctron.Server.Model
