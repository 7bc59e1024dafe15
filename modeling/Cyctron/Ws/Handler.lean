/- Cyctron/Ws/Handler
   digest: Parsing of commands in ws_command.c, and the command handlers of handler_ws.c. -/

import Cyctron.Call.Protocol
import Cyctron.Realtime.Model

set_option autoImplicit false
set_option relaxedAutoImplicit false

namespace Cyctron.Ws.Handler

open Cyctron.Base.CString Cyctron.Event.Format Cyctron.Realtime.Model
open Cyctron.Call.Protocol (MgJson setErr)

abbrev WS_COMMAND_MAX_PAYLOAD : Nat := 1024 * 1024

abbrev WS_MAX_MESSAGE_BYTES : Nat := 1024 * 1024

structure WsCommand where
  cmd : Option Bytes
  uuid : Option Bytes
  lib : Option Bytes
  data : Option Bytes
  deriving DecidableEq

def WsCommand.zero : WsCommand := ⟨none, none, none, none⟩

/-- Return code, result and error text of `ws_command_parse`. -/
def wsCommandParse (mg : MgJson) (payload : Option Bytes) (errSize : Nat) :
    Int × WsCommand × Bytes :=
  match payload with
  | none => (-1, .zero, setErr errSize "invalid payload size")
  | some json =>
    if json.length = 0 ∨ WS_COMMAND_MAX_PAYLOAD < json.length then
      (-1, .zero, setErr errSize "invalid payload size")
    else
      match mg.getStr json "$.cmd" with
      | none | some [] => (-1, .zero, setErr errSize "missing cmd")
      | some cmd => (0, ⟨some cmd, mg.getStr json "$.uuid", mg.getStr json "$.lib",
          mg.getStr json "$.data"⟩, [])

/-- A text handed to `event_push_to`, with the strings of the client that were put into it, each
under the member names that lead to it. -/
structure Frame where
  text : Bytes
  carries : List (List Bytes × Bytes)
  deriving DecidableEq

def eventPushWithTypeTo (env : FormatEnv) (type data : Bytes) (carries : List (List Bytes × Bytes)) :
    List Frame :=
  let r := eventFormatWithType env (some type) (some data)
  if r.1 = 0 then r.2.toList.map fun text => ⟨text, carries⟩ else []

def eventPushJsonStringTo (env : FormatEnv) (type str : Bytes)
    (carries : List (List Bytes × Bytes)) : List Frame :=
  let r := eventFormatJsonString env (some type) (some str)
  if r.1 = 0 then r.2.toList.map fun text => ⟨text, carries⟩ else []

def sendEventTo (env : FormatEnv) (action : String) (uuid : Bytes) (status : String) : List Frame :=
  let msg := snprintf 256 (ascii "\x7b\"action\":\"" ++ ascii action ++ ascii "\",\"uuid\":\"" ++
    uuid ++ ascii "\",\"status\":\"" ++ ascii status ++ ascii "\"\x7d")
  eventPushWithTypeTo env (ascii "realtime") msg [([ascii "data", ascii "uuid"], uuid)]

/-- The scheduler, and whether `g_rt_manager` is set. -/
structure WsState where
  sched : Scheduler
  gRtManager : Bool

/-- `if (!g_rt_manager) g_rt_manager = rt_init();` -/
def withManager (s : WsState) : WsState :=
  if s.gRtManager then s else ⟨rtInit s.sched, true⟩

/-- What the calls made for one message give: to `rt_create_task`, to `rt_start_task`, for the
event of the scheduler, and for the one or two replies. -/
structure MessageEnv where
  create : CreateEnv
  start : StartEnv
  event : FormatEnv
  push : FormatEnv
  ack : FormatEnv

/-- How a bind ends. -/
inductive BindResult
  | missingUuid
  | notCreated
  | success
  | failed
  deriving DecidableEq

def defaultLib : Bytes := ascii "libsoket_demo"

/-- The library of a bind command. -/
def bindLib (req : WsCommand) : Bytes :=
  match req.lib with
  | none | some [] => defaultLib
  | some lib => lib

/-- `handle_bind` without its reply. -/
def handleBind (s : WsState) (connId : Nat) (req : WsCommand) (env : MessageEnv) :
    WsState × BindResult × List Event :=
  match req.uuid with
  | none | some [] => (s, .missingUuid, [])
  | some uuid =>
    let s := withManager s
    let r := rtCreateTask s.sched (some uuid) env.create
    match r.2.1 with
    | none => ({ s with sched := r.1 }, .notCreated, r.2.2)
    | some p =>
      let t := r.1.set p (setConnId connId)
      match t.store.cell p with
      | none => ({ s with sched := t }, .failed, r.2.2)
      | some n =>
        let q := rtStartTask t p n.val (some (bindLib req)) env.start
        ({ s with sched := q.1 }, if q.2.1 = 0 then .success else .failed, r.2.2 ++ q.2.2)

/-- The reply to a bind. -/
def BindResult.frames (env : FormatEnv) (uuid : Bytes) : BindResult → List Frame
  | .missingUuid => eventPushJsonStringTo env (ascii "error") (ascii "Missing uuid for bind") []
  | .notCreated => eventPushJsonStringTo env (ascii "error") (ascii "Failed to create task") []
  | .success => sendEventTo env "bind" uuid "success"
  | .failed => sendEventTo env "bind" uuid "failed"

/-- What a message does: the state after it, what the scheduler did, the replies, and the payload
that is passed on to `handle_call`. -/
structure Handled where
  state : WsState
  events : List Event
  frames : List Frame
  call : Option Bytes

/-- The listed task with this name, as a pointer to its node. -/
def findTask (s : WsState) (uuid : Bytes) : Option (Nat × RtTaskNode) :=
  if s.gRtManager then
    (rtFindTaskByUuid s.sched uuid).bind fun p => (s.sched.store.cell p).map fun n => (p, n.val)
  else none

def handleRemove (s : WsState) (req : WsCommand) (env : MessageEnv) : Handled :=
  match req.uuid with
  | none | some [] =>
    ⟨s, [], eventPushJsonStringTo env.push (ascii "error") (ascii "Missing uuid for remove") [], none⟩
  | some uuid =>
    match findTask s uuid with
    | some (p, node) =>
      let r := rtRemoveTask s.sched p node env.event
      ⟨{ s with sched := r.1 }, r.2.2, sendEventTo env.push "remove" uuid "success", none⟩
    | none => ⟨s, [], sendEventTo env.push "remove" uuid "not_found", none⟩

def handleStatus (s : WsState) (env : MessageEnv) : Handled :=
  let count := if s.gRtManager then s.sched.count else 0
  let msg := snprintf 128 (ascii "\x7b\"action\":\"status\",\"count\":" ++ decimalInt count ++
    ascii "\x7d")
  ⟨s, [], eventPushWithTypeTo env.push (ascii "realtime") msg [], none⟩

def handleMsg (s : WsState) (req : WsCommand) (env : MessageEnv) : Handled :=
  match req.uuid with
  | none | some [] =>
    ⟨s, [], eventPushJsonStringTo env.push (ascii "error") (ascii "Missing uuid for msg") [], none⟩
  | some uuid =>
    let data := req.data.getD []
    match findTask s uuid with
    | some _ =>
      ⟨s, [], eventPushJsonStringTo env.push (ascii "msg") data [([ascii "data"], data)] ++
        sendEventTo env.ack "msg" uuid "sent", none⟩
    | none => ⟨s, [], sendEventTo env.push "msg" uuid "not_found", none⟩

/-- The echo of a text that is no JSON object. -/
def echoFrames (env : FormatEnv) (data : Bytes) : List Frame :=
  let esc := eventEscapeJson (some (cString data)) 4096
  let json := snprintf 4224 (ascii "\x7b\"message\":\"" ++ esc ++ ascii "\",\"len\":" ++
    decimal data.length ++ ascii "\x7d")
  eventPushWithTypeTo env (ascii "echo") json [([ascii "data", ascii "message"], cString data)]

def unknownFrames (env : FormatEnv) (cmd : Bytes) : List Frame :=
  let ecmd := eventEscapeJson (some cmd) 128
  let resp := snprintf 288 (ascii "\x7b\"cmd\":\"" ++ ecmd ++ ascii "\",\"status\":\"unknown\"\x7d")
  eventPushWithTypeTo env (ascii "error") resp [([ascii "data", ascii "cmd"], cmd)]

/-- The buffer `err` of `handle_ws_message`. -/
def errSize : Nat := 128

/-- `handle_ws_message` for a message on a connection with this number. -/
def handleWsMessage (mg : MgJson) (s : WsState) (connId : Nat) (data : Bytes) (env : MessageEnv) :
    Handled :=
  if cString data = ascii "ping" then
    ⟨s, [], [⟨ascii "\x7b\"type\":\"pong\",\"timestamp\":\"now\"\x7d", []⟩], none⟩
  else if cString data = ascii "status" then
    ⟨s, [], eventPushWithTypeTo env.push (ascii "system")
      (ascii "\x7b\"status\":\"running\"\x7d") [], none⟩
  else if data.head? ≠ some 123 then ⟨s, [], echoFrames env.push data, none⟩
  else
    let r := wsCommandParse mg (some data) errSize
    if r.1 ≠ 0 then
      let err := if r.2.2 = [] then ascii "missing cmd" else r.2.2
      ⟨s, [], eventPushJsonStringTo env.push (ascii "error") err [], none⟩
    else
      let req := r.2.1
      let cmd := req.cmd.getD []
      if cmd = ascii "bind" then
        let q := handleBind s connId req env
        ⟨q.1, q.2.2, q.2.1.frames env.push (req.uuid.getD []), none⟩
      else if cmd = ascii "remove" then handleRemove s req env
      else if cmd = ascii "status" then handleStatus s env
      else if cmd = ascii "msg" then handleMsg s req env
      else if cmd = ascii "call" then ⟨s, [], [], some data⟩
      else ⟨s, [], unknownFrames env.push cmd, none⟩

/-- `MG_EV_WS_MSG` in `ws_ev_handler`, with a message of more than the limit, without memory for a
copy of it, or with one; the connection is drained in the first two cases. -/
def wsEvMsg (mg : MgJson) (s : WsState) (connId : Nat) (data : Bytes) (mem : Bool)
    (env : MessageEnv) : Handled × Bool :=
  if WS_MAX_MESSAGE_BYTES < data.length then
    (⟨s, [], eventPushJsonStringTo env.push (ascii "error") (ascii "message too large") [], none⟩,
      true)
  else if mem then (handleWsMessage mg s connId data env, false)
  else (⟨s, [], [], none⟩, true)

end Cyctron.Ws.Handler
