/- Cyctron/Sse/Model
   digest: The clients of handler_sse.c, the events that they are sent, and the requests for them. -/

import Cyctron.Base.Number
import Cyctron.Mongoose.Query
import Cyctron.Plugin.Path
import Cyctron.Sse.Format

set_option autoImplicit false
set_option relaxedAutoImplicit false

namespace Cyctron.Sse.Model

open Cyctron.Base.CString Cyctron.Base.Number Cyctron.Http.Message Cyctron.Mongoose.Query
open Cyctron.Plugin.Path Cyctron.Sse.Format
open Cyctron.Mongoose.Json (mgJsonGetStr mgJsonGetTok)

universe u

abbrev SSE_MAX_CLIENTS : Nat := 32
abbrev SSE_DEFAULT_INTERVAL_MS : Int := 200
abbrev SSE_MIN_INTERVAL_MS : Int := 50
abbrev SSE_MAX_INTERVAL_MS : Int := 5000
abbrev SSE_KEEPALIVE_MS : UInt64 := 15000
abbrev SSE_DATA_MAX : Nat := 4096
abbrev SSE_EVENT_BUF : Nat := 8192
abbrev SSE_ARGS_MAX : Nat := 1024

/-- A client in the table, with its connection. -/
structure SseClient (κ : Type u) where
  c : Option κ
  lastId : Int
  lastPollMs : UInt64
  lastPingMs : UInt64
  intervalMs : Int
  active : Bool
  custom : Bool
  once : Bool
  done : Bool
  seq : Int
  lib : Bytes
  symbol : Bytes
  args : Bytes

/-- A slot after `memset`. -/
def SseClient.zero {κ : Type u} : SseClient κ :=
  ⟨none, 0, 0, 0, 0, false, false, false, false, 0, [], [], []⟩

/-- What a handler finds: the file system and the files that can be opened, the clock, the plugins
(return code and output of a call, which may find no plugin), and how mongoose converts a number. -/
structure Env where
  fs : FileSystem
  readable : Bytes → Bool
  now : UInt64
  call : Bytes → Bytes → Option Bytes → Int × Option Bytes
  getLong : Bytes → String → Int → Int

section Events

variable {κ : Type u}

/-- The path that a client's plugin is called by. -/
def clientPath (fs : FileSystem) (lib : Bytes) : Bytes := (sseLibPath fs lib).1.getD []

/-- `sse_send_custom`: the client, and the event that is sent. -/
def sseSendCustom (env : Env) (cl : SseClient κ) : SseClient κ × Option Bytes :=
  let r := env.call (clientPath env.fs cl.lib) cl.symbol (if cl.args = [] then none else some cl.args)
  match r.2 with
  | none => (cl, none)
  | some jsonOut =>
    if r.1 ≠ 0 then (cl, none)
    else
      let data := (cString jsonOut).take (SSE_DATA_MAX - 1)
      let id := cl.seq + 1
      match sseFormatEvent SSE_EVENT_BUF id (some cl.symbol) (some data) with
      | none => ({ cl with seq := id }, none)
      | some text => ({ cl with seq := id, done := cl.done || cl.once }, some text)

/-- The part of `sse_send_event` for the default mode. -/
def sseSendNext (env : Env) (cl : SseClient κ) : SseClient κ × Option Bytes :=
  let jsonIn := ascii "\x7b\"after_id\":" ++ decimalInt cl.lastId ++ ascii "\x7d"
  let r := env.call (clientPath env.fs (ascii "sse_demo")) (ascii "sse_next")
    (some (snprintf 64 jsonIn))
  match r.2 with
  | none => (cl, none)
  | some jsonOut =>
    if r.1 ≠ 0 then (cl, none)
    else
      let out := cString jsonOut
      let id := env.getLong out "$.id" 0
      if id ≤ cl.lastId then (cl, none)
      else
        let event := (mgJsonGetStr out "$.event").getD (ascii "message")
        let tok := (mgJsonGetTok out "$.data").take (SSE_DATA_MAX - 1)
        let data := if tok = [] then ascii "null" else tok
        match sseFormatEvent SSE_EVENT_BUF id (some event) (some data) with
        | none => (cl, none)
        | some text => ({ cl with lastId := id }, some text)

def sseSendEvent (env : Env) (cl : SseClient κ) : SseClient κ × Option Bytes :=
  if cl.done then (cl, none)
  else if cl.custom then sseSendCustom env cl
  else sseSendNext env cl

/-- The work of `sse_on_poll` on the client that it finds, and the bytes that are sent. -/
def pollClient (env : Env) (cl : SseClient κ) : SseClient κ × Bytes :=
  let r := if UInt64.ofInt cl.intervalMs ≤ env.now - cl.lastPollMs then
    sseSendEvent env { cl with lastPollMs := env.now } else (cl, none)
  let sent := r.2.getD []
  if SSE_KEEPALIVE_MS ≤ env.now - r.1.lastPingMs then
    ({ r.1 with lastPingMs := env.now }, sent ++ keepalive)
  else (r.1, sent)

end Events

section Handlers

variable {κ : Type u} [DecidableEq κ]

abbrev Slot : Type := Fin SSE_MAX_CLIENTS

/-- `g_sse_clients`. -/
abbrev Table (κ : Type u) : Type u := Slot → SseClient κ

def sseFind (t : Table κ) (c : κ) : Option Slot :=
  (List.finRange SSE_MAX_CLIENTS).find? fun i => (t i).active && (t i).c = some c

def sseOnPoll (env : Env) (t : Table κ) (c : κ) : Table κ × Bytes :=
  match sseFind t c with
  | none => (t, [])
  | some i =>
    let r := pollClient env (t i)
    (Function.update t i r.1, r.2)

def sseOnClose (t : Table κ) (c : κ) : Table κ :=
  match sseFind t c with
  | none => t
  | some i => Function.update t i .zero

/-- What `ev_handler_sse` writes: an error, or the head of a stream and perhaps an event. -/
inductive Reply
  | refused (code : Nat) (json : Bytes)
  | stream (head : Bytes) (event : Option Bytes)
  deriving DecidableEq

def notAllowed : Reply :=
  .refused 405 (ascii "\x7b\"error\":405,\"message\":\"Method Not Allowed\"\x7d")

def invalidName : Reply :=
  .refused 400 (ascii "\x7b\"error\":400,\"message\":\"Invalid lib or symbol\"\x7d")

def unavailable : Reply :=
  .refused 503 (ascii "\x7b\"error\":503,\"message\":\"SSE plugin unavailable\"\x7d")

def tooMany : Reply :=
  .refused 503 (ascii "\x7b\"error\":503,\"message\":\"Too many SSE clients\"\x7d")

def streamHead : Bytes :=
  ascii "HTTP/1.1 200 OK\r\nContent-Type: text/event-stream\r\nCache-Control: no-cache\r\n" ++
    ascii "Connection: keep-alive\r\nX-Accel-Buffering: no\r\nAccess-Control-Allow-Origin: *\r\n\r\n"

/-- The number in the header `Last-Event-ID`. -/
def lastEventId (hm : HttpMessage) : Int :=
  match mgHttpGetHeader hm "Last-Event-ID" with
  | none | some [] => 0
  | some v => max 0 (strtol (cString (v.take 31)))

/-- A variable of the query that is not empty. -/
def queryVar (hm : HttpMessage) (name : String) (dstLen : Nat) : Option Bytes :=
  (mgHttpGetVar hm.query name dstLen).filter (· ≠ [])

def intervalOf (hm : HttpMessage) : Int :=
  match queryVar hm "interval_ms" 32 with
  | none => SSE_DEFAULT_INTERVAL_MS
  | some q =>
    let v := atoi (cString q)
    let v := if v < SSE_MIN_INTERVAL_MS then SSE_MIN_INTERVAL_MS else v
    if v > SSE_MAX_INTERVAL_MS then SSE_MAX_INTERVAL_MS else v

/-- A client as `ev_handler_sse` fills it in, before the first event. -/
def newClient (env : Env) (c : κ) (hm : HttpMessage) (lib symbol : Bytes) : SseClient κ :=
  { c := some c
    lastId := lastEventId hm
    lastPollMs := env.now
    lastPingMs := env.now
    intervalMs := intervalOf hm
    active := true
    custom := !(lib = ascii "sse_demo" && symbol = ascii "sse_next")
    once := (queryVar hm "once" 8).any fun q => atoi (cString q) ≠ 0
    done := false
    seq := 0
    lib := lib
    symbol := symbol
    args := queryField "" SSE_ARGS_MAX (queryVar hm "args" SSE_ARGS_MAX) }

/-- The first free slot. -/
def freeSlot (t : Table κ) : Option Slot :=
  (List.finRange SSE_MAX_CLIENTS).find? fun i => !(t i).active

/-- `ev_handler_sse` on a request. -/
def evHandlerSse (env : Env) (t : Table κ) (c : κ) (hm : HttpMessage) : Table κ × Reply :=
  if hm.method ≠ ascii "GET" then (t, notAllowed)
  else
    match sseAccepts (queryVar hm "lib" SSE_ARGS_MAX) (queryVar hm "symbol" SSE_ARGS_MAX) with
    | none => (t, invalidName)
    | some (lib, symbol) =>
      if env.readable (clientPath env.fs lib) = false then (t, unavailable)
      else
        match freeSlot t with
        | none => (t, tooMany)
        | some i =>
          let r := sseSendEvent env (newClient env c hm lib symbol)
          (Function.update t i r.1, .stream streamHead r.2)

end Handlers

end Cyctron.Sse.Model
