/- Cyctron/Realtime/Messages
   digest: The messages and broadcasts of realtime.c. -/

import Cyctron.Realtime.Model

set_option autoImplicit false
set_option relaxedAutoImplicit false

namespace Cyctron.Realtime.Messages

open Cyctron.Base.CString Cyctron.Event.Format Cyctron.Realtime.Model

/-- The text that `rt_send_msg` builds in a buffer of 1152 bytes. -/
def msgText (uuid data : Bytes) : Bytes :=
  snprintf 1152 (ascii "\x7b\"target\":\"" ++ eventEscapeJson (some uuid) 128 ++
    ascii "\",\"data\":\"" ++ eventEscapeJson (some data) 1024 ++ ascii "\"\x7d")

/-- `rt_send_msg`: its return code, and what it pushes. -/
def rtSendMsg (task : Option RtTask) (data : Option Bytes) (env : FormatEnv) : Int × List Event :=
  match task, data with
  | some task, some data =>
    if task.status ≠ .running then (-2, [])
    else (0, eventPushWithType env (ascii "msg") (msgText task.uuid data))
  | _, _ => (-1, [])

/-- What `%.*s` prints of a string for a length that is cast to an `int`. -/
def precision (len : Nat) (s : Bytes) : Bytes :=
  if len % 2 ^ 32 < 2 ^ 31 then s.take (len % 2 ^ 32) else s

/-- The text that `rt_broadcast` builds in a buffer of 512 bytes. -/
def broadcastText (uuid data : Bytes) (len : Nat) : Bytes :=
  snprintf 512 (ascii "\x7b\"target\":\"" ++ uuid ++ ascii "\",\"data\":" ++ precision len data ++
    ascii "\x7d")

/-- What `rt_broadcast` pushes for one task of the list. -/
def broadcastNode (data : Bytes) (len : Nat) (env : FormatEnv) (node : RtTaskNode) : List Event :=
  if node.task.status = .running then
    eventPushWithType env (ascii "broadcast") (broadcastText node.task.uuid data len)
  else []

/-- `rt_broadcast`. -/
def rtBroadcast (s : Scheduler) (data : Option Bytes) (len : Nat) (env : Nat → FormatEnv) :
    List Event :=
  match data with
  | none => []
  | some data => s.listed.flatMap fun c => broadcastNode data len (env c.1) c.2

end Cyctron.Realtime.Messages
