/- Cyctron/Realtime/Model
   digest: The scheduler of realtime.c: its task list, the channels of the tasks, and its calls. -/

import Cyctron.Calldyn.Core
import Cyctron.Event.Format
import Cyctron.Machine.Labelled
import Cyctron.Machine.LinkedList

set_option autoImplicit false
set_option relaxedAutoImplicit false

namespace Cyctron.Realtime.Model

open Cyctron.Base.CString Cyctron.Calldyn.Core Cyctron.Event.Format
open Cyctron.Machine.Labelled (System)
open Cyctron.Machine.LinkedQueue (Store Node)
open Cyctron.Machine.LinkedList (modify unlink)

inductive RtTaskStatus
  | idle
  | running
  | paused
  | stopped
  | error
  deriving DecidableEq

/-- A callback is named by a number; none of the program's code sets one. -/
structure RtTask where
  taskId : Bytes
  socketId : Bytes
  uuid : Bytes
  status : RtTaskStatus
  userData : Option Nat
  connId : Nat
  onCleanup : Option Nat
  deriving DecidableEq

structure RtTaskNode where
  task : RtTask
  nngSock : Nat
  nngInitialized : Bool
  deriving DecidableEq

/-- `g_scheduler` and `g_counter`, the allocated nodes, and the NNG sockets that are open for
tasks. -/
structure Scheduler where
  tasks : Option Nat
  count : Int
  running : Bool
  counter : Nat
  store : Store RtTaskNode
  sockets : List Nat

def Scheduler.initial : Scheduler where
  tasks := none
  count := 0
  running := false
  counter := 0
  store := []
  sockets := []

/-- What a call does outside the scheduler: it takes a node off the list or puts one on it, opens,
binds and closes sockets, has a library called, runs callbacks and pushes event texts. -/
inductive Event
  | created (p : Nat) (uuid : Bytes)
  | opened (k : Nat)
  | listen (k : Nat) (url : Bytes) (ok : Bool)
  | closed (k : Nat)
  | load (path jsonIn : Bytes)
  | push (text : Bytes)
  | cleanup (p : Nat) (callback : Nat)
  | freedData (d : Nat)
  | freed (p : Nat) (node : RtTaskNode)
  deriving DecidableEq

/-- The nodes that a loop along the list visits. -/
def Scheduler.listed (s : Scheduler) : List (Nat × RtTaskNode) := s.store.chain s.tasks

def Scheduler.set (s : Scheduler) (p : Nat) (f : RtTaskNode → RtTaskNode) : Scheduler :=
  { s with store := modify s.store p f }

/-- `gen_id` into a field of 64 bytes. -/
def genId (counter now : Nat) : Bytes :=
  snprintf 64 (ascii "task_" ++ decimal now ++ ascii "_" ++ decimal counter)

def findNode (s : Scheduler) (uuid : Bytes) : Option Nat :=
  (s.listed.find? fun c => c.2.task.uuid = uuid).map Prod.fst

/-- `event_push_with_type`, when its text can be built. -/
def eventPushWithType (env : FormatEnv) (type data : Bytes) : List Event :=
  let r := eventFormatWithType env (some type) (some data)
  if r.1 = 0 then r.2.toList.map .push else []

def sendRtEvent (env : FormatEnv) (action : String) (uuid : Bytes) (status : String) :
    List Event :=
  let euuid := eventEscapeJson (some uuid) 128
  let msg := snprintf 256 (ascii "\x7b\"action\":\"" ++ ascii action ++ ascii "\",\"uuid\":\"" ++
    euuid ++ ascii "\",\"status\":\"" ++ ascii status ++ ascii "\"\x7d")
  eventPushWithType env (ascii "realtime") msg

def rtInit (s : Scheduler) : Scheduler :=
  if s.running then s else { s with running := true, count := 0, tasks := none }

/-- The node that `rt_create_task` fills in. -/
def RtTaskNode.fresh (uuid : Bytes) (counter now : Nat) : RtTaskNode where
  task := {
    taskId := genId counter now
    socketId := snprintf 128 (ascii "/tmp/cyctron_" ++ uuid ++ ascii ".sock")
    uuid := uuid.take 63
    status := .idle
    userData := none
    connId := 0
    onCleanup := none }
  nngSock := 0
  nngInitialized := false

/-- What `calloc` and `time` give to `rt_create_task`. -/
structure CreateEnv where
  node : Option Nat
  now : Nat
  format : FormatEnv

/-- The returned task is given by its node's address. -/
def rtCreateTask (s : Scheduler) (uuid : Option Bytes) (env : CreateEnv) :
    Scheduler × Option Nat × List Event :=
  match uuid with
  | none => (s, none, [])
  | some uuid =>
    if (findNode s uuid).isSome then (s, none, [])
    else
      match env.node with
      | none => (s, none, [])
      | some p =>
        let t := { s with
          counter := (s.counter + 1) % 2 ^ 64
          store := (p, ⟨.fresh uuid s.counter env.now, s.tasks⟩) :: s.store
          tasks := some p
          count := s.count + 1 }
        (t, some p, .created p uuid :: sendRtEvent env.format "create" uuid "created")

/-- What NNG and the plugin give to `rt_start_task`: the socket of `nng_pub0_open`, if any,
whether `nng_listen` succeeds, and the return code of the library call. -/
structure StartEnv where
  sock : Option Nat
  listen : Bool
  rc : Int
  format : FormatEnv

def setSock (k : Nat) (n : RtTaskNode) : RtTaskNode := { n with nngSock := k }

def setInitialized (n : RtTaskNode) : RtTaskNode := { n with nngInitialized := true }

def Scheduler.withSockets (s : Scheduler) (ks : List Nat) : Scheduler := { s with sockets := ks }

def socketUrl (node : RtTaskNode) : Bytes :=
  snprintf 256 (ascii "ipc://" ++ node.task.socketId)

/-- The first part of `rt_start_task`: after it, the task has a listening socket, or the call
has failed. -/
def startListening (s : Scheduler) (p : Nat) (node : RtTaskNode) (env : StartEnv) :
    Scheduler × Bool × List Event :=
  if node.nngInitialized then (s, true, [])
  else
    match env.sock with
    | none => (s, false, [])
    | some k =>
      let t := s.set p (setSock k)
      if env.listen then
        ((t.set p setInitialized).withSockets (k :: s.sockets), true,
          [.opened k, .listen k (socketUrl node) true])
      else (t, false, [.opened k, .listen k (socketUrl node) false, .closed k])

/-- The argument of `process_init`. -/
def startJson (node : RtTaskNode) : Bytes :=
  snprintf 512 (ascii "\x7b\"config\":\x7b\"uuid\":\"" ++ node.task.uuid ++ ascii "\",\"nng_url\":\"" ++
    socketUrl node ++ ascii "\"\x7d\x7d")

def setStatus (status : RtTaskStatus) (n : RtTaskNode) : RtTaskNode :=
  { n with task := { n.task with status := status } }

/-- The second part of `rt_start_task`. -/
def startPlugin (s : Scheduler) (p : Nat) (node : RtTaskNode) (libName : Option Bytes)
    (env : StartEnv) : Scheduler × Int × List Event :=
  let lib := libName.getD (ascii "libsoket_demo")
  let call : Event := .load (ffiPath lib) (startJson node)
  if env.rc = 0 then
    (s.set p (setStatus .running), 0,
      call :: sendRtEvent env.format "bind" node.task.uuid "running")
  else (s.set p (setStatus .error), -1, [call])

def rtStartTask (s : Scheduler) (p : Nat) (node : RtTaskNode) (libName : Option Bytes)
    (env : StartEnv) : Scheduler × Int × List Event :=
  if node.task.status = .running then (s, 0, [])
  else
    let r := startListening s p node env
    if r.2.1 then
      let q := startPlugin r.1 p node libName env
      (q.1, q.2.1, r.2.2 ++ q.2.2)
    else (r.1, -1, r.2.2)

def closeSocket (node : RtTaskNode) : List Event :=
  if node.nngInitialized then [.closed node.nngSock] else []

def runCleanup (p : Nat) (node : RtTaskNode) : List Event :=
  (node.task.onCleanup.toList.map (.cleanup p)) ++ (node.task.userData.toList.map .freedData)

/-- The sockets that stay open when those of a node that are open are closed. -/
def afterClose (sockets : List Nat) (node : RtTaskNode) : List Nat :=
  if node.nngInitialized then sockets.erase node.nngSock else sockets

def rtRemoveTask (s : Scheduler) (p : Nat) (node : RtTaskNode) (env : FormatEnv) :
    Scheduler × Int × List Event :=
  match unlink s.store s.tasks p with
  | none => (s, -1, [])
  | some (tasks, store) =>
    ({ s with
        tasks := tasks
        count := s.count - 1
        store := store.free p
        sockets := afterClose s.sockets node }, 0,
      closeSocket node ++ sendRtEvent env "remove" node.task.uuid "stopped" ++ runCleanup p node ++
        [.freed p node])

def rtStopTask (s : Scheduler) (p : Nat) (node : RtTaskNode) (env : FormatEnv) :
    Scheduler × List Event :=
  if node.task.status = .stopped then (s, [])
  else (s.set p (setStatus .stopped), sendRtEvent env "stop" node.task.uuid "stopped")

def rtFindTaskByUuid (s : Scheduler) (uuid : Bytes) : Option Nat := findNode s uuid

def rtStop (s : Scheduler) : Scheduler := { s with running := false }

/-- The first loop of `rt_remove_tasks_by_conn` along the list: `n` victims are stored in an array
for `cap`, and `grow` says which sizes `realloc` can give. -/
def collectVictims (connId : Nat) (grow : Nat → Bool) :
    Nat → Nat → List (Nat × RtTaskNode) → List Nat
  | _, _, [] => []
  | n, cap, c :: rest =>
    if c.2.task.connId ≠ connId then collectVictims connId grow n cap rest
    else if n = cap then
      let newCap := if cap = 0 then 8 else cap * 2
      if grow newCap then c.1 :: collectVictims connId grow (n + 1) newCap rest else []
    else c.1 :: collectVictims connId grow (n + 1) cap rest

/-- The second loop of `rt_remove_tasks_by_conn`, when `removed` tasks are removed. -/
def removeVictims (env : Nat → FormatEnv) :
    List Nat → Scheduler → Nat → Scheduler × Nat × List Event
  | [], s, removed => (s, removed, [])
  | p :: ps, s, removed =>
    match s.store.cell p with
    | none => removeVictims env ps s removed
    | some n =>
      let r := rtRemoveTask s p n.val (env p)
      let q := removeVictims env ps r.1 (if r.2.1 = 0 then removed + 1 else removed)
      (q.1, q.2.1, r.2.2 ++ q.2.2)

def rtRemoveTasksByConn (s : Scheduler) (connId : Nat) (grow : Nat → Bool)
    (env : Nat → FormatEnv) : Scheduler × Nat × List Event :=
  removeVictims env (collectVictims connId grow 0 0 s.listed) s 0

/-- The loop of `rt_cleanup` over the nodes. -/
def cleanupNode (env : Nat → FormatEnv) (c : Nat × RtTaskNode) : List Event :=
  (if c.2.task.status = .running then
      sendRtEvent (env c.1) "cleanup" c.2.task.uuid "stopped" else []) ++
    closeSocket c.2 ++ runCleanup c.1 c.2 ++ [.freed c.1 c.2]

def rtCleanup (s : Scheduler) (env : Nat → FormatEnv) : Scheduler × List Event :=
  ({ s with
      tasks := none
      count := 0
      running := false
      store := s.store.freeAll (s.listed.map Prod.fst)
      sockets := s.listed.foldl (fun ks c => afterClose ks c.2) s.sockets },
    s.listed.flatMap (cleanupNode env))

def setConnId (connId : Nat) (n : RtTaskNode) : RtTaskNode :=
  { n with task := { n.task with connId := connId } }

def setOnCleanup (callback : Option Nat) (n : RtTaskNode) : RtTaskNode :=
  { n with task := { n.task with onCleanup := callback } }

/-- The calls of the interface on tasks given by the addresses of their nodes, and the two
assignments that their callers make. -/
inductive Action
  | init
  | create (uuid : Option Bytes) (env : CreateEnv)
  | start (p : Nat) (libName : Option Bytes) (env : StartEnv)
  | stopTask (p : Nat) (env : FormatEnv)
  | remove (p : Nat) (env : FormatEnv)
  | removeByConn (connId : Nat) (grow : Nat → Bool) (env : Nat → FormatEnv)
  | stop
  | cleanup (env : Nat → FormatEnv)
  | setConnId (p connId : Nat)
  | setCleanup (p : Nat) (callback : Option Nat)

abbrev Outcomes := Option (Scheduler × List Event)

/-- A node that `calloc` gives was not allocated, and a socket that is opened was not open. -/
def CreateEnv.Fits (env : CreateEnv) (s : Scheduler) : Prop :=
  ∀ p ∈ env.node, s.store.cell p = none

def StartEnv.Fits (env : StartEnv) (s : Scheduler) : Prop := ∀ k ∈ env.sock, k ∉ s.sockets

instance (env : CreateEnv) (s : Scheduler) : Decidable (env.Fits s) := by
  unfold CreateEnv.Fits; infer_instance

instance (env : StartEnv) (s : Scheduler) : Decidable (env.Fits s) := by
  unfold StartEnv.Fits; infer_instance

/-- A task pointer is valid while its node is allocated. -/
def step (s : Scheduler) : Action → Outcomes
  | .init => some (rtInit s, [])
  | .create uuid env =>
    if env.Fits s then
      let r := rtCreateTask s uuid env
      some (r.1, r.2.2)
    else none
  | .start p libName env =>
    if env.Fits s then
      (s.store.cell p).map fun n =>
        let r := rtStartTask s p n.val libName env
        (r.1, r.2.2)
    else none
  | .stopTask p env => (s.store.cell p).map fun n => rtStopTask s p n.val env
  | .remove p env => (s.store.cell p).map fun n =>
    let r := rtRemoveTask s p n.val env
    (r.1, r.2.2)
  | .removeByConn connId grow env =>
    let r := rtRemoveTasksByConn s connId grow env
    some (r.1, r.2.2)
  | .stop => some (rtStop s, [])
  | .cleanup env => some (rtCleanup s env)
  | .setConnId p connId => (s.store.cell p).map fun _ => (s.set p (setConnId connId), [])
  | .setCleanup p callback => (s.store.cell p).map fun _ => (s.set p (setOnCleanup callback), [])

def scheduler : System Scheduler Action Event := ⟨.initial, step⟩

end Cyctron.Realtime.Model
