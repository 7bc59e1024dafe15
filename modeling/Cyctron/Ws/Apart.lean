/- Cyctron/Ws/Apart
   digest: What the connections do to each other's tasks, and who hears of them. -/

import Cyctron.Ws.Ownership

set_option autoImplicit false
set_option relaxedAutoImplicit false

namespace Cyctron.Ws.Apart

open Cyctron.Base.CString Cyctron.Event.Format Cyctron.Call.Protocol
open Cyctron.Realtime.Model Cyctron.Realtime.Tasks Cyctron.Realtime.Refine
open Cyctron.Server.Connections Cyctron.Ws.Handler Cyctron.Ws.Bind Cyctron.Ws.Ownership
open Cyctron.Machine.Labelled (System Path Run anyStep)
open Cyctron.Machine.LinkedList

/-- The number of the connection to which `event_push` sends. -/
def heard (s : ConnState) : Option Nat :=
  ((s.gWsConn.bind s.conns).filter MgConnection.isWebsocket).map MgConnection.id

def pushText : Realtime.Model.Event → Option Bytes
  | .push text => some text
  | _ => none

def pushTexts (es : List Realtime.Model.Event) : List Bytes := es.filterMap pushText

/-- The command of a message that is taken as one. -/
def command (mg : MgJson) (data : Bytes) (mem : Bool) : Option WsCommand :=
  if WS_MAX_MESSAGE_BYTES < data.length ∨ mem = false then none
  else if cString data = ascii "ping" ∨ cString data = ascii "status" ∨ data.head? ≠ some 123 then
    none
  else if (wsCommandParse mg (some data) errSize).1 ≠ 0 then none
  else some (wsCommandParse mg (some data) errSize).2.1

/-- Whose task a command creates or removes: the connection of a bind that creates one, or the owner
of the task that a remove finds. -/
def concerned (s : WsState) (connId : Nat) (req : WsCommand) (env : MessageEnv) : Option Nat :=
  match req.uuid with
  | none | some [] => none
  | some u =>
    if req.cmd.getD [] = ascii "bind" then
      if findNode (withManager s).sched u = none ∧ env.create.node ≠ none then some connId else none
    else if req.cmd.getD [] = ascii "remove" then (findTask s u).map fun c => c.2.task.connId
    else none

/-- A "realtime" event that is sent to a connection, and whose task it is about, if it is about a
task. -/
structure Notice where
  owner : Option Nat
  receiver : Nat
  text : Bytes
  deriving DecidableEq

/-- The events of the scheduler go to the broadcast connection. -/
def broadcast (s : ConnState) (owner : Option Nat) (es : List Realtime.Model.Event) : List Notice :=
  (pushTexts es).flatMap fun text => (heard s).toList.map fun id => ⟨owner, id, text⟩

/-- The replies about a task go to the connection of the message. -/
def acknowledge (k : MgConnection) (owner : Option Nat) (frames : List Frame) : List Notice :=
  if owner = none then [] else frames.map fun f => ⟨owner, k.id, f.text⟩

/-- What a step sends about tasks. A close sends after the connection was taken off the table. -/
def notices (mg : MgJson) (s : SessionState) : SessionAction → List Notice
  | .conn _ => []
  | .message c data mem env =>
    match s.conns.conns c with
    | none => []
    | some k =>
      let owner := (command mg data mem).bind fun req => concerned s.ws k.id req env
      let r := (wsEvMsg mg s.ws k.id data mem env).1
      broadcast s.conns owner r.events ++ acknowledge k owner r.frames
  | .close c grow env =>
    match s.conns.conns c with
    | none => []
    | some k =>
      if k.fn = .wsEvHandler ∧ s.ws.gRtManager = true then
        broadcast (wsConnUnregister s.conns c) (some k.id)
          (rtRemoveTasksByConn s.ws.sched k.id grow env).2.2
      else []

/-- The sessions with what is sent about tasks as their trace. -/
def told (mg : MgJson) : System SessionState SessionAction Notice :=
  ⟨.initial, fun s a => (step mg s a).map fun r => (r.1, notices mg s a)⟩

/-- The number of the connection that acts. -/
def actor (s : SessionState) : SessionAction → Option Nat
  | .conn _ => none
  | .message c _ _ _ | .close c _ _ => (s.conns.conns c).map MgConnection.id

section Commands

variable {mg : MgJson} {s : WsState} {connId : Nat} {data : Bytes} {mem : Bool} {env : MessageEnv}
  {req : WsCommand}

private theorem concerned_other (hbind : req.cmd.getD [] ≠ ascii "bind")
    (hremove : req.cmd.getD [] ≠ ascii "remove") : concerned s connId req env = none := by
  unfold concerned
  split
  · rfl
  · rfl
  · rw [if_neg hbind, if_neg hremove]

/-- A message that is no command changes and pushes nothing. -/
private theorem message_quiet (s : WsState) (connId : Nat) (env : MessageEnv)
    (h : command mg data mem = none) :
    (wsEvMsg mg s connId data mem env).1.state = s ∧
      (wsEvMsg mg s connId data mem env).1.events = [] := by
  unfold wsEvMsg
  by_cases hlong : WS_MAX_MESSAGE_BYTES < data.length
  · rw [if_pos hlong]
    exact ⟨rfl, rfl⟩
  rw [if_neg hlong]
  cases mem with
  | false => exact ⟨rfl, rfl⟩
  | true =>
    rw [command, if_neg (by simp [hlong])] at h
    rw [if_pos rfl]
    dsimp only
    unfold handleWsMessage
    dsimp only
    by_cases hping : cString data = ascii "ping"
    · rw [if_pos hping]
      exact ⟨rfl, rfl⟩
    by_cases hstatus : cString data = ascii "status"
    · rw [if_neg hping, if_pos hstatus]
      exact ⟨rfl, rfl⟩
    by_cases hjson : data.head? ≠ some 123
    · rw [if_neg hping, if_neg hstatus, if_pos hjson]
      exact ⟨rfl, rfl⟩
    by_cases hparse : (wsCommandParse mg (some data) errSize).1 ≠ 0
    · rw [if_neg hping, if_neg hstatus, if_neg hjson, if_pos hparse]
      exact ⟨rfl, rfl⟩
    · rw [if_neg (by simp [hping, hstatus, hjson]), if_neg hparse] at h
      cases h

/-- A command is a bind, a remove, or changes and pushes nothing. -/
private theorem message_command (s : WsState) (connId : Nat) (env : MessageEnv)
    (h : command mg data mem = some req) :
    (req.cmd.getD [] = ascii "bind" ∧
      (wsEvMsg mg s connId data mem env).1.state = (handleBind s connId req env).1 ∧
      (wsEvMsg mg s connId data mem env).1.events = (handleBind s connId req env).2.2) ∨
    (req.cmd.getD [] = ascii "remove" ∧
      (wsEvMsg mg s connId data mem env).1 = handleRemove s req env) ∨
    ((wsEvMsg mg s connId data mem env).1.state = s ∧
      (wsEvMsg mg s connId data mem env).1.events = [] ∧ concerned s connId req env = none) := by
  simp only [command, Option.ite_none_left_eq_some, not_or] at h
  obtain ⟨⟨hlong, hmem⟩, ⟨hping, hstatus, hjson⟩, hparse, heq⟩ := h
  obtain rfl := Option.some.inj heq
  have hmessage : (wsEvMsg mg s connId data mem env).1 = handleWsMessage mg s connId data env := by
    rw [wsEvMsg, if_neg hlong, if_pos (by simpa using hmem)]
  rw [hmessage]
  unfold handleWsMessage
  dsimp only
  rw [if_neg hping, if_neg hstatus, if_neg hjson, if_neg hparse]
  obtain ⟨req, hreq⟩ : ∃ req, (wsCommandParse mg (some data) errSize).2.1 = req := ⟨_, rfl⟩
  rw [hreq]
  by_cases hbind : req.cmd.getD [] = ascii "bind"
  · rw [if_pos hbind]
    exact Or.inl ⟨hbind, rfl, rfl⟩
  rw [if_neg hbind]
  by_cases hremove : req.cmd.getD [] = ascii "remove"
  · rw [if_pos hremove]
    exact Or.inr (Or.inl ⟨hremove, rfl⟩)
  rw [if_neg hremove]
  refine Or.inr (Or.inr ?_)
  rw [concerned_other hbind hremove]
  split
  · exact ⟨rfl, rfl, rfl⟩
  · split
    · refine ⟨msg_state, ?_, rfl⟩
      unfold handleMsg
      split
      · rfl
      · rfl
      · dsimp only
        split <;> rfl
    · split <;> exact ⟨rfl, rfl, rfl⟩

end Commands

section Effects

variable {mg : MgJson} {s t : WsState} {connId : Nat} {data : Bytes} {mem : Bool} {env : MessageEnv}
  {req : WsCommand} {es fs : List Realtime.Model.Event}

/-- Nothing can be built for the events of the scheduler. -/
def silent (env : MessageEnv) : Prop :=
  env.create.format.mem = false ∧ env.start.format.mem = false ∧ env.event.mem = false

instance (env : MessageEnv) : Decidable (silent env) := inferInstanceAs (Decidable (_ ∧ _ ∧ _))

private theorem pushTexts_append : pushTexts (es ++ fs) = pushTexts es ++ pushTexts fs :=
  List.filterMap_append

private theorem sendRtEvent_silent {env : FormatEnv} (h : env.mem = false) (action : String)
    (uuid : Bytes)
    (status : String) : sendRtEvent env action uuid status = [] := by
  unfold sendRtEvent eventPushWithType eventFormatWithType eventEscapeAlloc
  simp [h]

private theorem pushTexts_runCleanup (p : Nat) (node : RtTaskNode) :
    pushTexts (runCleanup p node) = [] := by
  unfold runCleanup
  rw [pushTexts_append]
  cases node.task.onCleanup <;> cases node.task.userData <;> rfl

/-- A removal pushes the texts of one event of the scheduler. -/
private theorem pushTexts_removeEvents (env : FormatEnv) (c : Nat × RtTaskNode) :
    pushTexts (removeEvents env c) =
      pushTexts (sendRtEvent env "remove" c.2.task.uuid "stopped") := by
  have hclose : pushTexts (closeSocket c.2) = [] := by
    unfold closeSocket
    split <;> rfl
  rw [removeEvents, pushTexts_append, pushTexts_append, pushTexts_append, hclose,
    pushTexts_runCleanup]
  simp [pushTexts, pushText]

private theorem pushTexts_start {s t : Scheduler} {p : Nat} {node : RtTaskNode} {lib : Option Bytes}
    {env : StartEnv} {rc : Int} (h : env.format.mem = false)
    (hcall : rtStartTask s p node lib env = (t, rc, es)) : pushTexts es = [] := by
  have hlisten : pushTexts (startListening s p node env).2.2 = [] := by
    unfold startListening
    split
    · rfl
    · split
      · rfl
      · dsimp only
        split <;> rfl
  have hplugin : ∀ s, pushTexts (startPlugin s p node lib env).2.2 = [] := by
    intro s
    unfold startPlugin
    dsimp only
    split
    · rw [sendRtEvent_silent h]
      rfl
    · rfl
  unfold rtStartTask at hcall
  split at hcall
  · obtain ⟨_, _, rfl⟩ := by simpa only [Prod.mk.injEq] using hcall
    rfl
  · dsimp only at hcall
    split at hcall
    · obtain ⟨_, _, rfl⟩ := by simpa only [Prod.mk.injEq] using hcall
      rw [pushTexts_append, hlisten, hplugin]
      rfl
    · obtain ⟨_, _, rfl⟩ := by simpa only [Prod.mk.injEq] using hcall
      exact hlisten

/-- The tasks of the other connections are the same ones in the same state. -/
def SameOthers (connId : Nat) (s t : WsState) : Prop :=
  ∀ x : Nat × RtTaskNode, x.2.task.connId ≠ connId → (x ∈ t.sched.listed ↔ x ∈ s.sched.listed)

/-- The list is in order, and empty before the manager is set. -/
structure Managed (s : WsState) : Prop where
  sound : Sound s.sched
  unmanaged : s.gRtManager = false → s.sched.listed = []

theorem Managed.withManager (h : Managed s) : Managed (withManager s) ∧
    (Handler.withManager s).sched.listed = s.sched.listed := by
  refine ⟨⟨sound_withManager h.sound, fun hm => ?_⟩, ?_⟩
  · cases (manager_withManager s).symm.trans hm
  · rw [Bind.withManager_listed h.sound]
    by_cases hm : s.gRtManager = true
    · exact Or.inl hm
    · exact Or.inr (Or.inr (h.unmanaged (by simpa using hm)))

/-- What is known of a message: how it leaves the list, when it pushes nothing, and that it leaves
the tasks of other connections when it is not about one of them. -/
structure Handles (s : WsState) (connId : Nat) (env : MessageEnv) (owner : Option Nat) (t : WsState)
    (es : List Realtime.Model.Event) : Prop where
  managed : Managed t
  unowned : owner = none → pushTexts es = []
  silence : silent env → pushTexts es = []
  others : (∀ o ∈ owner, o = connId) → SameOthers connId s t

private theorem handles_same {owner : Option Nat} (h : Managed s) : Handles s connId env owner s [] :=
  ⟨h, fun _ => rfl, fun _ => rfl, fun _ _ _ => Iff.rfl⟩

/-- A creation that fails reports nothing. -/
private theorem create_events (s : Scheduler) (u : Bytes) (env : CreateEnv) :
    ((rtCreateTask s (some u) env).2.1 = none ∧ (rtCreateTask s (some u) env).2.2 = []) ∨
    (findNode s u = none ∧ env.node ≠ none ∧ ∃ p, (rtCreateTask s (some u) env).2.1 = some p ∧
      (rtCreateTask s (some u) env).2.2 =
        .created p u :: sendRtEvent env.format "create" u "created") := by
  unfold rtCreateTask
  dsimp only
  split
  · exact Or.inl ⟨rfl, rfl⟩
  · rename_i missing
    cases hnode : env.node with
    | none => exact Or.inl ⟨rfl, rfl⟩
    | some p => exact Or.inr ⟨by simpa using missing, Option.some_ne_none p, p, rfl, rfl⟩

private theorem concerned_bind {u : Bytes} (named : Names req u)
    (hbind : req.cmd.getD [] = ascii "bind") :
    concerned s connId req env = if findNode (withManager s).sched u = none ∧
      env.create.node ≠ none then some connId else none := by
  obtain ⟨hu, hne⟩ := named
  cases u with
  | nil => exact absurd rfl hne
  | cons c u =>
    unfold concerned
    rw [hu]
    dsimp only
    rw [if_pos hbind]

/-- The events of a bind: none of the scheduler's without a new task. -/
private theorem bind_events (s : WsState) (connId : Nat) (env : MessageEnv) {u : Bytes}
    (named : Names req u) (hbind : req.cmd.getD [] = ascii "bind") :
    (concerned s connId req env = none → (handleBind s connId req env).2.2 = []) ∧
      (silent env → pushTexts (handleBind s connId req env).2.2 = []) := by
  rw [concerned_bind named hbind]
  obtain ⟨hu, hne⟩ := named
  cases u with
  | nil => exact absurd rfl hne
  | cons c u =>
    unfold handleBind
    rw [hu]
    dsimp only
    rcases create_events (withManager s).sched (c :: u) env.create with
      ⟨hnone, hes⟩ | ⟨hmissing, hnode, p, hsome, hes⟩
    · rw [hnone]
      dsimp only
      rw [hes]
      exact ⟨fun _ => rfl, fun _ => rfl⟩
    · rw [hsome, if_pos ⟨hmissing, hnode⟩]
      refine ⟨fun howner => absurd howner (Option.some_ne_none connId), fun hsilent => ?_⟩
      have hcreate :
          pushTexts (rtCreateTask (withManager s).sched (some (c :: u)) env.create).2.2 = [] := by
        rw [hes, sendRtEvent_silent hsilent.1]
        rfl
      dsimp only
      split
      · exact hcreate
      · dsimp only
        rw [pushTexts_append, hcreate]
        exact pushTexts_start hsilent.2.1 rfl

private theorem bind_handles (h : Managed s) (fits : MessageEnv.Fits env (withManager s).sched)
    (hbind : req.cmd.getD [] = ascii "bind") :
    Handles s connId env (concerned s connId req env) (handleBind s connId req env).1
      (handleBind s connId req env).2.2 := by
  rcases names_or req with hun | ⟨u, named⟩
  · rw [bind_unnamed hun]
    exact handles_same h
  · obtain ⟨hmanaged, hlisted⟩ := h.withManager
    obtain ⟨⟨t, res, es⟩, hcall⟩ : ∃ q, handleBind s connId req env = q := ⟨_, rfl⟩
    have hbound := bind_events s connId env named hbind
    rw [hcall] at hbound ⊢
    refine ⟨?_, fun howner => by rw [hbound.1 howner]; rfl, hbound.2, fun _ x hx => ?_⟩
    · rcases bind_cases h.sound named fits hcall with ⟨_, rfl, _⟩ | ⟨p, node, _, _, _, sound, hm, _⟩
      · exact hmanaged
      · refine ⟨sound, fun hoff => ?_⟩
        cases (manager_withManager s).symm.trans (hm.symm.trans hoff)
    · rcases bind_cases h.sound named fits hcall with
        ⟨_, rfl, _⟩ | ⟨p, node, _, _, _, _, _, hl, howner, _⟩
      · rw [hlisted]
      · rw [hl, hlisted, List.mem_cons, or_iff_right]
        rintro rfl
        exact hx howner

/-- The task that a remove finds is listed. -/
private theorem findTask_mem {u : Bytes} {p : Nat} {node : RtTaskNode} (h : Sound s.sched)
    (hfind : findTask s u = some (p, node)) : (p, node) ∈ s.sched.listed ∧ s.gRtManager = true := by
  unfold findTask at hfind
  split at hfind
  · rename_i hm
    obtain ⟨q, hq, hcell⟩ := Option.bind_eq_some_iff.mp hfind
    obtain ⟨n, hn, heq⟩ := Option.map_eq_some_iff.mp hcell
    obtain ⟨rfl, rfl⟩ := Prod.mk.inj heq
    obtain ⟨c, hc, rfl⟩ := Option.map_eq_some_iff.mp hq
    exact ⟨h.node_mem hn (List.mem_map_of_mem (List.mem_of_find?_eq_some hc)), hm⟩
  · cases hfind

/-- A task of another owner is another task. -/
private theorem mem_without_other {l : List (Nat × RtTaskNode)} {x : Nat × RtTaskNode}
    (ps : List Nat) (nodup : (l.map Prod.fst).Nodup)
    (owned : ∀ p ∈ ps, ∃ n, (p, n) ∈ l ∧ n.task.connId = connId) (hx : x.2.task.connId ≠ connId) :
    x ∈ l.filter (fun c => c.1 ∉ ps) ↔ x ∈ l := by
  rw [List.mem_filter, and_iff_left_iff_imp]
  intro hmem
  refine decide_eq_true fun hp => ?_
  obtain ⟨n, hn, howner⟩ := owned x.1 hp
  have hsame := List.inj_on_of_nodup_map nodup hn hmem rfl
  rw [← hsame] at hx
  exact hx howner

private theorem remove_handles (h : Managed s) (hremove : req.cmd.getD [] = ascii "remove") :
    Handles s connId env (concerned s connId req env) (handleRemove s req env).state
      (handleRemove s req env).events := by
  rcases names_or req with hun | ⟨u, hu, hne⟩
  · have hsame : (handleRemove s req env).state = s ∧ (handleRemove s req env).events = [] := by
      unfold handleRemove
      rcases hun with hun | hun <;> rw [hun] <;> exact ⟨rfl, rfl⟩
    rw [hsame.1, hsame.2]
    exact handles_same h
  · obtain ⟨c, u, rfl⟩ := List.exists_cons_of_ne_nil hne
    have hbind : req.cmd.getD [] ≠ ascii "bind" := by
      rw [hremove]
      decide
    unfold handleRemove concerned
    rw [hu]
    dsimp only
    rw [if_neg hbind, if_pos hremove]
    cases hfind : findTask s (c :: u) with
    | none => exact handles_same h
    | some found =>
      obtain ⟨p, node⟩ := found
      obtain ⟨hmem, hm⟩ := findTask_mem h.sound hfind
      obtain ⟨t, hcall, sound, hl, _⟩ := remove_listed h.sound hmem env.event
      dsimp only
      rw [hcall, Option.map_some]
      refine ⟨⟨sound, fun hoff => ?_⟩, fun howner => absurd howner (Option.some_ne_none _),
        fun hsilent => ?_, fun own x hx => ?_⟩
      · cases hm.symm.trans hoff
      · dsimp only
        rw [pushTexts_removeEvents, sendRtEvent_silent hsilent.2.2]
        rfl
      · have howner : node.task.connId = connId := own _ rfl
        have hother := mem_without_other [p] h.sound.nodup
          (by rw [List.forall_mem_singleton]; exact ⟨node, hmem, howner⟩) hx
        rw [hl, without]
        simpa only [List.mem_singleton] using hother

/-- What is known of every message. -/
private theorem message_handles (mg : MgJson) (connId : Nat) (data : Bytes) (mem : Bool)
    (h : Managed s)
    (fits : MessageEnv.Fits env (withManager s).sched) :
    Handles s connId env ((command mg data mem).bind fun req => concerned s connId req env)
      (wsEvMsg mg s connId data mem env).1.state (wsEvMsg mg s connId data mem env).1.events := by
  cases hcommand : command mg data mem with
  | none =>
    obtain ⟨hstate, hevents⟩ := message_quiet s connId env hcommand
    rw [hstate, hevents]
    exact handles_same h
  | some req =>
    rw [Option.bind_some]
    rcases message_command s connId env hcommand with
      ⟨hbind, hstate, hevents⟩ | ⟨hremove, hr⟩ | ⟨hstate, hevents, _⟩
    · rw [hstate, hevents]
      exact bind_handles h fits hbind
    · rw [hr]
      exact remove_handles h hremove
    · rw [hstate, hevents]
      exact handles_same h

end Effects

section Steps

variable {mg : MgJson} {s t : SessionState} {a : SessionAction} {c id : Nat} {k : MgConnection}
  {owner : Option Nat} {es : List Realtime.Model.Event} {ns : List Notice} {n : Notice}

/-- A close takes off tasks of its connection only, and pushes for them only. -/
private theorem close_handles {s : WsState} (connId : Nat) (grow : Nat → Bool) (env : Nat → FormatEnv)
    (h : Managed s) :
    let r := rtRemoveTasksByConn s.sched connId grow env
    Managed { s with sched := r.1 } ∧ SameOthers connId s { s with sched := r.1 } ∧
      (collectVictims connId grow 0 0 s.sched.listed = [] → r.2.2 = []) ∧
      ((∀ p, (env p).mem = false) → pushTexts r.2.2 = []) := by
  obtain ⟨hnodup, hmem⟩ := victims_nodup h.sound connId grow
  obtain ⟨t, nodes, hrem, sound, hps, _, hl, _⟩ :=
    removeVictims_listed (U := fun _ => True) env 0 h.sound hnodup hmem
  have howned : ∀ p ∈ collectVictims connId grow 0 0 s.sched.listed,
      ∃ n, (p, n) ∈ s.sched.listed ∧ n.task.connId = connId := by
    intro p hp
    obtain ⟨x, hx, rfl⟩ := List.mem_map.mp (victims_sublist.subset hp)
    obtain ⟨hx, howner⟩ := List.mem_filter.mp hx
    exact ⟨x.2, hx, of_decide_eq_true howner⟩
  dsimp only
  rw [rtRemoveTasksByConn, hrem]
  refine ⟨⟨sound, fun hoff => ?_⟩, fun x hx => ?_, fun hnone => ?_, fun hsilent => ?_⟩
  · dsimp only
    rw [hl, h.unmanaged hoff]
    rfl
  · dsimp only
    rw [hl]
    exact mem_without_other _ h.sound.nodup howned hx
  · rw [hnone, List.map_eq_nil_iff] at hps
    rw [hps]
    rfl
  · dsimp only
    rw [pushTexts, List.filterMap_flatMap]
    refine List.flatMap_eq_nil_iff.mpr fun x _ => ?_
    have hremoval := pushTexts_removeEvents (env x.1) x
    rw [sendRtEvent_silent (hsilent x.1)] at hremoval
    exact hremoval

/-- The steps that do not reach over: a command creates or removes a task of its own connection, and
while one is created or removed, no other connection is the one for broadcasts. -/
def undisturbed (mg : MgJson) (s : SessionState) : SessionAction → Prop
  | .conn _ => True
  | .message c data mem env => ∀ k ∈ s.conns.conns c,
    ∀ o ∈ (command mg data mem).bind fun req => concerned s.ws k.id req env,
      o = k.id ∧ ((∀ id ∈ heard s.conns, id = k.id) ∨ silent env)
  | .close c grow env => ∀ k ∈ s.conns.conns c,
    collectVictims k.id grow 0 0 s.ws.sched.listed = [] ∨
      (∀ id ∈ heard (wsConnUnregister s.conns c), id = k.id) ∨ ∀ p, (env p).mem = false

private theorem mem_broadcast {s : ConnState} (h : n ∈ broadcast s owner es) :
    n.owner = owner ∧ n.receiver ∈ heard s ∧ pushTexts es ≠ [] := by
  obtain ⟨text, htext, hn⟩ := List.mem_flatMap.mp h
  obtain ⟨id, hid, rfl⟩ := List.mem_map.mp hn
  exact ⟨rfl, Option.mem_toList.mp hid, List.ne_nil_of_mem htext⟩

private theorem mem_acknowledge {frames : List Frame} (h : n ∈ acknowledge k owner frames) :
    n.owner = owner ∧ n.receiver = k.id ∧ owner ≠ none := by
  unfold acknowledge at h
  split at h
  · cases h
  · rename_i howner
    obtain ⟨f, _, rfl⟩ := List.mem_map.mp h
    exact ⟨rfl, rfl, howner⟩

/-- What a step that does not reach over does: it keeps the list in order, leaves the tasks of the
other connections, and tells of tasks to their owners only. -/
private theorem step_apart (h : Managed s.ws) (hok : undisturbed mg s a)
    (hstep : (told mg).step s a = some (t, ns)) : Managed t.ws ∧
      (∀ b, actor s a ≠ some b → ∀ x : Nat × RtTaskNode, x.2.task.connId = b →
        (x ∈ t.ws.sched.listed ↔ x ∈ s.ws.sched.listed)) ∧
      ∀ n ∈ ns, n.owner = some n.receiver := by
  obtain ⟨⟨t', es⟩, hsession, heq⟩ := Option.map_eq_some_iff.mp hstep
  clear hstep
  obtain ⟨rfl, rfl⟩ := Prod.mk.inj heq
  have hothers : ∀ {id b : Nat} {w : WsState}, SameOthers id s.ws w → some id ≠ some b →
      ∀ x : Nat × RtTaskNode, x.2.task.connId = b →
        (x ∈ w.sched.listed ↔ x ∈ s.ws.sched.listed) := by
    rintro id b w same hne x rfl
    exact same x fun hid => hne (congrArg some hid.symm)
  cases a with
  | conn a =>
    change (if isClose a then none else _) = _ at hsession
    split at hsession
    · cases hsession
    · obtain ⟨conns, _, heq⟩ := Option.map_eq_some_iff.mp hsession
      obtain ⟨rfl, _⟩ := Prod.mk.inj heq
      have hmanaged := h.withManager
      refine ⟨?_, fun b _ x _ => ?_, fun n hn => absurd hn List.not_mem_nil⟩
      · cases a with
        | upgrade c key =>
          dsimp only [afterConn]
          split
          · exact hmanaged.1
          · exact h
        | _ => exact h
      · cases a with
        | upgrade c key =>
          dsimp only [afterConn]
          split
          · rw [hmanaged.2]
          · rfl
        | _ => rfl
  | message c data mem env =>
    change message mg s c data mem env = some (t', es) at hsession
    unfold message at hsession
    cases hk : s.conns.conns c with
    | none =>
      rw [hk] at hsession
      cases hsession
    | some k =>
      rw [hk] at hsession
      dsimp only at hsession
      rw [Option.ite_none_right_eq_some] at hsession
      obtain ⟨⟨_, _, fits⟩, hsession⟩ := hsession
      obtain ⟨rfl, _⟩ := Prod.mk.inj (Option.some.inj hsession)
      have hhandles := message_handles mg k.id data mem h fits
      have hcalm := hok k hk
      refine ⟨hhandles.managed, fun b hb => ?_, fun n hn => ?_⟩
      · have hne : some k.id ≠ some b := by simpa only [actor, hk, Option.map_some] using hb
        exact hothers (hhandles.others fun o ho => (hcalm o ho).1) hne
      · simp only [notices, hk, List.mem_append] at hn
        rcases hn with hn | hn
        · obtain ⟨howner, hid, hpush⟩ := mem_broadcast hn
          obtain ⟨o, ho⟩ := Option.ne_none_iff_exists'.mp fun hnone => hpush (hhandles.unowned hnone)
          obtain ⟨rfl, haudience⟩ := hcalm o ho
          have hreceiver := (haudience.resolve_right fun hs => hpush (hhandles.silence hs)) _ hid
          rw [howner, ho, hreceiver]
        · obtain ⟨howner, hid, hsome⟩ := mem_acknowledge hn
          obtain ⟨o, ho⟩ := Option.ne_none_iff_exists'.mp hsome
          rw [howner, ho, hid, (hcalm o ho).1]
  | close c grow env =>
    change close s c grow env = some (t', es) at hsession
    unfold close at hsession
    cases hk : s.conns.conns c with
    | none =>
      rw [hk] at hsession
      cases hsession
    | some k =>
      rw [hk] at hsession
      obtain ⟨conns, _, heq⟩ := Option.map_eq_some_iff.mp hsession
      obtain ⟨hmanaged, hsame, hnone, hsilent⟩ := close_handles k.id grow env h
      have hcalm := hok k hk
      split at heq
      · rename_i hws
        obtain ⟨rfl, _⟩ := Prod.mk.inj heq
        refine ⟨hmanaged, fun b hb => ?_, fun n hn => ?_⟩
        · have hne : some k.id ≠ some b := by simpa only [actor, hk, Option.map_some] using hb
          exact hothers hsame hne
        · simp only [notices, hk, if_pos hws] at hn
          obtain ⟨howner, hid, hpush⟩ := mem_broadcast hn
          rcases hcalm with hvictims | haudience | hmem
          · rw [hnone hvictims] at hpush
            exact absurd rfl hpush
          · rw [howner, haudience _ hid]
          · exact absurd (hsilent hmem) hpush
      · rename_i hws
        obtain ⟨rfl, _⟩ := Prod.mk.inj heq
        refine ⟨h, fun b _ x _ => Iff.rfl, fun n hn => ?_⟩
        simp only [notices, hk, if_neg hws] at hn
        cases hn

private theorem managed_initial : Managed SessionState.initial.ws := ⟨sound_initial, fun _ => rfl⟩

/-- In a run whose steps do not reach over, everybody hears of their own tasks only, and from any
state of it on, the tasks of a connection stay the same as long as it does nothing itself. -/
theorem connections_apart {tr : List Notice} (run : Run (told mg) (undisturbed mg) tr s) :
    (∀ n ∈ tr, n.owner = some n.receiver) ∧
    ∀ b tr' t, Path (told mg) (fun s a => undisturbed mg s a ∧ actor s a ≠ some b) s tr' t →
      ∀ x : Nat × RtTaskNode, x.2.task.connId = b →
        (x ∈ t.ws.sched.listed ↔ x ∈ s.ws.sched.listed) := by
  have hrun : Managed s.ws ∧ ∀ n ∈ tr, n.owner = some n.receiver := by
    refine run.invariant (fun tr s => Managed s.ws ∧ ∀ n ∈ tr, n.owner = some n.receiver)
      ⟨managed_initial, fun n hn => absurd hn List.not_mem_nil⟩ ?_
    rintro tr s a t ns ⟨h, htold⟩ hok hstep
    obtain ⟨hmanaged, _, hnotices⟩ := step_apart h hok hstep
    refine ⟨hmanaged, fun n hn => ?_⟩
    rcases List.mem_append.mp hn with hn | hn
    · exact htold n hn
    · exact hnotices n hn
  refine ⟨hrun.2, fun b tr' t path x hx => ?_⟩
  have hpath : Managed t.ws ∧ (x ∈ t.ws.sched.listed ↔ x ∈ s.ws.sched.listed) := by
    refine path.state_invariant
      (fun t => Managed t.ws ∧ (x ∈ t.ws.sched.listed ↔ x ∈ s.ws.sched.listed)) ⟨hrun.1, Iff.rfl⟩ ?_
    rintro t a u ns ⟨h, hsame⟩ ⟨hok, hactor⟩ hstep
    obtain ⟨hmanaged, hothers, _⟩ := step_apart h hok hstep
    exact ⟨hmanaged, (hothers b hactor x hx).trans hsame⟩
  exact hpath.2

end Steps

section Samples

/-- The steps before any close that do not reach over. -/
def calm (mg : MgJson) (s : SessionState) : SessionAction → Prop
  | .conn _ => True
  | .message c data mem env => ∀ k ∈ s.conns.conns c,
    ∀ o ∈ (command mg data mem).bind fun req => concerned s.ws k.id req env,
      o = k.id ∧ ∀ id ∈ heard s.conns, id = k.id
  | .close _ _ _ => False

instance (mg : MgJson) (s : SessionState) (a : SessionAction) : Decidable (calm mg s a) := by
  apply a.casesOn (motive := fun a => Decidable (calm mg s a)) <;> intros <;> dsimp only [calm] <;>
    infer_instance

private theorem undisturbed_of_calm (mg : MgJson) (s : SessionState) (a : SessionAction)
    (h : calm mg s a) :
    undisturbed mg s a := by
  cases a with
  | conn a => trivial
  | message c data mem env => exact fun k hk o ho => ⟨(h k hk o ho).1, Or.inl (h k hk o ho).2⟩
  | close c grow env => exact absurd h id

/-- The reader of commands in the samples. -/
def reader : MgJson := Cyctron.Mongoose.Json.mongoose fun _ _ d => d

/-- The steps of the others that do not reach over. -/
def elsewhere (mg : MgJson) (b : Nat) (s : SessionState) (a : SessionAction) : Prop :=
  calm mg s a ∧ actor s a ≠ some b

instance (mg : MgJson) (b : Nat) (s : SessionState) (a : SessionAction) :
    Decidable (elsewhere mg b s a) := inferInstanceAs (Decidable (_ ∧ _))

def bindOther : SessionAction :=
  .message 2 (ascii "\x7b\"cmd\":\"bind\",\"uuid\":\"b\"\x7d") true { boundEnv with
    create := ⟨some 1, 1, ⟨true, 0⟩⟩, start := ⟨some 6, true, 1, ⟨true, 0⟩⟩ }

/-- The connection 2 binds a task, then the connection 3 comes and binds another: each hears of its
own task, and the first task stays. -/
theorem neighbours_apart : ∃ tr s, Run (told reader) (undisturbed reader) tr s ∧
    (∃ n ∈ tr, n.owner = some 2) ∧ (∃ x ∈ s.ws.sched.listed, x.2.task.connId = 2) ∧
    ∃ tr' t, Path (told reader) (fun s a => undisturbed reader s a ∧ actor s a ≠ some 2) s tr' t ∧
      (∃ n ∈ tr', n.owner = some 3) ∧ (∀ n ∈ tr ++ tr', n.owner = some n.receiver) ∧
      ∀ x : Nat × RtTaskNode, x.2.task.connId = 2 →
        (x ∈ t.ws.sched.listed ↔ x ∈ s.ws.sched.listed) := by
  obtain ⟨tr, s, run, hfirst, htask, hnext⟩ := (told reader).exec_reaches (calm reader)
    [.conn (.accept 1), .conn (.upgrade 1 true), .message 1 bindText true boundEnv]
    (fun tr s => (∃ n ∈ tr, n.owner = some 2) ∧ (∃ x ∈ s.ws.sched.listed, x.2.task.connId = 2) ∧
      ∃ r ∈ ((told reader).guard (elsewhere reader 2)).exec s
          [.conn (.accept 2), .conn (.upgrade 2 true), bindOther],
        ∃ n ∈ r.2, n.owner = some 3)
    (by decide +kernel)
  obtain ⟨⟨t, tr'⟩, hexec, hsecond⟩ := hnext
  have path := System.exec_path hexec
  have hrun := run.mono (undisturbed_of_calm reader)
  have hpath := path.mono fun s a h => And.intro (undisturbed_of_calm reader s a h.1) h.2
  have hwhole : Run (told reader) (undisturbed reader) (tr ++ tr') t :=
    hrun.trans (hpath.mono fun _ _ h => h.1)
  exact ⟨tr, s, hrun, hfirst, htask, tr', t, hpath, hsecond, (connections_apart hwhole).1,
    (connections_apart hrun).2 2 tr' t hpath⟩

def removeText : Bytes := ascii "\x7b\"cmd\":\"remove\",\"uuid\":\"a\"\x7d"

def removeA : SessionAction :=
  .message 2 removeText true { boundEnv with
    create := ⟨none, 0, ⟨true, 0⟩⟩, start := ⟨none, true, 0, ⟨true, 0⟩⟩ }

/-- The connection 3 hears of the task that the connection 2 binds, and removes it. -/
theorem others_reached : ∃ tr s, Run (told reader) anyStep tr s ∧
    (∃ n ∈ tr, n.owner = some 2 ∧ n.receiver = 3) ∧ actor s removeA = some 3 ∧
    ∃ t ns, (told reader).step s removeA = some (t, ns) ∧
      ∃ x ∈ s.ws.sched.listed, x.2.task.connId = 2 ∧ x ∉ t.ws.sched.listed := by
  obtain ⟨tr, s, run, hheard, hactor, hstep⟩ := (told reader).exec_reaches anyStep
    [.conn (.accept 1), .conn (.upgrade 1 true), .conn (.accept 2), .conn (.upgrade 2 true),
      .message 1 bindText true boundEnv]
    (fun tr s => (∃ n ∈ tr, n.owner = some 2 ∧ n.receiver = 3) ∧ actor s removeA = some 3 ∧
      ∃ r ∈ (told reader).step s removeA,
        ∃ x ∈ s.ws.sched.listed, x.2.task.connId = 2 ∧ x ∉ r.1.ws.sched.listed)
    (by decide +kernel)
  obtain ⟨r, hr, hx⟩ := hstep
  exact ⟨tr, s, run, hheard, hactor, r.1, r.2, hr, hx⟩

end Samples

end Cyctron.Ws.Apart
