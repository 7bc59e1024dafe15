/- Cyctron/Ws/Ownership
   digest: The connections with the scheduler: who owns the tasks, and what a close takes away. -/

import Cyctron.Mongoose.Json
import Cyctron.Server.Connections
import Cyctron.Ws.Bind

set_option autoImplicit false
set_option relaxedAutoImplicit false

namespace Cyctron.Ws.Ownership

open Cyctron.Base.CString Cyctron.Event.Format Cyctron.Call.Protocol
open Cyctron.Realtime.Model Cyctron.Realtime.Tasks Cyctron.Realtime.Refine
open Cyctron.Server.Connections Cyctron.Ws.Handler Cyctron.Ws.Bind
open Cyctron.Machine.Labelled (System Run)
open Cyctron.Machine.LinkedList

structure SessionState where
  conns : ConnState
  ws : WsState

def SessionState.initial : SessionState := ⟨.initial, ⟨.initial, false⟩⟩

/-- `ws_on_upgrade` registers the connection. -/
def registers (s : ConnState) (c : Nat) (key : Bool) : Bool :=
  (wsConnRegister ((mgWsUpgrade s c key).modify c fun k => { k with fn := .wsEvHandler }) c).2

/-- What a step on the connections other than a close does to the scheduler: a registered connection
sets the manager. -/
def afterConn (s : SessionState) : ConnAction → WsState
  | .upgrade c key => if registers s.conns c key then withManager s.ws else s.ws
  | _ => s.ws

def isClose : ConnAction → Bool
  | .close _ => true
  | _ => false

/-- `MG_EV_WS_MSG` of a connection. -/
def message (mg : MgJson) (s : SessionState) (c : Nat) (data : Bytes) (mem : Bool)
    (env : MessageEnv) : Option (SessionState × List Realtime.Model.Event) :=
  match s.conns.conns c with
  | some k =>
    if k.fn = .wsEvHandler ∧ k.isWebsocket = true ∧ MessageEnv.Fits env (withManager s.ws).sched then
      let r := wsEvMsg mg s.ws k.id data mem env
      let conns := if r.2 then s.conns.modify c fun k => { k with isDraining := true } else s.conns
      some (⟨conns, r.1.state⟩, r.1.events)
    else none
  | none => none

/-- `MG_EV_CLOSE` of a connection. -/
def close (s : SessionState) (c : Nat) (grow : Nat → Bool) (env : Nat → FormatEnv) :
    Option (SessionState × List Realtime.Model.Event) :=
  match s.conns.conns c with
  | some k => (s.conns.step (.close c)).map fun conns =>
    if k.fn = .wsEvHandler ∧ s.ws.gRtManager = true then
      let r := rtRemoveTasksByConn s.ws.sched k.id grow env
      (⟨conns, { s.ws with sched := r.1 }⟩, r.2.2)
    else (⟨conns, s.ws⟩, [])
  | none => none

inductive SessionAction
  | conn (a : ConnAction)
  | message (c : Nat) (data : Bytes) (mem : Bool) (env : MessageEnv)
  | close (c : Nat) (grow : Nat → Bool) (env : Nat → FormatEnv)

def step (mg : MgJson) (s : SessionState) :
    SessionAction → Option (SessionState × List Realtime.Model.Event)
  | .conn a =>
    if isClose a then none
    else (s.conns.step a).map fun conns => (⟨conns, afterConn s a⟩, [])
  | .message c data mem env => message mg s c data mem env
  | .close c grow env => close s c grow env

def sessions (mg : MgJson) : System SessionState SessionAction Realtime.Model.Event :=
  ⟨.initial, step mg⟩

/-- The array of `rt_remove_tasks_by_conn` can always grow. -/
def memory (_ : SessionState) : SessionAction → Prop
  | .close _ grow _ => ∀ n, grow n = true
  | _ => True

section Messages

variable {mg : MgJson} {s : WsState} {connId : Nat} {data : Bytes} {env : MessageEnv}
  {req : WsCommand}

/-- What a message does to the tasks: nothing, or a task of the connection is put in front, or a
task is taken off. -/
inductive TaskEffect (connId : Nat) (s t : WsState) : Prop
  | same (h : t = s)
  | managed (h : t = withManager s)
  | bound {p : Nat} {node : RtTaskNode} (manager : t.gRtManager = (withManager s).gRtManager)
      (listed : t.sched.listed = (p, node) :: (withManager s).sched.listed)
      (owner : node.task.connId = connId)
  | removed {p : Nat} (manager : t.gRtManager = s.gRtManager)
      (listed : t.sched.listed = without s.sched.listed p)

private theorem bind_effect (h : Sound s.sched) (fits : MessageEnv.Fits env (withManager s).sched) :
    let t := (handleBind s connId req env).1
    Sound t.sched ∧ TaskEffect connId s t := by
  intro t
  rcases names_or req with hun | ⟨u, named⟩
  · have ht : t = s := by
      change (handleBind s connId req env).1 = s
      rw [bind_unnamed hun]
    rw [ht]
    exact ⟨h, .same rfl⟩
  · rcases bind_cases h named fits (rfl : handleBind s connId req env = (_, _, _)) with ⟨_, ht, _⟩ |
      ⟨p, node, _, _, _, sound, hm, hl, howner, _⟩
    · change t = withManager s at ht
      rw [ht]
      exact ⟨sound_withManager h, .managed rfl⟩
    · exact ⟨sound, .bound hm hl howner⟩

private theorem remove_effect (h : Sound s.sched) :
    let t := (handleRemove s req env).state
    Sound t.sched ∧ TaskEffect connId s t := by
  unfold handleRemove
  split
  · exact ⟨h, .same rfl⟩
  · exact ⟨h, .same rfl⟩
  · rename_i u _ _
    dsimp only
    cases hfind : findTask s u with
    | none => exact ⟨h, .same rfl⟩
    | some found =>
      obtain ⟨p, node⟩ := found
      obtain ⟨_, hbind⟩ : s.gRtManager = true ∧ ((rtFindTaskByUuid s.sched u).bind fun p =>
          (s.sched.store.cell p).map fun n => (p, n.val)) = some (p, node) := by
        unfold findTask at hfind
        split at hfind
        · exact ⟨by assumption, hfind⟩
        · cases hfind
      obtain ⟨q, hq, hcell⟩ := Option.bind_eq_some_iff.mp hbind
      obtain ⟨n, hn, heq⟩ := Option.map_eq_some_iff.mp hcell
      obtain ⟨rfl, rfl⟩ := Prod.mk.inj heq
      obtain ⟨c, hc, rfl⟩ := Option.map_eq_some_iff.mp hq
      have hmem : c.1 ∈ s.sched.listed.map Prod.fst :=
        List.mem_map_of_mem (List.mem_of_find?_eq_some hc)
      obtain ⟨t, hcall, hsound, hl, _⟩ := remove_listed h (h.node_mem hn hmem) env.event
      dsimp only
      rw [hcall]
      exact ⟨hsound, .removed rfl hl⟩

theorem msg_state : (handleMsg s req env).state = s := by
  unfold handleMsg
  split
  · rfl
  · rfl
  · dsimp only
    split <;> rfl

private theorem command_effect (h : Sound s.sched) (fits : MessageEnv.Fits env (withManager s).sched) :
    let t := (handleWsMessage mg s connId data env).state
    Sound t.sched ∧ TaskEffect connId s t := by
  have hsame : Sound s.sched ∧ TaskEffect connId s s := ⟨h, .same rfl⟩
  unfold handleWsMessage
  dsimp only
  by_cases hping : cString data = ascii "ping"
  · rw [if_pos hping]
    exact hsame
  rw [if_neg hping]
  by_cases hstatus : cString data = ascii "status"
  · rw [if_pos hstatus]
    exact hsame
  rw [if_neg hstatus]
  by_cases hjson : data.head? ≠ some 123
  · rw [if_pos hjson]
    exact hsame
  rw [if_neg hjson]
  by_cases hparse : (wsCommandParse mg (some data) errSize).1 ≠ 0
  · rw [if_pos hparse]
    exact hsame
  rw [if_neg hparse]
  generalize (wsCommandParse mg (some data) errSize).2.1 = req
  split
  · exact bind_effect h fits
  · split
    · exact remove_effect h
    · split
      · exact hsame
      · split
        · rw [msg_state]
          exact hsame
        · split <;> exact hsame

/-- A message keeps the list in order and has one of these effects. -/
private theorem message_effect (mg : MgJson) (connId : Nat) (data : Bytes) (h : Sound s.sched)
    (mem : Bool)
    (fits : MessageEnv.Fits env (withManager s).sched) :
    let t := (wsEvMsg mg s connId data mem env).1.state
    Sound t.sched ∧ TaskEffect connId s t := by
  have hsame : Sound s.sched ∧ TaskEffect connId s s := ⟨h, .same rfl⟩
  unfold wsEvMsg
  split
  · exact hsame
  · split
    · exact command_effect h fits
    · exact hsame

end Messages

section Connections

variable {s s' : ConnState} {a : ConnAction} {c : Nat} {k : MgConnection}

/-- A connection stays open with its number, and with the handler of WebSockets once it has it. -/
def StaysOpen (conns conns' : Nat → Option MgConnection) : Prop :=
  ∀ c k, conns c = some k → ∃ k', conns' c = some k' ∧ k'.id = k.id ∧
    (k.fn = .wsEvHandler → k'.fn = .wsEvHandler)

private theorem staysOpen_refl {conns : Nat → Option MgConnection} : StaysOpen conns conns :=
  fun _ k hk => ⟨k, hk, rfl, id⟩

theorem StaysOpen.trans {f g h : Nat → Option MgConnection} (hfg : StaysOpen f g)
    (hgh : StaysOpen g h) : StaysOpen f h := by
  intro c k hk
  obtain ⟨k', hk', hid, hfn⟩ := hfg c k hk
  obtain ⟨k'', hk'', hid', hfn'⟩ := hgh c k' hk'
  exact ⟨k'', hk'', hid'.trans hid, hfn' ∘ hfn⟩

private theorem staysOpen_modify {f : MgConnection → MgConnection}
    (keep : ∀ k, (f k).id = k.id ∧ (k.fn = .wsEvHandler → (f k).fn = .wsEvHandler)) :
    StaysOpen s.conns (s.modify c f).conns := by
  intro d k hk
  obtain ⟨k', hk', rfl | rfl⟩ := modify_of_some hk c f
  · exact ⟨k', hk', rfl, id⟩
  · exact ⟨f k, hk', keep k⟩

private theorem staysOpen_wsOnUpgrade : StaysOpen s.conns (wsOnUpgrade s c).conns := by
  unfold wsOnUpgrade
  dsimp only
  split
  · exact staysOpen_refl
  · exact staysOpen_modify (s := (wsConnRegister s c).1) fun _ => ⟨rfl, id⟩

/-- Only a close ends a connection. -/
private theorem step_staysOpen (h : s.step a = some s') (going : isClose a = false) :
    StaysOpen s.conns s'.conns := by
  cases a with
  | accept p =>
    simp only [ConnState.step, mgAllocConn, Option.ite_none_right_eq_some] at h
    obtain ⟨hfree, h⟩ := h
    obtain rfl := Option.some.inj h
    intro d k hk
    have hd : d ≠ p := by
      rintro rfl
      cases hfree.1.symm.trans hk
    exact ⟨k, (Function.update_of_ne hd _ _).trans hk, rfl, id⟩
  | upgrade c key =>
    simp only [ConnState.step, evHandlerSoket] at h
    split at h
    · rw [Option.ite_none_right_eq_some] at h
      obtain rfl := Option.some.inj h.2
      have hkey : StaysOpen s.conns (mgWsUpgrade s c key).conns :=
        staysOpen_modify fun k => by cases key <;> exact ⟨rfl, id⟩
      have hfn : StaysOpen (mgWsUpgrade s c key).conns
          ((mgWsUpgrade s c key).modify c fun k => { k with fn := .wsEvHandler }).conns :=
        staysOpen_modify fun _ => ⟨rfl, fun _ => rfl⟩
      exact (hkey.trans hfn).trans staysOpen_wsOnUpgrade
    · cases h
  | closeFrame c =>
    simp only [ConnState.step, wsCloseFrame] at h
    split at h
    · rw [Option.ite_none_right_eq_some] at h
      obtain rfl := Option.some.inj h.2
      exact staysOpen_modify (s := wsConnUnregister s c) fun _ => ⟨rfl, id⟩
    · cases h
  | setClosing c =>
    simp only [ConnState.step, setClosing, Option.map_eq_some_iff] at h
    obtain ⟨_, _, rfl⟩ := h
    exact staysOpen_modify fun _ => ⟨rfl, id⟩
  | close c => cases going

/-- A close ends one connection and leaves the others as they are. -/
private theorem close_conns (h : s.step (.close c) = some s') :
    s'.conns = Function.update s.conns c none := by
  simp only [ConnState.step, mgCloseConn] at h
  split at h
  · rw [Option.ite_none_right_eq_some] at h
    obtain rfl := Option.some.inj h.2
    split <;> rfl
  · cases h

end Connections

section Runs

variable {mg : MgJson} {s t : SessionState} {es tr : List Realtime.Model.Event} {c : Nat}
  {k : MgConnection} {l : List (Nat × RtTaskNode)}

/-- Each task belongs to an open connection whose close will be handled. -/
def OwnedBy (conns : Nat → Option MgConnection) (l : List (Nat × RtTaskNode)) : Prop :=
  ∀ x ∈ l, ∃ c k, conns c = some k ∧ k.fn = .wsEvHandler ∧ x.2.task.connId = k.id

structure Owned (s : SessionState) : Prop where
  numbered : Numbered s.conns
  sound : Sound s.ws.sched
  unmanaged : s.ws.gRtManager = false → s.ws.sched.listed = []
  owned : OwnedBy s.conns.conns s.ws.sched.listed

private theorem owned_initial : Owned SessionState.initial :=
  ⟨numbered_initial, sound_initial, fun _ => rfl, fun _ hx => absurd hx List.not_mem_nil⟩

theorem OwnedBy.stays {conns conns' : Nat → Option MgConnection} (h : OwnedBy conns l)
    (stays : StaysOpen conns conns') : OwnedBy conns' l := by
  intro x hx
  obtain ⟨c, k, hk, hfn, howner⟩ := h x hx
  obtain ⟨k', hk', hid, hfn'⟩ := stays c k hk
  exact ⟨c, k', hk', hfn' hfn, howner.trans hid.symm⟩

theorem OwnedBy.subset {conns : Nat → Option MgConnection} {l' : List (Nat × RtTaskNode)}
    (h : OwnedBy conns l) (sub : l' ⊆ l) : OwnedBy conns l' :=
  fun x hx => h x (sub hx)

/-- Setting the manager drops no task of a reachable state. -/
theorem Owned.withManager_listed (h : Owned s) :
    (withManager s.ws).sched.listed = s.ws.sched.listed := by
  rw [Bind.withManager_listed h.sound]
  by_cases hm : s.ws.gRtManager = true
  · exact Or.inl hm
  · exact Or.inr (Or.inr (h.unmanaged (by simpa using hm)))

theorem manager_withManager (s : WsState) : (withManager s).gRtManager = true := by
  unfold withManager
  split
  · assumption
  · rfl

theorem Owned.conn {a : ConnAction} {conns : ConnState} (h : Owned s) (going : isClose a = false)
    (hstep : s.conns.step a = some conns) : Owned ⟨conns, afterConn s a⟩ := by
  have hstays := step_staysOpen hstep going
  have hsame : Owned ⟨conns, s.ws⟩ :=
    ⟨h.numbered.keep hstep, h.sound, h.unmanaged, h.owned.stays hstays⟩
  have hmanaged : Owned ⟨conns, withManager s.ws⟩ := by
    refine ⟨h.numbered.keep hstep, sound_withManager h.sound, ?_, ?_⟩
    · intro hm
      cases (manager_withManager s.ws).symm.trans hm
    · change OwnedBy conns.conns (withManager s.ws).sched.listed
      rw [h.withManager_listed]
      exact h.owned.stays hstays
  cases a with
  | upgrade c key =>
    unfold afterConn
    dsimp only
    split
    · exact hmanaged
    · exact hsame
  | _ => exact hsame

/-- What a message does to the tasks leaves each of them with an owner. -/
private theorem Owned.effect {conns : ConnState} {ws : WsState} (h : Owned s)
    (hk : s.conns.conns c = some k)
    (hfn : k.fn = .wsEvHandler) (numbered : Numbered conns)
    (stays : StaysOpen s.conns.conns conns.conns) (sound : Sound ws.sched)
    (effect : TaskEffect k.id s.ws ws) : Owned ⟨conns, ws⟩ := by
  have howned := h.owned.stays stays
  obtain ⟨k', hk', hid, hfn'⟩ := stays c k hk
  cases effect with
  | same hws =>
    subst hws
    exact ⟨numbered, sound, h.unmanaged, howned⟩
  | managed hws =>
    subst hws
    refine ⟨numbered, sound, ?_, ?_⟩
    · intro hm
      cases (manager_withManager s.ws).symm.trans hm
    · change OwnedBy conns.conns (withManager s.ws).sched.listed
      rw [h.withManager_listed]
      exact howned
  | bound manager listed owner =>
    refine ⟨numbered, sound, ?_, ?_⟩
    · intro hm
      cases ((manager_withManager s.ws).symm.trans manager.symm).trans hm
    · intro x hx
      change x ∈ ws.sched.listed at hx
      rw [listed, h.withManager_listed] at hx
      rcases List.mem_cons.mp hx with rfl | hx
      · exact ⟨c, k', hk', hfn' hfn, owner.trans hid.symm⟩
      · exact howned x hx
  | removed manager listed =>
    refine ⟨numbered, sound, ?_, ?_⟩
    · intro hm
      change ws.sched.listed = []
      rw [listed, h.unmanaged (manager.symm.trans hm)]
      rfl
    · change OwnedBy conns.conns ws.sched.listed
      rw [listed]
      exact howned.subset fun x hx => (mem_without.mp hx).1

private theorem numbered_modify {f : MgConnection → MgConnection} {s : ConnState} (h : Numbered s)
    (keep : ∀ k, (f k).id = k.id) : Numbered (s.modify c f) := by
  have hold : ∀ d k', (s.modify c f).conns d = some k' → ∃ k, s.conns d = some k ∧ k'.id = k.id := by
    intro d k' hk'
    obtain ⟨k, hk, rfl | rfl⟩ := modify_some hk'
    · exact ⟨k', hk, rfl⟩
    · exact ⟨k, hk, keep k⟩
  constructor
  · intro d k' hk
    obtain ⟨k, hk, hid⟩ := hold d k' hk
    exact hid ▸ h.le d k hk
  · intro d e k' l' hk hl hid
    obtain ⟨k, hk, hkid⟩ := hold d k' hk
    obtain ⟨l, hl, hlid⟩ := hold e l' hl
    exact h.distinct d e k l hk hl (by rw [← hkid, ← hlid, hid])

theorem Owned.message {data : Bytes} {mem : Bool} {env : MessageEnv} (h : Owned s)
    (hstep : Ownership.message mg s c data mem env = some (t, es)) : Owned t := by
  unfold Ownership.message at hstep
  split at hstep
  · rename_i k hk
    rw [Option.ite_none_right_eq_some] at hstep
    obtain ⟨⟨hfn, _, fits⟩, hstep⟩ := hstep
    obtain ⟨rfl, _⟩ := Prod.mk.inj (Option.some.inj hstep)
    obtain ⟨sound, effect⟩ := message_effect mg k.id data h.sound mem fits
    split
    · exact h.effect hk hfn (numbered_modify h.numbered fun _ => rfl)
        (staysOpen_modify fun _ => ⟨rfl, id⟩) sound effect
    · exact h.effect hk hfn h.numbered staysOpen_refl sound effect
  · cases hstep

/-- The tasks of a connection. -/
def tasksOf (s : SessionState) (id : Nat) : List (Nat × RtTaskNode) :=
  s.ws.sched.listed.filter fun x => x.2.task.connId = id

/-- A close removes the tasks of its connection in order and no others. -/
private theorem close_spec (mg : MgJson) {grow : Nat → Bool} (h : Owned s)
    (hk : s.conns.conns c = some k)
    (closing : k.isClosing = true) (all : ∀ n, grow n = true) (env : Nat → FormatEnv) :
    (rtRemoveTasksByConn s.ws.sched k.id grow env).2.1 = (tasksOf s k.id).length ∧
    ∃ t, step mg s (.close c grow env) =
        some (t, (tasksOf s k.id).flatMap fun x => removeEvents (env x.1) x) ∧
      Sound t.ws.sched ∧ t.ws.gRtManager = s.ws.gRtManager ∧
      s.conns.step (.close c) = some t.conns ∧
      t.ws.sched.listed = s.ws.sched.listed.filter fun x => x.2.task.connId ≠ k.id := by
  obtain ⟨u, hcall, sound, hl, _⟩ := removeByConn_all k.id h.sound all env
  refine ⟨by rw [hcall]; rfl, ?_⟩
  obtain ⟨conns, hconns⟩ : ∃ conns, s.conns.step (.close c) = some conns := by
    simp only [ConnState.step, mgCloseConn, hk, closing, if_true]
    exact ⟨_, rfl⟩
  by_cases hws : k.fn = .wsEvHandler ∧ s.ws.gRtManager = true
  · refine ⟨⟨conns, { s.ws with sched := u }⟩, ?_, sound, rfl, hconns, hl⟩
    simp only [step, close, hk, hconns, Option.map_some, hcall]
    rw [if_pos hws]
    rfl
  · have hnone : ∀ x ∈ s.ws.sched.listed, x.2.task.connId ≠ k.id := by
      intro x hx hid
      obtain ⟨d, l, hl, hfn, howner⟩ := h.owned x hx
      obtain rfl := h.numbered.distinct d c l k hl hk (howner.symm.trans hid)
      obtain rfl := Option.some.inj (hl.symm.trans hk)
      rw [not_and, Bool.not_eq_true] at hws
      rw [h.unmanaged (hws hfn)] at hx
      exact List.not_mem_nil hx
    have hempty : tasksOf s k.id = [] := by
      refine List.filter_eq_nil_iff.mpr fun x hx => ?_
      simpa using hnone x hx
    refine ⟨⟨conns, s.ws⟩, ?_, h.sound, rfl, hconns, ?_⟩
    · simp only [step, close, hk, hconns, Option.map_some, hempty, List.flatMap_nil]
      rw [if_neg hws]
    · exact (List.filter_eq_self.mpr fun x hx => by simpa using hnone x hx).symm

theorem Owned.close {grow : Nat → Bool} {env : Nat → FormatEnv} (h : Owned s)
    (all : ∀ n, grow n = true) (hstep : step mg s (.close c grow env) = some (t, es)) : Owned t := by
  obtain ⟨k, hk, closing⟩ : ∃ k, s.conns.conns c = some k ∧ k.isClosing = true := by
    simp only [step, Ownership.close] at hstep
    split at hstep
    · rename_i k hk
      refine ⟨k, hk, ?_⟩
      by_contra hopen
      simp [ConnState.step, mgCloseConn, hk, hopen] at hstep
    · cases hstep
  obtain ⟨_, t', hcall, sound, hm, hconns, hl⟩ := close_spec mg h hk closing all env
  obtain ⟨rfl, _⟩ := Prod.mk.inj (Option.some.inj (hstep.symm.trans hcall))
  refine ⟨h.numbered.keep hconns, sound, ?_, ?_⟩
  · intro hoff
    rw [hl, h.unmanaged (hm.symm.trans hoff)]
    rfl
  · intro x hx
    rw [hl] at hx
    obtain ⟨hx, hother⟩ := List.mem_filter.mp hx
    obtain ⟨d, l, hdl, hfn, howner⟩ := h.owned x hx
    refine ⟨d, l, ?_, hfn, howner⟩
    rw [close_conns hconns, Function.update_of_ne ?_ _ _, hdl]
    rintro rfl
    obtain rfl := Option.some.inj (hdl.symm.trans hk)
    simp [howner] at hother

private theorem owned_run (run : Run (sessions mg) memory tr s) : Owned s := by
  refine run.state_invariant Owned owned_initial ?_
  intro s a t es h hok hstep
  cases a with
  | conn a =>
    change (if isClose a then none else _) = _ at hstep
    split at hstep
    · cases hstep
    · rename_i going
      obtain ⟨conns, hconns, heq⟩ := Option.map_eq_some_iff.mp hstep
      obtain ⟨rfl, _⟩ := Prod.mk.inj heq
      exact h.conn (by simpa using going) hconns
  | message c data mem env => exact h.message hstep
  | close c grow env =>
    have hclose : step mg s (.close c grow env) = some (t, es) := hstep
    exact h.close hok hclose

def ends : SessionAction → Bool
  | .close _ _ _ => true
  | _ => false

/-- No connection is closed yet. -/
def allOpen (_ : SessionState) (a : SessionAction) : Prop := ends a = false

instance (s : SessionState) (a : SessionAction) : Decidable (allOpen s a) :=
  inferInstanceAs (Decidable (_ = _))

private theorem memory_of_allOpen (s : SessionState) (a : SessionAction) (h : allOpen s a) :
    memory s a := by
  cases a with
  | close c grow env => cases h
  | _ => trivial

/-- A bind whose calls all succeed. -/
def boundEnv : MessageEnv :=
  ⟨⟨some 0, 0, ⟨true, 0⟩⟩, ⟨some 5, true, 0, ⟨true, 0⟩⟩, ⟨true, 0⟩, ⟨true, 0⟩, ⟨true, 0⟩⟩

def bindText : Bytes := ascii "\x7b\"cmd\":\"bind\",\"uuid\":\"a\"\x7d"

end Runs

end Cyctron.Ws.Ownership
