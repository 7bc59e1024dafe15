/- Cyctron/Server/Connections
   digest: The connections of the server, their numbers, and the table of handler_ws.c. -/

import Cyctron.Machine.Labelled
import Mathlib.Algebra.Group.Nat.Defs
import Mathlib.Data.List.ReduceOption
import Mathlib.Logic.Function.Basic

set_option autoImplicit false
set_option relaxedAutoImplicit false

namespace Cyctron.Server.Connections

abbrev WS_MAX_CONNS : Nat := 32

/-- The event handler of a connection. -/
inductive Handler
  | evHandler
  | wsEvHandler
  deriving DecidableEq

structure MgConnection where
  id : Nat
  fn : Handler
  isWebsocket : Bool
  isDraining : Bool
  isClosing : Bool
  deriving DecidableEq

/-- The counter of `mg_mgr`, the connections by address, and the two variables of
`handler_ws.c`. -/
structure ConnState where
  nextid : Nat
  conns : Nat → Option MgConnection
  gWsConns : List (Option Nat)
  gWsConn : Option Nat

/-- The listening socket has the number 1. -/
def ConnState.initial : ConnState where
  nextid := 1
  conns _ := none
  gWsConns := List.replicate WS_MAX_CONNS none
  gWsConn := none

def ConnState.modify (s : ConnState) (c : Nat) (f : MgConnection → MgConnection) :
    ConnState :=
  { s with conns := Function.update s.conns c ((s.conns c).map f) }

/-- `g_ws_conns[i] && g_ws_conns[i]->is_closing` -/
def slotClosing (conns : Nat → Option MgConnection) (slot : Option Nat) : Bool :=
  (slot.bind conns).any MgConnection.isClosing

/-- `g_ws_conns[i] && g_ws_conns[i]->id == conn_id` -/
def slotHasId (conns : Nat → Option MgConnection) (connId : Nat) (slot : Option Nat) : Bool :=
  (slot.bind conns).any fun k => k.id = connId

/-- The first loop of `ws_conn_register`, up to the slot of `c` when there is one. -/
def reapUntil (conns : Nat → Option MgConnection) (c : Nat) :
    List (Option Nat) → Bool × List (Option Nat)
  | [] => (false, [])
  | slot :: rest =>
    if slot = some c then (true, slot :: rest)
    else
      let r := reapUntil conns c rest
      (r.1, (if slotClosing conns slot then none else slot) :: r.2)

/-- The second loop of `ws_conn_register`. -/
def claimSlot (c : Nat) : List (Option Nat) → Bool × List (Option Nat)
  | [] => (false, [])
  | none :: rest => (true, some c :: rest)
  | some d :: rest =>
    let r := claimSlot c rest
    (r.1, some d :: r.2)

def wsConnRegister (s : ConnState) (c : Nat) : ConnState × Bool :=
  let r := reapUntil s.conns c s.gWsConns
  let r := if r.1 then r else claimSlot c r.2
  ({ s with gWsConns := r.2 }, r.1)

def wsConnUnregister (s : ConnState) (c : Nat) : ConnState :=
  let table := s.gWsConns.map fun slot => if slot = some c then none else slot
  { s with
    gWsConns := table
    gWsConn := if s.gWsConn = some c then table.reverse.findSome? id else s.gWsConn }

/-- The loop of `ws_conn_find`. -/
def findSlot (conns : Nat → Option MgConnection) (connId : Nat) :
    List (Option Nat) → Option Nat × List (Option Nat)
  | [] => (none, [])
  | slot :: rest =>
    if slotClosing conns slot then
      let r := findSlot conns connId rest
      (r.1, none :: r.2)
    else if slotHasId conns connId slot then (slot, slot :: rest)
    else
      let r := findSlot conns connId rest
      (r.1, slot :: r.2)

def wsConnFind (s : ConnState) (connId : Nat) : ConnState × Option Nat :=
  let r := findSlot s.conns connId s.gWsConns
  ({ s with gWsConns := r.2 }, r.1)

/-- The connection that `mg_alloc_conn` makes. -/
def MgConnection.fresh (id : Nat) : MgConnection := ⟨id, .evHandler, false, false, false⟩

/-- The counter is 64 bits wide and is not used up. -/
def mgAllocConn (s : ConnState) (p : Nat) : Option ConnState :=
  if s.conns p = none ∧ s.nextid + 1 < 2 ^ 64 then
    some { s with
      nextid := s.nextid + 1
      conns := Function.update s.conns p (some (.fresh (s.nextid + 1))) }
  else none

/-- `key` says whether the request has a `Sec-WebSocket-Key`. -/
def mgWsUpgrade (s : ConnState) (c : Nat) (key : Bool) : ConnState :=
  s.modify c fun k => if key then { k with isWebsocket := true } else { k with isDraining := true }

def wsOnUpgrade (s : ConnState) (c : Nat) : ConnState :=
  let r := wsConnRegister s c
  if r.2 then { r.1 with gWsConn := some c } else r.1.modify c fun k => { k with isDraining := true }

/-- A request for `/soket` in `ev_handler`. -/
def evHandlerSoket (s : ConnState) (c : Nat) (key : Bool) : Option ConnState :=
  match s.conns c with
  | some k =>
    if k.fn = .evHandler then
      some (wsOnUpgrade ((mgWsUpgrade s c key).modify c fun k => { k with fn := .wsEvHandler }) c)
    else none
  | none => none

/-- A close frame: `MG_EV_WS_CTL`, and what `mg_ws_cb` does after it. -/
def wsCloseFrame (s : ConnState) (c : Nat) : Option ConnState :=
  match s.conns c with
  | some k =>
    if k.fn = .wsEvHandler then
      some ((wsConnUnregister s c).modify c fun k => { k with isDraining := true })
    else none
  | none => none

def setClosing (s : ConnState) (c : Nat) : Option ConnState :=
  (s.conns c).map fun _ => s.modify c fun k => { k with isClosing := true }

/-- `MG_EV_CLOSE` of a connection that is closing, and its end. -/
def mgCloseConn (s : ConnState) (c : Nat) : Option ConnState :=
  match s.conns c with
  | some k =>
    if k.isClosing then
      let s := if k.fn = .wsEvHandler then wsConnUnregister s c else s
      some { s with conns := Function.update s.conns c none }
    else none
  | none => none

inductive ConnAction
  | accept (p : Nat)
  | upgrade (c : Nat) (key : Bool)
  | closeFrame (c : Nat)
  | setClosing (c : Nat)
  | close (c : Nat)

def ConnState.step (s : ConnState) : ConnAction → Option ConnState
  | .accept p => mgAllocConn s p
  | .upgrade c key => evHandlerSoket s c key
  | .closeFrame c => wsCloseFrame s c
  | .setClosing c => setClosing s c
  | .close c => mgCloseConn s c

/-- A connection keeps its number, and once a WebSocket it stays one. -/
def Ages (conns conns' : Nat → Option MgConnection) : Prop :=
  ∀ c k', conns' c = some k' → ∃ k, conns c = some k ∧ k'.id = k.id ∧
    (k.isWebsocket = true → k'.isWebsocket = true)

/-- No two connections have the same number, and the next number is a new one. -/
structure Numbered (s : ConnState) : Prop where
  le : ∀ c k, s.conns c = some k → k.id ≤ s.nextid
  distinct : ∀ c d k l, s.conns c = some k → s.conns d = some l → k.id = l.id → c = d

section Slots

variable {conns : Nat → Option MgConnection} {connId c : Nat} {slots : List (Option Nat)}

theorem slotClosing_some : slotClosing conns (some c) = true ↔
    ∃ k, conns c = some k ∧ k.isClosing = true := by
  rw [slotClosing, Option.bind_some, Option.any_eq_true]

private theorem slotHasId_iff {slot : Option Nat} : slotHasId conns connId slot = true ↔
    ∃ c k, slot = some c ∧ conns c = some k ∧ k.id = connId := by
  cases slot with
  | none => simp [slotHasId]
  | some c => simp [slotHasId, Option.any_eq_true]

/-- What the loop finds is in the table, has the number, and is not closing. -/
theorem findSlot_found (h : (findSlot conns connId slots).1 = some c) :
    some c ∈ (findSlot conns connId slots).2 ∧
      ∃ k, conns c = some k ∧ k.id = connId ∧ k.isClosing = false := by
  induction slots with
  | nil => cases h
  | cons slot rest ih =>
    rw [findSlot] at h ⊢
    split at h
    · rename_i closing
      rw [if_pos closing]
      obtain ⟨hmem, hk⟩ := ih h
      exact ⟨List.mem_cons_of_mem _ hmem, hk⟩
    · rename_i notClosing
      rw [if_neg notClosing]
      split at h
      · rename_i hasId
        rw [if_pos hasId]
        obtain ⟨d, k, hslot, hk, hid⟩ := slotHasId_iff.mp hasId
        obtain rfl : slot = some c := h
        obtain rfl := Option.some.inj hslot
        refine ⟨List.mem_cons_self, k, hk, hid, ?_⟩
        by_contra hc
        exact notClosing (slotClosing_some.mpr ⟨k, hk, by simpa using hc⟩)
      · rename_i other
        rw [if_neg other]
        obtain ⟨hmem, hk⟩ := ih h
        exact ⟨List.mem_cons_of_mem _ hmem, hk⟩

/-- When the loop finds nothing, no connection that is left in the table has the number. -/
theorem findSlot_missed (h : (findSlot conns connId slots).1 = none) {k : MgConnection}
    (member : some c ∈ (findSlot conns connId slots).2) (hk : conns c = some k) :
    k.id ≠ connId := by
  induction slots with
  | nil => cases member
  | cons slot rest ih =>
    rw [findSlot] at h member
    split at h
    · rename_i closing
      rw [if_pos closing] at member
      rcases List.mem_cons.mp member with member | member
      · cases member
      · exact ih h member
    · rename_i notClosing
      rw [if_neg notClosing] at member
      split at h
      · rename_i hasId
        obtain ⟨d, _, hslot, _⟩ := slotHasId_iff.mp hasId
        cases hslot.symm.trans h
      · rename_i other
        rw [if_neg other] at member
        rcases List.mem_cons.mp member with member | member
        · intro hid
          exact other (slotHasId_iff.mpr ⟨c, k, member.symm, hk, hid⟩)
        · exact ih h member

end Slots

section Steps

variable {s s' : ConnState} {a : ConnAction}

private theorem ages_refl {conns : Nat → Option MgConnection} : Ages conns conns :=
  fun _ k' hk => ⟨k', hk, rfl, id⟩

theorem Ages.trans {f g h : Nat → Option MgConnection} (hfg : Ages f g) (hgh : Ages g h) :
    Ages f h := by
  intro c k' hk
  obtain ⟨k, hk, hid, hws⟩ := hgh c k' hk
  obtain ⟨k₀, hk₀, hid₀, hws₀⟩ := hfg c k hk
  exact ⟨k₀, hk₀, hid.trans hid₀, hws ∘ hws₀⟩

/-- A connection after a change was there before it, and is perhaps the one that was changed. -/
theorem modify_some {c d : Nat} {f : MgConnection → MgConnection} {k' : MgConnection}
    (h : (s.modify c f).conns d = some k') : ∃ k, s.conns d = some k ∧ (k' = k ∨ k' = f k) := by
  by_cases hd : d = c
  · subst hd
    simp only [ConnState.modify, Function.update_self, Option.map_eq_some_iff] at h
    obtain ⟨k, hk, rfl⟩ := h
    exact ⟨k, hk, Or.inr rfl⟩
  · simp only [ConnState.modify, Function.update_of_ne hd] at h
    exact ⟨k', h, Or.inl rfl⟩

theorem modify_of_some {d : Nat} {k : MgConnection} (h : s.conns d = some k) (c : Nat)
    (f : MgConnection → MgConnection) :
    ∃ k', (s.modify c f).conns d = some k' ∧ (k' = k ∨ k' = f k) := by
  by_cases hd : d = c
  · subst hd
    refine ⟨f k, ?_, Or.inr rfl⟩
    simp only [ConnState.modify, Function.update_self, h, Option.map_some]
  · refine ⟨k, ?_, Or.inl rfl⟩
    simp only [ConnState.modify, Function.update_of_ne hd, h]

private theorem ages_modify {c : Nat} {f : MgConnection → MgConnection}
    (keep : ∀ k, (f k).id = k.id ∧ (k.isWebsocket = true → (f k).isWebsocket = true)) :
    Ages s.conns (s.modify c f).conns := by
  intro d k' hk'
  obtain ⟨k, hk, rfl | rfl⟩ := modify_some hk'
  · exact ⟨k', hk, rfl, id⟩
  · exact ⟨k, hk, keep k⟩

private theorem ages_wsOnUpgrade {c : Nat} : Ages s.conns (wsOnUpgrade s c).conns := by
  unfold wsOnUpgrade
  dsimp only
  split
  · exact ages_refl
  · exact ages_modify (s := (wsConnRegister s c).1) fun _ => ⟨rfl, id⟩

private theorem nextid_wsOnUpgrade {c : Nat} : (wsOnUpgrade s c).nextid = s.nextid := by
  unfold wsOnUpgrade
  dsimp only
  split <;> rfl

/-- A step makes one new connection with the next number, or lets the others grow older. -/
theorem step_conns (h : s.step a = some s') :
    (∃ p, s.conns p = none ∧ s'.nextid = s.nextid + 1 ∧
      s'.conns = Function.update s.conns p (some (.fresh (s.nextid + 1)))) ∨
    s'.nextid = s.nextid ∧ Ages s.conns s'.conns := by
  cases a with
  | accept p =>
    simp only [ConnState.step, mgAllocConn, Option.ite_none_right_eq_some] at h
    obtain ⟨hfree, h⟩ := h
    obtain rfl := Option.some.inj h
    exact Or.inl ⟨p, hfree.1, rfl, rfl⟩
  | upgrade c key =>
    simp only [ConnState.step, evHandlerSoket] at h
    split at h
    · rw [Option.ite_none_right_eq_some] at h
      obtain rfl := Option.some.inj h.2
      have hkey : Ages s.conns (mgWsUpgrade s c key).conns :=
        ages_modify fun k => by cases key <;> exact ⟨rfl, by simp⟩
      have hfn : Ages (mgWsUpgrade s c key).conns
          ((mgWsUpgrade s c key).modify c fun k => { k with fn := .wsEvHandler }).conns :=
        ages_modify fun _ => ⟨rfl, id⟩
      exact Or.inr ⟨nextid_wsOnUpgrade, (hkey.trans hfn).trans ages_wsOnUpgrade⟩
    · cases h
  | closeFrame c =>
    simp only [ConnState.step, wsCloseFrame] at h
    split at h
    · rw [Option.ite_none_right_eq_some] at h
      obtain rfl := Option.some.inj h.2
      exact Or.inr ⟨rfl, ages_modify (s := wsConnUnregister s c) fun _ => ⟨rfl, id⟩⟩
    · cases h
  | setClosing c =>
    simp only [ConnState.step, setClosing, Option.map_eq_some_iff] at h
    obtain ⟨_, _, rfl⟩ := h
    exact Or.inr ⟨rfl, ages_modify fun _ => ⟨rfl, id⟩⟩
  | close c =>
    simp only [ConnState.step, mgCloseConn] at h
    split at h
    · rename_i k hk
      rw [Option.ite_none_right_eq_some] at h
      obtain rfl := Option.some.inj h.2
      have hconns : ∀ d k', Function.update s.conns c none d = some k' → s.conns d = some k' := by
        intro d k' hd
        by_cases hdc : d = c
        · subst hdc; simp at hd
        · simpa [hdc] using hd
      refine Or.inr ?_
      split
      · exact ⟨rfl, fun d k' hd => ⟨k', hconns d k' hd, rfl, id⟩⟩
      · exact ⟨rfl, fun d k' hd => ⟨k', hconns d k' hd, rfl, id⟩⟩
    · cases h

theorem numbered_initial : Numbered ConnState.initial := by
  constructor
  · intro c k h
    cases h
  · intro c d k l h
    cases h

theorem Numbered.keep (h : Numbered s) (hstep : s.step a = some s') : Numbered s' := by
  rcases step_conns hstep with ⟨p, _, hnext, hconns⟩ | ⟨hnext, hages⟩
  · have hcase : ∀ c k, s'.conns c = some k →
        (c = p ∧ k.id = s.nextid + 1) ∨ (c ≠ p ∧ s.conns c = some k) := by
      intro c k hk
      rw [hconns] at hk
      by_cases hc : c = p
      · subst hc
        rw [Function.update_self] at hk
        obtain rfl := Option.some.inj hk
        exact Or.inl ⟨rfl, rfl⟩
      · rw [Function.update_of_ne hc] at hk
        exact Or.inr ⟨hc, hk⟩
    constructor
    · intro c k hk
      rw [hnext]
      rcases hcase c k hk with ⟨_, hid⟩ | ⟨_, hold⟩
      · exact Nat.le_of_eq hid
      · exact Nat.le_succ_of_le (h.le c k hold)
    · intro c d k l hk hl hid
      rcases hcase c k hk with ⟨rfl, hkid⟩ | ⟨_, hk⟩ <;> rcases hcase d l hl with ⟨rfl, hlid⟩ | ⟨_, hl⟩
      · rfl
      · have := h.le d l hl
        omega
      · have := h.le c k hk
        omega
      · exact h.distinct c d k l hk hl hid
  · constructor
    · intro c k' hk
      obtain ⟨k, hk, hid, _⟩ := hages c k' hk
      rw [hid, hnext]
      exact h.le c k hk
    · intro c d k' l' hk hl hid
      obtain ⟨k, hk, hkid, _⟩ := hages c k' hk
      obtain ⟨l, hl, hlid, _⟩ := hages d l' hl
      exact h.distinct c d k l hk hl (by rw [← hkid, ← hlid, hid])

end Steps

end Cyctron.Server.Connections
