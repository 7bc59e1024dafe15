/- Cyctron/Server/Table
   digest: The table of WebSocket connections and the current one, over every order of events. -/

import Cyctron.Server.Connections

set_option autoImplicit false
set_option relaxedAutoImplicit false

namespace Cyctron.Server.Table

open Cyctron.Server.Connections
open Cyctron.Machine.Labelled (System Run Path)

section Loops

variable {conns : Nat → Option MgConnection} {c d connId : Nat} {slots : List (Option Nat)}

private theorem reapUntil_length : (reapUntil conns c slots).2.length = slots.length := by
  induction slots with
  | nil => rfl
  | cons slot rest ih =>
    unfold reapUntil
    split
    · rfl
    · exact congrArg (· + 1) ih

/-- The loop clears slots and fills none. -/
private theorem reapUntil_sublist :
    ((reapUntil conns c slots).2.reduceOption).Sublist slots.reduceOption := by
  induction slots with
  | nil => exact List.Sublist.refl _
  | cons slot rest ih =>
    unfold reapUntil
    split
    · exact List.Sublist.refl _
    · dsimp only
      cases slot with
      | none =>
        have hnone : (if slotClosing conns none = true then none else none : Option Nat) = none := by
          split <;> rfl
        rw [hnone, List.reduceOption_cons_of_none, List.reduceOption_cons_of_none]
        exact ih
      | some d =>
        rw [List.reduceOption_cons_of_some]
        split
        · rw [List.reduceOption_cons_of_none]
          exact ih.cons d
        · rw [List.reduceOption_cons_of_some]
          exact ih.cons_cons d

private theorem reapUntil_found (h : (reapUntil conns c slots).1 = true) :
    some c ∈ (reapUntil conns c slots).2 := by
  induction slots with
  | nil => cases h
  | cons slot rest ih =>
    unfold reapUntil at h ⊢
    split
    · rename_i heq
      exact heq ▸ List.mem_cons_self
    · rename_i hne
      rw [if_neg hne] at h
      exact List.mem_cons_of_mem _ (ih h)

private theorem reapUntil_missed (h : (reapUntil conns c slots).1 = false) : some c ∉ slots ∧
    ∀ slot ∈ (reapUntil conns c slots).2, slotClosing conns slot = false := by
  induction slots with
  | nil => exact ⟨List.not_mem_nil, fun _ hs => absurd hs List.not_mem_nil⟩
  | cons slot rest ih =>
    unfold reapUntil at h ⊢
    split at h
    · cases h
    · rename_i hne
      obtain ⟨hnot, hopen⟩ := ih h
      refine ⟨fun hc => ?_, ?_⟩
      · rcases List.mem_cons.mp hc with hc | hc
        · exact hne hc.symm
        · exact hnot hc
      · rw [if_neg hne]
        intro slot' hs
        rcases List.mem_cons.mp hs with rfl | hs
        · split
          · rfl
          · rename_i hclosing
            exact Bool.eq_false_iff.mpr hclosing
        · exact hopen slot' hs

private theorem claimSlot_length : (claimSlot c slots).2.length = slots.length := by
  induction slots with
  | nil => rfl
  | cons slot rest ih =>
    cases slot with
    | none => rfl
    | some d => exact congrArg (· + 1) ih

private theorem claimSlot_claims (h : (claimSlot c slots).1 = true) :
    ((claimSlot c slots).2.reduceOption).Perm (c :: slots.reduceOption) := by
  induction slots with
  | nil => cases h
  | cons slot rest ih =>
    cases slot with
    | none => exact List.Perm.refl _
    | some d =>
      have hrest := (ih h).cons d
      exact hrest.trans (List.Perm.swap c d _)

private theorem claimSlot_full (h : (claimSlot c slots).1 = false) :
    (claimSlot c slots).2 = slots ∧ none ∉ slots := by
  induction slots with
  | nil => exact ⟨rfl, List.not_mem_nil⟩
  | cons slot rest ih =>
    cases slot with
    | none => cases h
    | some d =>
      obtain ⟨hsame, hfull⟩ := ih h
      refine ⟨congrArg (some d :: ·) hsame, fun hnone => ?_⟩
      rcases List.mem_cons.mp hnone with hnone | hnone
      · cases hnone
      · exact hfull hnone

private theorem findSlot_length : (findSlot conns connId slots).2.length = slots.length := by
  induction slots with
  | nil => rfl
  | cons slot rest ih =>
    unfold findSlot
    split
    · exact congrArg (· + 1) ih
    · split
      · rfl
      · exact congrArg (· + 1) ih

private theorem findSlot_sublist :
    ((findSlot conns connId slots).2.reduceOption).Sublist slots.reduceOption := by
  induction slots with
  | nil => exact List.Sublist.refl _
  | cons slot rest ih =>
    unfold findSlot
    cases slot with
    | none =>
      split
      · exact ih
      · split
        · exact List.Sublist.refl _
        · exact ih
    | some d =>
      split
      · exact ih.cons d
      · split
        · exact List.Sublist.refl _
        · exact ih.cons_cons d

/-- An entry that is not closing stays. -/
private theorem findSlot_keeps (h : some c ∈ slots) (going : slotClosing conns (some c) = false) :
    some c ∈ (findSlot conns connId slots).2 := by
  induction slots with
  | nil => cases h
  | cons slot rest ih =>
    unfold findSlot
    split
    · rename_i hclosing
      refine List.mem_cons_of_mem _ (ih ?_)
      rcases List.mem_cons.mp h with rfl | h
      · cases hclosing.symm.trans going
      · exact h
    · split
      · exact h
      · rcases List.mem_cons.mp h with rfl | h
        · exact List.mem_cons_self
        · exact List.mem_cons_of_mem _ (ih h)

end Loops

/-- The connections in the table. -/
def registered (s : ConnState) : List Nat := s.gWsConns.reduceOption

/-- The connection as `ws_on_upgrade` gets it. -/
def upgraded (s : ConnState) (c : Nat) (key : Bool) : ConnState :=
  (mgWsUpgrade s c key).modify c fun k => { k with fn := .wsEvHandler }

def refuses (s : ConnState) (c : Nat) (key : Bool) : Bool := !(wsConnRegister (upgraded s c key) c).2

/-- The events of the connections, and the delivery of a result to a number. -/
inductive TableAction
  | conn (a : ConnAction)
  | find (connId : Nat)

inductive TableEvent
  | refused (c : Nat)
  | found (connId : Nat) (c : Option Nat)

def connEvents (s : ConnState) : ConnAction → List TableEvent
  | .upgrade c key => if refuses s c key then [.refused c] else []
  | _ => []

def tableStep (s : ConnState) : TableAction → Option (ConnState × List TableEvent)
  | .conn a => (s.step a).map fun t => (t, connEvents s a)
  | .find connId => some ((wsConnFind s connId).1, [.found connId (wsConnFind s connId).2])

def table : System ConnState TableAction TableEvent := ⟨.initial, tableStep⟩

/-- The connection is open and has been through a request for `/soket`; in the strict sense, it has
completed the handshake. -/
def Upgraded (strict : Bool) (conns : Nat → Option MgConnection) (c : Nat) : Prop :=
  ∃ k, conns c = some k ∧ k.fn = .wsEvHandler ∧ (strict = true → k.isWebsocket = true)

structure TableSound (strict : Bool) (s : ConnState) : Prop where
  slots : s.gWsConns.length = WS_MAX_CONNS
  nodup : (registered s).Nodup
  live : ∀ c ∈ registered s, Upgraded strict s.conns c
  current : ∀ c, s.gWsConn = some c → Upgraded strict s.conns c
  set : registered s ≠ [] → s.gWsConn ≠ none

section Sound

variable {strict key : Bool} {s t : ConnState} {c d connId : Nat} {a : ConnAction}
  {f : MgConnection → MgConnection}

private theorem mem_registered : c ∈ registered s ↔ some c ∈ s.gWsConns := List.reduceOption_mem_iff

theorem sound_initial : TableSound strict ConnState.initial := by
  have hempty : registered ConnState.initial = [] := List.reduceOption_replicate_none
  refine ⟨List.length_replicate, ?_, ?_, ?_, fun h => absurd hempty h⟩
  · rw [hempty]
    exact List.nodup_nil
  · intro c hc
    rw [hempty] at hc
    cases hc
  · intro c hc
    cases hc

/-- A change of the flags of a connection. -/
def Ripens (f : MgConnection → MgConnection) : Prop :=
  ∀ k, (k.fn = .wsEvHandler → (f k).fn = .wsEvHandler) ∧
    (k.isWebsocket = true → (f k).isWebsocket = true)

theorem Upgraded.modify (h : Upgraded strict s.conns d) (ripens : Ripens f) :
    Upgraded strict (s.modify c f).conns d := by
  obtain ⟨k, hk, hfn, hws⟩ := h
  obtain ⟨k', hk', rfl | rfl⟩ := modify_of_some hk c f
  · exact ⟨k', hk', hfn, hws⟩
  · exact ⟨f k, hk', (ripens k).1 hfn, fun h => (ripens k).2 (hws h)⟩

theorem TableSound.modify (h : TableSound strict s) (ripens : Ripens f) :
    TableSound strict (s.modify c f) :=
  ⟨h.slots, h.nodup, fun d hd => (h.live d hd).modify ripens,
    fun d hd => (h.current d hd).modify ripens, h.set⟩

private theorem registered_unregister : registered (wsConnUnregister s c) =
    (registered s).filter fun d => d ≠ c := by
  unfold registered wsConnUnregister
  dsimp only
  induction s.gWsConns with
  | nil => rfl
  | cons slot rest ih =>
    cases slot with
    | none =>
      have hnone : (if (none : Option Nat) = some c then none else none : Option Nat) = none := rfl
      rw [List.map_cons, hnone, List.reduceOption_cons_of_none, List.reduceOption_cons_of_none, ih]
    | some d =>
      rw [List.map_cons, List.reduceOption_cons_of_some, List.filter_cons]
      by_cases hd : d = c
      · subst hd
        rw [if_pos rfl, List.reduceOption_cons_of_none, ih]
        simp
      · have hne : some d ≠ some c := fun h => hd (Option.some.inj h)
        rw [if_neg hne, List.reduceOption_cons_of_some, ih]
        simp [hd]

/-- The current connection after an end is one that is left in the table. -/
private theorem current_unregister (h : (wsConnUnregister s c).gWsConn = some d) :
    (s.gWsConn = some d ∧ d ≠ c) ∨ d ∈ registered (wsConnUnregister s c) := by
  unfold wsConnUnregister at h
  dsimp only at h
  split at h
  · refine Or.inr (mem_registered.mpr ?_)
    obtain ⟨slot, hslot, hd⟩ := List.exists_of_findSome?_eq_some h
    obtain rfl : slot = some d := hd
    exact List.mem_reverse.mp hslot
  · rename_i hother
    refine Or.inl ⟨h, ?_⟩
    rintro rfl
    exact hother h

private theorem TableSound.unregister (h : TableSound strict s) :
    TableSound strict (wsConnUnregister s c) := by
  have hreg : registered (wsConnUnregister s c) = (registered s).filter fun d => d ≠ c :=
    registered_unregister
  have hlive : ∀ d ∈ registered (wsConnUnregister s c), Upgraded strict s.conns d := by
    intro d hd
    rw [hreg] at hd
    exact h.live d (List.mem_filter.mp hd).1
  refine ⟨(List.length_map _).trans h.slots, ?_, hlive, ?_, ?_⟩
  · rw [hreg]
    exact h.nodup.filter _
  · intro d hd
    rcases current_unregister hd with ⟨hd, _⟩ | hd
    · exact h.current d hd
    · exact hlive d hd
  · intro hne hnone
    obtain ⟨d, hd⟩ := List.exists_mem_of_ne_nil _ hne
    unfold wsConnUnregister at hnone
    dsimp only at hnone
    split at hnone
    · have hall := List.findSome?_eq_none_iff.mp hnone (some d)
        (List.mem_reverse.mpr (mem_registered.mp hd))
      cases hall
    · rw [hreg] at hd
      exact h.set (List.ne_nil_of_mem (List.mem_filter.mp hd).1) hnone

/-- What registration does: it clears entries of closing connections, and then finds the connection in
the table or a free slot for it, or leaves a table that is full of others. -/
private theorem register_cases (fresh : c ∉ registered s) :
    ((wsConnRegister s c).2 = true ∧ ∃ l, l.Sublist (registered s) ∧
      (registered (wsConnRegister s c).1).Perm (c :: l)) ∨
    ((wsConnRegister s c).2 = false ∧
      (registered (wsConnRegister s c).1).Sublist (registered s) ∧
      none ∉ (wsConnRegister s c).1.gWsConns ∧
      ∀ slot ∈ (wsConnRegister s c).1.gWsConns, slotClosing s.conns slot = false) := by
  have hfound : (reapUntil s.conns c s.gWsConns).1 = false := by
    by_contra hfound
    rw [Bool.not_eq_false] at hfound
    have hmem := reapUntil_sublist.subset (List.reduceOption_mem_iff.mpr (reapUntil_found hfound))
    exact fresh hmem
  have hreg : wsConnRegister s c = ({ s with gWsConns :=
      (claimSlot c (reapUntil s.conns c s.gWsConns).2).2 },
        (claimSlot c (reapUntil s.conns c s.gWsConns).2).1) := by
    unfold wsConnRegister
    dsimp only
    rw [hfound]
    rfl
  rw [hreg]
  cases hclaim : (claimSlot c (reapUntil s.conns c s.gWsConns).2).1 with
  | true => exact Or.inl ⟨rfl, _, reapUntil_sublist, claimSlot_claims hclaim⟩
  | false =>
    obtain ⟨hsame, hfull⟩ := claimSlot_full hclaim
    refine Or.inr ⟨rfl, ?_, ?_, ?_⟩
    · change (List.reduceOption (claimSlot c (reapUntil s.conns c s.gWsConns).2).2).Sublist _
      rw [hsame]
      exact reapUntil_sublist
    · change none ∉ (claimSlot c (reapUntil s.conns c s.gWsConns).2).2
      rw [hsame]
      exact hfull
    · change ∀ slot ∈ (claimSlot c (reapUntil s.conns c s.gWsConns).2).2, _
      rw [hsame]
      exact (reapUntil_missed hfound).2

private theorem register_length : (wsConnRegister s c).1.gWsConns.length = s.gWsConns.length := by
  unfold wsConnRegister
  dsimp only
  split
  · exact reapUntil_length
  · exact claimSlot_length.trans reapUntil_length

/-- A connection that is not in the table yet comes into it, or the table stays as it is but for
entries that are cleared. -/
theorem TableSound.wsOnUpgrade (h : TableSound strict s) (fresh : c ∉ registered s)
    (ready : (wsConnRegister s c).2 = true → Upgraded strict s.conns c) :
    TableSound strict (wsOnUpgrade s c) := by
  have hslots : (wsConnRegister s c).1.gWsConns.length = WS_MAX_CONNS := register_length.trans h.slots
  unfold Connections.wsOnUpgrade
  dsimp only
  rcases register_cases fresh with ⟨hok, l, hsub, hperm⟩ | ⟨hno, hsub, _, _⟩
  · rw [if_pos hok]
    have hready := ready hok
    refine ⟨hslots, ?_, ?_, ?_, fun _ hnone => by cases hnone⟩
    · have hnodup : (c :: l).Nodup :=
        List.nodup_cons.mpr ⟨fun hc => fresh (hsub.subset hc), h.nodup.sublist hsub⟩
      exact hperm.nodup_iff.mpr hnodup
    · intro d hd
      rcases List.mem_cons.mp (hperm.subset hd) with rfl | hd
      · exact hready
      · exact h.live d (hsub.subset hd)
    · intro d hd
      obtain rfl := Option.some.inj hd
      exact hready
  · have hnot : ¬(wsConnRegister s c).2 = true := by
      rw [hno]
      exact Bool.false_ne_true
    rw [if_neg hnot]
    refine TableSound.modify ⟨hslots, h.nodup.sublist hsub, fun d hd => h.live d (hsub.subset hd),
      h.current, fun hne hnone => ?_⟩ fun _ => ⟨id, id⟩
    obtain ⟨d, hd⟩ := List.exists_mem_of_ne_nil _ hne
    exact h.set (List.ne_nil_of_mem (hsub.subset hd)) hnone

theorem TableSound.find (h : TableSound strict s) : TableSound strict (wsConnFind s connId).1 := by
  have hsub : (registered (wsConnFind s connId).1).Sublist (registered s) := findSlot_sublist
  refine ⟨findSlot_length.trans h.slots, h.nodup.sublist hsub, fun d hd => h.live d (hsub.subset hd),
    h.current, fun hne hnone => ?_⟩
  obtain ⟨d, hd⟩ := List.exists_mem_of_ne_nil _ hne
  exact h.set (List.ne_nil_of_mem (hsub.subset hd)) hnone

/-- In the strict sense, a connection that comes into the table must have completed the handshake. -/
def completes (strict : Bool) (s : ConnState) : TableAction → Prop
  | .conn (.upgrade c key) => strict = true → key = true ∨ refuses s c key = true
  | _ => True

private theorem upgraded_self {k : MgConnection} (hk : s.conns c = some k)
    (h : strict = true → key = true) :
    Upgraded strict (upgraded s c key).conns c := by
  have hconns : (upgraded s c key).conns c = some { (if key then { k with isWebsocket := true }
      else { k with isDraining := true } : MgConnection) with fn := .wsEvHandler } := by
    simp only [upgraded, mgWsUpgrade, ConnState.modify, Function.update_self, hk, Option.map_some]
  refine ⟨_, hconns, rfl, fun hstrict => ?_⟩
  rw [h hstrict]
  rfl

private theorem ripens_key : Ripens fun k =>
    if key then { k with isWebsocket := true } else { k with isDraining := true } := by
  intro k
  cases key
  · exact ⟨id, id⟩
  · exact ⟨id, fun _ => rfl⟩

private theorem ripens_flag (h : ∀ k, (f k).fn = k.fn ∧ (f k).isWebsocket = k.isWebsocket) :
    Ripens f :=
  fun k => ⟨fun hfn => (h k).1.trans hfn, fun hws => (h k).2.trans hws⟩

/-- What is in the table has the handler of WebSockets. -/
private theorem TableSound.not_registered {k : MgConnection} (h : TableSound strict s)
    (hk : s.conns c = some k) (hfn : k.fn ≠ .wsEvHandler) : c ∉ registered s ∧ s.gWsConn ≠ some c := by
  have hnot : ¬Upgraded strict s.conns c := by
    rintro ⟨k', hk', hfn', _⟩
    obtain rfl := Option.some.inj (hk.symm.trans hk')
    exact hfn hfn'
  exact ⟨fun hc => hnot (h.live c hc), fun hc => hnot (h.current c hc)⟩

/-- A connection that is neither in the table nor the current one may be replaced. -/
private theorem TableSound.replace {x : Option MgConnection} (h : TableSound strict s)
    (hregistered : c ∉ registered s) (hcurrent : s.gWsConn ≠ some c) (n : Nat) :
    TableSound strict { s with nextid := n, conns := Function.update s.conns c x } := by
  have hkeep : ∀ d, d ≠ c → Upgraded strict s.conns d →
      Upgraded strict (Function.update s.conns c x) d := by
    rintro d hd ⟨k, hk, hfn, hws⟩
    exact ⟨k, (Function.update_of_ne hd _ _).trans hk, hfn, hws⟩
  refine ⟨h.slots, h.nodup, fun d hd => hkeep d ?_ (h.live d hd),
    fun d hd => hkeep d ?_ (h.current d hd), h.set⟩
  · rintro rfl
    exact hregistered hd
  · rintro rfl
    exact hcurrent hd

theorem TableSound.step {b : TableAction} {es : List TableEvent} (h : TableSound strict s)
    (hcompletes : completes strict s b) (hstep : tableStep s b = some (t, es)) :
    TableSound strict t := by
  cases b with
  | find connId =>
    obtain ⟨rfl, _⟩ := Prod.mk.inj (Option.some.inj hstep)
    exact h.find
  | conn a =>
    obtain ⟨t', hconn, heq⟩ := Option.map_eq_some_iff.mp hstep
    obtain ⟨rfl, _⟩ := Prod.mk.inj heq
    cases a with
    | accept p =>
      simp only [ConnState.step, mgAllocConn, Option.ite_none_right_eq_some] at hconn
      obtain ⟨hfree, hconn⟩ := hconn
      obtain rfl := Option.some.inj hconn
      have hnot : ¬Upgraded strict s.conns p := by
        rintro ⟨k, hk, _⟩
        cases hfree.1.symm.trans hk
      exact h.replace (fun hp => hnot (h.live p hp)) (fun hp => hnot (h.current p hp)) _
    | upgrade c key =>
      simp only [ConnState.step, evHandlerSoket] at hconn
      split at hconn
      · rename_i k hk
        rw [Option.ite_none_right_eq_some] at hconn
        obtain ⟨hfn, hconn⟩ := hconn
        obtain rfl := Option.some.inj hconn
        have hother : k.fn ≠ .wsEvHandler := by
          rw [hfn]
          decide
        have hsound : TableSound strict (upgraded s c key) :=
          (h.modify ripens_key).modify fun _ => ⟨fun _ => rfl, id⟩
        refine hsound.wsOnUpgrade (h.not_registered hk hother).1 fun hok => ?_
        refine upgraded_self hk fun hstrict => (hcompletes hstrict).resolve_right fun hrefused => ?_
        unfold refuses at hrefused
        rw [hok] at hrefused
        cases hrefused
      · cases hconn
    | closeFrame c =>
      simp only [ConnState.step, wsCloseFrame] at hconn
      split at hconn
      · rw [Option.ite_none_right_eq_some] at hconn
        obtain rfl := Option.some.inj hconn.2
        exact h.unregister.modify (ripens_flag fun _ => ⟨rfl, rfl⟩)
      · cases hconn
    | setClosing c =>
      simp only [ConnState.step, setClosing, Option.map_eq_some_iff] at hconn
      obtain ⟨_, _, rfl⟩ := hconn
      exact h.modify (ripens_flag fun _ => ⟨rfl, rfl⟩)
    | close c =>
      simp only [ConnState.step, mgCloseConn] at hconn
      split at hconn
      · rename_i k hk
        rw [Option.ite_none_right_eq_some] at hconn
        obtain rfl := Option.some.inj hconn.2
        split
        · have hsound : TableSound strict (wsConnUnregister s c) := h.unregister
          have hgone : c ∉ registered (wsConnUnregister s c) := by
            rw [registered_unregister]
            simp
          refine hsound.replace hgone (fun hc => ?_) _
          rcases current_unregister hc with ⟨_, hne⟩ | hmem
          · exact hne rfl
          · exact hgone hmem
        · rename_i hfn
          obtain ⟨hregistered, hcurrent⟩ := h.not_registered hk hfn
          exact h.replace hregistered hcurrent _
      · cases hconn

/-- The invariant of every run. -/
private theorem tableSound_run {ok : ConnState → TableAction → Prop} {tr : List TableEvent}
    (hok : ∀ s b, ok s b → completes strict s b) (run : Run table ok tr s) :
    TableSound strict s ∧ Numbered s := by
  refine run.state_invariant (fun s => TableSound strict s ∧ Numbered s)
    ⟨sound_initial, numbered_initial⟩ ?_
  rintro s b t es ⟨h, hnumbered⟩ hb hstep
  refine ⟨h.step (hok s b hb) hstep, ?_⟩
  cases b with
  | find connId =>
    obtain ⟨rfl, _⟩ := Prod.mk.inj (Option.some.inj hstep)
    exact ⟨hnumbered.le, hnumbered.distinct⟩
  | conn a =>
    obtain ⟨t', hconn, heq⟩ := Option.map_eq_some_iff.mp hstep
    obtain ⟨rfl, _⟩ := Prod.mk.inj heq
    exact hnumbered.keep hconn

/-- An upgrade that is refused finds the table full of others, none of which is closing. -/
theorem TableSound.refused {k : MgConnection} (h : TableSound strict s) (hk : s.conns c = some k)
    (hfn : k.fn ≠ .wsEvHandler) (hrefused : refuses s c key = true) :
    ∃ l : List Nat, l.Nodup ∧ l.length = WS_MAX_CONNS ∧ ∀ d ∈ l, d ≠ c ∧ d ∈ registered s ∧
      ∃ k, s.conns d = some k ∧ k.isClosing = false := by
  have hfresh : c ∉ registered (upgraded s c key) := (h.not_registered hk hfn).1
  have hno : (wsConnRegister (upgraded s c key) c).2 = false := by simpa [refuses] using hrefused
  rcases register_cases hfresh with ⟨hok, _⟩ | ⟨_, hsub, hfull, hopen⟩
  · cases hok.symm.trans hno
  · refine ⟨registered (wsConnRegister (upgraded s c key) c).1, h.nodup.sublist hsub, ?_, ?_⟩
    · have hall : ∀ slot ∈ (wsConnRegister (upgraded s c key) c).1.gWsConns, slot.isSome = true := by
        intro slot hslot
        cases slot with
        | none => exact absurd hslot hfull
        | some d => rfl
      exact (List.reduceOption_length_eq_iff.mpr hall).trans (register_length.trans h.slots)
    · intro d hd
      have hmem : d ∈ registered s := hsub.subset hd
      have hne : d ≠ c := by
        rintro rfl
        exact hfresh hmem
      obtain ⟨l, hl, _⟩ := h.live d hmem
      have hsame : (upgraded s c key).conns d = s.conns d := by
        simp only [upgraded, mgWsUpgrade, ConnState.modify, Function.update_of_ne hne]
      refine ⟨hne, hmem, l, hl, ?_⟩
      by_contra hclosing
      have hslot := hopen (some d) (mem_registered.mp hd)
      rw [slotClosing_some.mpr ⟨l, hsame.trans hl, by simpa using hclosing⟩] at hslot
      cases hslot

private theorem find_registered {k : MgConnection} (numbered : Numbered s) (hc : c ∈ registered s)
    (hk : s.conns c = some k) (going : k.isClosing = false) :
    (wsConnFind s k.id).2 = some c := by
  have hopen : slotClosing s.conns (some c) = false := by
    by_contra hclosing
    obtain ⟨k', hk', hclosing⟩ := slotClosing_some.mp (by simpa using hclosing)
    obtain rfl := Option.some.inj (hk.symm.trans hk')
    cases hclosing.symm.trans going
  have hmem : some c ∈ (findSlot s.conns k.id s.gWsConns).2 :=
    findSlot_keeps (mem_registered.mp hc) hopen
  cases hfind : (findSlot s.conns k.id s.gWsConns).1 with
  | none => exact absurd rfl (findSlot_missed hfind hmem hk)
  | some d =>
    obtain ⟨_, l, hl, hid, _⟩ := findSlot_found hfind
    obtain rfl := numbered.distinct d c l k hl hk hid
    exact hfind

/-- In every run: no connection is twice in the table; the table and the current connection refer to
open connections that have been upgraded; an upgrade is refused only when 32 others are registered and
not closing; a registered connection that is not closing is found by its number; and while the table is
not empty there is a current connection. -/
theorem connection_table {tr : List TableEvent} (run : Run table Machine.Labelled.anyStep tr s) :
    (registered s).Nodup ∧
    (∀ c, c ∈ registered s ∨ s.gWsConn = some c →
      ∃ k, s.conns c = some k ∧ k.fn = .wsEvHandler) ∧
    (∀ c key t es, tableStep s (.conn (.upgrade c key)) = some (t, es) → .refused c ∈ es →
      ∃ l : List Nat, l.Nodup ∧ l.length = WS_MAX_CONNS ∧ ∀ d ∈ l, d ≠ c ∧ d ∈ registered s ∧
        ∃ k, s.conns d = some k ∧ k.isClosing = false) ∧
    (∀ c k, c ∈ registered s → s.conns c = some k → k.isClosing = false →
      (wsConnFind s k.id).2 = some c) ∧
    (registered s ≠ [] → s.gWsConn ≠ none) := by
  have hok : ∀ s b, Machine.Labelled.anyStep s b → completes false s b := by
    intro s b _
    unfold completes
    split
    · exact fun h => by cases h
    · trivial
  obtain ⟨h, numbered⟩ := tableSound_run hok run
  refine ⟨h.nodup, ?_, ?_, fun c k => find_registered numbered, h.set⟩
  · rintro c (hc | hc)
    · obtain ⟨k, hk, hfn, _⟩ := h.live c hc
      exact ⟨k, hk, hfn⟩
    · obtain ⟨k, hk, hfn, _⟩ := h.current c hc
      exact ⟨k, hk, hfn⟩
  · intro c key t es hstep hevent
    obtain ⟨t', hconn, heq⟩ := Option.map_eq_some_iff.mp hstep
    obtain ⟨rfl, rfl⟩ := Prod.mk.inj heq
    have hrefused : refuses s c key = true := by
      by_contra hnot
      simp only [connEvents, if_neg hnot, List.not_mem_nil] at hevent
    simp only [ConnState.step, evHandlerSoket] at hconn
    split at hconn
    · rename_i k hk
      rw [Option.ite_none_right_eq_some] at hconn
      have hother : k.fn ≠ .wsEvHandler := by
        rw [hconn.1]
        decide
      exact h.refused hk hother hrefused
    · cases hconn

/-- Two connections, one of which closes while it is the current one. -/
def handover : List TableAction :=
  [.conn (.accept 1), .conn (.accept 2), .conn (.upgrade 1 true), .conn (.upgrade 2 true),
    .conn (.setClosing 2), .find 3, .conn (.close 2)]

theorem handover_table : ∃ tr s, Run table Machine.Labelled.anyStep tr s ∧ (registered s).Nodup ∧
    registered s = [1] ∧ s.gWsConn = some 1 := by
  obtain ⟨tr, s, run, hreg, hcurrent⟩ := table.exec_reaches Machine.Labelled.anyStep handover
    (fun _ s => registered s = [1] ∧ s.gWsConn = some 1) (by decide +kernel)
  exact ⟨tr, s, run, (connection_table run).1, hreg, hcurrent⟩

/-- The connection that `event_push` puts its frame on. -/
def eventPush (s : ConnState) : Option Nat :=
  s.gWsConn.filter fun c => (s.conns c).any MgConnection.isWebsocket

/-- When each request that is registered completes the handshake, the table and the current connection
are WebSockets, and a broadcast goes out while one is registered. -/
theorem broadcasts_reach {tr : List TableEvent} (run : Run table (completes true) tr s) :
    (∀ c, c ∈ registered s ∨ s.gWsConn = some c →
      ∃ k, s.conns c = some k ∧ k.isWebsocket = true) ∧
    ((∃ c ∈ registered s, ∃ k, s.conns c = some k ∧ k.isWebsocket = true ∧ k.isClosing = false) →
      ∃ c k, eventPush s = some c ∧ s.conns c = some k ∧ k.isWebsocket = true) := by
  obtain ⟨h, _⟩ := tableSound_run (fun _ _ => id) run
  have hcurrent : ∀ c, s.gWsConn = some c → ∃ k, s.conns c = some k ∧ k.isWebsocket = true := by
    intro c hc
    obtain ⟨k, hk, _, hws⟩ := h.current c hc
    exact ⟨k, hk, hws rfl⟩
  refine ⟨?_, ?_⟩
  · rintro c (hc | hc)
    · obtain ⟨k, hk, _, hws⟩ := h.live c hc
      exact ⟨k, hk, hws rfl⟩
    · exact hcurrent c hc
  · rintro ⟨c, hc, _⟩
    obtain ⟨d, hd⟩ := Option.ne_none_iff_exists'.mp (h.set (List.ne_nil_of_mem hc))
    obtain ⟨k, hk, hws⟩ := hcurrent d hd
    refine ⟨d, k, ?_, hk, hws⟩
    rw [eventPush, hd, Option.filter_some, hk, Option.any_some, hws]
    rfl

/-- Each request for `/soket` has a key. -/
def hasKey : TableAction → Bool
  | .conn (.upgrade _ key) => key
  | _ => true

private theorem completes_of_hasKey (s : ConnState) (b : TableAction) (h : hasKey b = true) :
    completes true s b := by
  unfold completes
  split
  · exact fun _ => Or.inl h
  · trivial

theorem handover_broadcasts : ∃ tr s, Run table (completes true) tr s ∧
    ∃ c k, eventPush s = some c ∧ s.conns c = some k ∧ k.isWebsocket = true := by
  obtain ⟨tr, s, run, k, hk, hmem, hws, hopen⟩ := table.exec_reaches (fun _ b => hasKey b = true)
    handover (fun _ s => ∃ k ∈ s.conns 1, 1 ∈ registered s ∧ k.isWebsocket = true ∧
      k.isClosing = false) (by decide +kernel)
  have hrun : Run table (completes true) tr s := run.mono completes_of_hasKey
  exact ⟨tr, s, hrun, (broadcasts_reach hrun).2 ⟨1, hmem, k, hk, hws, hopen⟩⟩

/-- A request without a key takes the place of the current connection, and a broadcast reaches nobody
although a WebSocket is registered. -/
theorem keyless_takes_over : ∃ tr s, Run table Machine.Labelled.anyStep tr s ∧
    (∃ k ∈ s.conns 2, 2 ∈ registered s ∧ s.gWsConn = some 2 ∧ k.isWebsocket = false) ∧
    (∃ k ∈ s.conns 1, 1 ∈ registered s ∧ k.isWebsocket = true ∧ k.isClosing = false) ∧
    eventPush s = none :=
  table.exec_reaches Machine.Labelled.anyStep
    [.conn (.accept 1), .conn (.accept 2), .conn (.upgrade 1 true), .conn (.upgrade 2 false)]
    (fun _ s => (∃ k ∈ s.conns 2, 2 ∈ registered s ∧ s.gWsConn = some 2 ∧ k.isWebsocket = false) ∧
      (∃ k ∈ s.conns 1, 1 ∈ registered s ∧ k.isWebsocket = true ∧ k.isClosing = false) ∧
      eventPush s = none) (by decide +kernel)

end Sound

end Cyctron.Server.Table
