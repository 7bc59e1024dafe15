/- Cyctron/Realtime/Account
   digest: The books of a trace: sockets opened and closed, tasks created, cleaned up and freed. -/

import Cyctron.Realtime.Identity

set_option autoImplicit false
set_option relaxedAutoImplicit false

namespace Cyctron.Realtime.Account

open Cyctron.Base.CString Cyctron.Event.Format Cyctron.Realtime.Model Cyctron.Realtime.Tasks Cyctron.Realtime.Refine
open Cyctron.Realtime.Identity (path_refines)
open Cyctron.Machine.Labelled (Path Run System)
open Cyctron.Machine.LinkedList

/-- The tasks that were created and not freed, each with the callbacks that ran for it, and the
sockets that were opened and not closed. -/
structure Ledger where
  alive : List (Nat × List Nat)
  sockets : List Nat
  deriving DecidableEq

/-- An event is entered when its task or socket is on the books: a socket is closed while it is
open, and a task is freed when its callback, if it has one, ran once. -/
def Ledger.record (b : Ledger) : Event → Option Ledger
  | .created p _ =>
    if p ∈ b.alive.map Prod.fst then none else some { b with alive := (p, []) :: b.alive }
  | .opened k => if k ∈ b.sockets then none else some { b with sockets := k :: b.sockets }
  | .closed k => if k ∈ b.sockets then some { b with sockets := b.sockets.erase k } else none
  | .cleanup p callback =>
    if (p, []) ∈ b.alive then some { b with alive := update b.alive p fun _ => [callback] } else none
  | .freed p node =>
    if (p, node.task.onCleanup.toList) ∈ b.alive then some { b with alive := without b.alive p }
    else none
  | _ => some b

def Ledger.audit (b : Ledger) (es : List Event) : Option Ledger := es.foldlM Ledger.record b

section Books

variable {b b' : Ledger} {es fs : List Event} {p : Nat} {node : RtTaskNode}
  {l : List (Nat × RtTaskNode)} {f : RtTaskNode → RtTaskNode}

private theorem audit_append : b.audit (es ++ fs) = (b.audit es).bind fun b' => b'.audit fs :=
  List.foldlM_append

private theorem audit_cons {e : Event} :
    b.audit (e :: es) = (b.record e).bind fun b' => b'.audit es :=
  List.foldlM_cons

private theorem audit_single {e : Event} : b.audit [e] = b.record e := by
  change (b.record e).bind some = b.record e
  exact Option.bind_fun_some _

private theorem record_opened {k : Nat} (h : k ∉ b.sockets) :
    b.record (.opened k) = some { b with sockets := k :: b.sockets } :=
  if_neg h

private theorem record_closed {k : Nat} (h : k ∈ b.sockets) :
    b.record (.closed k) = some { b with sockets := b.sockets.erase k } :=
  if_pos h

private theorem record_cleanup {callback : Nat} (h : (p, []) ∈ b.alive) :
    b.record (.cleanup p callback) =
    some { b with alive := update b.alive p fun _ => [callback] } :=
  if_pos h

private theorem record_freed (h : (p, node.task.onCleanup.toList) ∈ b.alive) :
    b.record (.freed p node) = some { b with alive := without b.alive p } :=
  if_pos h

private theorem audit_pushes (h : Pushes es) : b.audit es = some b := by
  induction es with
  | nil => rfl
  | cons e es ih =>
    have he := h e List.mem_cons_self
    have hes := ih fun d hd => h d (List.mem_cons_of_mem e hd)
    cases e with
    | push text => exact hes
    | _ => exact absurd he id

/-- The sockets of the listed tasks that listen. -/
def channels (l : List (Nat × RtTaskNode)) : List Nat :=
  l.filterMap fun c => if c.2.nngInitialized then some c.2.nngSock else none

private theorem mem_channels {k : Nat} :
    k ∈ channels l ↔ ∃ c ∈ l, c.2.nngInitialized = true ∧ c.2.nngSock = k := by
  simp [channels]

private theorem channels_cons {c : Nat × RtTaskNode} : channels (c :: l) =
    (if c.2.nngInitialized then [c.2.nngSock] else []) ++ channels l := by
  unfold channels
  rw [List.filterMap_cons]
  by_cases hc : c.2.nngInitialized = true <;> simp [hc]

private theorem channels_append {x y : List (Nat × RtTaskNode)} :
    channels (x ++ y) = channels x ++ channels y :=
  List.filterMap_append

/-- A task among the listed ones, and the list with this task changed. -/
private theorem update_split (nodup : (l.map Prod.fst).Nodup) (mem : (p, node) ∈ l) :
    ∃ x y, l = x ++ (p, node) :: y ∧ without l p = x ++ y ∧
      ∀ f : RtTaskNode → RtTaskNode, update l p f = x ++ (p, f node) :: y := by
  obtain ⟨x, y, rfl⟩ := List.append_of_mem mem
  refine ⟨x, y, rfl, without_split nodup, fun f => ?_⟩
  have hout : p ∉ (x ++ y).map Prod.fst := by
    rw [List.map_append, List.map_cons] at nodup
    rw [List.map_append]
    exact (List.nodup_cons.mp (List.perm_middle.nodup nodup)).1
  rw [List.map_append, List.mem_append, not_or] at hout
  have hx := update_of_not_mem (f := f) hout.1
  have hy := update_of_not_mem (f := f) hout.2
  unfold update at hx hy ⊢
  rw [List.map_append, List.map_cons, hx, hy]
  simp

end Books

section Steps

variable {U : Bytes → Prop} {v w : View} {es : List Event} {p : Nat} {node : RtTaskNode}
  {l : List (Nat × RtTaskNode)} {f : RtTaskNode → RtTaskNode}

/-- The books as the scheduler's state shows them. -/
def ledger (v : View) : Ledger := ⟨v.listed.map fun c => (c.1, []), v.sockets⟩

/-- The open sockets are those of the listed tasks that listen. -/
structure Accounts (v : View) : Prop where
  nodup : v.addresses.Nodup
  owned : v.sockets.Perm (channels v.listed)
  apart : (channels v.listed).Nodup

private theorem addresses_ledger : (ledger v).alive.map Prod.fst = v.addresses := by
  simp [ledger, View.addresses]

private theorem mem_alive (mem : (p, node) ∈ v.listed) : (p, []) ∈ (ledger v).alive :=
  List.mem_map.mpr ⟨(p, node), mem, rfl⟩

private theorem ledger_update (ks : List Nat) :
    ledger ⟨update l p f, ks⟩ = ⟨l.map fun c => (c.1, []), ks⟩ := by
  unfold ledger update
  rw [List.map_map]
  congr 1
  apply List.map_congr_left
  intro c _
  by_cases hc : c.1 = p <;> simp [hc]

private theorem without_update {α : Type*} {l : List (Nat × α)} {f : α → α} :
    without (update l p f) p = without l p := by
  induction l with
  | nil => rfl
  | cons c l ih =>
    unfold without update at ih ⊢
    by_cases hc : c.1 = p
    · simpa [hc] using ih
    · simpa [hc] using ih

private theorem ledger_without (ks : List Nat) : ledger ⟨without l p, ks⟩ =
    ⟨without (l.map fun c => (c.1, [])) p, ks⟩ := by
  unfold ledger without
  rw [List.filter_map]
  rfl

/-- A change that keeps the channel of a task keeps the open sockets. -/
theorem Accounts.modify (h : Accounts v) (sock : ∀ n, (f n).nngSock = n.nngSock)
    (initialized : ∀ n, (f n).nngInitialized = n.nngInitialized) :
    Accounts { v with listed := update v.listed p f } := by
  have hchannels : channels (update v.listed p f) = channels v.listed := by
    unfold channels update
    rw [List.filterMap_map]
    apply List.filterMap_congr
    intro c _
    by_cases hc : c.1 = p <;> simp [hc, sock, initialized]
  refine ⟨?_, ?_, ?_⟩
  · unfold View.addresses
    rw [update_addresses]
    exact h.nodup
  · exact hchannels.symm ▸ h.owned
  · exact hchannels.symm ▸ h.apart

/-- The channel of a task that did not listen changes the sockets by its own one. -/
theorem Accounts.open (h : Accounts v) (mem : (p, node) ∈ v.listed)
    (closed : node.nngInitialized = false) {k : Nat} (free : k ∉ v.sockets) :
    Accounts ⟨update v.listed p fun n => setInitialized (setSock k n), k :: v.sockets⟩ ∧
      Accounts { v with listed := update v.listed p (setSock k) } := by
  obtain ⟨x, y, hl, _, hup⟩ := update_split h.nodup mem
  have hold : channels v.listed = channels x ++ channels y := by
    rw [hl, channels_append, channels_cons]
    simp [closed]
  have hnew : channels (update v.listed p fun n => setInitialized (setSock k n)) =
      channels x ++ k :: channels y := by
    rw [hup, channels_append, channels_cons]
    simp [setInitialized, setSock]
  have hdeaf : channels (update v.listed p (setSock k)) = channels v.listed := by
    rw [hup, channels_append, channels_cons, hold]
    simp [setSock, closed]
  have hperm : (channels x ++ k :: channels y).Perm (k :: channels v.listed) := by
    rw [hold]
    exact List.perm_middle
  have hfree : k ∉ channels v.listed := fun hk => free (h.owned.mem_iff.mpr hk)
  refine ⟨⟨?_, ?_, ?_⟩, ⟨?_, ?_, ?_⟩⟩
  · unfold View.addresses
    rw [update_addresses]
    exact h.nodup
  · rw [hnew]
    exact (h.owned.cons k).trans hperm.symm
  · rw [hnew]
    exact hperm.nodup_iff.mpr (List.nodup_cons.mpr ⟨hfree, h.apart⟩)
  · unfold View.addresses
    rw [update_addresses]
    exact h.nodup
  · exact hdeaf.symm ▸ h.owned
  · exact hdeaf.symm ▸ h.apart

theorem Accounts.remove (h : Accounts v) (mem : (p, node) ∈ v.listed) :
    (node.nngInitialized = true → node.nngSock ∈ v.sockets) ∧
      Accounts ⟨without v.listed p, afterClose v.sockets node⟩ := by
  obtain ⟨x, y, hl, hwithout, _⟩ := update_split h.nodup mem
  have hperm : (channels v.listed).Perm
      ((if node.nngInitialized then [node.nngSock] else []) ++ channels (without v.listed p)) := by
    rw [hwithout, hl, channels_append, channels_append, channels_cons, ← List.append_assoc,
      ← List.append_assoc]
    exact List.perm_append_comm.append_right _
  have hsub : (channels (without v.listed p)).Sublist (channels v.listed) :=
    List.filter_sublist.filterMap _
  refine ⟨?_, nodup_without h.nodup, ?_, h.apart.sublist hsub⟩
  · intro hinit
    exact h.owned.mem_iff.mpr (mem_channels.mpr ⟨(p, node), mem, hinit, rfl⟩)
  · have howned := h.owned.trans hperm
    unfold afterClose
    by_cases hinit : node.nngInitialized = true
    · rw [if_pos hinit] at howned ⊢
      have herase := howned.erase node.nngSock
      simpa using herase
    · rw [if_neg hinit] at howned ⊢
      exact howned

/-- A task on the books runs its callback once and is then freed. -/
private theorem audit_runCleanup {b : Ledger} (node : RtTaskNode) (alive : (p, []) ∈ b.alive) :
    b.audit (runCleanup p node ++ [.freed p node]) =
      some { b with alive := without b.alive p } := by
  have hdata : ∀ b : Ledger, b.audit (node.task.userData.toList.map .freedData) = some b := by
    intro b
    cases node.task.userData with
    | none => rfl
    | some d => exact audit_single
  rw [runCleanup, audit_append, audit_append]
  cases hcb : node.task.onCleanup with
  | none =>
    change ((some b).bind _).bind _ = _
    rw [Option.bind_some, hdata, Option.bind_some, audit_single, record_freed]
    rw [hcb]
    exact alive
  | some callback =>
    change ((Ledger.audit b [.cleanup p callback]).bind _).bind _ = _
    rw [audit_single, record_cleanup alive, Option.bind_some, hdata, Option.bind_some, audit_single,
      record_freed, without_update]
    rw [hcb]
    exact List.mem_map.mpr ⟨(p, []), alive, by simp⟩

/-- The events of a removal are entered in the books. -/
private theorem audit_remove {ps : List Event} (mem : (p, node) ∈ v.listed) (pushes : Pushes ps)
    (isOpen : node.nngInitialized = true → node.nngSock ∈ v.sockets) :
    (ledger v).audit (closeSocket node ++ ps ++ runCleanup p node ++ [.freed p node]) =
      some (ledger ⟨without v.listed p, afterClose v.sockets node⟩) := by
  have hclose : (ledger v).audit (closeSocket node) =
      some ⟨(ledger v).alive, afterClose v.sockets node⟩ := by
    unfold closeSocket afterClose
    by_cases hinit : node.nngInitialized = true
    · rw [if_pos hinit, if_pos hinit, audit_single]
      exact record_closed (isOpen hinit)
    · rw [if_neg hinit, if_neg hinit]
      rfl
  have hfreed := audit_runCleanup node (b := ⟨(ledger v).alive, afterClose v.sockets node⟩)
    (mem_alive mem)
  rw [List.append_assoc, audit_append, audit_append, hclose, Option.bind_some, audit_pushes pushes,
    Option.bind_some, hfreed, ledger_without]
  rfl

/-- Every elementary step is entered in the books and keeps the account. -/
private theorem atom_accounts (h : Accounts v) (a : Atom U v es w) :
    (ledger v).audit es = some (ledger w) ∧ Accounts w := by
  cases a with
  | push hes => exact ⟨audit_pushes hes, h⟩
  | load path jsonIn => exact ⟨audit_single, h⟩
  | @create p u counter now _ new _ =>
    have hnew : p ∉ (ledger v).alive.map Prod.fst := by
      rw [addresses_ledger]
      exact new
    refine ⟨audit_single.trans (if_neg hnew), List.nodup_cons.mpr ⟨new, h.nodup⟩, ?_, ?_⟩
    · rw [channels_cons]
      exact h.owned
    · rw [channels_cons]
      exact h.apart
  | modify p keeps =>
    refine ⟨?_, h.modify keeps.sock keeps.initialized⟩
    rw [ledger_update]
    rfl
  | @listen p k node url mem closed free =>
    refine ⟨?_, (h.open mem closed free).1⟩
    rw [audit_cons, record_opened free, Option.bind_some, audit_single, ledger_update]
    rfl
  | @deaf p k node url mem closed free =>
    refine ⟨?_, (h.open mem closed free).2⟩
    have hclosed : Ledger.record ⟨(ledger v).alive, k :: v.sockets⟩ (.closed k) =
        some ⟨(ledger v).alive, v.sockets⟩ := by
      rw [record_closed List.mem_cons_self, List.erase_cons_head]
    rw [audit_cons, record_opened free, Option.bind_some, audit_cons, ledger_update]
    exact audit_single.trans hclosed
  | remove mem pushes =>
    obtain ⟨isOpen, haccounts⟩ := h.remove mem
    exact ⟨audit_remove mem pushes isOpen, haccounts⟩

private theorem atoms_account (h : Accounts v) (a : Atoms U v es w) :
    (ledger v).audit es = some (ledger w) ∧ Accounts w := by
  induction a with
  | refl => exact ⟨rfl, h⟩
  | snoc _ a ih =>
    obtain ⟨haudit, haccounts⟩ := ih
    obtain ⟨haudit', haccounts'⟩ := atom_accounts haccounts a
    refine ⟨?_, haccounts'⟩
    rw [audit_append, haudit, Option.bind_some, haudit']

/-- A task is taken off the list by an event that frees it. -/
private theorem atoms_leave (a : Atoms U v es w) (mem : p ∈ v.addresses)
    (stays : ∀ node, .freed p node ∉ es) : p ∈ w.addresses := by
  obtain ⟨⟨q, n⟩, hmem, rfl⟩ := List.mem_map.mp mem
  obtain ⟨n', hmem', _⟩ :=
    Identity.carries_atoms (u := n.task.uuid) ⟨n, hmem, rfl⟩ a stays
  exact List.mem_map.mpr ⟨(q, n'), hmem', rfl⟩

end Steps

section Runs

variable {s t : Scheduler} {a : Action} {p : Nat} {node : RtTaskNode} {es tr : List Event}

def frees : Event → Bool
  | .freed _ _ => true
  | _ => false

/-- The calls that take tasks off the list. -/
def takesOff : Action → Prop
  | .remove _ _ | .removeByConn _ _ _ | .cleanup _ => True
  | _ => False

private theorem pushes_freed (h : Pushes es) : .freed p node ∉ es := fun hmem => h _ hmem

private theorem create_freed {uuid : Option Bytes} {env : CreateEnv} :
    .freed p node ∉ (rtCreateTask s uuid env).2.2 := by
  unfold rtCreateTask
  cases uuid with
  | none => exact List.not_mem_nil
  | some u =>
    dsimp only
    split
    · exact List.not_mem_nil
    · split
      · exact List.not_mem_nil
      · intro hmem
        rcases List.mem_cons.mp hmem with heq | hmem
        · cases heq
        · exact pushes_freed pushes_sendRtEvent hmem

private theorem listening_freed {q : Nat} {n : RtTaskNode} {env : StartEnv} :
    .freed p node ∉ (startListening s q n env).2.2 := by
  unfold startListening
  split
  · exact List.not_mem_nil
  · split
    · exact List.not_mem_nil
    · dsimp only
      split <;> simp

private theorem plugin_freed {q : Nat} {n : RtTaskNode} {libName : Option Bytes} {env : StartEnv} :
    .freed p node ∉ (startPlugin s q n libName env).2.2 := by
  unfold startPlugin
  dsimp only
  split
  · intro hmem
    rcases List.mem_cons.mp hmem with heq | hmem
    · cases heq
    · exact pushes_freed pushes_sendRtEvent hmem
  · simp

private theorem start_freed {q : Nat} {n : RtTaskNode} {libName : Option Bytes} {env : StartEnv} :
    .freed p node ∉ (rtStartTask s q n libName env).2.2 := by
  unfold rtStartTask
  split
  · exact List.not_mem_nil
  · dsimp only
    split
    · rw [List.mem_append, not_or]
      exact ⟨listening_freed, plugin_freed⟩
    · exact listening_freed

private theorem stopTask_freed {q : Nat} {n : RtTaskNode} {env : FormatEnv} :
    .freed p node ∉ (rtStopTask s q n env).2 := by
  unfold rtStopTask
  split
  · exact List.not_mem_nil
  · exact pushes_freed pushes_sendRtEvent

/-- Only these calls free a task. -/
private theorem freed_takesOff (hstep : step s a = some (t, es)) (freed : .freed p node ∈ es) :
    takesOff a := by
  cases a with
  | remove p env => trivial
  | removeByConn connId grow env => trivial
  | cleanup env => trivial
  | init =>
    obtain ⟨_, rfl⟩ := Prod.mk.inj (Option.some.inj hstep)
    exact absurd freed List.not_mem_nil
  | create uuid env =>
    simp only [step, Option.ite_none_right_eq_some, Option.some.injEq, Prod.mk.injEq] at hstep
    obtain ⟨_, _, rfl⟩ := hstep
    exact absurd freed create_freed
  | start q libName env =>
    simp only [step, Option.ite_none_right_eq_some, Option.map_eq_some_iff, Prod.mk.injEq] at hstep
    obtain ⟨_, n, _, _, rfl⟩ := hstep
    exact absurd freed start_freed
  | stopTask q env =>
    simp only [step, Option.map_eq_some_iff] at hstep
    obtain ⟨n, _, hcall⟩ := hstep
    have hnot : .freed p node ∉ (rtStopTask s q n.val env).2 := stopTask_freed
    rw [hcall] at hnot
    exact absurd freed hnot
  | stop =>
    obtain ⟨_, rfl⟩ := Prod.mk.inj (Option.some.inj hstep)
    exact absurd freed List.not_mem_nil
  | setConnId q connId =>
    simp only [step, Option.map_eq_some_iff, Prod.mk.injEq] at hstep
    obtain ⟨_, _, _, rfl⟩ := hstep
    exact absurd freed List.not_mem_nil
  | setCleanup q callback =>
    simp only [step, Option.map_eq_some_iff, Prod.mk.injEq] at hstep
    obtain ⟨_, _, _, rfl⟩ := hstep
    exact absurd freed List.not_mem_nil

private theorem accounts_initial : Accounts (view Scheduler.initial) :=
  ⟨List.nodup_nil, List.Perm.refl _, List.nodup_nil⟩

/-- While the list is not dropped, the books of the trace agree with the scheduler: the open sockets
are those of the listed tasks that listen, no socket was closed twice, each listed task is alive
with its callback still to run, and a task leaves the list only by a call that frees it. -/
theorem resources_accounted (run : Run scheduler wellCalled tr s) :
    Ledger.audit ⟨[], []⟩ tr = some ⟨s.listed.map fun c => (c.1, []), s.sockets⟩ ∧
    (∀ k, k ∈ s.sockets ↔ ∃ c ∈ s.listed, c.2.nngInitialized = true ∧ c.2.nngSock = k) ∧
    ∀ a t es, wellCalled s a → step s a = some (t, es) →
      ∀ c ∈ s.listed, c.1 ∉ t.listed.map Prod.fst →
        takesOff a ∧ ∃ node, .freed c.1 node ∈ es := by
  obtain ⟨sound, hatoms⟩ := path_refines (U := fun _ => True) (fun _ _ hok => hok.1)
    (fun _ _ hok => hok.2) (fun _ _ _ _ _ => trivial) sound_initial run
  obtain ⟨haudit, haccounts⟩ := atoms_account accounts_initial hatoms
  refine ⟨haudit, ?_, ?_⟩
  · intro k
    rw [← mem_channels]
    exact haccounts.owned.mem_iff
  · intro a t es hok hstep c hc gone
    obtain ⟨_, hstepAtoms⟩ := step_refines sound hok.1 hok.2 hstep
    by_contra hstay
    have hfreed : ∀ node, .freed c.1 node ∉ es := by
      intro node hmem
      exact hstay ⟨freed_takesOff hstep hmem, node, hmem⟩
    exact gone (atoms_leave hstepAtoms (List.mem_map_of_mem hc) hfreed)

/-- A task with a callback is bound, its socket is closed by the cleanup, and another one is bound
after the scheduler starts again. -/
theorem books_after_cleanup : ∃ tr s, Run scheduler wellCalled tr s ∧
    Event.cleanup 0 3 ∈ tr ∧ s.sockets = [6] ∧
    Ledger.audit ⟨[], []⟩ tr = some ⟨s.listed.map fun c => (c.1, []), s.sockets⟩ := by
  obtain ⟨tr, s, run, hcleanup, hsockets⟩ := scheduler.exec_reaches wellCalled
    [.init, .create (some (ascii "a")) ⟨some 0, 0, ⟨true, 0⟩⟩, .setCleanup 0 (some 3),
      .start 0 none ⟨some 5, true, 0, ⟨true, 0⟩⟩, .cleanup fun _ => ⟨true, 0⟩, .init,
      .create (some (ascii "a")) ⟨some 1, 0, ⟨true, 0⟩⟩, .start 1 none ⟨some 6, true, -1, ⟨true, 0⟩⟩]
    (fun tr s => Event.cleanup 0 3 ∈ tr ∧ s.sockets = [6]) (by decide +kernel)
  exact ⟨tr, s, run, hcleanup, hsockets, (resources_accounted run).1⟩

/-- A stop and a start of the scheduler drop a listening task: its socket stays open, and the task
was not freed. -/
theorem dropped_task : ∃ tr s, Run scheduler onListed tr s ∧
    s.sockets = [5] ∧ s.listed = [] ∧ Event.opened 5 ∈ tr ∧ Event.closed 5 ∉ tr ∧
    Event.created 0 (ascii "a") ∈ tr ∧ (∀ e ∈ tr, frees e = false) :=
  scheduler.exec_reaches onListed
    [.init, .create (some (ascii "a")) ⟨some 0, 0, ⟨true, 0⟩⟩,
      .start 0 none ⟨some 5, true, 0, ⟨true, 0⟩⟩, .stop, .init]
    (fun tr s => s.sockets = [5] ∧ s.listed = [] ∧ Event.opened 5 ∈ tr ∧ Event.closed 5 ∉ tr ∧
      Event.created 0 (ascii "a") ∈ tr ∧ ∀ e ∈ tr, frees e = false)
    (by decide +kernel)

end Runs

end Cyctron.Realtime.Account
