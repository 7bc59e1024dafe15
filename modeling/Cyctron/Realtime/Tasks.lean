/- Cyctron/Realtime/Tasks
   digest: The scheduler as a list of tasks and a set of open sockets, and its elementary steps. -/

import Cyctron.Realtime.Model

set_option autoImplicit false
set_option relaxedAutoImplicit false

namespace Cyctron.Realtime.Tasks

open Cyctron.Base.CString Cyctron.Realtime.Model
open Cyctron.Machine.LinkedQueue (Store Seg.nodup Seg.chain_eq)
open Cyctron.Machine.LinkedList

/-- The listed tasks in order, and the sockets that are open for tasks. -/
structure View where
  listed : List (Nat × RtTaskNode)
  sockets : List Nat

def View.addresses (v : View) : List Nat := v.listed.map Prod.fst

def View.find (v : View) (uuid : Bytes) : Option Nat :=
  (v.listed.find? fun c => c.2.task.uuid = uuid).map Prod.fst

/-- A change of a node that leaves its names and its channel as they are. -/
structure Keeps (f : RtTaskNode → RtTaskNode) : Prop where
  uuid : ∀ n, (f n).task.uuid = n.task.uuid
  socketId : ∀ n, (f n).task.socketId = n.task.socketId
  sock : ∀ n, (f n).nngSock = n.nngSock
  initialized : ∀ n, (f n).nngInitialized = n.nngInitialized

def IsPush : Event → Prop
  | .push _ => True
  | _ => False

def Pushes (es : List Event) : Prop := ∀ e ∈ es, IsPush e

/-- The elementary steps of the calls on listed tasks; a task is created for a name in `U`. -/
inductive Atom (U : Bytes → Prop) (v : View) : List Event → View → Prop
  | push {es : List Event} (h : Pushes es) : Atom U v es v
  | load (path jsonIn : Bytes) : Atom U v [.load path jsonIn] v
  | create {p : Nat} {u : Bytes} {counter now : Nat} (named : U u) (new : p ∉ v.addresses)
      (missing : v.find u = none) :
      Atom U v [.created p u] { v with listed := (p, .fresh u counter now) :: v.listed }
  | modify (p : Nat) {f : RtTaskNode → RtTaskNode} (keeps : Keeps f) :
      Atom U v [] { v with listed := update v.listed p f }
  | listen {p k : Nat} {node : RtTaskNode} {url : Bytes} (mem : (p, node) ∈ v.listed)
      (closed : node.nngInitialized = false) (free : k ∉ v.sockets) :
      Atom U v [.opened k, .listen k url true]
        ⟨update v.listed p fun n => setInitialized (setSock k n), k :: v.sockets⟩
  | deaf {p k : Nat} {node : RtTaskNode} {url : Bytes} (mem : (p, node) ∈ v.listed)
      (closed : node.nngInitialized = false) (free : k ∉ v.sockets) :
      Atom U v [.opened k, .listen k url false, .closed k]
        { v with listed := update v.listed p (setSock k) }
  | remove {p : Nat} {node : RtTaskNode} {ps : List Event} (mem : (p, node) ∈ v.listed)
      (pushes : Pushes ps) :
      Atom U v (closeSocket node ++ ps ++ runCleanup p node ++ [.freed p node])
        ⟨without v.listed p, afterClose v.sockets node⟩

/-- Elementary steps one after the other. -/
inductive Atoms (U : Bytes → Prop) (v : View) : List Event → View → Prop
  | refl : Atoms U v [] v
  | snoc {es fs : List Event} {w w' : View} (h : Atoms U v es w) (a : Atom U w fs w') :
      Atoms U v (es ++ fs) w'

variable {U : Bytes → Prop}

theorem Atoms.single {v w : View} {es : List Event} (h : Atom U v es w) : Atoms U v es w := by
  have hsnoc := Atoms.snoc (Atoms.refl (U := U) (v := v)) h
  simpa using hsnoc

theorem Atoms.trans {u v w : View} {es fs : List Event} (h : Atoms U u es v) (h' : Atoms U v fs w) :
    Atoms U u (es ++ fs) w := by
  induction h' with
  | refl => simpa using h
  | snoc _ a ih =>
    rw [← List.append_assoc]
    exact ih.snoc a

section Views

variable {s : Scheduler} {l : List (Nat × RtTaskNode)} {p : Nat} {node : RtTaskNode}

/-- The scheduler as a list. -/
def view (s : Scheduler) : View := ⟨s.listed, s.sockets⟩

theorem view_eq {ks : List Nat} (hl : s.listed = l) (hk : s.sockets = ks) : view s = ⟨l, ks⟩ := by
  rw [view, hl, hk]

/-- The list ends, and its length is counted. -/
structure Sound (s : Scheduler) : Prop where
  seg : s.store.Seg s.tasks s.listed
  count : s.count = s.listed.length

theorem Sound.of_seg (h : s.store.Seg s.tasks l) (count : s.count = l.length) :
    Sound s ∧ s.listed = l := by
  have hl : s.listed = l := Seg.chain_eq h
  exact ⟨⟨hl.symm ▸ h, hl.symm ▸ count⟩, hl⟩

theorem sound_initial : Sound Scheduler.initial :=
  (Sound.of_seg (s := Scheduler.initial) (l := []) rfl rfl).1

theorem Sound.nodup (h : Sound s) : (s.listed.map Prod.fst).Nodup := Seg.nodup h.seg

/-- The cell of a listed task holds its node. -/
theorem Sound.cell (h : Sound s) (mem : (p, node) ∈ s.listed) :
    ∃ nx, s.store.cell p = some ⟨node, nx⟩ :=
  seg_cell h.seg mem

theorem Sound.node_mem (h : Sound s) {n : Cyctron.Machine.LinkedQueue.Node RtTaskNode}
    (hcell : s.store.cell p = some n) (mem : p ∈ s.listed.map Prod.fst) :
    (p, n.val) ∈ s.listed := by
  obtain ⟨⟨q, node⟩, hmem, rfl⟩ := List.mem_map.mp mem
  obtain ⟨nx, hnode⟩ := h.cell hmem
  rw [hcell] at hnode
  obtain rfl := Option.some.inj hnode
  exact hmem

/-- Changing a node changes the list at this node only. -/
theorem Sound.set (h : Sound s) (f : RtTaskNode → RtTaskNode) :
    Sound (s.set p f) ∧ (s.set p f).listed = update s.listed p f :=
  Sound.of_seg (s := s.set p f) (seg_modify h.seg) (by rw [length_update]; exact h.count)

theorem Sound.withSockets (h : Sound s) (ks : List Nat) :
    Sound (s.withSockets ks) ∧ (s.withSockets ks).listed = s.listed :=
  Sound.of_seg (s := s.withSockets ks) h.seg h.count

end Views

end Cyctron.Realtime.Tasks
