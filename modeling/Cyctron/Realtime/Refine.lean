/- Cyctron/Realtime/Refine
   digest: The calls of the scheduler on listed tasks are made of the steps on its list. -/

import Cyctron.Realtime.Tasks

set_option autoImplicit false
set_option relaxedAutoImplicit false

namespace Cyctron.Realtime.Refine

open Cyctron.Base.CString Cyctron.Event.Format Cyctron.Realtime.Model Cyctron.Realtime.Tasks
open Cyctron.Machine.LinkedQueue (Seg.congr Seg.nodup cell_cons cell_free fresh_not_mem)
open Cyctron.Machine.Labelled (Run)
open Cyctron.Machine.LinkedList

variable {U : Bytes → Prop}

section Pushes

variable {env : FormatEnv} {type data uuid : Bytes} {action status : String}

private theorem pushes_eventPushWithType : Pushes (eventPushWithType env type data) := by
  intro e he
  unfold eventPushWithType at he
  dsimp only at he
  split at he
  · obtain ⟨text, _, rfl⟩ := List.mem_map.mp he
    trivial
  · cases he

theorem pushes_sendRtEvent : Pushes (sendRtEvent env action uuid status) :=
  pushes_eventPushWithType

theorem pushes_nil : Pushes [] := fun _ he => absurd he List.not_mem_nil

end Pushes

section Nodes

variable {s t : Scheduler} {p q : Nat} {node : RtTaskNode} {es : List Event}
  {l : List (Nat × RtTaskNode)}

private theorem keeps_setStatus (status : RtTaskStatus) : Keeps (setStatus status) :=
  ⟨fun _ => rfl, fun _ => rfl, fun _ => rfl, fun _ => rfl⟩

private theorem keeps_setConnId (connId : Nat) : Keeps (setConnId connId) :=
  ⟨fun _ => rfl, fun _ => rfl, fun _ => rfl, fun _ => rfl⟩

private theorem keeps_setOnCleanup (callback : Option Nat) : Keeps (setOnCleanup callback) :=
  ⟨fun _ => rfl, fun _ => rfl, fun _ => rfl, fun _ => rfl⟩

theorem update_update {f g : RtTaskNode → RtTaskNode} :
    update (update l p f) p g = update l p fun n => g (f n) := by
  rw [update, update, update, List.map_map]
  apply List.map_congr_left
  intro c _
  by_cases hp : c.1 = p <;> simp [hp]

private theorem view_set (h : Sound s) {f : RtTaskNode → RtTaskNode} :
    view (s.set p f) = ⟨update s.listed p f, s.sockets⟩ := by
  rw [view, (h.set f).2]
  rfl

/-- A change of a node that keeps its names and its channel. -/
private theorem set_refines (h : Sound s) {f : RtTaskNode → RtTaskNode} (keeps : Keeps f) :
    Sound (s.set p f) ∧ Atoms U (view s) [] (view (s.set p f)) := by
  refine ⟨(h.set f).1, ?_⟩
  rw [view_set h]
  exact Atoms.single (Atom.modify p keeps)

theorem init_sound (h : Sound s) :
    Sound (rtInit s) ∧ (rtInit s).listed = if s.running then s.listed else [] := by
  unfold rtInit
  split
  · exact ⟨h, rfl⟩
  · exact Sound.of_seg (s := { s with running := true, count := 0, tasks := none }) rfl rfl

private theorem init_running (h : Sound s) (empty : s.running = true ∨ s.listed = []) :
    Sound (rtInit s) ∧ view (rtInit s) = view s := by
  obtain ⟨hsound, hlisted⟩ := init_sound h
  have hsame : (rtInit s).listed = s.listed := by
    rw [hlisted]
    split
    · rfl
    · rename_i off
      exact (empty.resolve_left off).symm
  refine ⟨hsound, view_eq hsame ?_⟩
  unfold rtInit
  split <;> rfl

private theorem find_view (s : Scheduler) (u : Bytes) : findNode s u = (view s).find u := rfl

end Nodes

section Create

variable {s t : Scheduler} {u : Bytes} {env : CreateEnv} {r : Option Nat} {es : List Event}

/-- The call fails and changes nothing, or it puts a new task in front. -/
theorem create_cases (h : Sound s) (fits : env.Fits s)
    (hcall : rtCreateTask s (some u) env = (t, r, es)) :
    (r = none ∧ t = s ∧ es = [] ∧ (findNode s u ≠ none ∨ env.node = none)) ∨
    ∃ p, env.node = some p ∧ r = some p ∧ findNode s u = none ∧ p ∉ s.listed.map Prod.fst ∧
      Sound t ∧ t.listed = (p, .fresh u s.counter env.now) :: s.listed ∧ t.sockets = s.sockets ∧
      t.running = s.running ∧
      es = .created p u :: sendRtEvent env.format "create" u "created" := by
  unfold rtCreateTask at hcall
  dsimp only at hcall
  split at hcall
  · rename_i found
    obtain ⟨rfl, rfl, rfl⟩ : s = t ∧ none = r ∧ [] = es := by simpa using hcall
    exact Or.inl ⟨rfl, rfl, rfl, Or.inl (Option.isSome_iff_ne_none.mp found)⟩
  · rename_i missing
    have hnone : findNode s u = none := by simpa using missing
    split at hcall
    · rename_i hnode
      obtain ⟨rfl, rfl, rfl⟩ : s = t ∧ none = r ∧ [] = es := by simpa using hcall
      exact Or.inl ⟨rfl, rfl, rfl, Or.inr hnode⟩
    · rename_i p hnode
      have hfresh : s.store.cell p = none := fits p hnode
      simp only [Prod.mk.injEq] at hcall
      obtain ⟨rfl, rfl, rfl⟩ := hcall
      refine Or.inr ⟨p, hnode, rfl, hnone, fresh_not_mem h.seg hfresh, ?_⟩
      obtain ⟨hsound, hlisted⟩ := Sound.of_seg (s := { s with
          counter := (s.counter + 1) % 2 ^ 64
          store := (p, ⟨.fresh u s.counter env.now, s.tasks⟩) :: s.store
          tasks := some p
          count := s.count + 1 })
        (seg_pushFront h.seg hfresh) (by rw [List.length_cons, h.count]; rfl)
      exact ⟨hsound, hlisted, rfl, rfl, rfl⟩

theorem create_refines (h : Sound s) (fits : env.Fits s) (named : U u)
    (hcall : rtCreateTask s (some u) env = (t, r, es)) : Sound t ∧ Atoms U (view s) es (view t) := by
  rcases create_cases h fits hcall with ⟨_, rfl, rfl, _⟩ | ⟨p, _, _, hnone, new, sound, hl, hk, _, rfl⟩
  · exact ⟨h, .refl⟩
  · refine ⟨sound, ?_⟩
    have hview : view t = { view s with listed := (p, .fresh u s.counter env.now) :: s.listed } := by
      rw [view, hl, hk]
      rfl
    have hatom : Atom U (view s) [.created p u] (view t) := by
      rw [hview]
      exact Atom.create named new (by rw [← find_view]; exact hnone)
    exact (Atoms.single hatom).snoc (Atom.push pushes_sendRtEvent)

end Create

section Start

variable {s t : Scheduler} {p : Nat} {node : RtTaskNode} {libName : Option Bytes} {env : StartEnv}
  {es : List Event} {rc : Int} {go : Bool}

theorem listening_refines (h : Sound s) (fits : env.Fits s) (mem : (p, node) ∈ s.listed)
    (hcall : startListening s p node env = (t, go, es)) :
    Sound t ∧ Atoms U (view s) es (view t) := by
  unfold startListening at hcall
  split at hcall
  · simp only [Prod.mk.injEq] at hcall
    obtain ⟨rfl, rfl, rfl⟩ := hcall
    exact ⟨h, .refl⟩
  · rename_i closed
    have hclosed : node.nngInitialized = false := by simpa using closed
    split at hcall
    · simp only [Prod.mk.injEq] at hcall
      obtain ⟨rfl, rfl, rfl⟩ := hcall
      exact ⟨h, .refl⟩
    · rename_i k hk
      have hset := h.set (p := p) (setSock k)
      dsimp only at hcall
      split at hcall
      · simp only [Prod.mk.injEq] at hcall
        obtain ⟨rfl, rfl, rfl⟩ := hcall
        have hset' := hset.1.set (p := p) setInitialized
        obtain ⟨hsound, hlisted⟩ := hset'.1.withSockets (k :: s.sockets)
        refine ⟨hsound, Atoms.single ?_⟩
        rw [view_eq (hlisted.trans (hset'.2.trans (by rw [hset.2, update_update]))) rfl]
        exact Atom.listen (v := view s) mem hclosed (fits k hk)
      · simp only [Prod.mk.injEq] at hcall
        obtain ⟨rfl, rfl, rfl⟩ := hcall
        refine ⟨hset.1, Atoms.single ?_⟩
        rw [view_set h]
        exact Atom.deaf (v := view s) mem hclosed (fits k hk)

theorem plugin_refines (h : Sound s) (hcall : startPlugin s p node libName env = (t, rc, es)) :
    Sound t ∧ Atoms U (view s) es (view t) := by
  unfold startPlugin at hcall
  dsimp only at hcall
  split at hcall
  · simp only [Prod.mk.injEq] at hcall
    obtain ⟨rfl, rfl, rfl⟩ := hcall
    obtain ⟨hsound, hset⟩ := set_refines (p := p) h (keeps_setStatus .running)
    refine ⟨hsound, ?_⟩
    have hload := (Atoms.single (Atom.load (U := U) (v := view s) (Calldyn.Core.ffiPath
      (libName.getD (ascii "libsoket_demo"))) (startJson node))).trans hset
    rw [List.append_nil] at hload
    exact hload.snoc (Atom.push pushes_sendRtEvent)
  · simp only [Prod.mk.injEq] at hcall
    obtain ⟨rfl, rfl, rfl⟩ := hcall
    obtain ⟨hsound, hset⟩ := set_refines (p := p) h (keeps_setStatus .error)
    exact ⟨hsound, (Atoms.single (Atom.load _ _)).trans hset⟩

private theorem start_refines (h : Sound s) (fits : env.Fits s) (mem : (p, node) ∈ s.listed)
    (hcall : rtStartTask s p node libName env = (t, rc, es)) :
    Sound t ∧ Atoms U (view s) es (view t) := by
  unfold rtStartTask at hcall
  split at hcall
  · simp only [Prod.mk.injEq] at hcall
    obtain ⟨rfl, rfl, rfl⟩ := hcall
    exact ⟨h, .refl⟩
  · obtain ⟨hsound, hlisten⟩ := listening_refines (U := U) h fits mem
      (rfl : startListening s p node env = (_, _, _))
    dsimp only at hcall
    split at hcall
    · simp only [Prod.mk.injEq] at hcall
      obtain ⟨rfl, rfl, rfl⟩ := hcall
      obtain ⟨hsound', hplugin⟩ := plugin_refines (U := U) hsound
        (rfl : startPlugin (startListening s p node env).1 p node libName env = (_, _, _))
      exact ⟨hsound', hlisten.trans hplugin⟩
    · simp only [Prod.mk.injEq] at hcall
      obtain ⟨rfl, rfl, rfl⟩ := hcall
      exact ⟨hsound, hlisten⟩

theorem stopTask_refines (h : Sound s) {env : FormatEnv}
    (hcall : rtStopTask s p node env = (t, es)) : Sound t ∧ Atoms U (view s) es (view t) := by
  unfold rtStopTask at hcall
  split at hcall
  · simp only [Prod.mk.injEq] at hcall
    obtain ⟨rfl, rfl⟩ := hcall
    exact ⟨h, .refl⟩
  · simp only [Prod.mk.injEq] at hcall
    obtain ⟨rfl, rfl⟩ := hcall
    obtain ⟨hsound, hset⟩ := set_refines (p := p) h (keeps_setStatus .stopped)
    exact ⟨hsound, hset.snoc (Atom.push pushes_sendRtEvent)⟩

end Start

section Remove

variable {s t : Scheduler} {p connId : Nat} {node : RtTaskNode} {es : List Event}
  {l : List (Nat × RtTaskNode)} {ps : List Nat} {grow : Nat → Bool}

/-- The events of a removal. -/
def removeEvents (env : FormatEnv) (c : Nat × RtTaskNode) : List Event :=
  closeSocket c.2 ++ sendRtEvent env "remove" c.2.task.uuid "stopped" ++ runCleanup c.1 c.2 ++
    [.freed c.1 c.2]

/-- Removing a listed task succeeds, and takes exactly this task off the list. -/
theorem remove_listed (h : Sound s) (mem : (p, node) ∈ s.listed) (env : FormatEnv) :
    ∃ t, rtRemoveTask s p node env = (t, 0, removeEvents env (p, node)) ∧ Sound t ∧
      t.listed = without s.listed p ∧ t.sockets = afterClose s.sockets node ∧
      t.running = s.running := by
  have hp : p ∈ s.listed.map Prod.fst := List.mem_map_of_mem mem
  obtain ⟨head', st', hunlink, hseg⟩ := seg_unlink h.seg hp
  obtain ⟨x, y, hxy⟩ := List.append_of_mem mem
  have hcount : s.count - 1 = ((without s.listed p).length : Int) := by
    have hnodup := h.nodup
    rw [h.count]
    rw [hxy] at hnodup ⊢
    rw [without_split hnodup]
    simp only [List.length_append, List.length_cons]
    omega
  obtain ⟨hsound, hlisted⟩ := Sound.of_seg (s := { s with
    tasks := head'
    count := s.count - 1
    store := st'.free p
    sockets := afterClose s.sockets node }) hseg hcount
  refine ⟨_, ?_, hsound, hlisted, rfl, rfl⟩
  rw [rtRemoveTask, hunlink]
  rfl

theorem remove_unlisted (h : Sound s) (out : p ∉ s.listed.map Prod.fst) (env : FormatEnv) :
    rtRemoveTask s p node env = (s, -1, []) := by
  rw [rtRemoveTask, unlink_of_not_mem h.seg out]

private theorem remove_atoms (mem : (p, node) ∈ s.listed) (env : FormatEnv)
    (listed : t.listed = without s.listed p) (sockets : t.sockets = afterClose s.sockets node) :
    Atoms U (view s) (removeEvents env (p, node)) (view t) := by
  rw [view_eq listed sockets]
  exact Atoms.single (Atom.remove (v := view s) mem pushes_sendRtEvent)

/-- The victims are the first tasks of the connection, all of them when the array can grow. -/
theorem victims_sublist {n cap : Nat} : (collectVictims connId grow n cap l).Sublist
    ((l.filter fun c => c.2.task.connId = connId).map Prod.fst) := by
  induction l generalizing n cap with
  | nil => exact List.Sublist.slnil
  | cons c l ih =>
    rw [collectVictims]
    by_cases hc : c.2.task.connId = connId
    · simp only [hc, ne_eq, not_true, if_false, decide_true, List.filter_cons_of_pos, List.map_cons]
      split_ifs
      · exact ih.cons_cons c.1
      · exact List.nil_sublist _
      · exact ih.cons_cons c.1
      · exact List.nil_sublist _
      · exact ih.cons_cons c.1
    · simpa [hc] using ih

private theorem victims_eq {n cap : Nat} (all : ∀ k, grow k = true) :
    collectVictims connId grow n cap l =
    (l.filter fun c => c.2.task.connId = connId).map Prod.fst := by
  induction l generalizing n cap with
  | nil => rfl
  | cons c l ih =>
    rw [collectVictims]
    by_cases hc : c.2.task.connId = connId
    · simp only [hc, ne_eq, not_true, if_false, decide_true, List.filter_cons_of_pos, List.map_cons,
        all, if_true, ih]
      split <;> rfl
    · simpa [hc] using ih

/-- The second loop removes the victims in order and nothing else. -/
theorem removeVictims_listed (env : Nat → FormatEnv) (removed : Nat) (h : Sound s)
    (nodup : ps.Nodup) (mem : ps ⊆ s.listed.map Prod.fst) :
    ∃ t nodes, removeVictims env ps s removed =
        (t, removed + ps.length, nodes.flatMap fun c => removeEvents (env c.1) c) ∧
      Sound t ∧ nodes.map Prod.fst = ps ∧ nodes ⊆ s.listed ∧
      t.listed = s.listed.filter (fun c => c.1 ∉ ps) ∧
      t.sockets = nodes.foldl (fun ks c => afterClose ks c.2) s.sockets ∧
      Atoms U (view s) (nodes.flatMap fun c => removeEvents (env c.1) c) (view t) ∧
      t.running = s.running := by
  induction ps generalizing s removed with
  | nil =>
    refine ⟨s, [], rfl, h, rfl, List.nil_subset _, ?_, rfl, .refl, rfl⟩
    simp
  | cons p ps ih =>
    obtain ⟨⟨q, node⟩, hmem, rfl⟩ := List.mem_map.mp (mem List.mem_cons_self)
    obtain ⟨nx, hcell⟩ := h.cell hmem
    obtain ⟨hnew, hnodup⟩ := List.nodup_cons.mp nodup
    obtain ⟨t, hcall, hsound, hlisted, hsockets, hrunning⟩ := remove_listed h hmem (env q)
    have hsub : ps ⊆ t.listed.map Prod.fst := by
      intro a ha
      obtain ⟨c, hc, rfl⟩ := List.mem_map.mp (mem (List.mem_cons_of_mem _ ha))
      rw [hlisted]
      refine List.mem_map_of_mem (mem_without.mpr ⟨hc, ?_⟩)
      rintro rfl
      exact hnew ha
    obtain ⟨t', nodes, hrest, hsound', hps, hnodes, hlisted', hsockets', hatoms, hrunning'⟩ :=
      ih (removed + 1) hsound hnodup hsub
    refine ⟨t', (q, node) :: nodes, ?_, hsound', ?_, ?_, ?_, ?_, ?_, hrunning'.trans hrunning⟩
    · dsimp only at hcell ⊢
      rw [removeVictims, hcell]
      dsimp only
      rw [hcall]
      dsimp only
      rw [if_pos rfl, hrest, List.flatMap_cons, List.length_cons, Nat.add_assoc,
        Nat.add_comm 1]
    · rw [List.map_cons, hps]
    · intro c hc
      rcases List.mem_cons.mp hc with rfl | hc
      · exact hmem
      · have hin := hnodes hc
        rw [hlisted] at hin
        exact (mem_without.mp hin).1
    · rw [hlisted', hlisted, without, List.filter_filter]
      apply List.filter_congr
      intro c _
      by_cases hq : c.1 = q <;> simp [hq]
    · rw [hsockets', hsockets, List.foldl_cons]
    · rw [List.flatMap_cons]
      exact (remove_atoms hmem (env q) hlisted hsockets).trans hatoms

theorem victims_nodup (h : Sound s) (connId : Nat) (grow : Nat → Bool) :
    (collectVictims connId grow 0 0 s.listed).Nodup ∧
      collectVictims connId grow 0 0 s.listed ⊆ s.listed.map Prod.fst := by
  have hsub : (collectVictims connId grow 0 0 s.listed).Sublist (s.listed.map Prod.fst) :=
    victims_sublist.trans (List.filter_sublist.map Prod.fst)
  exact ⟨h.nodup.sublist hsub, hsub.subset⟩

private theorem removeByConn_refines (h : Sound s) {env : Nat → FormatEnv} {removed : Nat}
    (hcall : rtRemoveTasksByConn s connId grow env = (t, removed, es)) :
    Sound t ∧ Atoms U (view s) es (view t) ∧ t.running = s.running := by
  obtain ⟨hnodup, hmem⟩ := victims_nodup h connId grow
  obtain ⟨t', nodes, hrem, hsound, _, _, _, _, hatoms, hrunning⟩ :=
    removeVictims_listed (U := U) env 0 h hnodup hmem
  unfold rtRemoveTasksByConn at hcall
  rw [hrem] at hcall
  obtain ⟨rfl, _, rfl⟩ := by simpa only [Prod.mk.injEq] using hcall
  exact ⟨hsound, hatoms, hrunning⟩

/-- With memory for the array, the tasks of the connection are removed in order, and only they. -/
theorem removeByConn_all (connId : Nat) (h : Sound s) (all : ∀ k, grow k = true)
    (env : Nat → FormatEnv) :
    ∃ t, rtRemoveTasksByConn s connId grow env =
        (t, (s.listed.filter fun c => c.2.task.connId = connId).length,
          (s.listed.filter fun c => c.2.task.connId = connId).flatMap
            fun c => removeEvents (env c.1) c) ∧
      Sound t ∧ t.listed = (s.listed.filter fun c => c.2.task.connId ≠ connId) ∧
      t.running = s.running := by
  obtain ⟨hnodup, hmem⟩ := victims_nodup h connId grow
  obtain ⟨t, nodes, hrem, hsound, hps, hnodes, hlisted, _, _, hrunning⟩ :=
    removeVictims_listed (U := fun _ => True) env 0 h hnodup hmem
  rw [victims_eq all] at hrem hps hlisted
  have hsub : (s.listed.filter fun c => c.2.task.connId = connId) ⊆ s.listed := by
    intro c hc
    exact (List.mem_filter.mp hc).1
  have hfilter := eq_of_addresses h.nodup hnodes hsub hps
  refine ⟨t, ?_, hsound, ?_, hrunning⟩
  · rw [rtRemoveTasksByConn, victims_eq all, hrem, hfilter, List.length_map, Nat.zero_add]
  · rw [hlisted]
    apply List.filter_congr
    intro c hc
    by_cases hconn : c.2.task.connId = connId
    · have hmem' : c.1 ∈ (s.listed.filter fun c => c.2.task.connId = connId).map Prod.fst :=
        List.mem_map_of_mem (List.mem_filter.mpr ⟨hc, by simpa using hconn⟩)
      simp [hconn, hmem']
    · have hout : c.1 ∉ (s.listed.filter fun c => c.2.task.connId = connId).map Prod.fst := by
        intro hmem'
        obtain ⟨d, hd, hdc⟩ := List.mem_map.mp hmem'
        obtain ⟨hdl, hdconn⟩ := List.mem_filter.mp hd
        obtain rfl := List.inj_on_of_nodup_map h.nodup hdl hc hdc
        exact hconn (by simpa using hdconn)
      simp [hconn, hout]

end Remove

section Cleanup

variable {s t : Scheduler} {env : Nat → FormatEnv} {es : List Event}
  {l : List (Nat × RtTaskNode)} {ks : List Nat}

private theorem cleanup_atoms (nodup : (l.map Prod.fst).Nodup) :
    Atoms U ⟨l, ks⟩ (l.flatMap (cleanupNode env)) ⟨[], l.foldl (fun ks c => afterClose ks c.2) ks⟩ := by
  induction l generalizing ks with
  | nil => exact .refl
  | cons c l ih =>
    obtain ⟨p, node⟩ := c
    have hfront := without_split (x := []) (y := l) (v := node) (by simpa using nodup)
    rw [List.map_cons, List.nodup_cons] at nodup
    rw [List.flatMap_cons, List.foldl_cons]
    refine Atoms.trans ?_ (ih nodup.2)
    have hpush : Pushes (if node.task.status = .running then
        sendRtEvent (env p) "cleanup" node.task.uuid "stopped" else []) := by
      split
      · exact pushes_sendRtEvent
      · exact pushes_nil
    have hremove := Atom.remove (U := U) (v := ⟨(p, node) :: l, ks⟩) List.mem_cons_self pushes_nil
    have hboth := (Atoms.single (Atom.push (U := U) (v := ⟨(p, node) :: l, ks⟩) hpush)).snoc hremove
    dsimp only [List.nil_append] at hfront
    rw [hfront, List.append_nil] at hboth
    rw [cleanupNode]
    simpa only [List.append_assoc] using hboth

private theorem cleanup_refines (h : Sound s) (hcall : rtCleanup s env = (t, es)) :
    Sound t ∧ Atoms U (view s) es (view t) ∧ t.listed = [] := by
  unfold rtCleanup at hcall
  simp only [Prod.mk.injEq] at hcall
  obtain ⟨rfl, rfl⟩ := hcall
  obtain ⟨hsound, hlisted⟩ := Sound.of_seg (s := { s with
    tasks := none
    count := 0
    running := false
    store := s.store.freeAll (s.listed.map Prod.fst)
    sockets := s.listed.foldl (fun ks c => afterClose ks c.2) s.sockets }) (l := []) rfl rfl
  refine ⟨hsound, ?_, hlisted⟩
  rw [view_eq hlisted rfl]
  exact cleanup_atoms h.nodup

end Cleanup

section Steps

variable {s t : Scheduler} {a : Action} {es : List Event}

/-- The calls on tasks are calls on listed tasks. -/
def onListed (s : Scheduler) : Action → Prop
  | .start p _ _ | .stopTask p _ | .remove p _ | .setConnId p _ | .setCleanup p _ =>
    p ∈ s.listed.map Prod.fst
  | _ => True

/-- The list is reset only when it is empty. -/
def keepsList (s : Scheduler) : Action → Prop
  | .init => s.running = true ∨ s.listed = []
  | _ => True

/-- The calls on listed tasks that do not drop the list. -/
def wellCalled (s : Scheduler) (a : Action) : Prop := onListed s a ∧ keepsList s a

instance (s : Scheduler) (a : Action) : Decidable (onListed s a) := by
  apply a.casesOn (motive := fun a => Decidable (onListed s a)) <;> intros <;>
    dsimp only [onListed] <;> infer_instance

instance (s : Scheduler) (a : Action) : Decidable (keepsList s a) := by
  apply a.casesOn (motive := fun a => Decidable (keepsList s a)) <;> intros <;>
    dsimp only [keepsList] <;> infer_instance

instance (s : Scheduler) (a : Action) : Decidable (wellCalled s a) :=
  inferInstanceAs (Decidable (onListed s a ∧ keepsList s a))

/-- The names for which a call may create a task. -/
def Action.Creates (a : Action) (u : Bytes) : Prop := ∃ env, a = .create (some u) env

/-- A call on listed tasks that does not reset the list is made of elementary steps. -/
theorem step_refines (h : Sound s) (listed : onListed s a) (kept : keepsList s a)
    (hstep : step s a = some (t, es)) :
    Sound t ∧ Atoms (Action.Creates a) (view s) es (view t) := by
  cases a with
  | init =>
    obtain ⟨rfl, rfl⟩ := by simpa only [step, Option.some.injEq, Prod.mk.injEq] using hstep
    obtain ⟨hsound, hview⟩ := init_running h kept
    refine ⟨hsound, ?_⟩
    rw [hview]
    exact .refl
  | create uuid env =>
    simp only [step, Option.ite_none_right_eq_some, Option.some.injEq, Prod.mk.injEq] at hstep
    obtain ⟨fits, rfl, rfl⟩ := hstep
    cases uuid with
    | none => exact ⟨h, .refl⟩
    | some u => exact create_refines h fits ⟨env, rfl⟩ rfl
  | start p libName env =>
    simp only [step, Option.ite_none_right_eq_some, Option.map_eq_some_iff, Prod.mk.injEq] at hstep
    obtain ⟨fits, n, hcell, rfl, rfl⟩ := hstep
    exact start_refines h fits (h.node_mem hcell listed) rfl
  | stopTask p env =>
    simp only [step, Option.map_eq_some_iff] at hstep
    obtain ⟨n, _, hcall⟩ := hstep
    exact stopTask_refines h hcall
  | remove p env =>
    simp only [step, Option.map_eq_some_iff, Prod.mk.injEq] at hstep
    obtain ⟨n, hcell, rfl, rfl⟩ := hstep
    have hmem := h.node_mem hcell listed
    obtain ⟨t, hcall, hsound, hlisted, hsockets, _⟩ := remove_listed h hmem env
    rw [hcall]
    exact ⟨hsound, remove_atoms hmem env hlisted hsockets⟩
  | removeByConn connId grow env =>
    obtain ⟨rfl, rfl⟩ := by simpa only [step, Option.some.injEq, Prod.mk.injEq] using hstep
    obtain ⟨hsound, hatoms, _⟩ :=
      removeByConn_refines h (rfl : rtRemoveTasksByConn s connId grow env = (_, _, _))
    exact ⟨hsound, hatoms⟩
  | stop =>
    obtain ⟨rfl, rfl⟩ := by simpa only [step, Option.some.injEq, Prod.mk.injEq] using hstep
    exact ⟨⟨h.seg, h.count⟩, .refl⟩
  | cleanup env =>
    simp only [step, Option.some.injEq] at hstep
    obtain ⟨hsound, hatoms, _⟩ := cleanup_refines h hstep
    exact ⟨hsound, hatoms⟩
  | setConnId p connId =>
    simp only [step, Option.map_eq_some_iff, Prod.mk.injEq] at hstep
    obtain ⟨n, _, rfl, rfl⟩ := hstep
    exact set_refines h (keeps_setConnId connId)
  | setCleanup p callback =>
    simp only [step, Option.map_eq_some_iff, Prod.mk.injEq] at hstep
    obtain ⟨n, _, rfl, rfl⟩ := hstep
    exact set_refines h (keeps_setOnCleanup callback)

/-- Every call on listed tasks keeps the list and its count in order. -/
theorem step_sound (h : Sound s) (listed : onListed s a) (hstep : step s a = some (t, es)) :
    Sound t := by
  by_cases kept : keepsList s a
  · exact (step_refines h listed kept hstep).1
  · cases a with
    | init =>
      obtain ⟨rfl, _⟩ := Prod.mk.inj (Option.some.inj hstep)
      exact (init_sound h).1
    | _ => exact absurd trivial kept

theorem run_sound {tr : List Event} (run : Run scheduler onListed tr s) : Sound s :=
  run.state_invariant Sound sound_initial fun _ _ _ _ h listed hstep => step_sound h listed hstep

end Steps

end Cyctron.Realtime.Refine
