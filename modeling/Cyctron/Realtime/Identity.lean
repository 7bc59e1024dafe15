/- Cyctron/Realtime/Identity
   digest: Tasks found under their names, and names and socket paths that are listed once. -/

import Cyctron.Realtime.Refine

set_option autoImplicit false
set_option relaxedAutoImplicit false

namespace Cyctron.Realtime.Identity

open Cyctron.Base.CString Cyctron.Realtime.Model Cyctron.Realtime.Tasks Cyctron.Realtime.Refine
open Cyctron.Machine.Labelled (Path Run System)
open Cyctron.Machine.LinkedList

private theorem atoms_mono {U U' : Bytes → Prop} {v w : View} {es : List Event} (hle : ∀ u, U u → U' u)
    (h : Atoms U v es w) : Atoms U' v es w := by
  induction h with
  | refl => exact .refl
  | snoc _ a ih =>
    refine ih.snoc ?_
    cases a with
    | push h => exact .push h
    | load path jsonIn => exact .load path jsonIn
    | create named new missing => exact .create (hle _ named) new missing
    | modify p keeps => exact .modify p keeps
    | listen mem closed free => exact .listen mem closed free
    | deaf mem closed free => exact .deaf mem closed free
    | remove mem pushes => exact .remove mem pushes

/-- A run of calls on listed tasks that never drops the list is a run of elementary steps. -/
theorem path_refines {U : Bytes → Prop} {ok : Scheduler → Action → Prop} {s t : Scheduler}
    {tr : List Event} (listed : ∀ s a, ok s a → onListed s a) (kept : ∀ s a, ok s a → keepsList s a)
    (named : ∀ s a u, ok s a → Action.Creates a u → U u) (h : Sound s) (path : Path scheduler ok s tr t) :
    Sound t ∧ Atoms U (view s) tr (view t) := by
  refine path.invariant (fun tr t => Sound t ∧ Atoms U (view s) tr (view t)) ⟨h, .refl⟩ ?_
  rintro tr t a t' es ⟨sound, atoms⟩ hok hstep
  obtain ⟨sound', hatoms⟩ := step_refines sound (listed t a hok) (kept t a hok) hstep
  exact ⟨sound', atoms.trans (atoms_mono (fun u => named t a u hok) hatoms)⟩

section Names

variable {v w : View} {p : Nat} {u : Bytes} {es : List Event} {node : RtTaskNode}
  {l : List (Nat × RtTaskNode)} {f : RtTaskNode → RtTaskNode}

/-- The field for a uuid holds 63 bytes and the terminator. -/
def ShortName (u : Bytes) : Prop := u.length ≤ 63

/-- The path on which a task listens, as long as its buffer holds it. -/
def socketPath (u : Bytes) : Bytes := ascii "/tmp/cyctron_" ++ u ++ ascii ".sock"

private theorem socketPath_injective : Function.Injective socketPath := by
  intro u u' h
  unfold socketPath at h
  exact List.append_cancel_left (List.append_cancel_right h)

private theorem fresh_uuid {counter now : Nat} (short : ShortName u) :
    (RtTaskNode.fresh u counter now).task.uuid = u :=
  List.take_of_length_le short

private theorem fresh_socketId {counter now : Nat} (short : ShortName u) :
    (RtTaskNode.fresh u counter now).task.socketId = socketPath u := by
  have hlead : (ascii "/tmp/cyctron_").length = 13 := by decide
  have htail : (ascii ".sock").length = 5 := by decide
  unfold ShortName at short
  change snprintf 128 (socketPath u) = socketPath u
  refine List.take_of_length_le ?_
  rw [socketPath, List.length_append, List.length_append, hlead, htail]
  omega

/-- No two tasks share a name, and each task listens on the path of its name. -/
structure Named (v : View) : Prop where
  uuids : (v.listed.map fun c => c.2.task.uuid).Nodup
  paths : ∀ c ∈ v.listed, c.2.task.socketId = socketPath c.2.task.uuid

/-- The address belongs to a listed task of this name. -/
def Carries (v : View) (p : Nat) (u : Bytes) : Prop := ∃ n, (p, n) ∈ v.listed ∧ n.task.uuid = u

private theorem Named.socketIds (h : Named v) : (v.listed.map fun c => c.2.task.socketId).Nodup := by
  have hmap : (v.listed.map fun c => c.2.task.socketId) =
      (v.listed.map fun c => c.2.task.uuid).map socketPath := by
    rw [List.map_map]
    exact List.map_congr_left h.paths
  rw [hmap]
  exact h.uuids.map socketPath_injective

private theorem find_none_iff : v.find u = none ↔ u ∉ v.listed.map fun c => c.2.task.uuid := by
  simp [View.find, List.find?_eq_none]

/-- A task is found under its name. -/
theorem Named.find (h : Named v) (carries : Carries v p u) : v.find u = some p := by
  obtain ⟨n, hmem, rfl⟩ := carries
  obtain ⟨c, hc⟩ : ∃ c, (v.listed.find? fun c => c.2.task.uuid = n.task.uuid) = some c := by
    rw [← Option.isSome_iff_exists, List.find?_isSome]
    exact ⟨(p, n), hmem, by simp⟩
  have hname : c.2.task.uuid = n.task.uuid := by simpa using List.find?_some hc
  obtain rfl := List.inj_on_of_nodup_map h.uuids (List.mem_of_find?_eq_some hc) hmem hname
  rw [View.find, hc]
  rfl

/-- A change of a node that leaves its names as they are. -/
def SameNames (f : RtTaskNode → RtTaskNode) : Prop :=
  ∀ n, (f n).task.uuid = n.task.uuid ∧ (f n).task.socketId = n.task.socketId

private theorem update_names (same : SameNames f) :
    ((update l p f).map fun c => c.2.task.uuid) = l.map fun c => c.2.task.uuid := by
  rw [update, List.map_map]
  apply List.map_congr_left
  intro c _
  by_cases hc : c.1 = p
  · simp [hc, (same c.2).1]
  · simp [hc]

theorem Named.update {ks : List Nat} (h : Named v) (same : SameNames f) :
    Named ⟨update v.listed p f, ks⟩ := by
  refine ⟨by rw [update_names same]; exact h.uuids, ?_⟩
  intro c hc
  rcases mem_update hc with ⟨hc, _⟩ | ⟨n, hn, rfl⟩
  · exact h.paths c hc
  · rw [(same n).1, (same n).2]
    exact h.paths (p, n) hn

theorem Carries.update {q : Nat} {ks : List Nat} (h : Carries v p u) (same : SameNames f) :
    Carries ⟨update v.listed q f, ks⟩ p u := by
  obtain ⟨n, hmem, rfl⟩ := h
  by_cases hp : p = q
  · exact ⟨f n, List.mem_map.mpr ⟨(p, n), hmem, by simp [hp]⟩, (same n).1⟩
  · exact ⟨n, List.mem_map.mpr ⟨(p, n), hmem, by simp [hp]⟩, rfl⟩

theorem Named.without {ks : List Nat} (h : Named v) : Named ⟨without v.listed p, ks⟩ := by
  refine ⟨h.uuids.sublist (List.filter_sublist.map _), ?_⟩
  intro c hc
  exact h.paths c (mem_without.mp hc).1

theorem Named.create {counter now : Nat} (h : Named v) (short : ShortName u)
    (missing : v.find u = none) :
    Named { v with listed := (p, .fresh u counter now) :: v.listed } := by
  refine ⟨?_, ?_⟩
  · rw [List.map_cons, fresh_uuid short]
    exact List.nodup_cons.mpr ⟨find_none_iff.mp missing, h.uuids⟩
  · intro c hc
    rcases List.mem_cons.mp hc with rfl | hc
    · rw [fresh_uuid short, fresh_socketId short]
    · exact h.paths c hc

private theorem sameNames_listen (k : Nat) : SameNames fun n => setInitialized (setSock k n) :=
  fun _ => ⟨rfl, rfl⟩

private theorem sameNames_deaf (k : Nat) : SameNames (setSock k) := fun _ => ⟨rfl, rfl⟩

/-- Every elementary step keeps the names apart. -/
private theorem named_atom (h : Named v) (a : Atom ShortName v es w) : Named w := by
  cases a with
  | push _ => exact h
  | load _ _ => exact h
  | create short _ missing => exact h.create short missing
  | modify p keeps => exact h.update fun n => ⟨keeps.uuid n, keeps.socketId n⟩
  | listen _ _ _ => exact h.update (sameNames_listen _)
  | deaf _ _ _ => exact h.update (sameNames_deaf _)
  | remove _ _ => exact h.without

/-- A task that is not freed keeps its address and its name. -/
private theorem carries_atom {U : Bytes → Prop} (h : Carries v p u) (a : Atom U v es w)
    (stays : ∀ node, .freed p node ∉ es) : Carries w p u := by
  cases a with
  | push _ => exact h
  | load _ _ => exact h
  | create _ _ _ =>
    obtain ⟨n, hmem, hn⟩ := h
    exact ⟨n, List.mem_cons_of_mem _ hmem, hn⟩
  | modify q keeps => exact h.update fun n => ⟨keeps.uuid n, keeps.socketId n⟩
  | listen _ _ _ => exact h.update (sameNames_listen _)
  | deaf _ _ _ => exact h.update (sameNames_deaf _)
  | @remove q node ps _ _ =>
    obtain ⟨n, hmem, hn⟩ := h
    refine ⟨n, mem_without.mpr ⟨hmem, ?_⟩, hn⟩
    rintro rfl
    exact stays node (by simp)

private theorem named_atoms (h : Named v) (a : Atoms ShortName v es w) : Named w := by
  induction a with
  | refl => exact h
  | snoc _ a ih => exact named_atom ih a

theorem carries_atoms {U : Bytes → Prop} (h : Carries v p u) (a : Atoms U v es w)
    (stays : ∀ node, .freed p node ∉ es) : Carries w p u := by
  induction a with
  | refl => exact h
  | snoc _ a ih =>
    refine carries_atom (ih fun node hmem => ?_) a fun node hmem => ?_
    · exact stays node (List.mem_append_left _ hmem)
    · exact stays node (List.mem_append_right _ hmem)

end Names

section Calls

variable {s t : Scheduler} {u : Bytes} {p : Nat} {env : CreateEnv} {es : List Event}

/-- The call fails and changes nothing while a task is found under the name. -/
private theorem create_found (found : rtFindTaskByUuid s u = some p) :
    rtCreateTask s (some u) env = (s, none, []) := by
  change findNode s u = some p at found
  rw [rtCreateTask, found]
  rfl

/-- A created task is found under the name given for it exactly when its field holds the name. -/
theorem find_created_iff (h : Sound s) (fits : env.Fits s)
    (hcall : rtCreateTask s (some u) env = (t, some p, es)) :
    rtFindTaskByUuid t u = some p ↔ ShortName u := by
  rcases create_cases h fits hcall with ⟨hr, _⟩ | ⟨q, _, hq, hnone, new, _, hl, _⟩
  · cases hr
  · obtain rfl := Option.some.inj hq
    change findNode t u = some p ↔ _
    rw [findNode, hl]
    constructor
    · intro hfind
      obtain ⟨c, hc, hcp⟩ := Option.map_eq_some_iff.mp hfind
      have hname : c.2.task.uuid = u := by simpa using List.find?_some hc
      rcases List.mem_cons.mp (List.mem_of_find?_eq_some hc) with rfl | hmem
      · have hlength : (u.take 63).length ≤ 63 := List.length_take_le 63 u
        change u.take 63 = u at hname
        rw [hname] at hlength
        exact hlength
      · rw [← hcp] at new
        exact absurd (List.mem_map_of_mem hmem) new
    · intro short
      rw [List.find?_cons_of_pos (by simpa using fresh_uuid short)]
      rfl

private theorem create_carries (h : Sound s) (fits : env.Fits s) (short : ShortName u)
    (hcall : rtCreateTask s (some u) env = (t, some p, es)) : Carries (view t) p u := by
  rcases create_cases h fits hcall with ⟨hr, _⟩ | ⟨q, _, hq, _, _, _, hl, _⟩
  · cases hr
  · obtain rfl := Option.some.inj hq
    exact ⟨_, by rw [view, hl]; exact List.mem_cons_self, fresh_uuid short⟩

def shortCreate (a : Action) : Prop :=
  match a with
  | .create uuid _ => ∀ u ∈ uuid, ShortName u
  | _ => True

/-- The calls on listed tasks that do not drop the list and create tasks for short names only. -/
def shortNames (s : Scheduler) (a : Action) : Prop := wellCalled s a ∧ shortCreate a

instance (u : Bytes) : Decidable (ShortName u) := inferInstanceAs (Decidable (u.length ≤ 63))

instance (a : Action) : Decidable (shortCreate a) := by
  apply a.casesOn (motive := fun a => Decidable (shortCreate a)) <;> intros <;>
    dsimp only [shortCreate] <;> infer_instance

instance (s : Scheduler) (a : Action) : Decidable (shortNames s a) :=
  inferInstanceAs (Decidable (wellCalled s a ∧ shortCreate a))

private theorem short_path {tr : List Event} (h : Sound s) (path : Path scheduler shortNames s tr t) :
    Sound t ∧ Atoms ShortName (view s) tr (view t) :=
  path_refines (fun _ _ hok => hok.1.1) (fun _ _ hok => hok.1.2)
    (by rintro s a u hok ⟨env, rfl⟩; exact hok.2 u rfl) h path

private theorem named_initial : Named (view Scheduler.initial) :=
  ⟨List.nodup_nil, fun _ hc => absurd hc List.not_mem_nil⟩

/-- While the names are short, names and socket paths are listed once, and a created task is found
and keeps its name from being created again until it is removed. -/
theorem task_identity {tr : List Event} (run : Run scheduler shortNames tr s) :
    (s.listed.map fun c => c.2.task.uuid).Nodup ∧
    (s.listed.map fun c => c.2.task.socketId).Nodup ∧
    ∀ u env t p es, ShortName u → env.Fits s → rtCreateTask s (some u) env = (t, some p, es) →
      ∀ tr' w, Path scheduler shortNames t tr' w → (∀ node, .freed p node ∉ tr') →
        rtFindTaskByUuid w u = some p ∧
          ∀ env', rtCreateTask w (some u) env' = (w, none, []) := by
  obtain ⟨sound, hatoms⟩ := short_path sound_initial run
  have named := named_atoms named_initial hatoms
  refine ⟨named.uuids, named.socketIds, ?_⟩
  intro u env t p es short fits hcall tr' w path stays
  obtain ⟨sound', hcreate⟩ := create_refines sound fits short hcall
  obtain ⟨_, hatoms'⟩ := short_path sound' path
  have named' := named_atoms (named_atoms named hcreate) hatoms'
  have found := named'.find (carries_atoms (create_carries sound fits short hcall) hatoms' stays)
  exact ⟨found, fun env' => create_found found⟩

/-- A task named "b" that is created beside a task named "a" and is given to connection 7. -/
theorem b_beside_a : ∃ w, rtFindTaskByUuid w (ascii "b") = some 1 ∧
    ∀ env, rtCreateTask w (some (ascii "b")) env = (w, none, []) := by
  obtain ⟨tr, s, run, fits, hr, listed, hcell⟩ := scheduler.exec_reaches shortNames
    [.init, .create (some (ascii "a")) ⟨some 0, 0, ⟨true, 0⟩⟩, .setConnId 0 7]
    (fun _ s => (CreateEnv.mk (some 1) 0 ⟨true, 0⟩).Fits s ∧
      let r := rtCreateTask s (some (ascii "b")) ⟨some 1, 0, ⟨true, 0⟩⟩
      r.2.1 = some 1 ∧ 1 ∈ r.1.listed.map Prod.fst ∧ (r.1.store.cell 1).isSome)
    (by decide +kernel)
  obtain ⟨⟨t, r, es⟩, hcall⟩ :
    ∃ q, rtCreateTask s (some (ascii "b")) ⟨some 1, 0, ⟨true, 0⟩⟩ = q := ⟨_, rfl⟩
  rw [hcall] at hr listed hcell
  dsimp only at hr listed hcell
  obtain rfl : r = some 1 := hr
  obtain ⟨n, hn⟩ := Option.isSome_iff_exists.mp hcell
  have hstep : scheduler.step t (.setConnId 1 7) = some (t.set 1 (setConnId 7), []) := by
    simp only [scheduler, step, hn, Option.map_some]
  have hok : shortNames t (.setConnId 1 7) := ⟨⟨listed, trivial⟩, trivial⟩
  have hshort : ShortName (ascii "b") := by decide
  exact ⟨_, (task_identity run).2.2 (ascii "b") _ t 1 es hshort fits hcall [] _
    (Path.single hok hstep) fun _ hmem => absurd hmem List.not_mem_nil⟩

/-- A name of 64 bytes. -/
def longName : Bytes := List.replicate 64 97

/-- A task created for a long name is not found under it, and is created a second time. -/
theorem long_name_twice : ∃ tr s, Run scheduler wellCalled tr s ∧
    Event.created 0 longName ∈ tr ∧ Event.created 1 longName ∈ tr ∧
    s.listed.map Prod.fst = [1, 0] ∧ rtFindTaskByUuid s longName = none ∧
    ¬(s.listed.map fun c => c.2.task.uuid).Nodup ∧
    ¬(s.listed.map fun c => c.2.task.socketId).Nodup :=
  scheduler.exec_reaches wellCalled
    [.init, .create (some longName) ⟨some 0, 0, ⟨true, 0⟩⟩,
      .create (some longName) ⟨some 1, 0, ⟨true, 0⟩⟩]
    (fun tr s => Event.created 0 longName ∈ tr ∧ Event.created 1 longName ∈ tr ∧
      s.listed.map Prod.fst = [1, 0] ∧ rtFindTaskByUuid s longName = none ∧
      ¬(s.listed.map fun c => c.2.task.uuid).Nodup ∧
      ¬(s.listed.map fun c => c.2.task.socketId).Nodup)
    (by decide +kernel)

end Calls

end Cyctron.Realtime.Identity
