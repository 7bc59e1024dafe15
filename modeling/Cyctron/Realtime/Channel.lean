/- Cyctron/Realtime/Channel
   digest: What a started plugin is told about its task, and on which URL the task listens. -/

import Cyctron.Json.Length
import Cyctron.Machine.History
import Cyctron.Realtime.Identity

set_option autoImplicit false
set_option relaxedAutoImplicit false

namespace Cyctron.Realtime.Channel

open Cyctron.Base.CString Cyctron.Event.Format Cyctron.Realtime.Model Cyctron.Realtime.Tasks Cyctron.Realtime.Refine
open Cyctron.Realtime.Identity (ShortName socketPath)
open Cyctron.Machine.History (Last)
open Cyctron.Machine.Labelled (Run)
open Cyctron.Machine.LinkedList
open Cyctron.Json.Text Cyctron.Json.Build Cyctron.Json.Length
open Cyctron.Json.Escape (Plain body_plain decode_of_plain decodeString_quoted)

section Record

variable {U : Bytes → Prop} {tr es : List Event} {v w : View} {p k : Nat} {u url : Bytes}
  {node n n' : RtTaskNode} {ks ks' : List Nat} {c : Nat × RtTaskNode}

/-- The events that create or free the task at an address. -/
def aboutTask (p : Nat) : Event → Prop
  | .created q _ => q = p
  | .freed q _ => q = p
  | _ => False

/-- The events that open, bind or close a socket. -/
def aboutSocket (k : Nat) : Event → Prop
  | .opened j => j = k
  | .listen j _ _ => j = k
  | .closed j => j = k
  | _ => False

/-- The task that is now at the address was created for this uuid. -/
def CreatedFor (tr : List Event) (p : Nat) (u : Bytes) : Prop := Last (aboutTask p) tr (.created p u)

/-- The socket was last heard of when it began to listen on this URL. -/
def ListensOn (tr : List Event) (k : Nat) (url : Bytes) : Prop :=
  Last (aboutSocket k) tr (.listen k url true)

/-- What a trace tells about a listed task. -/
structure Known (tr : List Event) (ks : List Nat) (c : Nat × RtTaskNode) : Prop where
  created : ∃ u, CreatedFor tr c.1 u ∧ c.2.task.uuid = u.take 63 ∧
    c.2.task.socketId = snprintf 128 (socketPath u)
  listens : c.2.nngInitialized = true →
    c.2.nngSock ∈ ks ∧ ListensOn tr c.2.nngSock (socketUrl c.2)

/-- The change leaves the names, and leaves the socket if the node still listens. -/
structure Same (n n' : RtTaskNode) : Prop where
  uuid : n'.task.uuid = n.task.uuid
  socketId : n'.task.socketId = n.task.socketId
  channel : n'.nngInitialized = true → n.nngInitialized = true ∧ n'.nngSock = n.nngSock

theorem Same.refl : Same n n := ⟨rfl, rfl, fun h => ⟨h, rfl⟩⟩

theorem Keeps.same {f : RtTaskNode → RtTaskNode} (h : Keeps f) : Same n (f n) :=
  ⟨h.uuid n, h.socketId n, fun hn => ⟨(h.initialized n).symm.trans hn, h.sock n⟩⟩

/-- The events about other tasks and other sockets leave what is known of a task. -/
theorem Known.append (h : Known tr ks (p, n)) (same : Same n n')
    (task : ∀ e ∈ es, ¬aboutTask p e)
    (socket : n.nngInitialized = true → n.nngSock ∈ ks →
      n.nngSock ∈ ks' ∧ ∀ e ∈ es, ¬aboutSocket n.nngSock e) :
    Known (tr ++ es) ks' (p, n') := by
  obtain ⟨⟨u, hu, huuid, hid⟩, listens⟩ := h
  refine ⟨⟨u, hu.append task, same.uuid.trans huuid, same.socketId.trans hid⟩, fun hn => ?_⟩
  obtain ⟨hinit, hsock⟩ := same.channel hn
  obtain ⟨hmem, hlisten⟩ := listens hinit
  obtain ⟨hmem', hother⟩ := socket hinit hmem
  have hurl : socketUrl n' = socketUrl n := by rw [socketUrl, socketUrl, same.socketId]
  dsimp only
  rw [hsock, hurl]
  exact ⟨hmem', hlisten.append hother⟩

/-- What is known of the tasks of a list, whose open sockets are their own. -/
structure Recorded (tr : List Event) (v : View) : Prop where
  nodup : v.addresses.Nodup
  known : ∀ c ∈ v.listed, Known tr v.sockets c
  apart : ∀ c ∈ v.listed, ∀ d ∈ v.listed, c.2.nngInitialized = true → d.2.nngInitialized = true →
    c.2.nngSock = d.2.nngSock → c.1 = d.1

private theorem recorded_nil (tr : List Event) (ks : List Nat) : Recorded tr ⟨[], ks⟩ :=
  ⟨List.nodup_nil, fun _ hc => absurd hc List.not_mem_nil, fun _ hc => absurd hc List.not_mem_nil⟩

/-- Tasks that were listed before and are known as before. -/
theorem Recorded.keep (h : Recorded tr v) (nodup : w.addresses.Nodup)
    (old : ∀ c ∈ w.listed, ∃ n, (c.1, n) ∈ v.listed ∧ Same n c.2 ∧ (∀ e ∈ es, ¬aboutTask c.1 e) ∧
      (n.nngInitialized = true → n.nngSock ∈ v.sockets →
        n.nngSock ∈ w.sockets ∧ ∀ e ∈ es, ¬aboutSocket n.nngSock e)) : Recorded (tr ++ es) w := by
  refine ⟨nodup, ?_, ?_⟩
  · intro c hc
    obtain ⟨n, hmem, same, task, socket⟩ := old c hc
    exact (h.known (c.1, n) hmem).append same task socket
  · intro c hc d hd hinit hinit' heq
    obtain ⟨n, hmem, same, _⟩ := old c hc
    obtain ⟨n', hmem', same', _⟩ := old d hd
    obtain ⟨hn, hsock⟩ := same.channel hinit
    obtain ⟨hn', hsock'⟩ := same'.channel hinit'
    exact h.apart (c.1, n) hmem (d.1, n') hmem' hn hn' (hsock.symm.trans (heq.trans hsock'))

/-- No socket begins to listen. -/
def Quiet (es : List Event) : Prop := ∀ k url, .listen k url true ∉ es

private theorem push_about {e : Event} (h : IsPush e) : ¬aboutTask p e ∧ ¬aboutSocket k e := by
  cases e with
  | push _ => exact ⟨id, id⟩
  | _ => exact absurd h id

/-- A removal frees its task, closes the socket on which the task listens, and opens none. -/
private theorem removal_about {ps : List Event} (pushes : Pushes ps) {e : Event}
    (he : e ∈ closeSocket node ++ ps ++ runCleanup p node ++ [.freed p node]) {q : Nat} :
    (aboutTask q e → p = q) ∧
      (aboutSocket k e → e = .closed k ∧ node.nngInitialized = true ∧ node.nngSock = k) := by
  simp only [List.mem_append, List.mem_singleton] at he
  rcases he with ((he | he) | he) | rfl
  · unfold closeSocket at he
    split at he
    · rename_i hinit
      obtain rfl := List.mem_singleton.mp he
      exact ⟨fun h => h.elim, fun h => ⟨congrArg Event.closed h, hinit, h⟩⟩
    · cases he
  · exact ⟨fun h => absurd h (push_about (k := k) (pushes e he)).1,
      fun h => absurd h (push_about (p := p) (pushes e he)).2⟩
  · rcases List.mem_append.mp he with he | he
    · obtain ⟨callback, _, rfl⟩ := List.mem_map.mp he
      exact ⟨fun h => h.elim, fun h => h.elim⟩
    · obtain ⟨d, _, rfl⟩ := List.mem_map.mp he
      exact ⟨fun h => h.elim, fun h => h.elim⟩
  · exact ⟨fun h => h, fun h => h.elim⟩

private theorem recorded_create {counter now : Nat} (h : Recorded tr v) (new : p ∉ v.addresses) :
    Recorded (tr ++ [.created p u]) { v with listed := (p, .fresh u counter now) :: v.listed } := by
  have hne : ∀ c ∈ v.listed, p ≠ c.1 := by
    rintro c hc rfl
    exact new (List.mem_map_of_mem hc)
  refine ⟨List.nodup_cons.mpr ⟨new, h.nodup⟩, ?_, ?_⟩
  · intro c hc
    rcases List.mem_cons.mp hc with rfl | hc
    · exact ⟨⟨u, Last.of_split _ [] rfl fun _ hd => absurd hd List.not_mem_nil, rfl, rfl⟩,
        fun hinit => Bool.noConfusion hinit⟩
    · refine (h.known c hc).append Same.refl ?_ fun _ hmem => ⟨hmem, ?_⟩
      · intro e he
        rw [List.mem_singleton.mp he]
        exact hne c hc
      · intro e he
        rw [List.mem_singleton.mp he]
        exact id
  · intro c hc d hd hinit hinit' heq
    rcases List.mem_cons.mp hc with rfl | hc
    · exact Bool.noConfusion hinit
    · rcases List.mem_cons.mp hd with rfl | hd
      · exact Bool.noConfusion hinit'
      · exact h.apart c hc d hd hinit hinit' heq

/-- The socket on which a task begins to listen was not open. -/
private theorem recorded_listen (h : Recorded tr v) (mem : (p, node) ∈ v.listed)
    (free : k ∉ v.sockets) :
    Recorded (tr ++ [.opened k, .listen k (socketUrl node) true])
      ⟨update v.listed p fun n => setInitialized (setSock k n), k :: v.sockets⟩ := by
  have hothers : ∀ c ∈ v.listed, c.2.nngInitialized = true → c.2.nngSock ∈ v.sockets ∧
      k ≠ c.2.nngSock := by
    intro c hc hinit
    have hopen := ((h.known c hc).listens hinit).1
    refine ⟨hopen, ?_⟩
    rintro rfl
    exact free hopen
  refine ⟨?_, ?_, ?_⟩
  · unfold View.addresses
    rw [update_addresses]
    exact h.nodup
  · intro c hc
    dsimp only at hc
    rcases mem_update hc with ⟨hc, _⟩ | ⟨n, hn, rfl⟩
    · refine (h.known c hc).append Same.refl ?_ fun hinit hmem => ⟨List.mem_cons_of_mem k hmem, ?_⟩
      · simp [aboutTask]
      · simp [aboutSocket, (hothers c hc hinit).2]
    · have hname : n = node := congrArg Prod.snd (List.inj_on_of_nodup_map h.nodup hn mem rfl)
      obtain ⟨u, hu, huuid, hid⟩ := (h.known (p, n) hn).created
      refine ⟨⟨u, hu.append (by simp [aboutTask]), huuid, hid⟩, fun _ => ⟨List.mem_cons_self, ?_⟩⟩
      rw [← hname]
      exact Last.of_split _ [Event.opened k] rfl fun _ hd => absurd hd List.not_mem_nil
  · intro c hc d hd hinit hinit' heq
    dsimp only at hc hd
    rcases mem_update hc with ⟨hc, _⟩ | ⟨n, hn, rfl⟩ <;>
      rcases mem_update hd with ⟨hd, _⟩ | ⟨m, hm, rfl⟩
    · exact h.apart c hc d hd hinit hinit' heq
    · exact absurd heq.symm (hothers c hc hinit).2
    · exact absurd heq (hothers d hd hinit').2
    · rfl

/-- An elementary step other than a socket's beginning to listen. -/
private theorem recorded_atom (h : Recorded tr v) (a : Atom U v es w) (quiet : Quiet es) :
    Recorded (tr ++ es) w := by
  cases a with
  | push hes =>
    refine h.keep h.nodup fun c hc => ⟨c.2, hc, Same.refl, ?_, fun _ hmem => ⟨hmem, ?_⟩⟩
    · exact fun e he => (push_about (k := 0) (hes e he)).1
    · exact fun e he => (push_about (p := 0) (hes e he)).2
  | load path jsonIn =>
    refine h.keep h.nodup fun c hc => ⟨c.2, hc, Same.refl, ?_, fun _ hmem => ⟨hmem, ?_⟩⟩
    · simp [aboutTask]
    · simp [aboutSocket]
  | create named new missing => exact recorded_create h new
  | @modify p f keeps =>
    refine h.keep ?_ fun c hc => ?_
    · unfold View.addresses
      rw [update_addresses]
      exact h.nodup
    · rcases mem_update hc with ⟨hc, _⟩ | ⟨n, hn, rfl⟩
      · exact ⟨c.2, hc, Same.refl, by simp, fun _ hmem => ⟨hmem, by simp⟩⟩
      · exact ⟨n, hn, Keeps.same keeps, by simp, fun _ hmem => ⟨hmem, by simp⟩⟩
  | @listen p k node url _ _ _ =>
    exact absurd (List.mem_cons_of_mem _ List.mem_cons_self) (quiet k url)
  | @deaf p k node url mem closed free =>
    have hothers : ∀ n : RtTaskNode, n.nngSock ∈ v.sockets → k ≠ n.nngSock := by
      rintro n hn rfl
      exact free hn
    refine h.keep ?_ fun c hc => ?_
    · unfold View.addresses
      rw [update_addresses]
      exact h.nodup
    · rcases mem_update hc with ⟨hc, _⟩ | ⟨n, hn, rfl⟩
      · exact ⟨c.2, hc, Same.refl, by simp [aboutTask],
          fun _ hmem => ⟨hmem, by simp [aboutSocket, hothers c.2 hmem]⟩⟩
      · have hname : n = node := congrArg Prod.snd (List.inj_on_of_nodup_map h.nodup hn mem rfl)
        refine ⟨n, hn, ⟨rfl, rfl, fun hinit => ?_⟩, by simp [aboutTask],
          fun _ hmem => ⟨hmem, by simp [aboutSocket, hothers n hmem]⟩⟩
        rw [hname] at hinit
        exact absurd hinit (by simp [setSock, closed])
  | @remove p node ps mem pushes =>
    refine h.keep (nodup_without h.nodup) fun c hc => ?_
    obtain ⟨hc, hne⟩ := mem_without.mp hc
    refine ⟨c.2, hc, Same.refl, ?_, fun hinit hopen => ?_⟩
    · intro e he habout
      exact hne ((removal_about (k := 0) pushes he).1 habout).symm
    · have hapart : node.nngInitialized = true → c.2.nngSock ≠ node.nngSock :=
        fun hnode heq => hne (h.apart c hc (p, node) mem hinit hnode heq)
      refine ⟨?_, ?_⟩
      · dsimp only [afterClose]
        split
        · rename_i hnode
          exact (List.mem_erase_of_ne (hapart hnode)).mpr hopen
        · exact hopen
      · intro e he habout
        obtain ⟨_, hnode, hsock⟩ := (removal_about (q := 0) pushes he).2 habout
        exact hapart hnode hsock.symm

private theorem recorded_atoms (h : Recorded tr v) (a : Atoms U v es w) (quiet : Quiet es) :
    Recorded (tr ++ es) w := by
  induction a with
  | refl => simpa using h
  | snoc _ a ih =>
    rw [← List.append_assoc]
    refine recorded_atom (ih ?_) a ?_
    · exact fun k url hmem => quiet k url (List.mem_append_left _ hmem)
    · exact fun k url hmem => quiet k url (List.mem_append_right _ hmem)

end Record

section Quiet

variable {es fs : List Event} {p : Nat} {node : RtTaskNode} {ps : List Event}

theorem Quiet.append (h : Quiet es) (h' : Quiet fs) : Quiet (es ++ fs) := by
  intro k url hmem
  rcases List.mem_append.mp hmem with hmem | hmem
  · exact h k url hmem
  · exact h' k url hmem

private theorem quiet_nil : Quiet [] := fun _ _ hmem => absurd hmem List.not_mem_nil

private theorem quiet_pushes (h : Pushes es) : Quiet es := fun _ _ hmem => h _ hmem

private theorem quiet_removal (p : Nat) (node : RtTaskNode) (pushes : Pushes ps) :
    Quiet (closeSocket node ++ ps ++ runCleanup p node ++ [.freed p node]) := by
  intro k url hmem
  obtain ⟨heq, _⟩ := (removal_about (k := k) (q := 0) pushes hmem).2 rfl
  cases heq

private theorem quiet_flatMap {α : Type} {l : List α} {f : α → List Event} (h : ∀ a, Quiet (f a)) :
    Quiet (l.flatMap f) := by
  intro k url hmem
  obtain ⟨a, _, ha⟩ := List.mem_flatMap.mp hmem
  exact h a k url ha

private theorem quiet_removeByConn {s t : Scheduler} {connId removed : Nat} {grow : Nat → Bool}
    {env : Nat → FormatEnv} (h : Sound s)
    (hcall : rtRemoveTasksByConn s connId grow env = (t, removed, es)) : Quiet es := by
  obtain ⟨hnodup, hmem⟩ := victims_nodup h connId grow
  obtain ⟨t', nodes, hrem, _⟩ := removeVictims_listed (U := fun _ => True) env 0 h hnodup hmem
  rw [rtRemoveTasksByConn, hrem] at hcall
  obtain ⟨_, _, rfl⟩ := by simpa only [Prod.mk.injEq] using hcall
  exact quiet_flatMap fun c => quiet_removal _ _ pushes_sendRtEvent

private theorem quiet_cleanupNode (env : Nat → FormatEnv) (c : Nat × RtTaskNode) :
    Quiet (cleanupNode env c) := by
  have hpush : Quiet (if c.2.task.status = .running then
      sendRtEvent (env c.1) "cleanup" c.2.task.uuid "stopped" else []) := by
    split
    · exact quiet_pushes pushes_sendRtEvent
    · exact quiet_nil
  have hremoval := quiet_removal c.1 c.2 pushes_nil
  rw [List.append_nil] at hremoval
  rw [cleanupNode, List.append_assoc, List.append_assoc]
  refine hpush.append ?_
  rw [← List.append_assoc]
  exact hremoval

end Quiet

section Steps

variable {s t : Scheduler} {tr es : List Event} {p : Nat} {node : RtTaskNode} {a : Action}
  {libName : Option Bytes} {env : StartEnv} {go : Bool} {rc : Int}

/-- After the first part of a start that goes on, the task listens. -/
private theorem recorded_listening (h : Recorded tr (view s)) (sound : Sound s) (fits : env.Fits s)
    (mem : (p, node) ∈ s.listed) (hcall : startListening s p node env = (t, go, es)) :
    Sound t ∧ Recorded (tr ++ es) (view t) ∧
      (go = true → ∃ n, (p, n) ∈ t.listed ∧ n.nngInitialized = true ∧ n.task = node.task) ∧
      ∀ path json, .load path json ∉ es := by
  have hrefines := listening_refines (U := fun _ => True) sound fits mem hcall
  refine ⟨hrefines.1, ?_⟩
  unfold startListening at hcall
  split at hcall
  · rename_i hinit
    simp only [Prod.mk.injEq] at hcall
    obtain ⟨rfl, rfl, rfl⟩ := hcall
    rw [List.append_nil]
    exact ⟨h, fun _ => ⟨node, mem, hinit, rfl⟩, fun _ _ => List.not_mem_nil⟩
  · split at hcall
    · simp only [Prod.mk.injEq] at hcall
      obtain ⟨rfl, rfl, rfl⟩ := hcall
      rw [List.append_nil]
      exact ⟨h, fun hgo => Bool.noConfusion hgo, fun _ _ => List.not_mem_nil⟩
    · rename_i k hk
      dsimp only at hcall
      split at hcall
      · simp only [Prod.mk.injEq] at hcall
        obtain ⟨rfl, rfl, rfl⟩ := hcall
        have hset := sound.set (p := p) (setSock k)
        have hset' := hset.1.set (p := p) setInitialized
        obtain ⟨_, hlisted⟩ := hset'.1.withSockets (k :: s.sockets)
        rw [hset'.2, hset.2, update_update] at hlisted
        rw [view_eq hlisted rfl, hlisted]
        refine ⟨recorded_listen h mem (fits k hk),
          fun _ => ⟨setInitialized (setSock k node), ?_, rfl, rfl⟩, by simp⟩
        exact List.mem_map.mpr ⟨(p, node), mem, by simp⟩
      · simp only [Prod.mk.injEq] at hcall
        obtain ⟨rfl, rfl, rfl⟩ := hcall
        refine ⟨recorded_atoms h hrefines.2 ?_, fun hgo => Bool.noConfusion hgo, by simp⟩
        simp [Quiet]

/-- The second part of a start changes the status of the task and calls the plugin once. -/
private theorem plugin_cases (hcall : startPlugin s p node libName env = (t, rc, es)) :
    ∃ status path ps, t = s.set p (setStatus status) ∧ es = .load path (startJson node) :: ps ∧
      Pushes ps := by
  unfold startPlugin at hcall
  dsimp only at hcall
  split at hcall
  · simp only [Prod.mk.injEq] at hcall
    obtain ⟨rfl, rfl, rfl⟩ := hcall
    exact ⟨_, _, _, rfl, rfl, pushes_sendRtEvent⟩
  · simp only [Prod.mk.injEq] at hcall
    obtain ⟨rfl, rfl, rfl⟩ := hcall
    exact ⟨_, _, _, rfl, rfl, pushes_nil⟩

/-- A start keeps the record, and tells a plugin about a task that listens. -/
private theorem recorded_start (h : Recorded tr (view s)) (sound : Sound s) (fits : env.Fits s)
    (mem : (p, node) ∈ s.listed) (hcall : rtStartTask s p node libName env = (t, rc, es)) :
    Recorded (tr ++ es) (view t) ∧ ∀ path json, .load path json ∈ es → json = startJson node ∧
      ∃ n, (p, n) ∈ t.listed ∧ n.nngInitialized = true ∧ n.task.uuid = node.task.uuid ∧
        n.task.socketId = node.task.socketId := by
  unfold rtStartTask at hcall
  split at hcall
  · simp only [Prod.mk.injEq] at hcall
    obtain ⟨rfl, rfl, rfl⟩ := hcall
    rw [List.append_nil]
    exact ⟨h, fun _ _ hmem => absurd hmem List.not_mem_nil⟩
  · obtain ⟨⟨s', go, es'⟩, hlisten⟩ : ∃ r, startListening s p node env = r := ⟨_, rfl⟩
    obtain ⟨sound', hrecorded, hgo, hnone⟩ := recorded_listening h sound fits mem hlisten
    rw [hlisten] at hcall
    dsimp only at hcall
    split at hcall
    · rename_i hyes
      obtain ⟨n, hn, hinit, htask⟩ := hgo hyes
      obtain ⟨⟨t', rc', fs⟩, hplugin⟩ : ∃ r, startPlugin s' p node libName env = r := ⟨_, rfl⟩
      obtain ⟨_, hatoms⟩ := plugin_refines (U := fun _ => True) sound' hplugin
      rw [hplugin] at hcall
      simp only [Prod.mk.injEq] at hcall
      obtain ⟨rfl, _, rfl⟩ := hcall
      obtain ⟨status, path, ps, ht, rfl, pushes⟩ := plugin_cases hplugin
      have hquiet : Quiet (.load path (startJson node) :: ps) := by
        intro k url hmem
        rcases List.mem_cons.mp hmem with hmem | hmem
        · cases hmem
        · exact quiet_pushes pushes k url hmem
      refine ⟨?_, fun path' json hmem => ?_⟩
      · rw [← List.append_assoc]
        exact recorded_atoms hrecorded hatoms hquiet
      · have hjson : json = startJson node := by
          rcases List.mem_append.mp hmem with hmem | hmem
          · exact absurd hmem (hnone path' json)
          · rcases List.mem_cons.mp hmem with hmem | hmem
            · exact (Event.load.inj hmem).2
            · exact absurd (pushes _ hmem) id
        refine ⟨hjson, setStatus status n, ?_, hinit, ?_, ?_⟩
        · rw [ht, (sound'.set _).2]
          exact List.mem_map.mpr ⟨(p, n), hn, by simp⟩
        · rw [← htask]
          rfl
        · rw [← htask]
          rfl
    · simp only [Prod.mk.injEq] at hcall
      obtain ⟨rfl, rfl, rfl⟩ := hcall
      exact ⟨hrecorded, fun path json hmem => absurd hmem (hnone path json)⟩

/-- Every call on listed tasks keeps the record. -/
private theorem recorded_step (sound : Sound s) (h : Recorded tr (view s)) (listed : onListed s a)
    (hstep : step s a = some (t, es)) : Recorded (tr ++ es) (view t) := by
  by_cases kept : keepsList s a
  · obtain ⟨_, hatoms⟩ := step_refines sound listed kept hstep
    cases a with
    | start p libName env =>
      simp only [step, Option.ite_none_right_eq_some, Option.map_eq_some_iff, Prod.mk.injEq] at hstep
      obtain ⟨fits, n, hcell, rfl, rfl⟩ := hstep
      exact (recorded_start h sound fits (sound.node_mem hcell listed) rfl).1
    | create uuid env =>
      refine recorded_atoms h hatoms ?_
      simp only [step, Option.ite_none_right_eq_some, Option.some.injEq, Prod.mk.injEq] at hstep
      obtain ⟨fits, rfl, rfl⟩ := hstep
      cases uuid with
      | none => exact quiet_nil
      | some u =>
        obtain ⟨⟨t, r, es⟩, hcall⟩ : ∃ r, rtCreateTask s (some u) env = r := ⟨_, rfl⟩
        rw [hcall]
        rcases create_cases sound fits hcall with ⟨_, _, rfl, _⟩ | ⟨q, _, _, _, _, _, _, _, _, rfl⟩
        · exact quiet_nil
        · intro k url hmem
          rcases List.mem_cons.mp hmem with hmem | hmem
          · cases hmem
          · exact quiet_pushes pushes_sendRtEvent k url hmem
    | stopTask p env =>
      refine recorded_atoms h hatoms ?_
      simp only [step, Option.map_eq_some_iff] at hstep
      obtain ⟨n, _, hcall⟩ := hstep
      unfold rtStopTask at hcall
      split at hcall
      · obtain ⟨_, rfl⟩ := Prod.mk.inj hcall
        exact quiet_nil
      · obtain ⟨_, rfl⟩ := Prod.mk.inj hcall
        exact quiet_pushes pushes_sendRtEvent
    | remove p env =>
      refine recorded_atoms h hatoms ?_
      simp only [step, Option.map_eq_some_iff, Prod.mk.injEq] at hstep
      obtain ⟨n, hcell, _, rfl⟩ := hstep
      obtain ⟨t', hcall, _⟩ := remove_listed sound (sound.node_mem hcell listed) env
      rw [hcall]
      exact quiet_removal _ _ pushes_sendRtEvent
    | removeByConn connId grow env =>
      refine recorded_atoms h hatoms ?_
      obtain ⟨rfl, rfl⟩ := by simpa only [step, Option.some.injEq, Prod.mk.injEq] using hstep
      exact quiet_removeByConn sound (rfl : rtRemoveTasksByConn s connId grow env = (_, _, _))
    | cleanup env =>
      refine recorded_atoms h hatoms ?_
      obtain ⟨_, rfl⟩ := Prod.mk.inj (Option.some.inj hstep)
      exact quiet_flatMap (quiet_cleanupNode env)
    | init | stop =>
      obtain ⟨_, rfl⟩ := Prod.mk.inj (Option.some.inj hstep)
      exact recorded_atoms h hatoms quiet_nil
    | setConnId p connId | setCleanup p callback =>
      simp only [step, Option.map_eq_some_iff, Prod.mk.injEq] at hstep
      obtain ⟨n, _, _, rfl⟩ := hstep
      exact recorded_atoms h hatoms quiet_nil
  · cases a with
    | init =>
      obtain ⟨rfl, rfl⟩ := Prod.mk.inj (Option.some.inj hstep)
      have hoff : s.running ≠ true := fun hr => kept (Or.inl hr)
      have hempty : (rtInit s).listed = [] := by rw [(init_sound sound).2, if_neg hoff]
      rw [view_eq hempty rfl]
      exact recorded_nil _ _
    | _ => exact absurd trivial kept

private theorem run_recorded (run : Run scheduler onListed tr s) : Sound s ∧ Recorded tr (view s) := by
  refine run.invariant (fun tr s => Sound s ∧ Recorded tr (view s))
    ⟨sound_initial, recorded_nil _ _⟩ ?_
  rintro tr s a t es ⟨sound, h⟩ listed hstep
  exact ⟨step_sound sound listed hstep, recorded_step sound h listed hstep⟩

end Steps

section Told

variable {json u url b : Bytes} {node : RtTaskNode}

/-- The text is a well-formed object of the form that a plugin expects, and its strings stand for
this uuid and this URL. -/
def Told (json u url : Bytes) : Prop :=
  ∃ v U L, IsObject json [(ascii "config", v)] ∧
    IsObject v [(ascii "uuid", U), (ascii "nng_url", L)] ∧
    decodeString U = some u ∧ decodeString L = some url

/-- The configuration as the code writes it around two strings. -/
def configText (x y : Bytes) : Bytes :=
  compact [(ascii "config", compact [(ascii "uuid", quoted x), (ascii "nng_url", quoted y)])]

private theorem configText_length (x y : Bytes) :
    (configText x y).length = x.length + y.length + 35 := by
  have hconfig : (ascii "config").length = 6 := by decide
  have huuid : (ascii "uuid").length = 4 := by decide
  have hurl : (ascii "nng_url").length = 7 := by decide
  simp only [configText, compact, joined, memberText, quoted, List.length_cons, List.length_append,
    List.length_nil, hconfig, huuid, hurl]
  omega

private theorem socketUrl_length (node : RtTaskNode) : (socketUrl node).length ≤ 255 :=
  List.length_take_le 255 _

/-- The buffer of 512 bytes holds the text. -/
private theorem startJson_text (hu : node.task.uuid.length ≤ 63) :
    startJson node = configText node.task.uuid (socketUrl node) := by
  have htext : ascii "\x7b\"config\":\x7b\"uuid\":\"" ++ node.task.uuid ++ ascii "\",\"nng_url\":\"" ++
      socketUrl node ++ ascii "\"\x7d\x7d" = configText node.task.uuid (socketUrl node) := by
    have hopen : ascii "\x7b\"config\":\x7b\"uuid\":\"" =
        123 :: 34 :: (ascii "config" ++ 34 :: 58 :: 123 :: 34 :: (ascii "uuid" ++ [34, 58, 34])) := by
      decide
    have hmid : ascii "\",\"nng_url\":\"" = 34 :: 44 :: 34 :: (ascii "nng_url" ++ [34, 58, 34]) := by
      decide
    have hclose : ascii "\"\x7d\x7d" = [34, 125, 125] := by decide
    rw [hopen, hmid, hclose]
    simp [configText, compact, joined, memberText, quoted]
  rw [startJson, htext]
  refine List.take_of_length_le ?_
  have hurl := socketUrl_length node
  rw [configText_length]
  omega

/-- A string that is a value has contents. -/
private theorem string_value {d : Nat} {v s : Bytes} (h : Derives AnyNumber .value d v)
    (hs : decodeString v = some s) : ∃ b, Body b ∧ v = quoted b ∧ decode b = s := by
  unfold decodeString at hs
  split at hs
  · rename_i hquote
    cases v with
    | nil => exact absurd hquote.2 (by simp)
    | cons c v =>
      obtain rfl := Option.some.inj hquote.1
      obtain ⟨b, hb, heq⟩ := value_string h
      refine ⟨b, hb, heq, ?_⟩
      rw [heq] at hs
      simpa [quoted] using hs
  · cases hs

private theorem told_plain {x : Bytes} (hx : Plain x) (hy : Plain url) (hu : x = u) :
    Told (configText x url) u url := by
  have hconfig : Plain (ascii "config") := by decide
  have huuid : Plain (ascii "uuid") := by decide
  have hname : Plain (ascii "nng_url") := by decide
  have hinner : Fills AnyNumber 0 [(ascii "uuid", quoted x), (ascii "nng_url", quoted url)]
      [(ascii "uuid", quoted x), (ascii "nng_url", quoted url)] :=
    .cons (body_plain huuid) (padded_quoted (body_plain hx))
      (.one (body_plain hname) (padded_quoted (body_plain hy)))
  have houter := object_compact (Fills.one (body_plain hconfig) (padded_compact hinner))
  refine ⟨_, _, _, ⟨_, houter⟩, ⟨_, object_compact hinner⟩, ?_, ?_⟩
  · rw [decodeString_quoted, decode_of_plain hx, hu]
  · rw [decodeString_quoted, decode_of_plain hy]

/-- A text of this form has room for both strings, and one without more room has its uuid as it is. -/
private theorem told_length (h : Told json u url) : u.length + url.length + 35 ≤ json.length ∧
    (json.length ≤ u.length + url.length + 35 → Plain u) := by
  obtain ⟨v, U, L, houter, hinner, hU, hL⟩ := h
  obtain ⟨d, hobject⟩ := hinner
  have huuid : (ascii "uuid").length = 4 := by decide
  have hurl : (ascii "nng_url").length = 7 := by decide
  have hconfig : (ascii "config").length = 6 := by decide
  have hfirst : lookup (ascii "uuid") [(ascii "uuid", U), (ascii "nng_url", L)] = some U := rfl
  have hsecond : lookup (ascii "nng_url") [(ascii "uuid", U), (ascii "nng_url", L)] = some L := rfl
  obtain ⟨b, hb, rfl, rfl⟩ := string_value (lookup_derives hobject hfirst) hU
  obtain ⟨b', hb', rfl, rfl⟩ := string_value (lookup_derives hobject hsecond) hL
  have hout := length_object houter
  have hin := length_object ⟨d, hobject⟩
  simp only [compact, joined, memberText, quoted, List.length_cons, List.length_append,
    List.length_nil, huuid, hurl, hconfig] at hout hin
  have hle := (length_decode hb).1
  have hle' := (length_decode hb').1
  refine ⟨by omega, fun hlength => ?_⟩
  obtain ⟨hsame, hplain⟩ := quoted_plain hb (by omega)
  rw [hsame]
  exact hplain

/-- The plugin is told the truth exactly when the uuid fits its field and needs no escape. -/
private theorem told_startJson_iff (huuid : node.task.uuid = u.take 63)
    (hid : node.task.socketId = snprintf 128 (socketPath u)) :
    Told (startJson node) u (socketUrl node) ↔ ShortName u ∧ Plain u := by
  have hlength : node.task.uuid.length = min 63 u.length := by rw [huuid, List.length_take]
  rw [startJson_text (by omega)]
  constructor
  · intro h
    obtain ⟨hroom, hplain⟩ := told_length h
    rw [configText_length] at hroom hplain
    exact ⟨by unfold ShortName; omega, hplain (by omega)⟩
  · rintro ⟨short, plain⟩
    have hname : node.task.uuid = u := huuid.trans (List.take_of_length_le short)
    have hlead : Plain (ascii "ipc://" ++ ascii "/tmp/cyctron_") := by decide
    have htail : Plain (ascii ".sock") := by decide
    have hpath : Plain (ascii "ipc://" ++ socketPath u) := by
      unfold socketPath
      intro c hc
      simp only [← List.append_assoc] at hc
      rcases List.mem_append.mp hc with hc | hc
      · rcases List.mem_append.mp hc with hc | hc
        · exact hlead c hc
        · exact plain c hc
      · exact htail c hc
    refine told_plain (hname ▸ plain) (fun c hc => ?_) hname
    have hmem := List.mem_of_mem_take hc
    rcases List.mem_append.mp hmem with hc | hc
    · exact hpath c (List.mem_append_left _ hc)
    · rw [hid] at hc
      exact hpath c (List.mem_append_right _ (List.mem_of_mem_take hc))

end Told

section Plugin

variable {s t : Scheduler} {tr es : List Event} {p : Nat} {libName : Option Bytes} {env : StartEnv}
  {path json : Bytes}

/-- A start in a run that calls a plugin leaves the task listening on the URL that the code writes. -/
private theorem start_listens (run : Run scheduler onListed tr s) (listed : p ∈ s.listed.map Prod.fst)
    (hstep : scheduler.step s (.start p libName env) = some (t, es)) (hload : .load path json ∈ es) :
    ∃ u n, CreatedFor tr p u ∧ (p, n) ∈ t.listed ∧ n.nngInitialized = true ∧
      ListensOn (tr ++ es) n.nngSock (socketUrl n) ∧ json = startJson n ∧
      n.task.uuid = u.take 63 ∧ n.task.socketId = snprintf 128 (socketPath u) := by
  obtain ⟨sound, recorded⟩ := run_recorded run
  simp only [scheduler, step, Option.ite_none_right_eq_some, Option.map_eq_some_iff,
    Prod.mk.injEq] at hstep
  obtain ⟨fits, m, hcell, rfl, rfl⟩ := hstep
  have hmem := sound.node_mem hcell listed
  obtain ⟨hrecorded, htold⟩ := recorded_start recorded sound fits hmem
    (rfl : rtStartTask s p m.val libName env = (_, _, _))
  obtain ⟨rfl, n, hn, hinit, huuid, hid⟩ := htold path json hload
  obtain ⟨u, hu, hu63, huid⟩ := (recorded.known _ hmem).created
  have hurl : socketUrl n = socketUrl m.val := by rw [socketUrl, socketUrl, hid]
  refine ⟨u, n, hu, hn, hinit, ((hrecorded.known _ hn).listens hinit).2, ?_, huuid.trans hu63,
    hid.trans huid⟩
  rw [startJson, startJson, huuid, hurl]

/-- A plugin is told the truth about its task exactly for the uuids that fit their field and need no
escape, whichever start calls it. -/
theorem plugin_told (run : Run scheduler onListed tr s) (listed : p ∈ s.listed.map Prod.fst)
    (hstep : scheduler.step s (.start p libName env) = some (t, es)) (hload : .load path json ∈ es) :
    ∃ u n, CreatedFor tr p u ∧ (p, n) ∈ t.listed ∧ n.nngInitialized = true ∧
      ListensOn (tr ++ es) n.nngSock (socketUrl n) ∧
      (Told json u (socketUrl n) ↔ ShortName u ∧ Plain u) := by
  obtain ⟨u, n, hu, hn, hinit, hlisten, rfl, huuid, hid⟩ := start_listens run listed hstep hload
  exact ⟨u, n, hu, hn, hinit, hlisten, told_startJson_iff huuid hid⟩

/-- The start of the task at the address 0 whose plugin takes the call, with the socket 5. -/
def plainStart : Action := .start 0 none ⟨some 5, true, 0, ⟨false, 0⟩⟩

/-- The task of a run with one task of this name is started and calls its plugin with the text. -/
def Calls (name json : Bytes) (tr : List Event) (s : Scheduler) : Prop :=
  tr = [.created 0 name] ∧ 0 ∈ s.listed.map Prod.fst ∧
    .load (Calldyn.Core.ffiPath (ascii "libsoket_demo")) json ∈
      ((scheduler.step s plainStart).getD (s, [])).2

instance (name json : Bytes) (tr : List Event) (s : Scheduler) : Decidable (Calls name json tr s) :=
  inferInstanceAs (Decidable (_ ∧ _ ∧ _))

private theorem calls_step {name : Bytes} (h : Calls name json tr s) :
    ∃ t es, scheduler.step s plainStart = some (t, es) ∧
      .load (Calldyn.Core.ffiPath (ascii "libsoket_demo")) json ∈ es := by
  obtain ⟨_, _, hload⟩ := h
  cases hstep : scheduler.step s plainStart with
  | none =>
    rw [hstep] at hload
    exact absurd hload List.not_mem_nil
  | some r =>
    rw [hstep] at hload
    exact ⟨r.1, r.2, rfl, hload⟩

private theorem created_name {name u : Bytes} (h : CreatedFor [.created 0 name] 0 u) : u = name := by
  have hcreated : CreatedFor [.created 0 name] 0 name :=
    Last.of_split [] [] rfl fun _ hd => absurd hd List.not_mem_nil
  exact (Event.created.inj (h.unique hcreated)).2

/-- The plugin of a task named "a" is told so. -/
theorem a_told : ∃ tr s t es path json n, Run scheduler onListed tr s ∧
    scheduler.step s plainStart = some (t, es) ∧ .load path json ∈ es ∧
    CreatedFor tr 0 (ascii "a") ∧ (0, n) ∈ t.listed ∧ ListensOn (tr ++ es) n.nngSock (socketUrl n) ∧
    Told json (ascii "a") (socketUrl n) := by
  obtain ⟨tr, s, run, hcalls⟩ := scheduler.exec_reaches onListed
    [.init, .create (some (ascii "a")) ⟨some 0, 0, ⟨false, 0⟩⟩]
    (Calls (ascii "a") (configText (ascii "a") (ascii "ipc:///tmp/cyctron_a.sock")))
    (by decide +kernel)
  obtain ⟨t, es, hstep, hload⟩ := calls_step hcalls
  obtain ⟨rfl, hlisted, _⟩ := hcalls
  obtain ⟨u, n, hu, hn, _, hlisten, htold⟩ := plugin_told run hlisted hstep hload
  obtain rfl := created_name hu
  exact ⟨_, s, t, es, _, _, n, run, hstep, hload, hu, hn, hlisten, htold.mpr (by decide)⟩

/-- The plugin of a task whose name has a quote gets a text that is not of the form. -/
theorem quote_not_told : ∃ tr s t es path json n, Run scheduler onListed tr s ∧
    scheduler.step s plainStart = some (t, es) ∧ .load path json ∈ es ∧
    CreatedFor tr 0 (ascii "a\"b") ∧ (0, n) ∈ t.listed ∧
    ListensOn (tr ++ es) n.nngSock (socketUrl n) ∧ ¬Told json (ascii "a\"b") (socketUrl n) := by
  obtain ⟨tr, s, run, hcalls⟩ := scheduler.exec_reaches onListed
    [.init, .create (some (ascii "a\"b")) ⟨some 0, 0, ⟨false, 0⟩⟩]
    (Calls (ascii "a\"b") (configText (ascii "a\"b") (ascii "ipc:///tmp/cyctron_a\"b.sock")))
    (by decide +kernel)
  obtain ⟨t, es, hstep, hload⟩ := calls_step hcalls
  obtain ⟨rfl, hlisted, _⟩ := hcalls
  obtain ⟨u, n, hu, hn, _, hlisten, hjson, huuid, hid⟩ := start_listens run hlisted hstep hload
  obtain rfl := created_name hu
  refine ⟨_, s, t, es, _, _, n, run, hstep, hload, hu, hn, hlisten, ?_⟩
  rw [hjson, told_startJson_iff huuid hid]
  decide

end Plugin

end Cyctron.Realtime.Channel
