/- Cyctron/Ws/Bind
   digest: What a bind does to the tasks, and when one that is answered as failed leaves no trace. -/

import Cyctron.Realtime.Refine
import Cyctron.Ws.Handler

set_option autoImplicit false
set_option relaxedAutoImplicit false

namespace Cyctron.Ws.Bind

open Cyctron.Base.CString Cyctron.Event.Format Cyctron.Realtime.Model Cyctron.Realtime.Tasks
open Cyctron.Realtime.Refine Cyctron.Ws.Handler
open Cyctron.Machine.LinkedList
open Cyctron.Machine.LinkedQueue (fresh_not_mem)

section Start

variable {s t : Scheduler} {p : Nat} {node : RtTaskNode} {libName : Option Bytes} {env : StartEnv}
  {rc : Int} {es : List Event} {f g : RtTaskNode → RtTaskNode}

/-- Every step of the start succeeds. -/
def StartEnv.Succeeds (env : StartEnv) : Prop :=
  env.sock.isSome = true ∧ env.listen = true ∧ env.rc = 0

instance (env : StartEnv) : Decidable (StartEnv.Succeeds env) :=
  inferInstanceAs (Decidable (_ ∧ _ ∧ _))

/-- A change of a node that leaves its name and its owner as they are. -/
def SameOwner (f : RtTaskNode → RtTaskNode) : Prop :=
  ∀ n, (f n).task.uuid = n.task.uuid ∧ (f n).task.connId = n.task.connId

private theorem sameOwner_id : SameOwner id := fun _ => ⟨rfl, rfl⟩

private theorem sameOwner_setStatus (status : RtTaskStatus) : SameOwner (setStatus status) :=
  fun _ => ⟨rfl, rfl⟩

private theorem sameOwner_setSock (k : Nat) : SameOwner (setSock k) := fun _ => ⟨rfl, rfl⟩

private theorem sameOwner_setInitialized : SameOwner setInitialized := fun _ => ⟨rfl, rfl⟩

theorem SameOwner.comp (hf : SameOwner f) (hg : SameOwner g) : SameOwner fun n => g (f n) :=
  fun n => ⟨(hg (f n)).1.trans (hf n).1, (hg (f n)).2.trans (hf n).2⟩

private theorem update_id {l : List (Nat × RtTaskNode)} : update l p id = l := by
  unfold update
  simp

/-- The scheduler `t` is `s` with the node at `p` changed, up to the sockets. -/
structure Touched (s t : Scheduler) (p : Nat) : Prop where
  sound : Sound t
  running : t.running = s.running
  listed : ∃ f, SameOwner f ∧ t.listed = update s.listed p f

theorem Touched.refl (h : Sound s) : Touched s s p := ⟨h, rfl, id, sameOwner_id, update_id.symm⟩

theorem Touched.set (h : Touched s t p) (hf : SameOwner f) : Touched s (t.set p f) p := by
  obtain ⟨g, hg, hl⟩ := h.listed
  have hset := h.sound.set (p := p) f
  refine ⟨hset.1, h.running, fun n => f (g n), hg.comp hf, ?_⟩
  rw [hset.2, hl, update_update]

theorem Touched.withSockets (h : Touched s t p) (ks : List Nat) :
    Touched s (t.withSockets ks) p := by
  have hks := h.sound.withSockets ks
  refine ⟨hks.1, h.running, ?_⟩
  rw [hks.2]
  exact h.listed

/-- Starting a task that does not listen yet succeeds when every step does. -/
private theorem start_spec (h : Sound s) (idle : node.task.status ≠ .running)
    (closed : node.nngInitialized = false)
    (hcall : rtStartTask s p node libName env = (t, rc, es)) :
    Touched s t p ∧ (rc = 0 ↔ StartEnv.Succeeds env) := by
  unfold rtStartTask at hcall
  have hclosed : ¬node.nngInitialized = true := by simp [closed]
  rw [if_neg idle, startListening, if_neg hclosed] at hcall
  unfold StartEnv.Succeeds
  have hrefl := Touched.refl (p := p) h
  cases hsock : env.sock with
  | none =>
    simp only [hsock, Bool.false_eq_true, if_false, Prod.mk.injEq] at hcall
    obtain ⟨rfl, rfl, rfl⟩ := hcall
    exact ⟨hrefl, by simp⟩
  | some k =>
    cases hlisten : env.listen with
    | false =>
      simp only [hsock, hlisten, Bool.false_eq_true, if_false, Prod.mk.injEq] at hcall
      obtain ⟨rfl, rfl, rfl⟩ := hcall
      exact ⟨hrefl.set (sameOwner_setSock k), by simp⟩
    | true =>
      have hopen := ((hrefl.set (sameOwner_setSock k)).set sameOwner_setInitialized).withSockets
        (k :: s.sockets)
      simp only [hsock, hlisten, if_true, startPlugin] at hcall
      by_cases hrc : env.rc = 0
      · rw [if_pos hrc] at hcall
        simp only [Prod.mk.injEq] at hcall
        obtain ⟨rfl, rfl, rfl⟩ := hcall
        exact ⟨hopen.set (sameOwner_setStatus .running), by simp [hrc]⟩
      · rw [if_neg hrc] at hcall
        simp only [Prod.mk.injEq] at hcall
        obtain ⟨rfl, rfl, rfl⟩ := hcall
        exact ⟨hopen.set (sameOwner_setStatus .error), by simp [hrc]⟩

end Start

section Binds

variable {s t : WsState} {connId : Nat} {req : WsCommand} {env : MessageEnv} {u : Bytes}
  {res : BindResult} {es : List Event}

/-- What a message may use fits the scheduler. -/
def MessageEnv.Fits (env : MessageEnv) (s : Scheduler) : Prop :=
  env.create.Fits s ∧ env.start.Fits s

instance (env : MessageEnv) (s : Scheduler) : Decidable (MessageEnv.Fits env s) :=
  inferInstanceAs (Decidable (_ ∧ _))

/-- The command names a task. -/
def Names (req : WsCommand) (u : Bytes) : Prop := req.uuid = some u ∧ u ≠ []

theorem names_or (req : WsCommand) :
    (req.uuid = none ∨ req.uuid = some []) ∨ ∃ u, Names req u := by
  unfold Names
  cases req.uuid with
  | none => exact Or.inl (Or.inl rfl)
  | some u =>
    cases u with
    | nil => exact Or.inl (Or.inr rfl)
    | cons c u => exact Or.inr ⟨c :: u, rfl, List.cons_ne_nil c u⟩

theorem bind_unnamed (h : req.uuid = none ∨ req.uuid = some []) :
    handleBind s connId req env = (s, .missingUuid, []) := by
  unfold handleBind
  rcases h with h | h <;> rw [h]

theorem sound_withManager (h : Sound s.sched) : Sound (withManager s).sched := by
  unfold withManager
  split
  · exact h
  · exact (init_sound h).1

/-- A bind that creates no task. -/
theorem bind_missed (named : Names req u) {r : Scheduler} {fs : List Event}
    (hcreate : rtCreateTask (withManager s).sched (some u) env.create = (r, none, fs)) :
    handleBind s connId req env = ({ withManager s with sched := r }, .notCreated, fs) := by
  obtain ⟨hu, hne⟩ := named
  cases u with
  | nil => exact absurd rfl hne
  | cons c u =>
    unfold handleBind
    rw [hu]
    dsimp only
    rw [hcreate]

/-- A bind that creates a task goes on with its start. -/
theorem bind_started (named : Names req u) {r : Scheduler} {p : Nat} {fs : List Event}
    {x : RtTaskNode} {nx : Option Nat}
    (hcreate : rtCreateTask (withManager s).sched (some u) env.create = (r, some p, fs))
    (hcell : (r.set p (setConnId connId)).store.cell p = some ⟨x, nx⟩) :
    handleBind s connId req env =
      ({ withManager s with sched := (rtStartTask (r.set p (setConnId connId)) p x
          (some (bindLib req)) env.start).1 },
        if (rtStartTask (r.set p (setConnId connId)) p x (some (bindLib req)) env.start).2.1 = 0 then
          .success else .failed,
        fs ++ (rtStartTask (r.set p (setConnId connId)) p x (some (bindLib req)) env.start).2.2) := by
  obtain ⟨hu, hne⟩ := named
  cases u with
  | nil => exact absurd rfl hne
  | cons c u =>
    unfold handleBind
    rw [hu]
    dsimp only
    rw [hcreate]
    dsimp only
    rw [hcell]

/-- A bind that names a task creates no task, or puts one in front that belongs to the connection;
it succeeds when each of its steps does. -/
theorem bind_cases (h : Sound s.sched) (named : Names req u)
    (fits : MessageEnv.Fits env (withManager s).sched)
    (hcall : handleBind s connId req env = (t, res, es)) :
    (res = .notCreated ∧ t = withManager s ∧
      (findNode (withManager s).sched u ≠ none ∨ env.create.node = none)) ∨
    ∃ p node, env.create.node = some p ∧ findNode (withManager s).sched u = none ∧
      p ∉ (withManager s).sched.listed.map Prod.fst ∧ Sound t.sched ∧
      t.gRtManager = (withManager s).gRtManager ∧
      t.sched.listed = (p, node) :: (withManager s).sched.listed ∧ node.task.connId = connId ∧
      res = if StartEnv.Succeeds env.start then .success else .failed := by
  obtain ⟨⟨r, o, fs⟩, hcreate⟩ :
    ∃ q, rtCreateTask (withManager s).sched (some u) env.create = q := ⟨_, rfl⟩
  rcases create_cases (sound_withManager h) fits.1 hcreate with ⟨rfl, rfl, rfl, hwhy⟩ |
    ⟨p, hnode, rfl, hnone, new, sound, hl, hk, hrun, rfl⟩
  · rw [bind_missed named hcreate] at hcall
    obtain ⟨rfl, rfl, rfl⟩ := by simpa only [Prod.mk.injEq] using hcall
    exact Or.inl ⟨rfl, rfl, hwhy⟩
  · have hset := sound.set (p := p) (setConnId connId)
    obtain ⟨x, hfront⟩ : ∃ node, node = setConnId connId
        (.fresh u (withManager s).sched.counter env.create.now) := ⟨_, rfl⟩
    have hlisted : (r.set p (setConnId connId)).listed = (p, x) :: (withManager s).sched.listed := by
      have hrest := update_of_not_mem (f := setConnId connId) new
      unfold update at hrest
      rw [hset.2, hl, update, List.map_cons, hrest, hfront]
      simp
    obtain ⟨nx, hcell⟩ := hset.1.cell (hlisted ▸ List.mem_cons_self)
    rw [bind_started named hcreate hcell] at hcall
    obtain ⟨⟨t', rc, fs⟩, hstart⟩ : ∃ q, rtStartTask (r.set p (setConnId connId)) p x
        (some (bindLib req)) env.start = q := ⟨_, rfl⟩
    rw [hstart] at hcall
    obtain ⟨htouched, hrc⟩ := start_spec hset.1 (by rw [hfront]; simp [setConnId, RtTaskNode.fresh])
      (by rw [hfront]; rfl) hstart
    obtain ⟨f, hf, hl'⟩ := htouched.listed
    simp only [Prod.mk.injEq] at hcall
    obtain ⟨rfl, rfl, rfl⟩ := hcall
    refine Or.inr ⟨p, f x, hnode, hnone, new, htouched.sound, rfl, ?_, ?_, ?_⟩
    · have hrest := update_of_not_mem (f := f) new
      unfold update at hrest
      rw [hl', hlisted, update, List.map_cons, hrest]
      simp
    · rw [(hf x).2, hfront]
      rfl
    · simp only [hrc]

private theorem withManager_withManager : withManager (withManager s) = withManager s := by
  have hset : (withManager s).gRtManager = true := by
    unfold withManager
    split
    · assumption
    · rfl
  conv_lhs => rw [withManager, if_pos hset]

/-- A later bind of the same name starts from the same scheduler. -/
private theorem bind_withManager (named : Names req u) :
    handleBind (withManager s) connId req env = handleBind s connId req env := by
  obtain ⟨hu, hne⟩ := named
  cases u with
  | nil => exact absurd rfl hne
  | cons c u =>
    unfold handleBind
    rw [hu]
    dsimp only
    rw [withManager_withManager]

/-- The bind gets as far as a new task. -/
def Creates (s : WsState) (u : Bytes) (env : MessageEnv) : Prop :=
  findNode (withManager s).sched u = none ∧ env.create.node ≠ none

/-- Setting the manager does not drop tasks. -/
def KeepsTasks (s : WsState) : Prop :=
  s.gRtManager = true ∨ s.sched.running = true ∨ s.sched.listed = []

/-- The list, its count and the open sockets are as they were, and the same bind would be answered
in the same way. -/
structure NoTrace (s t : WsState) (req : WsCommand) : Prop where
  listed : t.sched.listed = s.sched.listed
  count : t.sched.count = s.sched.count
  sockets : t.sched.sockets = s.sched.sockets
  later : ∀ connId env, handleBind t connId req env = handleBind s connId req env

theorem withManager_listed (h : Sound s.sched) :
    (withManager s).sched.listed = s.sched.listed ↔ KeepsTasks s := by
  unfold withManager KeepsTasks
  by_cases hm : s.gRtManager = true
  · simp [hm]
  · rw [if_neg hm, (init_sound h).2]
    by_cases hrun : s.sched.running = true
    · simp [hrun]
    · simp only [hrun, hm, Bool.false_eq_true, if_false, false_or]
      exact eq_comm

private theorem withManager_sockets : (withManager s).sched.sockets = s.sched.sockets := by
  unfold withManager rtInit
  split
  · rfl
  · split <;> rfl

private theorem withManager_store : (withManager s).sched.store = s.sched.store := by
  unfold withManager rtInit
  split
  · rfl
  · split <;> rfl

/-- A bind that is answered as failed leaves no trace exactly when it fails before a task is
created, or when no step after that fails. -/
theorem failed_bind_iff (h : Sound s.sched) (fits : MessageEnv.Fits env (withManager s).sched) :
    ((handleBind s connId req env).2.1 ≠ .success →
        NoTrace s (handleBind s connId req env).1 req) ↔
      ∀ u, Names req u → (¬Creates s u env ∧ KeepsTasks s) ∨
        (Creates s u env ∧ StartEnv.Succeeds env.start) := by
  obtain ⟨⟨t, res, es⟩, hcall⟩ : ∃ q, handleBind s connId req env = q := ⟨_, rfl⟩
  rw [hcall]
  dsimp only
  rcases names_or req with hun | ⟨u, named⟩
  · have hnone : ∀ u, ¬Names req u := by
      rintro u ⟨hu, hne⟩
      rcases hun with hun | hun
      · cases hun.symm.trans hu
      · exact hne (Option.some.inj (hun.symm.trans hu)).symm
    rw [bind_unnamed hun] at hcall
    obtain ⟨rfl, rfl, rfl⟩ := by simpa only [Prod.mk.injEq] using hcall
    exact ⟨fun _ u named => absurd named (hnone u), fun _ _ => ⟨rfl, rfl, rfl, fun _ _ => rfl⟩⟩
  · have honly : ∀ {P : Bytes → Prop}, (∀ v, Names req v → P v) ↔ P u := by
      intro P
      refine ⟨fun hall => hall u named, fun hu v hv => ?_⟩
      obtain rfl := Option.some.inj (named.1.symm.trans hv.1)
      exact hu
    rw [honly]
    unfold Creates
    rcases bind_cases h named fits hcall with ⟨rfl, rfl, hwhy⟩ |
      ⟨p, node, hnode, hnone, new, sound, _, hl, _, rfl⟩
    · have hnot : ¬(findNode (withManager s).sched u = none ∧ env.create.node ≠ none) := by
        rintro ⟨hfind, hmem⟩
        rcases hwhy with hwhy | hwhy
        · exact hwhy hfind
        · exact hmem hwhy
      constructor
      · intro hfailed
        exact Or.inl ⟨hnot, (withManager_listed h).mp (hfailed (by simp)).listed⟩
      · rintro (⟨_, kept⟩ | ⟨hcreates, _⟩) _
        · have hl := (withManager_listed h).mpr kept
          refine ⟨hl, ?_, withManager_sockets, fun _ _ => bind_withManager named⟩
          rw [(sound_withManager h).count, h.count, hl]
        · exact absurd hcreates hnot
    · have hcreates : findNode (withManager s).sched u = none ∧ env.create.node ≠ none :=
        ⟨hnone, by rw [hnode]; simp⟩
      by_cases hsucc : StartEnv.Succeeds env.start
      · rw [if_pos hsucc]
        exact ⟨fun _ => Or.inr ⟨hcreates, hsucc⟩, fun _ hres => absurd rfl hres⟩
      · rw [if_neg hsucc]
        constructor
        · intro hfailed
          have hfresh : s.sched.store.cell p = none := by
            rw [← withManager_store]
            exact fits.1 p hnode
          have hmem : p ∈ s.sched.listed.map Prod.fst := by
            rw [← (hfailed (by simp)).listed, hl]
            exact List.mem_cons_self
          exact absurd hmem (fresh_not_mem h.seg hfresh)
        · rintro (⟨hnot, _⟩ | ⟨_, hsucc'⟩)
          · exact absurd hcreates hnot
          · exact absurd hsucc' hsucc

/-- A bind whose channel cannot listen, with an empty scheduler. -/
def deafEnv : MessageEnv where
  create := ⟨some 0, 0, ⟨true, 0⟩⟩
  start := ⟨some 5, false, 0, ⟨true, 0⟩⟩
  event := ⟨true, 0⟩
  push := ⟨true, 0⟩
  ack := ⟨true, 0⟩

def bindA : WsCommand := ⟨some (ascii "bind"), some (ascii "a"), none, none⟩

theorem deaf_bind_iff : ((handleBind ⟨.initial, false⟩ 7 bindA deafEnv).2.1 ≠ .success →
    NoTrace ⟨.initial, false⟩ (handleBind ⟨.initial, false⟩ 7 bindA deafEnv).1 bindA) ↔
      ∀ u, Names bindA u → (¬Creates ⟨.initial, false⟩ u deafEnv ∧ KeepsTasks ⟨.initial, false⟩) ∨
        (Creates ⟨.initial, false⟩ u deafEnv ∧ StartEnv.Succeeds deafEnv.start) :=
  failed_bind_iff sound_initial (by decide)

/-- The bind is answered as failed, the task stays, and the next bind of the same name fails although
its steps would succeed. -/
theorem deaf_bind_stays :
    let r := handleBind ⟨.initial, false⟩ 7 bindA deafEnv
    r.2.1 = .failed ∧ r.1.sched.listed ≠ Scheduler.initial.listed ∧ r.1.sched.count = 1 ∧
      (handleBind r.1 7 bindA { deafEnv with
        create := ⟨some 1, 0, ⟨true, 0⟩⟩, start := ⟨some 5, true, 0, ⟨true, 0⟩⟩ }).2.1 = .notCreated := by
  decide +kernel

end Binds

end Cyctron.Ws.Bind
