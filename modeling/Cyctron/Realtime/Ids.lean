/- Cyctron/Realtime/Ids
   digest: The ids of gen_id, for any interleaving of its calls, and the ids of the tasks. -/

import Cyctron.Machine.Tickets
import Cyctron.Mongoose.Decimal
import Cyctron.Realtime.Model

set_option autoImplicit false
set_option relaxedAutoImplicit false

namespace Cyctron.Realtime.Ids

open Cyctron.Base.CString Cyctron.Realtime.Model
open Cyctron.Event.Format (FormatEnv)
open Cyctron.Json.Build (decimal_digits decimal_length)
open Cyctron.Mongoose.Decimal (decimal_injective)
open Cyctron.Machine.Labelled (System Path Run anyStep)
open Cyctron.Machine.LinkedList (unlink setNext)
open Cyctron.Machine.LinkedQueue (Store cell_cons)
open Cyctron.Machine.Tickets

universe u

/-- The text that `gen_id` prints: `time_t` is a signed `long`, and the cast makes it unsigned. -/
def idText (number : UInt64) (clock : Int64) : Bytes :=
  ascii "task_" ++ decimal clock.toUInt64.toNat ++ ascii "_" ++ decimal number.toNat

/-- Where a thread is in `gen_id`. -/
inductive Place
  | outside
  | counted (number : UInt64)
  | clocked (number : UInt64) (clock : Int64)

/-- The number that a thread has taken from the counter and not printed yet. -/
def Place.number : Place → Option UInt64
  | .outside => none
  | .counted n => some n
  | .clocked n _ => some n

/-- A call that is over: what it took, what `time` gave to it, and what it left in the field. -/
structure Issue where
  number : UInt64
  clock : Int64
  id : Bytes

inductive IdEvent
  | begun (number : UInt64)
  | issued (i : Issue)

/-- The three parts of `gen_id` that can be interleaved: the atomic addition, `time` and
`snprintf`. -/
inductive IdAction (κ : Type u)
  | fetchAndAdd (k : κ)
  | time (k : κ) (clock : Int64)
  | snprintf (k : κ)

/-- `g_counter` and the threads. -/
structure Generator (κ : Type u) where
  gCounter : UInt64
  threads : κ → Place

variable {κ : Type u} [DecidableEq κ]

def Generator.move (s : Generator κ) (k : κ) (p : Place) : Generator κ :=
  { s with threads := Function.update s.threads k p }

def genIdStep (s : Generator κ) : IdAction κ → Option (Generator κ × List IdEvent)
  | .fetchAndAdd k =>
    match s.threads k with
    | .outside =>
      let n := s.gCounter
      some ({ s with gCounter := n + 1 }.move k (.counted n), [.begun n])
    | _ => none
  | .time k clock =>
    match s.threads k with
    | .counted n => some (s.move k (.clocked n clock), [])
    | _ => none
  | .snprintf k =>
    match s.threads k with
    | .clocked n clock =>
      some (s.move k .outside, [.issued ⟨n, clock, genId n.toNat clock.toUInt64.toNat⟩])
    | _ => none

/-- Any number of threads that call `gen_id`, when the counter stands at `first`. -/
def generator (κ : Type u) [DecidableEq κ] (first : UInt64) :
    System (Generator κ) (IdAction κ) IdEvent :=
  ⟨⟨first, fun _ => .outside⟩, genIdStep⟩

def IdEvent.number : IdEvent → Option UInt64
  | .begun n => some n
  | .issued _ => none

def IdEvent.issue : IdEvent → Option Issue
  | .begun _ => none
  | .issued i => some i

/-- The numbers of the calls that have begun. -/
def begun (tr : List IdEvent) : List UInt64 := tr.filterMap IdEvent.number

/-- The calls that are over. -/
def issues (tr : List IdEvent) : List Issue := tr.filterMap IdEvent.issue

section Texts

variable {n n' : UInt64} {c c' : Int64}

private theorem underscore_not_digit (n : Nat) : 95 ∉ decimal n := by
  intro h
  exact absurd ((decimal_digits n).2 95 h) (by decide)

/-- A text gives back the number and the clock of its call. -/
private theorem idText_injective (h : idText n c = idText n' c') : n = n' ∧ c = c' := by
  unfold idText at h
  rw [List.append_assoc, List.append_assoc, List.append_assoc, List.append_assoc] at h
  have hrest : decimal c.toUInt64.toNat ++ 95 :: decimal n.toNat =
      decimal c'.toUInt64.toNat ++ 95 :: decimal n'.toNat := List.append_cancel_left h
  obtain ⟨hclock, _, hnumber⟩ := (List.append_cons_inj_of_notMem (underscore_not_digit _)
    (underscore_not_digit _)).mp hrest
  have hcast : c.toUInt64 = c'.toUInt64 := UInt64.toNat_inj.mp (decimal_injective hclock)
  refine ⟨UInt64.toNat_inj.mp (decimal_injective hnumber), ?_⟩
  rw [← Int64.toInt64_toUInt64 c, hcast, Int64.toInt64_toUInt64]

private theorem decimal_uint64 (n : UInt64) : (decimal n.toNat).length ≤ 20 := by
  refine decimal_length (Nat.lt_trans n.toNat_lt ?_) (by decide)
  decide

/-- The longest text takes 46 bytes of the field. -/
private theorem idText_length (n : UInt64) (c : Int64) : (idText n c).length ≤ 46 := by
  have hnumber := decimal_uint64 n
  have hclock := decimal_uint64 c.toUInt64
  have hlead : (ascii "task_").length = 5 := by decide
  have hjoin : (ascii "_").length = 1 := by decide
  rw [idText, List.length_append, List.length_append, List.length_append, hlead, hjoin]
  omega

private theorem genId_whole (n : UInt64) (c : Int64) : genId n.toNat c.toUInt64.toNat = idText n c :=
  snprintf_fits (Nat.lt_of_le_of_lt (idText_length n c) (by decide))

end Texts

section Calls

variable {first : UInt64} {s t : Generator κ} {a : IdAction κ} {es tr tr' : List IdEvent} {k : Nat}

/-- What the counter shows after `k` additions. -/
def countFrom (first : UInt64) (k : Nat) : UInt64 := first + UInt64.ofNat k

private theorem countFrom_succ : countFrom first (k + 1) = countFrom first k + 1 := by
  rw [countFrom, UInt64.ofNat_add, ← UInt64.add_assoc]
  rfl

/-- The counter comes back to a number after `2 ^ 64` additions only. -/
private theorem countFrom_apart : Set.InjOn (countFrom first) (Set.Iio (2 ^ 64)) := by
  intro i hi j hj h
  have hcast := congrArg UInt64.toNat ((UInt64.add_right_inj first).mp h)
  rwa [UInt64.toNat_ofNat', UInt64.toNat_ofNat', Nat.mod_eq_of_lt hi, Nat.mod_eq_of_lt hj] at hcast

private theorem begun_append : begun (tr ++ tr') = begun tr ++ begun tr' := List.filterMap_append

private theorem issues_append : issues (tr ++ tr') = issues tr ++ issues tr' := List.filterMap_append

/-- A thread begins a call, reads the clock in it, or prints its id. -/
private theorem genIdStep_cases (h : genIdStep s a = some (t, es)) :
    (∃ k, s.threads k = .outside ∧
      t = { s with gCounter := s.gCounter + 1 }.move k (.counted s.gCounter) ∧
      begun es = [s.gCounter] ∧ issues es = []) ∨
    (∃ k n c, s.threads k = .counted n ∧ t = s.move k (.clocked n c) ∧ begun es = [] ∧
      issues es = []) ∨
    ∃ k n c, s.threads k = .clocked n c ∧ t = s.move k .outside ∧ begun es = [] ∧
      issues es = [⟨n, c, idText n c⟩] := by
  cases a with
  | fetchAndAdd k =>
    simp only [genIdStep] at h
    split at h
    · rename_i hk
      obtain ⟨rfl, rfl⟩ := Prod.mk.inj (Option.some.inj h)
      exact Or.inl ⟨k, hk, rfl, rfl, rfl⟩
    · cases h
  | time k c =>
    simp only [genIdStep] at h
    split at h
    · rename_i n hk
      obtain ⟨rfl, rfl⟩ := Prod.mk.inj (Option.some.inj h)
      exact Or.inr (Or.inl ⟨k, n, c, hk, rfl, rfl, rfl⟩)
    · cases h
  | snprintf k =>
    simp only [genIdStep] at h
    split at h
    · rename_i n c hk
      obtain ⟨rfl, rfl⟩ := Prod.mk.inj (Option.some.inj h)
      rw [genId_whole]
      exact Or.inr (Or.inr ⟨k, n, c, hk, rfl, rfl, rfl⟩)
    · cases h

/-- The counter has given the numbers from its first one on. -/
def Counted (first : UInt64) (tr : List IdEvent) (s : Generator κ) : Prop :=
  s.gCounter = countFrom first (begun tr).length ∧
    begun tr = dispensed (countFrom first) (begun tr).length

private theorem run_counted (run : Run (generator κ first) anyStep tr s) : Counted first tr s := by
  refine run.invariant (Counted first) ⟨(UInt64.add_zero first).symm, rfl⟩ ?_
  rintro tr s a t es ⟨hcounter, hbegun⟩ _ hstep
  unfold Counted
  rw [begun_append]
  rcases genIdStep_cases hstep with ⟨k, _, rfl, hone, _⟩ | ⟨k, n, c, _, rfl, hnone, _⟩ |
    ⟨k, n, c, _, rfl, hnone, _⟩
  · rw [hone, List.length_append, List.length_singleton, dispensed_succ, ← hbegun, countFrom_succ,
      ← hcounter]
    exact ⟨rfl, rfl⟩
  · rw [hnone, List.append_nil]
    exact ⟨hcounter, hbegun⟩
  · rw [hnone, List.append_nil]
    exact ⟨hcounter, hbegun⟩

/-- Until the counter comes round, each number is with one thread or in one id. -/
private theorem run_accounted (run : Run (generator κ first) anyStep tr s)
    (few : (begun tr).length ≤ 2 ^ 64) :
    Accounted Place.number s.threads (begun tr) ((issues tr).map Issue.number) := by
  refine run.invariant_of (Counted first) (fun tr s => (begun tr).length ≤ 2 ^ 64 →
    Accounted Place.number s.threads (begun tr) ((issues tr).map Issue.number))
    (fun _ _ run => run_counted run) (fun _ => accounted_initial fun _ => rfl) ?_ few
  rintro tr s a t es ⟨hcounter, hbegun⟩ ih _ hstep few
  rw [begun_append, issues_append, List.map_append]
  rw [begun_append, List.length_append] at few
  have before := ih (Nat.le_of_add_right_le few)
  rcases genIdStep_cases hstep with ⟨k, _, rfl, hone, hnone⟩ | ⟨k, n, c, hk, rfl, hbegin, hissue⟩ |
    ⟨k, n, c, hk, rfl, hbegin, hissue⟩
  · have hnew : s.gCounter ∉ begun tr := by
      rw [hone] at few
      rw [hcounter, hbegun, length_dispensed]
      exact ticket_new countFrom_apart few
    rw [hone, hnone, List.map_nil, List.append_nil]
    exact before.take hnew rfl
  · rw [hbegin, hissue, List.map_nil, List.append_nil, List.append_nil]
    exact before.move (by rw [hk]; rfl)
  · rw [hbegin, hissue, List.append_nil]
    exact before.spend (by rw [hk]; rfl) rfl

/-- A call leaves its whole text in the field of 64 bytes. -/
private theorem run_whole (run : Run (generator κ first) anyStep tr s) :
    ∀ i ∈ issues tr, i.id = idText i.number i.clock ∧ i.id.length < 64 := by
  refine run.invariant
    (fun tr _ => ∀ i ∈ issues tr, i.id = idText i.number i.clock ∧ i.id.length < 64)
    (fun _ h => absurd h List.not_mem_nil) ?_
  intro tr s a t es ih _ hstep i hi
  rw [issues_append] at hi
  rcases List.mem_append.mp hi with hi | hi
  · exact ih i hi
  · rcases genIdStep_cases hstep with ⟨_, _, _, _, hnone⟩ | ⟨_, _, _, _, _, _, hnone⟩ |
      ⟨k, n, c, _, _, _, hissue⟩
    · rw [hnone] at hi
      cases hi
    · rw [hnone] at hi
      cases hi
    · rw [hissue] at hi
      rw [List.mem_singleton.mp hi]
      exact ⟨rfl, Nat.lt_of_le_of_lt (idText_length n c) (by decide)⟩

/-- Calls with the same id have the same number, so they are the same call. -/
private theorem run_apart (run : Run (generator κ first) anyStep tr s)
    (few : (begun tr).length ≤ 2 ^ 64) :
    ((issues tr).map Issue.id).Nodup := by
  have hnumbers := (run_accounted run few).once
  refine List.Nodup.map_on ?_ (List.Nodup.of_map _ hnumbers)
  intro i hi j hj h
  rw [(run_whole run i hi).1, (run_whole run j hj).1] at h
  exact List.inj_on_of_nodup_map hnumbers hi hj (idText_injective h).1

/-- The ids of fewer than `2 ^ 64` calls are pairwise different, whatever the clock shows, and none is
cut in its field. -/
theorem ids_unique (run : Run (generator κ first) anyStep tr s) (few : (begun tr).length < 2 ^ 64) :
    ((issues tr).map Issue.id).Nodup ∧
    ∀ i ∈ issues tr, i.id = idText i.number i.clock ∧ i.id.length < 64 :=
  ⟨run_apart run (Nat.le_of_lt few), run_whole run⟩

/-- A call is overtaken by another one, which reads an earlier time. -/
theorem ids_unique_overtaken : ∃ tr s, Run (generator Bool 0) anyStep tr s ∧
    (issues tr).map Issue.id = [ascii "task_99_1", ascii "task_100_0"] ∧
    ((issues tr).map Issue.id).Nodup ∧
    ∀ i ∈ issues tr, i.id = idText i.number i.clock ∧ i.id.length < 64 := by
  obtain ⟨tr, s, run, hids, few⟩ := (generator Bool 0).exec_reaches anyStep
    [.fetchAndAdd false, .fetchAndAdd true, .time false 100, .time true 99, .snprintf true,
      .snprintf false]
    (fun tr _ => (issues tr).map Issue.id = [ascii "task_99_1", ascii "task_100_0"] ∧
      (begun tr).length < 2 ^ 64)
    (by decide +kernel)
  exact ⟨tr, s, run, hids, ids_unique run few⟩

end Calls

/-- The ids of the tasks in memory. -/
def taskIds (s : Scheduler) : List Bytes := s.store.map fun c => c.2.val.task.taskId

/-- The id that is read through the pointer that `rt_create_task` returns. -/
def createdId (s : Scheduler) (uuid : Option Bytes) (env : CreateEnv) : Option Bytes :=
  let r := rtCreateTask s uuid env
  r.2.1.bind fun p => (r.1.store.cell p).map fun n => n.val.task.taskId

/-- The ids of the created tasks, the newest one first. -/
def record (s : Scheduler) (ids : List Bytes) : Action → List Bytes
  | .create uuid env => (createdId s uuid env).toList ++ ids
  | _ => ids

/-- The scheduler, with the ids of its tasks written down beside it. -/
def recorded : System (Scheduler × List Bytes) Action Event where
  initial := (.initial, [])
  step x a := (Model.step x.1 a).map fun r => ((r.1, record x.1 x.2 a), r.2)

/-- The clock of a call fits a `time_t` and is not negative. -/
def timely (_ : Scheduler × List Bytes) : Action → Prop
  | .create _ env => env.now < 2 ^ 63
  | _ => True

section Others

variable {s t u : Scheduler} {p : Nat} {node : RtTaskNode} {a : Action} {es : List Event}

/-- A call that makes no task: it takes no number, and writes no id. -/
structure Idle (s t : Scheduler) : Prop where
  counter : t.counter = s.counter
  ids : (taskIds t).Sublist (taskIds s)

theorem Idle.refl : Idle s s := ⟨rfl, List.Sublist.refl _⟩

theorem Idle.trans (h : Idle s t) (h' : Idle t u) : Idle s u :=
  ⟨h'.counter.trans h.counter, h'.ids.trans h.ids⟩

/-- A change of a node that leaves its id. -/
private theorem idle_set {f : RtTaskNode → RtTaskNode}
    (keeps : ∀ n, (f n).task.taskId = n.task.taskId) :
    Idle s (s.set p f) := by
  have hids : taskIds (s.set p f) = taskIds s := by
    rw [taskIds, Scheduler.set, Machine.LinkedList.modify, List.map_map]
    refine List.map_congr_left fun c _ => ?_
    by_cases hc : c.1 = p
    · simp [hc, keeps]
    · simp [hc]
  exact ⟨rfl, hids ▸ List.Sublist.refl _⟩

private theorem idle_listening (env : StartEnv) : Idle s (startListening s p node env).1 := by
  unfold startListening
  split
  · exact .refl
  · split
    · exact .refl
    · rename_i k _
      have hsock : Idle s (s.set p (setSock k)) := idle_set fun _ => rfl
      dsimp only
      split
      · have hboth := hsock.trans (idle_set (p := p) (f := setInitialized) fun _ => rfl)
        exact ⟨hboth.counter, hboth.ids⟩
      · exact hsock

private theorem idle_plugin (libName : Option Bytes) (env : StartEnv) :
    Idle s (startPlugin s p node libName env).1 := by
  unfold startPlugin
  dsimp only
  split
  · exact idle_set fun _ => rfl
  · exact idle_set fun _ => rfl

private theorem idle_start (libName : Option Bytes) (env : StartEnv) :
    Idle s (rtStartTask s p node libName env).1 := by
  unfold rtStartTask
  split
  · exact .refl
  · dsimp only
    split
    · exact (idle_listening env).trans (idle_plugin libName env)
    · exact idle_listening env

private theorem idle_stop (env : FormatEnv) : Idle s (rtStopTask s p node env).1 := by
  unfold rtStopTask
  split
  · exact .refl
  · exact idle_set fun _ => rfl

/-- Taking a node off the list moves links only. -/
private theorem unlink_ids {head : Option Nat} {st : Store RtTaskNode}
    (h : unlink s.store s.tasks p = some (head, st)) :
    (st.map fun c => c.2.val.task.taskId) = taskIds s := by
  obtain ⟨prev, _, h⟩ := Option.bind_eq_some_iff.mp h
  obtain ⟨n, _, h⟩ := Option.map_eq_some_iff.mp h
  cases prev with
  | none =>
    obtain ⟨_, rfl⟩ := Prod.mk.inj h
    rfl
  | some q =>
    obtain ⟨_, rfl⟩ := Prod.mk.inj h
    rw [setNext, List.map_map]
    refine List.map_congr_left fun c _ => ?_
    by_cases hc : c.1 = q
    · simp [hc]
    · simp [hc]

private theorem idle_remove (env : FormatEnv) : Idle s (rtRemoveTask s p node env).1 := by
  unfold rtRemoveTask
  split
  · exact .refl
  · rename_i tasks store hunlink
    refine ⟨rfl, ?_⟩
    rw [← unlink_ids hunlink]
    exact List.filter_sublist.map _

private theorem idle_removeVictims (env : Nat → FormatEnv) (ps : List Nat) (removed : Nat) :
    Idle s (removeVictims env ps s removed).1 := by
  induction ps generalizing s removed with
  | nil => exact .refl
  | cons p ps ih =>
    unfold removeVictims
    split
    · exact ih removed
    · exact (idle_remove (env p)).trans (ih _)

private theorem idle_cleanup (env : Nat → FormatEnv) : Idle s (rtCleanup s env).1 :=
  ⟨rfl, List.filter_sublist.map _⟩

/-- No call but a creation takes a number or writes an id. -/
private theorem idle_step (hstep : Model.step s a = some (t, es)) (ids : List Bytes)
    (other : ∀ uuid env, a ≠ .create uuid env) : Idle s t ∧ record s ids a = ids := by
  cases a with
  | create uuid env => exact absurd rfl (other uuid env)
  | init =>
    obtain ⟨rfl, _⟩ := Prod.mk.inj (Option.some.inj hstep)
    refine ⟨?_, rfl⟩
    unfold rtInit
    split
    · exact .refl
    · exact ⟨rfl, List.Sublist.refl _⟩
  | start p libName env =>
    simp only [Model.step, Option.ite_none_right_eq_some, Option.map_eq_some_iff,
      Prod.mk.injEq] at hstep
    obtain ⟨_, n, _, rfl, _⟩ := hstep
    exact ⟨idle_start libName env, rfl⟩
  | stopTask p env =>
    obtain ⟨n, _, hcall⟩ := Option.map_eq_some_iff.mp hstep
    have hidle : Idle s (rtStopTask s p n.val env).1 := idle_stop env
    rw [hcall] at hidle
    exact ⟨hidle, rfl⟩
  | remove p env =>
    obtain ⟨n, _, hcall⟩ := Option.map_eq_some_iff.mp hstep
    obtain ⟨rfl, _⟩ := Prod.mk.inj hcall
    exact ⟨idle_remove env, rfl⟩
  | removeByConn connId grow env =>
    obtain ⟨rfl, _⟩ := Prod.mk.inj (Option.some.inj hstep)
    exact ⟨idle_removeVictims env _ 0, rfl⟩
  | stop =>
    obtain ⟨rfl, _⟩ := Prod.mk.inj (Option.some.inj hstep)
    exact ⟨⟨rfl, List.Sublist.refl _⟩, rfl⟩
  | cleanup env =>
    have hidle : Idle s (rtCleanup s env).1 := idle_cleanup env
    rw [Option.some.inj hstep] at hidle
    exact ⟨hidle, rfl⟩
  | setConnId p connId =>
    obtain ⟨n, _, hcall⟩ := Option.map_eq_some_iff.mp hstep
    obtain ⟨rfl, _⟩ := Prod.mk.inj hcall
    exact ⟨idle_set fun _ => rfl, rfl⟩
  | setCleanup p callback =>
    obtain ⟨n, _, hcall⟩ := Option.map_eq_some_iff.mp hstep
    obtain ⟨rfl, _⟩ := Prod.mk.inj hcall
    exact ⟨idle_set fun _ => rfl, rfl⟩

end Others

section Tasks

variable {s t : Scheduler} {uuid : Option Bytes} {env : CreateEnv} {x y : Scheduler × List Bytes}
  {ids : List Bytes} {tr es : List Event}

/-- A creation fails and changes nothing, or takes one number and writes the id of `gen_id`. -/
private theorem create_takes (s : Scheduler) (uuid : Option Bytes) (env : CreateEnv) :
    ((rtCreateTask s uuid env).1 = s ∧ createdId s uuid env = none) ∨
    ((rtCreateTask s uuid env).1.counter = (s.counter + 1) % 2 ^ 64 ∧
      createdId s uuid env = some (genId s.counter env.now) ∧
      taskIds (rtCreateTask s uuid env).1 = genId s.counter env.now :: taskIds s) := by
  unfold createdId rtCreateTask
  cases uuid with
  | none => exact Or.inl ⟨rfl, rfl⟩
  | some u =>
    dsimp only
    by_cases found : (findNode s u).isSome = true
    · rw [if_pos found]
      exact Or.inl ⟨rfl, rfl⟩
    · rw [if_neg found]
      cases env.node with
      | none => exact Or.inl ⟨rfl, rfl⟩
      | some p =>
        refine Or.inr ⟨rfl, ?_, rfl⟩
        dsimp only
        rw [Option.bind_some, cell_cons, if_pos rfl]
        rfl

/-- One thread goes through `gen_id` while the others stay where they are. -/
private theorem call_path {first n : UInt64} {threads : κ → Place} {k : κ} (c : Int64)
    (hk : threads k = .outside) :
    Path (generator κ first) anyStep ⟨n, threads⟩
      [.begun n, .issued ⟨n, c, genId n.toNat c.toUInt64.toNat⟩] ⟨n + 1, threads⟩ := by
  have hadd : (generator κ first).step ⟨n, threads⟩ (.fetchAndAdd k) =
      some (⟨n + 1, Function.update threads k (.counted n)⟩, [.begun n]) := by
    simp only [generator, genIdStep, hk, Generator.move]
  have htime : (generator κ first).step ⟨n + 1, Function.update threads k (.counted n)⟩ (.time k c) =
      some (⟨n + 1, Function.update threads k (.clocked n c)⟩, []) := by
    simp only [generator, genIdStep, Function.update_self, Generator.move, Function.update_idem]
  have hprint : (generator κ first).step ⟨n + 1, Function.update threads k (.clocked n c)⟩
      (.snprintf k) =
      some (⟨n + 1, threads⟩, [.issued ⟨n, c, genId n.toNat c.toUInt64.toNat⟩]) := by
    simp only [generator, genIdStep, Function.update_self, Generator.move, Function.update_idem]
    rw [← hk, Function.update_eq_self]
  exact ((Path.single trivial hadd).trans (Path.single trivial htime)).trans
    (Path.single trivial hprint)

/-- The tasks took their ids from one thread that called `gen_id`. -/
structure Served (x : Scheduler × List Bytes) (tr : List IdEvent) : Prop where
  run : Run (generator Unit 0) anyStep tr ⟨UInt64.ofNat x.1.counter, fun _ => .outside⟩
  counter : x.1.counter < 2 ^ 64
  begun : (begun tr).length = x.2.length
  issued : (issues tr).map Issue.id = x.2.reverse
  written : (taskIds x.1).Sublist x.2

private theorem served_create {tr : List IdEvent} (h : Served (s, ids) tr) (fits : env.now < 2 ^ 63) :
    ∃ tr', Served ((rtCreateTask s uuid env).1, (createdId s uuid env).toList ++ ids) tr' := by
  rcases create_takes s uuid env with ⟨hs, hid⟩ | ⟨hcounter, hid, hids⟩
  · rw [hs, hid]
    exact ⟨tr, h⟩
  · have hnumber : (UInt64.ofNat s.counter).toNat = s.counter := by
      rw [UInt64.toNat_ofNat', Nat.mod_eq_of_lt h.counter]
    have hclock : (UInt64.ofNat env.now).toInt64.toUInt64.toNat = env.now := by
      rw [UInt64.toUInt64_toInt64, UInt64.toNat_ofNat', Nat.mod_eq_of_lt (by omega)]
    have hnext : UInt64.ofNat (rtCreateTask s uuid env).1.counter = UInt64.ofNat s.counter + 1 := by
      rw [hcounter, UInt64.ofNat_mod_size, UInt64.ofNat_add]
      rfl
    have hcall := h.run.trans (call_path (κ := Unit) (k := ()) (UInt64.ofNat env.now).toInt64 rfl)
    rw [hnumber, hclock, ← hnext] at hcall
    rw [hid]
    refine ⟨_, hcall, ?_, ?_, ?_, ?_⟩
    · rw [hcounter]
      exact Nat.mod_lt _ (by decide)
    · rw [begun_append, List.length_append, h.begun, Option.toList_some, List.length_append,
        Nat.add_comm]
      rfl
    · rw [issues_append, List.map_append, h.issued, Option.toList_some, List.reverse_append]
      rfl
    · rw [hids]
      exact h.written.cons_cons _

private theorem served_idle {tr : List IdEvent} (h : Served (s, ids) tr) (idle : Idle s t) :
    Served (t, ids) tr where
  run := by
    rw [idle.counter]
    exact h.run
  counter := by
    rw [idle.counter]
    exact h.counter
  begun := h.begun
  issued := h.issued
  written := idle.ids.trans h.written

private theorem run_served (run : Run recorded timely tr x) : ∃ tr', Served x tr' := by
  refine run.state_invariant (fun x => ∃ tr', Served x tr')
    ⟨[], .refl, by decide, rfl, rfl, List.Sublist.refl _⟩ ?_
  rintro ⟨s, ids⟩ a y es ⟨tr', h⟩ hok hstep
  obtain ⟨⟨t, fs⟩, hcall, heq⟩ := Option.map_eq_some_iff.mp hstep
  obtain ⟨rfl, rfl⟩ := Prod.mk.inj heq
  have hidle : (∀ uuid env, a ≠ .create uuid env) → ∃ tr', Served (t, record s ids a) tr' := by
    intro other
    obtain ⟨idle, hsame⟩ := idle_step hcall ids other
    rw [hsame]
    exact ⟨tr', served_idle h idle⟩
  cases a with
  | create uuid env =>
    obtain ⟨_, hcreate⟩ := Option.ite_none_right_eq_some.mp hcall
    obtain ⟨rfl, _⟩ := Prod.mk.inj (Option.some.inj hcreate)
    exact served_create h hok
  | _ => exact hidle fun _ _ heq => by cases heq

/-- While fewer than `2 ^ 64` tasks are created, no task is given the id of another one, be it freed or
not; the ids stand whole in their fields, and those of the tasks in memory are among them. -/
theorem task_ids_apart (run : Run recorded timely tr (s, ids)) (few : ids.length < 2 ^ 64) :
    ids.Nodup ∧ (∀ id ∈ ids, ∃ n c, id = idText n c ∧ id.length < 64) ∧ (taskIds s).Sublist ids := by
  obtain ⟨tr', h⟩ := run_served run
  have hnodup := run_apart h.run (Nat.le_of_lt (h.begun.trans_lt few))
  rw [h.issued, List.nodup_reverse] at hnodup
  refine ⟨hnodup, fun id hid => ?_, h.written⟩
  rw [← List.mem_reverse, ← h.issued] at hid
  obtain ⟨i, hi, rfl⟩ := List.mem_map.mp hid
  exact ⟨i.number, i.clock, run_whole h.run i hi⟩

end Tasks

end Cyctron.Realtime.Ids
