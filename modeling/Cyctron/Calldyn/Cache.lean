/- Cyctron/Calldyn/Cache
   digest: The handle cache of calldyn.c, step by step for any number of threads. -/

import Cyctron.Base.CString
import Cyctron.Machine.Labelled
import Mathlib.Data.List.Nodup
import Mathlib.Logic.Function.Basic

set_option autoImplicit false
set_option relaxedAutoImplicit false

namespace Cyctron.Calldyn.Cache

open Cyctron.Base.CString
open Cyctron.Machine.Labelled (System Run)

abbrev DL_CACHE_MAX : Nat := 32

/-- Where a thread is in `dl_get` for a path: before and in the lookup without the lock, before the
lock, and under it in the second lookup, before the load, between the writes of the publication, and
before the lock is given back with a result. -/
inductive Pc
  | idle
  | start (p : Bytes)
  | scan (p : Bytes) (n i : Nat)
  | waiting (p : Bytes)
  | recheck (p : Bytes) (i : Nat)
  | missed (p : Bytes)
  | loaded (p : Bytes) (h : Nat)
  | named (p : Bytes) (h : Nat)
  | filled (p : Bytes) (h : Nat)
  | leaving (p : Bytes) (r : Option Nat)
  deriving DecidableEq

structure CacheState where
  path : Nat → Bytes
  handle : Nat → Option Nat
  count : Nat
  lock : Option Nat
  pc : Nat → Pc

def CacheState.initial : CacheState := ⟨fun _ => [], fun _ => none, 0, none, fun _ => .idle⟩

def CacheState.setPc (s : CacheState) (t : Nat) (pc : Pc) : CacheState :=
  { s with pc := Function.update s.pc t pc }

/-- A load that `dlopen` answers with a handle, and the result of a call. -/
inductive CacheEvent
  | loaded (t : Nat) (p : Bytes) (h : Nat)
  | returned (t : Nat) (p : Bytes) (r : Option Nat)
  deriving DecidableEq

/-- A call with a path, a step of a thread, and the outcome of its `dlopen`. -/
inductive CacheAction
  | call (t : Nat) (p : Bytes)
  | move (t : Nat)
  | load (t : Nat) (h : Option Nat)

/-- The callers pass C strings from buffers of 512 bytes. -/
def call (s : CacheState) (t : Nat) (p : Bytes) : Option (CacheState × List CacheEvent) :=
  if s.pc t = .idle ∧ p.length ≤ 511 ∧ 0 ∉ p then some (s.setPc t (.start p), []) else none

def move (s : CacheState) (t : Nat) : Option (CacheState × List CacheEvent) :=
  match s.pc t with
  | .idle => none
  | .start p => some (s.setPc t (.scan p s.count 0), [])
  | .scan p n i =>
    if i < n then
      if s.path i = p then some (s.setPc t .idle, [.returned t p (s.handle i)])
      else some (s.setPc t (.scan p n (i + 1)), [])
    else some (s.setPc t (.waiting p), [])
  | .waiting p =>
    if s.lock = none then some ({ s with lock := some t }.setPc t (.recheck p 0), []) else none
  | .recheck p i =>
    if i < s.count then
      if s.path i = p then
        if (s.handle i).isSome then some (s.setPc t (.leaving p (s.handle i)), [])
        else some (s.setPc t (.missed p), [])
      else some (s.setPc t (.recheck p (i + 1)), [])
    else some (s.setPc t (.missed p), [])
  | .missed p => if s.count < DL_CACHE_MAX then none else some (s.setPc t (.leaving p none), [])
  | .loaded p h =>
    some ({ s with
      path := Function.update s.path s.count (snprintf 256 p) }.setPc t (.named p h), [])
  | .named p h =>
    some ({ s with handle := Function.update s.handle s.count (some h) }.setPc t (.filled p h), [])
  | .filled p h => some ({ s with count := s.count + 1 }.setPc t (.leaving p (some h)), [])
  | .leaving p r => some ({ s with lock := none }.setPc t .idle, [.returned t p r])

def load (s : CacheState) (t : Nat) (h : Option Nat) : Option (CacheState × List CacheEvent) :=
  match s.pc t with
  | .missed p =>
    if s.count < DL_CACHE_MAX then
      match h with
      | none => some (s.setPc t (.leaving p none), [])
      | some h => some (s.setPc t (.loaded p h), [.loaded t p h])
    else none
  | _ => none

def cacheStep (s : CacheState) : CacheAction → Option (CacheState × List CacheEvent)
  | .call t p => call s t p
  | .move t => move s t
  | .load t h => load s t h

def dlCache : System CacheState CacheAction CacheEvent := ⟨.initial, cacheStep⟩

/-- A path that is about to be loaded fits into an entry. -/
def fits : Pc → Bool
  | .missed p => decide (p.length ≤ 255)
  | _ => true

def shortLoad (s : CacheState) : CacheAction → Bool
  | .load t (some _) => fits (s.pc t)
  | _ => true

/-- A path that is loaded fits into an entry. -/
def shortLoads (s : CacheState) (a : CacheAction) : Prop := shortLoad s a = true

instance (s : CacheState) (a : CacheAction) : Decidable (shortLoads s a) :=
  inferInstanceAs (Decidable (shortLoad s a = true))

/-- The path and the handle of a successful load. -/
def loadOf : CacheEvent → Option (Bytes × Option Nat)
  | .loaded _ p h => some (p, some h)
  | .returned _ _ _ => none

def loads (tr : List CacheEvent) : List (Bytes × Option Nat) := tr.filterMap loadOf

/-- The entries that a lookup can see. -/
def published (s : CacheState) : List (Bytes × Option Nat) :=
  (List.range s.count).map fun i => (s.path i, s.handle i)

/-- The thread is between the lock and the unlock. -/
def owns : Pc → Bool
  | .recheck _ _ | .missed _ | .loaded _ _ | .named _ _ | .filled _ _ | .leaving _ _ => true
  | _ => false

/-- What a thread has loaded and not published yet. -/
def pending : Pc → List (Bytes × Option Nat)
  | .loaded p h | .named p h | .filled p h => [(p, some h)]
  | _ => []

def inflight (s : CacheState) : List (Bytes × Option Nat) :=
  match s.lock with
  | none => []
  | some t => pending (s.pc t)

def Absent (s : CacheState) (p : Bytes) : Prop := ∀ j < s.count, s.path j ≠ p

/-- There is room for a path that fits and has no entry. -/
def Free (s : CacheState) (p : Bytes) : Prop :=
  s.count < DL_CACHE_MAX ∧ p.length ≤ 255 ∧ Absent s p

/-- What a thread knows where it is. -/
def Holds (s : CacheState) : Pc → Prop
  | .idle | .start _ | .waiting _ => True
  | .scan _ n _ => n ≤ s.count
  | .recheck p i => i ≤ s.count ∧ ∀ j < i, s.path j ≠ p
  | .missed p => Absent s p
  | .loaded p _ => Free s p
  | .named p _ => Free s p ∧ s.path s.count = p
  | .filled p h => Free s p ∧ s.path s.count = p ∧ s.handle s.count = some h
  | .leaving p none => Absent s p
  | .leaving p (some h) => ∃ j < s.count, s.path j = p ∧ s.handle j = some h

structure Sound (tr : List CacheEvent) (s : CacheState) : Prop where
  owner : ∀ t, owns (s.pc t) = true ↔ s.lock = some t
  holds : ∀ t, Holds s (s.pc t)
  entries : ∀ i < s.count, (s.handle i).isSome = true
  distinct : ∀ i < s.count, ∀ j < s.count, s.path i = s.path j → i = j
  bound : s.count ≤ DL_CACHE_MAX
  ledger : loads tr = published s ++ inflight s

section Steps

variable {tr es : List CacheEvent} {s s' : CacheState} {t u : Nat} {pc pc' : Pc} {p : Bytes}
  {h : Nat}

@[simp] theorem setPc_self : (s.setPc t pc).pc t = pc := Function.update_self _ _ _

private theorem setPc_other (hu : u ≠ t) : (s.setPc t pc).pc u = s.pc u := Function.update_of_ne hu _ _

theorem sound_initial : Sound [] CacheState.initial := by
  refine ⟨fun t => ?_, fun t => trivial, fun i hi => absurd hi (Nat.not_lt_zero i),
    fun i hi => absurd hi (Nat.not_lt_zero i), Nat.zero_le _, rfl⟩
  exact iff_of_false Bool.false_ne_true (Option.some_ne_none t).symm

private theorem pending_nil (h : owns pc = false) : pending pc = [] := by
  cases pc with
  | loaded p h' => cases h
  | named p h' => cases h
  | filled p h' => cases h
  | _ => rfl

private theorem loads_append (tr es : List CacheEvent) : loads (tr ++ es) = loads tr ++ loads es :=
  List.filterMap_append

/-- A thread without the lock knows nothing that a growing cache takes away. -/
private theorem holds_outside (hout : owns pc = false) (hholds : Holds s pc)
    (hcount : s.count ≤ s'.count) :
    Holds s' pc := by
  cases pc with
  | idle => trivial
  | start p => trivial
  | waiting p => trivial
  | scan p n i => exact Nat.le_trans hholds hcount
  | _ => cases hout

private theorem Sound.not_owns (hs : Sound tr s) (hlock : s.lock = some t) (hu : u ≠ t) :
    owns (s.pc u) = false := by
  by_contra hown
  have hlock' := (hs.owner u).mp (by simpa using hown)
  exact hu (Option.some.inj (hlock'.symm.trans hlock))

/-- A step of a thread that leaves the cache and the lock alone. -/
private theorem Sound.local (hs : Sound tr s) (howns : owns pc' = owns (s.pc t)) (hholds : Holds s pc')
    (hpending : pending pc' = pending (s.pc t) ++ loads es) : Sound (tr ++ es) (s.setPc t pc') := by
  refine ⟨fun u => ?_, fun u => ?_, hs.entries, hs.distinct, hs.bound, ?_⟩
  · by_cases hu : u = t
    · subst hu
      rw [setPc_self, howns]
      exact hs.owner u
    · rw [setPc_other hu]
      exact hs.owner u
  · by_cases hu : u = t
    · subst hu
      rw [setPc_self]
      exact hholds
    · rw [setPc_other hu]
      exact hs.holds u
  · have hinflight : inflight (s.setPc t pc') = inflight s ++ loads es := by
      have hnone : s.lock ≠ some t → loads es = [] := by
        intro hlock
        have hout : owns (s.pc t) = false := by
          by_contra hown
          exact hlock ((hs.owner t).mp (by simpa using hown))
        rw [pending_nil hout, pending_nil (howns.trans hout)] at hpending
        exact hpending.symm
      unfold inflight
      cases hlock : s.lock with
      | none =>
        have hkept : (s.setPc t pc').lock = none := hlock
        rw [hkept, hnone (by rw [hlock]; exact (Option.some_ne_none t).symm)]
        rfl
      | some u =>
        have hkept : (s.setPc t pc').lock = some u := hlock
        rw [hkept]
        dsimp only
        by_cases hu : u = t
        · subst hu
          rw [setPc_self, hpending]
        · rw [setPc_other hu, hnone, List.append_nil]
          rw [hlock]
          exact fun h => hu (Option.some.inj h)
    rw [loads_append, hs.ledger, hinflight, List.append_assoc]
    rfl

theorem Sound.lock (hs : Sound tr s) (hpc : s.pc t = .waiting p) (hfree : s.lock = none) :
    Sound tr ({ s with lock := some t }.setPc t (.recheck p 0)) := by
  have hout : ∀ u, owns (s.pc u) = false := by
    intro u
    by_contra hown
    cases hfree.symm.trans ((hs.owner u).mp (by simpa using hown))
  refine ⟨fun u => ?_, fun u => ?_, hs.entries, hs.distinct, hs.bound, ?_⟩
  · by_cases hu : u = t
    · subst hu
      rw [setPc_self]
      exact iff_of_true rfl rfl
    · rw [setPc_other hu]
      exact iff_of_false (Bool.eq_false_iff.mp (hout u)) fun h => hu (Option.some.inj h).symm
  · by_cases hu : u = t
    · subst hu
      rw [setPc_self]
      exact ⟨Nat.zero_le _, fun j hj => absurd hj (Nat.not_lt_zero j)⟩
    · rw [setPc_other hu]
      exact hs.holds u
  · have hinflight : inflight ({ s with lock := some t }.setPc t (.recheck p 0)) = inflight s := by
      have hbefore : inflight s = [] := by rw [inflight, hfree]
      rw [hbefore]
      change pending (({ s with lock := some t }.setPc t (.recheck p 0)).pc t) = []
      rw [setPc_self]
      rfl
    rw [hs.ledger, hinflight]
    rfl

private theorem Sound.unlock {r : Option Nat} (hs : Sound tr s) (hpc : s.pc t = .leaving p r) :
    Sound (tr ++ [.returned t p r]) ({ s with lock := none }.setPc t .idle) := by
  have hlock : s.lock = some t := (hs.owner t).mp (by rw [hpc]; rfl)
  refine ⟨fun u => ?_, fun u => ?_, hs.entries, hs.distinct, hs.bound, ?_⟩
  · refine iff_of_false ?_ (Option.some_ne_none u).symm
    by_cases hu : u = t
    · subst hu
      rw [setPc_self]
      exact Bool.false_ne_true
    · rw [setPc_other hu]
      exact Bool.eq_false_iff.mp (hs.not_owns hlock hu)
  · by_cases hu : u = t
    · subst hu
      rw [setPc_self]
      trivial
    · rw [setPc_other hu]
      exact hs.holds u
  · have hinflight : inflight s = [] := by
      rw [inflight, hlock]
      dsimp only
      rw [hpc]
      rfl
    rw [loads_append, hs.ledger, hinflight, List.append_nil]
    rfl

/-- A step of the owner of the lock that writes to the cache. -/
theorem Sound.write (hs : Sound tr s) (howns : owns (s.pc t) = true) (howns' : owns pc' = true)
    (hlock : s'.lock = s.lock) (hpc : s'.pc = s.pc) (hcount : s.count ≤ s'.count)
    (hholds : Holds s' pc') (hentries : ∀ i < s'.count, (s'.handle i).isSome = true)
    (hdistinct : ∀ i < s'.count, ∀ j < s'.count, s'.path i = s'.path j → i = j)
    (hbound : s'.count ≤ DL_CACHE_MAX)
    (hledger : published s' ++ pending pc' = published s ++ pending (s.pc t)) :
    Sound tr (s'.setPc t pc') := by
  have hown : s.lock = some t := (hs.owner t).mp howns
  refine ⟨fun u => ?_, fun u => ?_, hentries, hdistinct, hbound, ?_⟩
  · by_cases hu : u = t
    · subst hu
      rw [setPc_self]
      exact iff_of_true howns' (hlock.trans hown)
    · rw [setPc_other hu, hpc]
      exact (hs.owner u).trans (by rw [← hlock]; rfl)
  · by_cases hu : u = t
    · subst hu
      rw [setPc_self]
      exact hholds
    · rw [setPc_other hu, hpc]
      have hkept : Holds s' (s.pc u) := holds_outside (hs.not_owns hown hu) (hs.holds u) hcount
      exact hkept
  · have hbefore : inflight s = pending (s.pc t) := by rw [inflight, hown]
    have hafter : inflight (s'.setPc t pc') = pending pc' := by
      have hkept : (s'.setPc t pc').lock = some t := hlock.trans hown
      rw [inflight, hkept]
      dsimp only
      rw [setPc_self]
    rw [hs.ledger, hbefore, hafter, ← hledger]
    rfl

theorem Sound.move (hs : Sound tr s) (hstep : move s t = some (s', es)) : Sound (tr ++ es) s' := by
  have hknown := hs.holds t
  have hlocal : ∀ {pc'}, owns pc' = owns (s.pc t) → Holds s pc' → pending pc' = [] →
      pending (s.pc t) = [] → Sound (tr ++ []) (s.setPc t pc') := by
    intro pc' howns hholds hnew hold
    refine hs.local howns hholds ?_
    rw [hnew, hold]
    rfl
  unfold Cache.move at hstep
  cases hpc : s.pc t with
  | idle =>
    rw [hpc] at hstep
    cases hstep
  | start p =>
    rw [hpc] at hstep hlocal
    obtain ⟨rfl, rfl⟩ := Prod.mk.inj (Option.some.inj hstep)
    exact hlocal rfl (Nat.le_refl _) rfl rfl
  | scan p n i =>
    rw [hpc] at hstep hknown hlocal
    dsimp only at hstep
    split at hstep
    · split at hstep
      · obtain ⟨rfl, rfl⟩ := Prod.mk.inj (Option.some.inj hstep)
        exact hs.local (by rw [hpc]; rfl) trivial (by rw [hpc]; rfl)
      · obtain ⟨rfl, rfl⟩ := Prod.mk.inj (Option.some.inj hstep)
        exact hlocal rfl hknown rfl rfl
    · obtain ⟨rfl, rfl⟩ := Prod.mk.inj (Option.some.inj hstep)
      exact hlocal rfl trivial rfl rfl
  | waiting p =>
    rw [hpc] at hstep
    dsimp only at hstep
    split at hstep
    · rename_i hfree
      obtain ⟨rfl, rfl⟩ := Prod.mk.inj (Option.some.inj hstep)
      rw [List.append_nil]
      exact hs.lock hpc hfree
    · cases hstep
  | recheck p i =>
    rw [hpc] at hstep hknown hlocal
    obtain ⟨hle, hnone⟩ := hknown
    dsimp only at hstep
    split at hstep
    · rename_i hlt
      obtain ⟨h, hh⟩ := Option.isSome_iff_exists.mp (hs.entries i hlt)
      split at hstep
      · rename_i heq
        rw [hh, Option.isSome_some, if_pos rfl] at hstep
        obtain ⟨rfl, rfl⟩ := Prod.mk.inj (Option.some.inj hstep)
        exact hlocal rfl ⟨i, hlt, heq, hh⟩ rfl rfl
      · rename_i hne
        obtain ⟨rfl, rfl⟩ := Prod.mk.inj (Option.some.inj hstep)
        refine hlocal rfl ⟨hlt, fun j hj => ?_⟩ rfl rfl
        rcases Nat.lt_succ_iff_lt_or_eq.mp hj with hj | rfl
        · exact hnone j hj
        · exact hne
    · rename_i hge
      obtain ⟨rfl, rfl⟩ := Prod.mk.inj (Option.some.inj hstep)
      exact hlocal rfl (fun j hj => hnone j (Nat.lt_of_lt_of_le hj (Nat.not_lt.mp hge))) rfl rfl
  | missed p =>
    rw [hpc] at hstep hknown hlocal
    dsimp only at hstep
    split at hstep
    · cases hstep
    · obtain ⟨rfl, rfl⟩ := Prod.mk.inj (Option.some.inj hstep)
      exact hlocal rfl hknown rfl rfl
  | loaded p h =>
    rw [hpc] at hstep hknown
    obtain ⟨hroom, hshort, habsent⟩ := hknown
    obtain ⟨rfl, rfl⟩ := Prod.mk.inj (Option.some.inj hstep)
    have hfits : snprintf 256 p = p := snprintf_fits (by omega)
    have hsame : ∀ i < s.count, Function.update s.path s.count (snprintf 256 p) i = s.path i :=
      fun i hi => Function.update_of_ne (Nat.ne_of_lt hi) _ _
    rw [List.append_nil]
    refine hs.write (by rw [hpc]; rfl) rfl rfl rfl (Nat.le_refl _) ?_ hs.entries ?_ hs.bound ?_
    · refine ⟨⟨hroom, hshort, fun j hj heq => ?_⟩, ?_⟩
      · exact habsent j hj ((hsame j hj).symm.trans heq)
      · exact (Function.update_self _ _ _).trans hfits
    · intro i hi j hj heq
      exact hs.distinct i hi j hj ((hsame i hi).symm.trans (heq.trans (hsame j hj)))
    · rw [hpc]
      refine congrArg (· ++ [(p, some h)]) (List.map_congr_left fun i hi => ?_)
      exact congrArg (·, s.handle i) (hsame i (List.mem_range.mp hi))
  | named p h =>
    rw [hpc] at hstep hknown
    obtain ⟨hfree, hpath⟩ := hknown
    obtain ⟨rfl, rfl⟩ := Prod.mk.inj (Option.some.inj hstep)
    have hsame : ∀ i < s.count, Function.update s.handle s.count (some h) i = s.handle i :=
      fun i hi => Function.update_of_ne (Nat.ne_of_lt hi) _ _
    rw [List.append_nil]
    refine hs.write (by rw [hpc]; rfl) rfl rfl rfl (Nat.le_refl _) ?_ ?_ hs.distinct hs.bound ?_
    · exact ⟨hfree, hpath, Function.update_self _ _ _⟩
    · intro i hi
      exact (congrArg Option.isSome (hsame i hi)).trans (hs.entries i hi)
    · rw [hpc]
      refine congrArg (· ++ [(p, some h)]) (List.map_congr_left fun i hi => ?_)
      exact congrArg (s.path i, ·) (hsame i (List.mem_range.mp hi))
  | filled p h =>
    rw [hpc] at hstep hknown
    obtain ⟨⟨hroom, _, habsent⟩, hpath, hhandle⟩ := hknown
    obtain ⟨rfl, rfl⟩ := Prod.mk.inj (Option.some.inj hstep)
    rw [List.append_nil]
    refine hs.write (by rw [hpc]; rfl) rfl rfl rfl (Nat.le_succ _)
      ⟨s.count, Nat.lt_succ_self _, hpath, hhandle⟩ ?_ ?_ hroom ?_
    · intro i hi
      rcases Nat.lt_succ_iff_lt_or_eq.mp hi with hi | rfl
      · exact hs.entries i hi
      · change (s.handle s.count).isSome = true
        rw [hhandle]
        rfl
    · intro i hi j hj heq
      change s.path i = s.path j at heq
      rcases Nat.lt_succ_iff_lt_or_eq.mp hi with hi | rfl <;>
        rcases Nat.lt_succ_iff_lt_or_eq.mp hj with hj | rfl
      · exact hs.distinct i hi j hj heq
      · exact absurd (heq.trans hpath) (habsent i hi)
      · exact absurd (heq.symm.trans hpath) (habsent j hj)
      · rfl
    · rw [hpc]
      change (List.range (s.count + 1)).map (fun i => (s.path i, s.handle i)) ++ [] = _
      rw [List.append_nil, List.range_succ, List.map_append, List.map_singleton, hpath, hhandle]
      rfl
  | leaving p r =>
    rw [hpc] at hstep
    obtain ⟨rfl, rfl⟩ := Prod.mk.inj (Option.some.inj hstep)
    exact hs.unlock hpc

theorem Sound.load {r : Option Nat} (hs : Sound tr s) (hshort : shortLoads s (.load t r))
    (hstep : load s t r = some (s', es)) : Sound (tr ++ es) s' := by
  have hknown := hs.holds t
  unfold Cache.load at hstep
  split at hstep
  · rename_i p hpc
    rw [hpc] at hknown
    split at hstep
    · rename_i hroom
      split at hstep
      · obtain ⟨rfl, rfl⟩ := Prod.mk.inj (Option.some.inj hstep)
        exact hs.local (by rw [hpc]; rfl) hknown (by rw [hpc]; rfl)
      · rename_i h
        obtain ⟨rfl, rfl⟩ := Prod.mk.inj (Option.some.inj hstep)
        have hfits : fits (s.pc t) = true := hshort
        rw [hpc] at hfits
        have hnew : Free s p := ⟨hroom, of_decide_eq_true hfits, hknown⟩
        exact hs.local (by rw [hpc]; rfl) hnew (by rw [hpc]; rfl)
    · cases hstep
  · cases hstep

theorem Sound.step {a : CacheAction} (hs : Sound tr s) (hshort : shortLoads s a)
    (hstep : cacheStep s a = some (s', es)) : Sound (tr ++ es) s' := by
  cases a with
  | call t p =>
    simp only [cacheStep, call, Option.ite_none_right_eq_some] at hstep
    obtain ⟨⟨hidle, _⟩, hstep⟩ := hstep
    obtain ⟨rfl, rfl⟩ := Prod.mk.inj (Option.some.inj hstep)
    exact hs.local (by rw [hidle]; rfl) trivial (by rw [hidle]; rfl)
  | move t => exact hs.move hstep
  | load t r => exact hs.load hshort hstep

theorem sound_run (run : Run dlCache shortLoads tr s) : Sound tr s :=
  run.invariant Sound sound_initial fun _ _ _ _ _ hs hok hstep => hs.step hok hstep

/-- Where a result comes from. -/
private theorem returned_cases {a : CacheAction} {r : Option Nat}
    (hstep : cacheStep s a = some (s', es))
    (hevent : .returned t p r ∈ es) :
    ∃ u, (∃ n i, s.pc u = .scan p n i ∧ i < n ∧ s.path i = p ∧ r = s.handle i) ∨
      s.pc u = .leaving p r := by
  cases a with
  | call u q =>
    simp only [cacheStep, call, Option.ite_none_right_eq_some] at hstep
    obtain ⟨_, rfl⟩ := Prod.mk.inj (Option.some.inj hstep.2)
    cases hevent
  | load u q =>
    simp only [cacheStep, load] at hstep
    split at hstep
    · split at hstep
      · split at hstep
        · obtain ⟨_, rfl⟩ := Prod.mk.inj (Option.some.inj hstep)
          cases hevent
        · obtain ⟨_, rfl⟩ := Prod.mk.inj (Option.some.inj hstep)
          cases List.mem_singleton.mp hevent
      · cases hstep
    · cases hstep
  | move u =>
    have hquiet : ∀ {x : CacheState}, some (x, []) = some (s', es) → False := by
      intro x hx
      obtain ⟨_, rfl⟩ := Prod.mk.inj (Option.some.inj hx)
      cases hevent
    refine ⟨u, ?_⟩
    simp only [cacheStep, move] at hstep
    cases hpc : s.pc u with
    | scan q n i =>
      rw [hpc] at hstep
      dsimp only at hstep
      split at hstep
      · split at hstep
        · rename_i hlt heq
          obtain ⟨_, rfl⟩ := Prod.mk.inj (Option.some.inj hstep)
          obtain ⟨rfl, rfl, rfl⟩ := CacheEvent.returned.inj (List.mem_singleton.mp hevent)
          exact Or.inl ⟨n, i, rfl, hlt, heq, rfl⟩
        · exact absurd hstep fun h => hquiet h
      · exact absurd hstep fun h => hquiet h
    | leaving q r' =>
      rw [hpc] at hstep
      obtain ⟨_, rfl⟩ := Prod.mk.inj (Option.some.inj hstep)
      obtain ⟨rfl, rfl, rfl⟩ := CacheEvent.returned.inj (List.mem_singleton.mp hevent)
      exact Or.inr rfl
    | idle =>
      rw [hpc] at hstep
      cases hstep
    | waiting q =>
      rw [hpc] at hstep
      dsimp only at hstep
      split at hstep
      · exact absurd hstep fun h => hquiet h
      · cases hstep
    | recheck q i =>
      rw [hpc] at hstep
      dsimp only at hstep
      split at hstep
      · split at hstep
        · split at hstep
          · exact absurd hstep fun h => hquiet h
          · exact absurd hstep fun h => hquiet h
        · exact absurd hstep fun h => hquiet h
      · exact absurd hstep fun h => hquiet h
    | missed q =>
      rw [hpc] at hstep
      dsimp only at hstep
      split at hstep
      · cases hstep
      · exact absurd hstep fun h => hquiet h
    | _ =>
      rw [hpc] at hstep
      exact absurd hstep fun h => hquiet h

/-- A step reports one event at most. -/
private theorem events_short {a : CacheAction} (hstep : cacheStep s a = some (s', es)) :
    es.length ≤ 1 := by
  cases a with
  | call u q => grind [cacheStep, call]
  | move u => grind [cacheStep, move]
  | load u q => grind [cacheStep, load]

private theorem Sound.entry_loaded (hs : Sound tr s) {i : Nat} (hi : i < s.count) :
    (s.path i, s.handle i) ∈ loads tr := by
  rw [hs.ledger]
  exact List.mem_append_left _ (List.mem_map_of_mem (List.mem_range.mpr hi))

/-- A handle that is returned is the one of an entry; without a handle the path was not loaded. -/
theorem Sound.returned {a : CacheAction} {r : Option Nat} (hs : Sound tr s)
    (hstep : cacheStep s a = some (s', es)) (hevent : .returned t p r ∈ es) :
    (∀ h, r = some h → (p, some h) ∈ loads tr) ∧ (r = none → ∀ h, (p, some h) ∉ loads tr) := by
  obtain ⟨u, ⟨n, i, hpc, hlt, rfl, rfl⟩ | hpc⟩ := returned_cases hstep hevent
  · have hknown := hs.holds u
    rw [hpc] at hknown
    have hi : i < s.count := Nat.lt_of_lt_of_le hlt hknown
    refine ⟨fun h hh => hh ▸ hs.entry_loaded hi, fun hh => ?_⟩
    have hsome := hs.entries i hi
    rw [hh] at hsome
    cases hsome
  · have hknown := hs.holds u
    have hlock : s.lock = some u := (hs.owner u).mp (by rw [hpc]; rfl)
    have hledger : loads tr = published s := by
      have hflight : inflight s = [] := by
        rw [inflight, hlock]
        dsimp only
        rw [hpc]
        rfl
      rw [hs.ledger, hflight, List.append_nil]
    rw [hpc] at hknown
    cases r with
    | none =>
      refine ⟨fun h hh => absurd hh.symm (Option.some_ne_none h), fun _ h hmem => ?_⟩
      rw [hledger] at hmem
      obtain ⟨i, hi, heq⟩ := List.mem_map.mp hmem
      exact hknown i (List.mem_range.mp hi) (Prod.mk.inj heq).1
    | some g =>
      obtain ⟨j, hj, rfl, hg⟩ := hknown
      refine ⟨fun h hh => ?_, fun hh => absurd hh (Option.some_ne_none g)⟩
      rw [← hh, ← hg]
      exact hs.entry_loaded hj

/-- The second event is no failure for a path that the first one has loaded. -/
def Later (e e' : CacheEvent) : Prop := ∀ t u p h, e = .loaded t p h → e' ≠ .returned u p none

private theorem mem_loads : (p, some h) ∈ loads tr ↔ ∃ t, .loaded t p h ∈ tr := by
  constructor
  · intro hmem
    obtain ⟨e, he, heq⟩ := List.mem_filterMap.mp hmem
    cases e with
    | loaded t q g =>
      obtain ⟨rfl, hg⟩ := Prod.mk.inj (Option.some.inj heq)
      obtain rfl := Option.some.inj hg
      exact ⟨t, he⟩
    | returned t q r => cases heq
  · rintro ⟨t, he⟩
    exact List.mem_filterMap.mpr ⟨_, he, rfl⟩

/-- What the callers see of the loads. -/
structure Answers (tr : List CacheEvent) : Prop where
  given : ∀ t p h, .returned t p (some h) ∈ tr → ∃ u, .loaded u p h ∈ tr
  later : tr.Pairwise Later

private theorem answers_run (run : Run dlCache shortLoads tr s) : Answers tr := by
  refine run.invariant_of Sound (fun tr _ => Answers tr) (fun _ _ => sound_run)
    ⟨fun _ _ _ hmem => absurd hmem List.not_mem_nil, List.Pairwise.nil⟩ ?_
  intro tr s a s' es hs answers _ hstep
  refine ⟨fun t p h hmem => ?_, ?_⟩
  · rcases List.mem_append.mp hmem with hmem | hmem
    · obtain ⟨u, hu⟩ := answers.given t p h hmem
      exact ⟨u, List.mem_append_left es hu⟩
    · obtain ⟨u, hu⟩ := mem_loads.mp ((hs.returned hstep hmem).1 h rfl)
      exact ⟨u, List.mem_append_left es hu⟩
  · have hone : es.Pairwise Later := by
      have hshort := events_short hstep
      cases es with
      | nil => exact List.Pairwise.nil
      | cons e es =>
        have hrest : es = [] :=
          List.length_eq_zero_iff.mp (Nat.le_zero.mp (Nat.succ_le_succ_iff.mp hshort))
        rw [hrest]
        exact List.pairwise_singleton Later e
    refine List.pairwise_append.mpr ⟨answers.later, hone, ?_⟩
    rintro e he e' he' t u p h rfl rfl
    exact (hs.returned hstep he').2 rfl h (mem_loads.mpr ⟨t, he⟩)

private theorem published_nodup (hs : Sound tr s) : ((published s).map Prod.fst).Nodup := by
  rw [published, List.map_map]
  refine List.Nodup.map_on ?_ List.nodup_range
  intro i hi j hj heq
  exact hs.distinct i (List.mem_range.mp hi) j (List.mem_range.mp hj) heq

/-- A path is loaded once at most. -/
private theorem loads_nodup (hs : Sound tr s) : ((loads tr).map Prod.fst).Nodup := by
  have hnew : ∀ x ∈ inflight s, ∀ y ∈ published s, y.1 ≠ x.1 := by
    intro x hx y hy
    obtain ⟨j, hj, rfl⟩ := List.mem_map.mp hy
    unfold inflight at hx
    split at hx
    · cases hx
    · rename_i t hlock
      have hknown := hs.holds t
      generalize s.pc t = pc at hknown hx
      cases pc with
      | loaded p h =>
        obtain rfl := List.mem_singleton.mp hx
        exact hknown.2.2 j (List.mem_range.mp hj)
      | named p h =>
        obtain rfl := List.mem_singleton.mp hx
        exact hknown.1.2.2 j (List.mem_range.mp hj)
      | filled p h =>
        obtain rfl := List.mem_singleton.mp hx
        exact hknown.1.2.2 j (List.mem_range.mp hj)
      | _ => cases hx
  have hone : ((inflight s).map Prod.fst).Nodup := by
    unfold inflight
    split
    · exact List.nodup_nil
    · rename_i t _
      cases s.pc t with
      | loaded p h => exact List.nodup_singleton p
      | named p h => exact List.nodup_singleton p
      | filled p h => exact List.nodup_singleton p
      | _ => exact List.nodup_nil
  rw [hs.ledger, List.map_append, List.nodup_append]
  refine ⟨published_nodup hs, hone, ?_⟩
  intro q hq q' hq' heq
  obtain ⟨y, hy, rfl⟩ := List.mem_map.mp hq
  obtain ⟨x, hx, rfl⟩ := List.mem_map.mp hq'
  exact hnew x hx y hy heq

/-- A published entry stays as it is. -/
private theorem entries_stay {a : CacheAction} (hstep : cacheStep s a = some (s', es)) :
    s.count ≤ s'.count ∧ ∀ i < s.count, s'.path i = s.path i ∧ s'.handle i = s.handle i := by
  cases a with
  | call u q => grind [cacheStep, call, CacheState.setPc]
  | load u r => grind [cacheStep, load, CacheState.setPc]
  | move u =>
    -- the two writes go to the entry behind the last published one
    cases hpc : s.pc u with
    | loaded p h =>
      simp only [cacheStep, move, hpc] at hstep
      obtain ⟨rfl, _⟩ := Prod.mk.inj (Option.some.inj hstep)
      exact ⟨Nat.le_refl _, fun i hi => ⟨Function.update_of_ne (Nat.ne_of_lt hi) _ _, rfl⟩⟩
    | named p h =>
      simp only [cacheStep, move, hpc] at hstep
      obtain ⟨rfl, _⟩ := Prod.mk.inj (Option.some.inj hstep)
      exact ⟨Nat.le_refl _, fun i hi => ⟨rfl, Function.update_of_ne (Nat.ne_of_lt hi) _ _⟩⟩
    | _ =>
      have hkept : s.count ≤ s'.count ∧ s'.path = s.path ∧ s'.handle = s.handle := by
        grind [cacheStep, move, CacheState.setPc]
      obtain ⟨hcount, hpath, hhandle⟩ := hkept
      exact ⟨hcount, fun i _ => ⟨congrFun hpath i, congrFun hhandle i⟩⟩

/-- When each path that is loaded fits into an entry: a path is loaded once at most and has one
entry at most; a handle that is returned is the one of that load; entries stay, and there are at
most 32; and once a path is loaded, no call for it fails. -/
theorem one_library_one_handle (run : Run dlCache shortLoads tr s) :
    ((loads tr).map Prod.fst).Nodup ∧
    (∀ i < s.count, ∀ j < s.count, s.path i = s.path j → i = j) ∧
    (∀ t p h, .returned t p (some h) ∈ tr → ∃ u, .loaded u p h ∈ tr) ∧
    s.count ≤ DL_CACHE_MAX ∧
    (∀ a s' es, cacheStep s a = some (s', es) →
      s.count ≤ s'.count ∧ ∀ i < s.count, s'.path i = s.path i ∧ s'.handle i = s.handle i) ∧
    tr.Pairwise Later := by
  have hs := sound_run run
  have answers := answers_run run
  exact ⟨loads_nodup hs, hs.distinct, answers.given, hs.bound, fun a s' es => entries_stay,
    answers.later⟩

def libPath : Bytes := ascii "./libary/demo.so"

/-- Two threads miss in the lookup without the lock, and the second finds the entry of the first. -/
theorem second_thread_finds : ∃ tr s, Run dlCache shortLoads tr s ∧
    ((loads tr).map Prod.fst).Nodup ∧ .returned 1 libPath (some 7) ∈ tr ∧
    .returned 2 libPath (some 7) ∈ tr := by
  obtain ⟨tr, s, run, hfirst, hsecond⟩ := dlCache.exec_reaches shortLoads
    ([.call 1 libPath, .call 2 libPath] ++ [1, 1, 2, 2, 1, 1].map .move ++ [.load 1 (some 7)] ++
      [1, 1, 1, 1, 2, 2, 2].map .move)
    (fun tr _ => .returned 1 libPath (some 7) ∈ tr ∧ .returned 2 libPath (some 7) ∈ tr)
    (by decide +kernel)
  exact ⟨tr, s, run, (one_library_one_handle run).1, hfirst, hsecond⟩

/-- A path of 256 bytes is loaded again by each call. -/
theorem long_path_loaded_twice : ∃ tr s, Run dlCache Machine.Labelled.anyStep tr s ∧
    ¬((loads tr).map Prod.fst).Nodup ∧ s.count = 2 := by
  obtain ⟨tr, s, run, h⟩ := dlCache.exec_reaches Machine.Labelled.anyStep
    ([.call 1 (List.replicate 256 97)] ++ List.replicate 4 (.move 1) ++
      [.load 1 (some 7)] ++ List.replicate 4 (.move 1) ++
      [.call 1 (List.replicate 256 97)] ++ List.replicate 6 (.move 1) ++
      [.load 1 (some 7)] ++ List.replicate 4 (.move 1))
    (fun tr s => ¬((loads tr).map Prod.fst).Nodup ∧ s.count = 2) (by decide +kernel)
  exact ⟨tr, s, run, h⟩

end Steps

end Cyctron.Calldyn.Cache
