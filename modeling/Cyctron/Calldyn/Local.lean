/- Cyctron/Calldyn/Local
   digest: A call through call_local_dyn_libffi, and the handles that earlier calls leave behind. -/

import Cyctron.Calldyn.Cache
import Mathlib.Data.List.Basic

set_option autoImplicit false
set_option relaxedAutoImplicit false

namespace Cyctron.Calldyn.Local

open Cyctron.Base.CString
open Cyctron.Calldyn.Cache (DL_CACHE_MAX)

universe u

variable {η : Type u}

/-- What the loader says, by the names of files and symbols, and what a plugin's function returns and
leaves in its output buffer. An input is a string in a buffer, or the null pointer. -/
structure Loader (η : Type u) where
  dlopen : Bytes → Option η
  dlsym : η → Bytes → Bool
  invoke : η → Bytes → Option Bytes → Int × Bytes

/-- A plugin's function that is called. -/
structure Invocation (η : Type u) where
  handle : η
  symbol : Bytes
  input : Option Bytes
  deriving DecidableEq

/-- The entries of `g_dl_cache` that are in use. -/
abbrev DlCache (η : Type u) : Type u := List (Bytes × η)

/-- `dl_get` when no other thread is in it. -/
def dlGet (L : Loader η) (cache : DlCache η) (path : Bytes) : Option η × DlCache η :=
  match cache.find? (·.1 = path) with
  | some e => (some e.2, cache)
  | none =>
    if cache.length < DL_CACHE_MAX then
      match L.dlopen path with
      | none => (none, cache)
      | some h => (some h, cache ++ [(snprintf 256 path, h)])
    else (none, cache)

/-- The return code and the output of a call, the functions that it calls, and the cache after it. -/
structure Called (η : Type u) where
  rc : Int
  jsonOut : Option Bytes
  invoked : List (Invocation η)
  cache : DlCache η

/-- `call_local_dyn_libffi`; the flag says whether there is memory for the output buffer. -/
def callLocalDynLibffi (L : Loader η) (mem : Bool) (cache : DlCache η) (ffiPath funcName : Bytes)
    (jsonIn : Option Bytes) : Called η :=
  let r := dlGet L cache ffiPath
  match r.1 with
  | none => ⟨-1, none, [], r.2⟩
  | some h =>
    if L.dlsym h funcName = false then ⟨-2, none, [], r.2⟩
    else if mem = false then ⟨-3, none, [], r.2⟩
    else
      let q := L.invoke h funcName jsonIn
      ⟨q.1, some (cString q.2), [⟨h, funcName, jsonIn⟩], r.2⟩

/-- The cache after these paths were asked for, one after the other. -/
def cacheAfter (L : Loader η) (paths : List Bytes) : DlCache η :=
  paths.foldl (fun cache path => (dlGet L cache path).2) []

section Entries

variable {L : Loader η} {cache : DlCache η} {paths : List Bytes} {path : Bytes} {h : η}
  {e : Bytes × η}

private theorem cacheAfter_concat (L : Loader η) (paths : List Bytes) (path : Bytes) :
    cacheAfter L (paths ++ [path]) = (dlGet L (cacheAfter L paths) path).2 := by
  rw [cacheAfter, List.foldl_append]
  rfl

/-- An entry more is the one of a path that is loaded. -/
private theorem dlGet_entry (he : e ∈ (dlGet L cache path).2) :
    e ∈ cache ∨ e.1 = snprintf 256 path ∧ L.dlopen path = some e.2 := by
  unfold dlGet at he
  cases hfind : cache.find? (·.1 = path) with
  | some e' =>
    rw [hfind] at he
    exact Or.inl he
  | none =>
    rw [hfind] at he
    dsimp only at he
    split at he
    · cases hopen : L.dlopen path with
      | none =>
        rw [hopen] at he
        exact Or.inl he
      | some h =>
        rw [hopen] at he
        refine (List.mem_append.mp he).imp_right fun he => ?_
        rw [List.mem_singleton.mp he]
        exact ⟨rfl, rfl⟩
    · exact Or.inl he

/-- Each entry is one of a path that was asked for, cut to the size of its field. -/
private theorem cacheAfter_entry (he : e ∈ cacheAfter L paths) :
    ∃ q ∈ paths, e.1 = snprintf 256 q ∧ L.dlopen q = some e.2 := by
  induction paths using List.reverseRecOn with
  | nil => cases he
  | append_singleton paths path ih =>
    rw [cacheAfter_concat] at he
    rcases dlGet_entry he with he | he
    · obtain ⟨q, hq, hentry⟩ := ih he
      exact ⟨q, List.mem_append_left [path] hq, hentry⟩
    · exact ⟨path, List.mem_append_right paths List.mem_cons_self, he⟩

/-- The library of a path has an entry, or there is room for one. -/
def Room (cache : DlCache η) (path : Bytes) : Prop :=
  (∃ e ∈ cache, e.1 = path) ∨ cache.length < DL_CACHE_MAX

/-- No other path that was asked for is cut to this one. -/
def Unmistaken (paths : List Bytes) (path : Bytes) : Prop :=
  ∀ q ∈ paths, snprintf 256 q = path → q = path

/-- The handle of a library is found or loaded. -/
theorem dlGet_handle (hopen : L.dlopen path = some h) (hroom : Room (cacheAfter L paths) path)
    (hpaths : Unmistaken paths path) : (dlGet L (cacheAfter L paths) path).1 = some h := by
  unfold dlGet
  cases hfind : (cacheAfter L paths).find? (·.1 = path) with
  | some e =>
    have hfound := List.find?_some hfind
    have hpath : e.1 = path := of_decide_eq_true hfound
    obtain ⟨q, hq, hentry, hload⟩ := cacheAfter_entry (List.mem_of_find?_eq_some hfind)
    have hself := hpaths q hq (hentry.symm.trans hpath)
    rw [hself, hopen] at hload
    exact hload.symm
  | none =>
    have hshort : (cacheAfter L paths).length < DL_CACHE_MAX := by
      rcases hroom with ⟨e, he, hpath⟩ | hshort
      · exact absurd (decide_eq_true hpath) (List.find?_eq_none.mp hfind e he)
      · exact hshort
    dsimp only
    rw [if_pos hshort, hopen]

/-- A function that is exported is called once. -/
theorem call_exported {func : Bytes} {input : Option Bytes}
    (hhandle : (dlGet L cache path).1 = some h) (hsym : L.dlsym h func = true) :
    callLocalDynLibffi L true cache path func input =
      ⟨(L.invoke h func input).1, some (cString (L.invoke h func input).2), [⟨h, func, input⟩],
        (dlGet L cache path).2⟩ := by
  unfold callLocalDynLibffi
  dsimp only
  rw [hhandle]
  dsimp only
  rw [hsym, if_neg (Ne.symm Bool.false_ne_true), if_neg (Ne.symm Bool.false_ne_true)]

end Entries

end Cyctron.Calldyn.Local
