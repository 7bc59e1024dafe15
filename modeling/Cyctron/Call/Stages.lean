/- Cyctron/Call/Stages
   digest: What the code of a response says about the stage at which an executed call ended. -/

import Cyctron.Call.Response
import Cyctron.Calldyn.Local
import Cyctron.Plugin.Path
import Mathlib.Data.List.Find

set_option autoImplicit false
set_option relaxedAutoImplicit false

namespace Cyctron.Call.Stages

open Cyctron.Base.CString Cyctron.Call.Protocol Cyctron.Json.Text Cyctron.Json.Build
open Cyctron.Calldyn.Cache (DL_CACHE_MAX)
open Cyctron.Calldyn.Local
open Cyctron.Call.Response (ok_text error_text okMembers errorMembers resultText mappedCode_natAbs
  mappedCode_ok response_mem addJob)
open Cyctron.Plugin.Path (FileSystem demoFiles workerPath)
open Cyctron.WsWorker.Model (WsJob errorText mappedCode response)

universe u

variable {η : Type u} {L : Loader η} {mem prep : Bool} {cache : DlCache η} {path func : Bytes}
  {input : Option Bytes} {loads : List (Bytes × η)}

/-- The libraries that have been loaded, each from its whole path, leave these entries: the path of
an entry is cut to its field. -/
def cacheOf (loads : List (Bytes × η)) : DlCache η := loads.map fun e => (snprintf 256 e.1, e.2)

/-- The first load that a path is recognised in, or else a new one as long as the table has room. -/
def loadOf (L : Loader η) (loads : List (Bytes × η)) (path : Bytes) (same : Bytes → Bool) : Option η :=
  match loads.find? fun e => same e.1 with
  | some e => some e.2
  | none => if loads.length < DL_CACHE_MAX then L.dlopen path else none

/-- The library of a path: loaded from this path before, or now. -/
def libraryAt (L : Loader η) (loads : List (Bytes × η)) (path : Bytes) : Option η :=
  loadOf L loads path fun q => q = path

/-- The library that a path finds by the first 255 bytes of an earlier one, or else loads now. -/
def cutMatch (L : Loader η) (loads : List (Bytes × η)) (path : Bytes) : Option η :=
  loadOf L loads path fun q => snprintf 256 q = path

/-- The path is told from every path that a library was loaded from. -/
def Apart (loads : List (Bytes × η)) (path : Bytes) : Prop :=
  ∀ e ∈ loads, snprintf 256 e.1 = path ↔ e.1 = path

/-- `call_local_dyn_libffi` with the answer of `ffi_prep_cif`: without it, the function is not
called, and the buffer stays as it was cleared. -/
def callPrepared (L : Loader η) (mem prep : Bool) (cache : DlCache η) (path func : Bytes)
    (input : Option Bytes) : Called η :=
  let r := callLocalDynLibffi L mem cache path func input
  if !prep && !r.invoked.isEmpty then ⟨-999, some [], [], r.cache⟩ else r

/-- How an executed call ends: without the library, without the symbol in it, before the function is
called, or with what the function returns. -/
inductive Ended (L : Loader η) (mem prep : Bool) (cache : DlCache η) (path func : Bytes)
    (input : Option Bytes) : Int → List (Invocation η) → Prop
  | unloaded (h : (dlGet L cache path).1 = none) : Ended L mem prep cache path func input (-1) []
  | lacking {h : η} (loaded : (dlGet L cache path).1 = some h) (missing : L.dlsym h func = false) :
      Ended L mem prep cache path func input (-2) []
  | unready {h : η} {rc : Int} (loaded : (dlGet L cache path).1 = some h)
      (found : L.dlsym h func = true) (unready : mem = false ∨ prep = false)
      (code : rc = -3 ∨ rc = -999) : Ended L mem prep cache path func input rc []
  | returned {h : η} (loaded : (dlGet L cache path).1 = some h) (found : L.dlsym h func = true)
      (ready : mem = true ∧ prep = true) :
      Ended L mem prep cache path func input (L.invoke h func input).1 [⟨h, func, input⟩]

private theorem call_ended (L : Loader η) (mem prep : Bool) (cache : DlCache η) (path func : Bytes)
    (input : Option Bytes) : Ended L mem prep cache path func input
      (callPrepared L mem prep cache path func input).rc
      (callPrepared L mem prep cache path func input).invoked := by
  obtain ⟨r, hr⟩ : ∃ r, callLocalDynLibffi L mem cache path func input = r := ⟨_, rfl⟩
  rw [callPrepared, hr]
  unfold callLocalDynLibffi at hr
  dsimp only at hr
  cases hget : (dlGet L cache path).1 with
  | none =>
    rw [hget] at hr
    obtain rfl := hr
    rw [if_neg (by simp)]
    exact .unloaded hget
  | some h =>
    rw [hget] at hr
    dsimp only at hr
    split at hr
    · rename_i hsym
      obtain rfl := hr
      rw [if_neg (by simp)]
      exact .lacking hget hsym
    · rename_i hsym
      have hfound : L.dlsym h func = true := by simpa using hsym
      split at hr
      · rename_i hmem
        obtain rfl := hr
        rw [if_neg (by simp)]
        exact .unready hget hfound (Or.inl hmem) (Or.inl rfl)
      · rename_i hmem
        obtain rfl := hr
        cases prep with
        | false =>
          rw [if_pos (by simp)]
          exact .unready hget hfound (Or.inr rfl) (Or.inr rfl)
        | true =>
          rw [if_neg (by simp)]
          exact .returned hget hfound ⟨by simpa using hmem, rfl⟩

section Codes

variable {rc : Int} {is : List (Invocation η)}

/-- The code of a response names the stage at which a call ended. -/
structure NamesStage (L : Loader η) (loads : List (Bytes × η)) (path func : Bytes)
    (input : Option Bytes) (is : List (Invocation η)) (code : Int) : Prop where
  library : code = WS_CALL_ERR_LIB ↔ libraryAt L loads path = none
  symbol : code = WS_CALL_ERR_SYMBOL ↔ ∃ h, libraryAt L loads path = some h ∧ L.dlsym h func = false
  failed : ∀ i ∈ is, (L.invoke i.handle i.symbol i.input).1 ≠ 0 → code = WS_CALL_ERR_INVOKE
  done : code = WS_CALL_OK ↔ ∃ h, libraryAt L loads path = some h ∧ ⟨h, func, input⟩ ∈ is ∧
    (L.invoke h func input).1 = 0

/-- A return value of a plugin that is also a return code of the caller itself. -/
def Mistakable (rc : Int) : Prop := rc = -1 ∨ rc = -2 ∨ rc = -100

instance (rc : Int) : Decidable (Mistakable rc) := inferInstanceAs (Decidable (_ ∨ _ ∨ _))

/-- The function of a library, where it is called, returns no code of the caller. -/
def OwnReturn (L : Loader η) (mem prep : Bool) (func : Bytes) (input : Option Bytes) (h : η) : Prop :=
  L.dlsym h func = true → mem = true → prep = true → ¬Mistakable (L.invoke h func input).1

/-- The library that the cut path finds passes for the one that is meant. -/
structure Passes (L : Loader η) (mem prep : Bool) (func : Bytes) (input : Option Bytes)
    (found meant : Option η) : Prop where
  there : found = none ↔ meant = none
  symbol : ∀ x ∈ found, ∀ y ∈ meant, L.dlsym x func = L.dlsym y func
  own : ∀ x ∈ found, OwnReturn L mem prep func input x
  done : ∀ x ∈ found, L.dlsym x func = true → mem = true → prep = true →
    (L.invoke x func input).1 = 0 → meant = some x

private theorem mapRc_lib : wsCallMapRc rc = WS_CALL_ERR_LIB ↔ rc = -1 := by
  unfold wsCallMapRc
  split_ifs with h0 h100 h1 h2 <;>
    simp_all [WS_CALL_OK, WS_CALL_ERR_PARAM, WS_CALL_ERR_LIB, WS_CALL_ERR_SYMBOL, WS_CALL_ERR_INVOKE]

private theorem mapRc_symbol : wsCallMapRc rc = WS_CALL_ERR_SYMBOL ↔ rc = -2 := by
  unfold wsCallMapRc
  split_ifs with h0 h100 h1 h2 <;>
    simp_all [WS_CALL_OK, WS_CALL_ERR_PARAM, WS_CALL_ERR_LIB, WS_CALL_ERR_SYMBOL, WS_CALL_ERR_INVOKE]

private theorem mapRc_ok : wsCallMapRc rc = WS_CALL_OK ↔ rc = 0 := by
  unfold wsCallMapRc
  split_ifs with h0 h100 h1 h2 <;>
    simp_all [WS_CALL_OK, WS_CALL_ERR_PARAM, WS_CALL_ERR_LIB, WS_CALL_ERR_SYMBOL, WS_CALL_ERR_INVOKE]

/-- Every other return value of a plugin is mapped as a failed call. -/
private theorem mapRc_invoke (hrc : rc ≠ 0) :
    wsCallMapRc rc = WS_CALL_ERR_INVOKE ↔ ¬Mistakable rc := by
  unfold wsCallMapRc Mistakable
  rw [if_neg hrc]
  split_ifs with h100 h1 h2 <;>
    simp_all [WS_CALL_ERR_PARAM, WS_CALL_ERR_LIB, WS_CALL_ERR_SYMBOL, WS_CALL_ERR_INVOKE]

/-- `dl_get` goes by the paths that its entries have kept. -/
private theorem dlGet_cacheOf (L : Loader η) (loads : List (Bytes × η)) (path : Bytes) :
    (dlGet L (cacheOf loads) path).1 = cutMatch L loads path := by
  have hfind : (cacheOf loads).find? (fun e => decide (e.1 = path)) =
      (loads.find? fun e => decide (snprintf 256 e.1 = path)).map fun e => (snprintf 256 e.1, e.2) :=
    List.find?_map
  rw [dlGet, hfind, cacheOf, List.length_map, cutMatch, loadOf]
  cases loads.find? fun e => decide (snprintf 256 e.1 = path) with
  | some e => rfl
  | none =>
    dsimp only [Option.map_none]
    split
    · cases L.dlopen path <;> rfl
    · rfl

private theorem cutMatch_apart (h : Apart loads path) :
    cutMatch L loads path = libraryAt L loads path := by
  have hfind : (loads.find? fun e => decide (snprintf 256 e.1 = path)) =
      loads.find? fun e => decide (e.1 = path) :=
    List.find?_congr fun e he => decide_eq_decide.mpr (h e he)
  rw [cutMatch, libraryAt, loadOf, loadOf, hfind]

/-- Where the paths are told apart, what is left is what the function returns. -/
private theorem passes_self (meant : Option η) : Passes L mem prep func input meant meant ↔
    ∀ h, meant = some h → OwnReturn L mem prep func input h := by
  constructor
  · exact fun passes h hmeant => passes.own h hmeant
  · intro own
    refine ⟨Iff.rfl, fun x hx y hy => ?_, own, fun x hx _ _ _ _ => hx⟩
    rw [Option.some.inj ((Option.mem_def.mp hx).symm.trans (Option.mem_def.mp hy))]

section Exits

variable {x : η} {meant : Option η}

private theorem passes_none : Passes L mem prep func input none meant ↔ meant = none := by
  constructor
  · exact fun passes => passes.there.mp rfl
  · rintro rfl
    exact (passes_self none).mpr fun h hh => by cases hh

/-- A library whose function is not called passes for any other with the symbol or without it. -/
private theorem passes_unplayed (quiet : ¬(L.dlsym x func = true ∧ mem = true ∧ prep = true)) :
    Passes L mem prep func input (some x) meant ↔
      ∃ y, meant = some y ∧ L.dlsym y func = L.dlsym x func := by
  constructor
  · intro passes
    obtain ⟨y, hy⟩ := Option.ne_none_iff_exists'.mp fun hnone =>
      Option.some_ne_none x (passes.there.mpr hnone)
    exact ⟨y, hy, (passes.symbol x rfl y hy).symm⟩
  · rintro ⟨y, rfl, hsame⟩
    refine ⟨iff_of_false (Option.some_ne_none x) (Option.some_ne_none y), ?_, ?_, ?_⟩
    · rintro _ ⟨⟩ _ ⟨⟩
      exact hsame.symm
    · rintro _ ⟨⟩ found hmem hprep
      exact absurd ⟨found, hmem, hprep⟩ quiet
    · rintro _ ⟨⟩ found hmem hprep
      exact absurd ⟨found, hmem, hprep⟩ quiet

/-- One whose function is called also has to return a value that is its own, and a success must be
that of the library that is meant. -/
private theorem passes_played (found : L.dlsym x func = true) (ready : mem = true ∧ prep = true) :
    Passes L mem prep func input (some x) meant ↔
      ∃ y, meant = some y ∧ L.dlsym y func = true ∧ ¬Mistakable (L.invoke x func input).1 ∧
        ((L.invoke x func input).1 = 0 → y = x) := by
  constructor
  · intro passes
    obtain ⟨y, hy⟩ := Option.ne_none_iff_exists'.mp fun hnone =>
      Option.some_ne_none x (passes.there.mpr hnone)
    refine ⟨y, hy, (passes.symbol x rfl y hy).symm.trans found,
      passes.own x rfl found ready.1 ready.2, fun hzero => ?_⟩
    exact Option.some.inj (hy.symm.trans (passes.done x rfl found ready.1 ready.2 hzero))
  · rintro ⟨y, rfl, hsym, hown, hdone⟩
    refine ⟨iff_of_false (Option.some_ne_none x) (Option.some_ne_none y), ?_, ?_, ?_⟩
    · rintro _ ⟨⟩ _ ⟨⟩
      rw [found, hsym]
    · rintro _ ⟨⟩ _ _ _
      exact hown
    · rintro _ ⟨⟩ _ _ _ hzero
      rw [hdone hzero]

/-- Without a call of the function, a code names the stage by what it says of the library and of the
symbol. -/
private theorem names_unplayed : NamesStage L loads path func input [] (wsCallMapRc rc) ↔
    (rc = -1 ↔ libraryAt L loads path = none) ∧
    (rc = -2 ↔ ∃ h, libraryAt L loads path = some h ∧ L.dlsym h func = false) ∧ rc ≠ 0 := by
  constructor
  · intro names
    refine ⟨mapRc_lib.symm.trans names.library, mapRc_symbol.symm.trans names.symbol, fun hzero => ?_⟩
    obtain ⟨_, _, hmem, _⟩ := names.done.mp (mapRc_ok.mpr hzero)
    exact absurd hmem List.not_mem_nil
  · rintro ⟨hlibrary, hsymbol, hzero⟩
    refine ⟨mapRc_lib.trans hlibrary, mapRc_symbol.trans hsymbol,
      fun _ hi => absurd hi List.not_mem_nil, iff_of_false (fun hok => hzero (mapRc_ok.mp hok)) ?_⟩
    rintro ⟨_, _, hmem, _⟩
    exact absurd hmem List.not_mem_nil

/-- With its call, a code also says what the function has returned. -/
private theorem names_played :
    NamesStage L loads path func input [⟨x, func, input⟩] (wsCallMapRc (L.invoke x func input).1) ↔
      ∃ y, libraryAt L loads path = some y ∧ L.dlsym y func = true ∧
        ¬Mistakable (L.invoke x func input).1 ∧ ((L.invoke x func input).1 = 0 → y = x) := by
  constructor
  · intro names
    have hown : ¬Mistakable (L.invoke x func input).1 := by
      intro hbad
      have hrc : (L.invoke x func input).1 ≠ 0 := by
        unfold Mistakable at hbad
        omega
      exact (mapRc_invoke hrc).mp (names.failed _ List.mem_cons_self hrc) hbad
    have hvalue := hown
    unfold Mistakable at hvalue
    obtain ⟨y, hy⟩ := Option.ne_none_iff_exists'.mp fun hnone => by
      have := mapRc_lib.mp (names.library.mpr hnone)
      omega
    refine ⟨y, hy, ?_, hown, fun hzero => ?_⟩
    · cases hsym : L.dlsym y func with
      | true => rfl
      | false =>
        have := mapRc_symbol.mp (names.symbol.mpr ⟨y, hy, hsym⟩)
        omega
    · obtain ⟨h, hmeant, hmem, _⟩ := names.done.mp (mapRc_ok.mpr hzero)
      rw [← Option.some.inj (hmeant.symm.trans hy)]
      exact congrArg Invocation.handle (List.mem_singleton.mp hmem)
  · rintro ⟨y, hy, hsym, hown, hdone⟩
    have hvalue := hown
    unfold Mistakable at hvalue
    refine ⟨?_, ?_, ?_, ?_⟩
    · rw [mapRc_lib, hy]
      exact iff_of_false (by omega) (Option.some_ne_none y)
    · rw [mapRc_symbol, hy]
      refine iff_of_false (by omega) ?_
      rintro ⟨_, ⟨⟩, hlacks⟩
      cases hsym.symm.trans hlacks
    · intro i hi hrc
      obtain rfl := List.mem_singleton.mp hi
      exact (mapRc_invoke hrc).mpr hown
    · rw [mapRc_ok, hy]
      constructor
      · intro hzero
        obtain rfl := hdone hzero
        exact ⟨y, rfl, List.mem_cons_self, hzero⟩
      · rintro ⟨h, _, hmem, hzero⟩
        obtain rfl := congrArg Invocation.handle (List.mem_singleton.mp hmem)
        exact hzero

end Exits

/-- The mapped code names the stage exactly when the library that was found passes for the one meant
and its function returns no code of the caller. -/
private theorem ended_names_iff (h : Ended L mem prep (cacheOf loads) path func input rc is) :
    NamesStage L loads path func input is (wsCallMapRc rc) ↔
      Passes L mem prep func input (cutMatch L loads path) (libraryAt L loads path) := by
  cases h with
  | unloaded hget =>
    rw [dlGet_cacheOf] at hget
    rw [hget, names_unplayed, passes_none]
    cases libraryAt L loads path with
    | none => simp
    | some y => simp
  | @lacking x loaded missing =>
    rw [dlGet_cacheOf] at loaded
    have hquiet : ¬(L.dlsym x func = true ∧ mem = true ∧ prep = true) := by
      rw [missing]
      exact fun h => Bool.false_ne_true h.1
    rw [loaded, names_unplayed, passes_unplayed hquiet, missing]
    cases libraryAt L loads path with
    | none => simp
    | some y => simp
  | @unready x rc loaded found unready code =>
    rw [dlGet_cacheOf] at loaded
    have hquiet : ¬(L.dlsym x func = true ∧ mem = true ∧ prep = true) := by
      rintro ⟨_, rfl, rfl⟩
      simp at unready
    have hcodes : ¬rc = -1 ∧ ¬rc = -2 ∧ rc ≠ 0 := by omega
    rw [loaded, names_unplayed, passes_unplayed hquiet, found]
    cases libraryAt L loads path with
    | none => simp [hcodes]
    | some y => simp [hcodes]
  | @returned x loaded found ready =>
    rw [dlGet_cacheOf] at loaded
    rw [loaded, names_played, passes_played found ready]

end Codes

section Responses

variable {job : WsJob} {elapsed : Nat} {now : Int} {json : Bytes} {fs : FileSystem}

/-- The code that is left in a response that is written, and the text that is written for it. -/
def Writes (json : Bytes) (code : Int) : Prop :=
  ∃ ms, json = compact ms ∧ lookup (ascii "code") ms = some (decimalInt code)

/-- A response is written with the code that its return code is mapped to. -/
private theorem response_code {timedOut : Bool} {rc : Int} {out : Option Bytes}
    (helapsed : elapsed < 2 ^ 64)
    (hnow : now.natAbs ≤ 2 ^ 63)
    (h : (response mem job elapsed timedOut rc out now).json = some json) :
    (response mem job elapsed timedOut rc out now).code = mappedCode timedOut rc ∧
      Writes json (mappedCode timedOut rc) := by
  obtain rfl := response_mem h
  unfold response at h ⊢
  split at h
  · rename_i hok
    rw [ok_text helapsed hnow] at h
    obtain rfl := Option.some.inj h
    rw [if_pos hok, ok_text helapsed hnow, hok]
    exact ⟨rfl, _, rfl, rfl⟩
  · rename_i hbad
    rw [error_text mappedCode_natAbs hnow] at h
    obtain rfl := Option.some.inj h
    rw [if_neg hbad, error_text mappedCode_natAbs hnow]
    exact ⟨rfl, _, rfl, rfl⟩

/-- The response to a call that fails. -/
private theorem failed_response {rc : Int} {out : Option Bytes} (hbad : wsCallMapRc rc ≠ WS_CALL_OK)
    (hnow : now.natAbs ≤ 2 ^ 63) : response true job elapsed false rc out now =
      ⟨some (compact (errorMembers job.id (wsCallMapRc rc) (errorText false rc) now)),
        wsCallMapRc rc⟩ := by
  change mappedCode false rc ≠ WS_CALL_OK at hbad
  rw [response, if_neg hbad, error_text mappedCode_natAbs hnow]
  rfl

/-- A call that a worker executes, on the path that the resolver leaves in its buffer, after these
libraries have been loaded. -/
def executed (L : Loader η) (mem prep : Bool) (loads : List (Bytes × η)) (fs : FileSystem)
    (job : WsJob) : Option (Called η) :=
  (workerPath fs job.lib).1.map fun path =>
    callPrepared L mem prep (cacheOf loads) path job.symbol (some job.args)

/-- The code of a response names the stage at which the call ended, except for the calls of functions
that return a code of the caller itself; where the cache cannot tell the path from another one, the
library that it finds also has to pass for the one that is meant. -/
theorem response_names_stage_iff {respMem : Bool} {r : Called η} {code : Int}
    (helapsed : elapsed < 2 ^ 64) (hnow : now.natAbs ≤ 2 ^ 63)
    (hcall : executed L mem prep loads fs job = some r)
    (hresp : response respMem job elapsed false r.rc r.jsonOut now = ⟨some json, code⟩) :
    Writes json code ∧ ∃ path, (workerPath fs job.lib).1 = some path ∧
      (Apart loads path → (NamesStage L loads path job.symbol (some job.args) r.invoked code ↔
        ∀ h, libraryAt L loads path = some h →
          OwnReturn L mem prep job.symbol (some job.args) h)) ∧
      (NamesStage L loads path job.symbol (some job.args) r.invoked code ↔
        Passes L mem prep job.symbol (some job.args) (cutMatch L loads path)
          (libraryAt L loads path)) := by
  obtain ⟨path, hpath, rfl⟩ := Option.map_eq_some_iff.mp hcall
  have hended := call_ended L mem prep (cacheOf loads) path job.symbol (some job.args)
  obtain ⟨hcode, hwrites⟩ := response_code helapsed hnow (congrArg WsCallResp.json hresp)
  rw [hresp] at hcode
  dsimp only at hcode
  rw [hcode]
  have hnames := ended_names_iff hended
  refine ⟨hwrites, path, hpath, fun apart => hnames.trans ?_, hnames⟩
  rw [cutMatch_apart apart]
  exact passes_self _

/-- A loader that finds every function, and a function that returns this value. -/
def returning (rc : Int) : Loader Nat := ⟨fun _ => some 0, fun _ _ => true, fun _ _ _ => (rc, [])⟩

/-- Where the library of `addJob` is looked for. -/
def addPath : Bytes := ascii "./libary/libmath.so"

/-- What the caller gives back for `addJob` when its function returns this value. -/
def addReturning (rc : Int) : Called Nat := ⟨rc, some [], [⟨0, addJob.symbol, some addJob.args⟩],
  [(snprintf 256 addPath, 0)]⟩

private theorem add_executed (rc : Int) :
    executed (returning rc) true true [] demoFiles addJob = some (addReturning rc) := by
  have hpath : (workerPath demoFiles addJob.lib).1 = some addPath := by decide +kernel
  rw [executed, hpath]
  rfl

/-- A function that returns 7 is answered with the code of a failed call. -/
theorem seven_names_stage : ∃ json code path,
    response true addJob 3 false 7 (some []) 1700000000 = ⟨some json, code⟩ ∧ Writes json code ∧
    (workerPath demoFiles addJob.lib).1 = some path ∧
    NamesStage (returning 7) [] path addJob.symbol (some addJob.args) (addReturning 7).invoked code := by
  have hnow : (1700000000 : Int).natAbs ≤ 2 ^ 63 := by decide
  have hseven : ¬Mistakable 7 := by decide
  obtain ⟨json, code, hresp⟩ : ∃ json code,
      response true addJob 3 false 7 (some []) 1700000000 = ⟨some json, code⟩ :=
    ⟨_, _, failed_response (by decide) hnow⟩
  obtain ⟨hwrites, path, hpath, hiff, -⟩ :=
    response_names_stage_iff (r := addReturning 7) (by decide) hnow (add_executed 7) hresp
  exact ⟨json, code, path, hresp, hwrites, hpath,
    (hiff (List.forall_mem_nil _)).mpr fun _ _ _ _ _ => hseven⟩

/-- A function that returns -1 is answered with the code of a library that cannot be loaded. -/
theorem minus_one_misnamed : ∃ json path,
    executed (returning (-1)) true true [] demoFiles addJob = some (addReturning (-1)) ∧
    response true addJob 3 false (-1) (some []) 1700000000 = ⟨some json, WS_CALL_ERR_LIB⟩ ∧
    (workerPath demoFiles addJob.lib).1 = some path ∧
    ¬NamesStage (returning (-1)) [] path addJob.symbol (some addJob.args) (addReturning (-1)).invoked
      WS_CALL_ERR_LIB := by
  have hpath : (workerPath demoFiles addJob.lib).1 = some addPath := by decide +kernel
  refine ⟨_, addPath, add_executed (-1), failed_response (by decide) (by decide), hpath, ?_⟩
  intro names
  exact absurd (names.library.mp rfl) (by decide)

end Responses

end Cyctron.Call.Stages
