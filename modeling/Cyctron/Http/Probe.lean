/- Cyctron/Http/Probe
   digest: The probe of handler.c and the handler of plugins, and when they find one library. -/

import Cyctron.Http.Routing
import Cyctron.Plugin.Resolve

set_option autoImplicit false
set_option relaxedAutoImplicit false

namespace Cyctron.Http.Probe

open Cyctron.Base.CString Cyctron.Http.Message Cyctron.Http.Routing
open Cyctron.Plugin.Path Cyctron.Plugin.Resolve

/-- The path of `plugin_resolve_path` when it succeeds. -/
def resolved (fs : FileSystem) (name : Bytes) (outSize : Nat) : Option Bytes :=
  let r := pluginResolvePath fs name outSize
  if r.1 = 0 then r.2.1 else none

/-- The library that the probe of `ev_handler` finds. -/
def probePath (fs : FileSystem) (hmUri : Bytes) : Option Bytes :=
  let probe := (cString (hmUri.take 511)).takeWhile (· ≠ 63)
  if cleanUri probe ≠ [] ∧ uriHasTraversal probe = false then resolved fs (cleanUri probe) 600
  else none

/-- The handler resolves to what the probe has found, and to a library of the name in the URI. -/
structure SameLibrary (fs : FileSystem) (hmUri : Bytes) : Prop where
  same : (evHandlerLibary fs hmUri).1 = probePath fs hmUri
  own : ∀ path, (evHandlerLibary fs hmUri).1 = some path → path ∈ candidates fs (cleanUri hmUri)

/-- The library is an entry that the scan of the directory meets, and the buffer of the handler has
no room for its path. -/
def Cut (fs : FileSystem) (name : Bytes) : Prop :=
  (Opens name ∧ ¬Hit fs (plainIn (pluginDir name) name) ∧ ¬Hit fs (libIn (pluginDir name) name)) ∧
    ∃ path, scanned fs (pluginDir name) = some path ∧ 512 ≤ path.length

/-- The name in the URI is the one that is left of it with the prefix of libraries, and both of them
name one file, which is found under both. -/
structure Doubled (fs : FileSystem) (hmUri : Bytes) : Prop where
  name : cleanUri hmUri = ascii "lib" ++ cleanUri (hmUri.take 255)
  level : uriHasTraversal hmUri = false
  empty : Opens (cleanUri hmUri) → scanned fs (pluginDir (cleanUri hmUri)) = none
  empty_cut : Opens (cleanUri (hmUri.take 255)) →
    scanned fs (pluginDir (cleanUri (hmUri.take 255))) = none
  missing : fs.fileExists (plainIn LIBARY_DIR (cleanUri (hmUri.take 255))) = false
  installed : fs.fileExists (plainIn LIBARY_DIR (cleanUri hmUri)) = true

/-- No copy of the URI or of the path loses anything that matters. -/
def Whole (fs : FileSystem) (hmUri : Bytes) : Prop :=
  if hmUri.length ≤ 255 then ¬Cut fs (cleanUri hmUri)
  else (namesPlugin fs (hmUri.take 511) = false ∧ namesPlugin fs (hmUri.take 255) = false) ∨
    Doubled fs hmUri

section Resolved

variable {fs : FileSystem} {name path : Bytes} {size : Nat}

private theorem libary_length (name : Bytes) : (libIn LIBARY_DIR name).length = name.length + 15 := by
  have hlens : LIBARY_DIR.length = 8 ∧ PATH_SEP.length = 1 ∧ (ascii "lib").length = 3 ∧
      FFI_EXT.length = 3 := by decide
  simp only [libIn, List.length_append, hlens]
  omega

/-- With room for the candidates below `./libary`, they are what is left after the directory. -/
private theorem resolved_eq (hname : name ≠ []) (hsize : name.length + 15 < size) :
    resolved fs name size = (ownLibrary fs name size).or
      ([plainIn LIBARY_DIR name, libIn LIBARY_DIR name].find? fs.fileExists) := by
  have hzero : size ≠ 0 := by omega
  have hlib : (libIn LIBARY_DIR name).length < size := by rwa [libary_length]
  have hplain := (plain_shorter LIBARY_DIR name).trans hlib
  have hminus : ¬(-1 : Int) = 0 := by decide
  rw [resolved]
  cases hown : ownLibrary fs name size with
  | some path =>
    obtain ⟨hcode, hpath⟩ := resolve_own hzero hown
    rw [Option.some_or, if_pos hcode, hpath]
  | none =>
    obtain ⟨r, hr⟩ : ∃ r, pluginResolvePath fs name size = r := ⟨_, rfl⟩
    have hfallback := resolve_fallback hname hzero hown
    rw [snprintf_fits hplain, snprintf_fits hlib] at hfallback
    rw [Option.none_or]
    cases hp : fs.fileExists (plainIn LIBARY_DIR name) with
    | true =>
      rw [if_pos hp] at hfallback
      obtain ⟨hcode, hpath⟩ := Prod.mk.inj hfallback
      rw [if_pos hcode, hpath, List.find?_cons_of_pos hp]
    | false =>
      rw [if_neg (Bool.eq_false_iff.mp hp)] at hfallback
      obtain ⟨hcode, hpath⟩ := Prod.mk.inj hfallback
      rw [hcode, hpath, List.find?_cons_of_neg (Bool.eq_false_iff.mp hp)]
      cases hl : fs.fileExists (libIn LIBARY_DIR name) with
      | true => rw [if_pos rfl, if_pos rfl, List.find?_cons_of_pos hl]
      | false =>
        rw [if_neg Bool.false_ne_true, if_neg hminus,
          List.find?_cons_of_neg (Bool.eq_false_iff.mp hl), List.find?_nil]

private theorem resolved_none_iff (hname : name ≠ []) (hsize : name.length + 16 ≤ size) :
    resolved fs name size = none ↔ installed fs name = false := by
  rw [← Bool.not_eq_true, ← resolved_iff hname hsize, resolved]
  have hpath : (pluginResolvePath fs name size).2.1 ≠ none := by
    have hzero : size ≠ 0 := by omega
    cases hown : ownLibrary fs name size with
    | some path =>
      rw [(resolve_own hzero hown).2]
      exact Option.some_ne_none path
    | none =>
      intro hnone
      have hfallback := resolve_fallback hname hzero hown
      rw [hnone] at hfallback
      split at hfallback
      · cases (Prod.mk.inj hfallback).2
      · cases (Prod.mk.inj hfallback).2
  split
  · rename_i hcode
    exact iff_of_false hpath fun h => h hcode
  · rename_i hcode
    exact iff_of_true rfl hcode

/-- What a caller finds for a URI that it has copied. -/
def found (fs : FileSystem) (uri : Bytes) (size : Nat) : Option Bytes :=
  if cleanUri uri ≠ [] ∧ uriHasTraversal uri = false then resolved fs (cleanUri uri) size else none

private theorem found_none_iff {uri : Bytes} (hsize : (cleanUri uri).length + 16 ≤ size) :
    found fs uri size = none ↔ namesPlugin fs uri = false := by
  rw [found, namesPlugin]
  by_cases h : cleanUri uri ≠ [] ∧ uriHasTraversal uri = false
  · rw [if_pos h, resolved_none_iff h.1 hsize, decide_eq_true h.1, h.2]
    rfl
  · rw [if_neg h]
    refine iff_of_true rfl ?_
    rw [Bool.eq_false_iff]
    intro hnames
    simp only [Bool.and_eq_true, decide_eq_true_eq, Bool.not_eq_true'] at hnames
    exact h hnames.1

end Resolved

section Copies

variable {fs : FileSystem} {uri path : Bytes}

private theorem handler_found (plain : 0 ∉ uri) :
    (evHandlerLibary fs uri).1 = found fs (uri.take 255) 512 := by
  have hcopy : cString (uri.take 255) = uri.take 255 :=
    cString_plain fun h => plain (List.mem_of_mem_take h)
  unfold evHandlerLibary found
  dsimp only
  rw [hcopy]
  by_cases hlevel : uriHasTraversal (uri.take 255) = true
  · rw [if_pos hlevel, if_neg fun h => Bool.false_ne_true (h.2.symm.trans hlevel)]
  · rw [if_neg hlevel]
    by_cases hname : cleanUri (uri.take 255) = []
    · rw [if_pos hname, if_neg fun h => h.1 hname]
    · have hlooked : cleanUri (uri.take 255) ≠ [] ∧ uriHasTraversal (uri.take 255) = false :=
        ⟨hname, Bool.eq_false_iff.mpr hlevel⟩
      rw [if_neg hname, if_pos hlooked]
      rfl

private theorem probe_found (plain : 0 ∉ uri ∧ 63 ∉ uri) :
    probePath fs uri = found fs (uri.take 511) 600 := by
  have hprobe : (cString (uri.take 511)).takeWhile (· ≠ 63) = uri.take 511 := by
    rw [cString_plain fun h => plain.1 (List.mem_of_mem_take h), List.takeWhile_eq_self_iff]
    intro c hc
    exact decide_eq_true fun heq => plain.2 (List.mem_of_mem_take (heq ▸ hc))
  unfold probePath
  rw [hprobe]
  rfl

private theorem clean_length (uri : Bytes) (n : Nat) : (cleanUri (uri.take n)).length ≤ n := by
  have hcut := List.length_take_le n uri
  unfold cleanUri
  split
  · rw [List.length_drop]
    omega
  · exact hcut

private theorem clean_take (uri : Bytes) {n : Nat} (hn : 0 < n) : ∃ k, n - 1 ≤ k ∧ k ≤ n ∧
    uri.length - n = (cleanUri uri).length - k ∧ cleanUri (uri.take n) = (cleanUri uri).take k := by
  cases uri with
  | nil => exact ⟨n, by omega, Nat.le_refl n, by simp [cleanUri], by simp [cleanUri]⟩
  | cons c u =>
    obtain ⟨n, rfl⟩ := Nat.exists_eq_succ_of_ne_zero (Nat.ne_of_gt hn)
    by_cases hc : c = slash
    · refine ⟨n, by omega, by omega, ?_, ?_⟩
      · simp [cleanUri, hc]
      · simp [cleanUri, hc]
    · refine ⟨n + 1, by omega, Nat.le_refl _, ?_, ?_⟩
      · simp [cleanUri, hc]
      · simp [cleanUri, hc]

end Copies

section Short

variable {fs : FileSystem} {name path uri : Bytes} {size : Nat}

private theorem own_candidate (hsize : 512 ≤ size) (h : ownLibrary fs name size = some path)
    (uncut : ¬Cut fs name) : path ∈ candidates fs name := by
  rw [ownLibrary, Option.ite_none_right_eq_some, find_eq] at h
  obtain ⟨opened, hfound⟩ := h
  refine List.mem_append_left _ ?_
  rw [ownCandidates, if_pos opened.1]
  split at hfound
  · rename_i hplain
    rw [snprintf_fits (Nat.lt_of_lt_of_le hplain.1 hsize)] at hfound
    obtain rfl := Option.some.inj hfound
    exact List.mem_cons_self
  rename_i hplain
  split at hfound
  · rename_i hlib
    rw [snprintf_fits (Nat.lt_of_lt_of_le hlib.1 hsize)] at hfound
    obtain rfl := Option.some.inj hfound
    exact List.mem_cons_of_mem _ List.mem_cons_self
  · rename_i hlib
    obtain ⟨q, hq, rfl⟩ := Option.map_eq_some_iff.mp hfound
    have hshort : q.length < 512 := by
      by_contra hlong
      exact uncut ⟨⟨opened, hplain, hlib⟩, q, hq, Nat.le_of_not_lt hlong⟩
    rw [snprintf_fits (Nat.lt_of_lt_of_le hshort hsize), hq]
    exact List.mem_cons_of_mem _ (List.mem_cons_of_mem _ List.mem_cons_self)

private theorem fallback_candidate
    (h : [plainIn LIBARY_DIR name, libIn LIBARY_DIR name].find? fs.fileExists = some path) :
    path ∈ candidates fs name :=
  List.mem_append_right _ (List.mem_of_find?_eq_some h)

/-- Without a cut, the size of the buffer does not matter. -/
private theorem own_same (uncut : ¬Cut fs name) : ownLibrary fs name 600 = ownLibrary fs name 512 := by
  rw [ownLibrary, ownLibrary, find_eq, find_eq]
  refine if_ctx_congr Iff.rfl (fun opened => ?_) fun _ => rfl
  refine if_ctx_congr Iff.rfl (fun hplain => ?_) fun hplain => ?_
  · rw [snprintf_fits (hplain.1.trans (by decide)), snprintf_fits hplain.1]
  refine if_ctx_congr Iff.rfl (fun hlib => ?_) fun hlib => ?_
  · rw [snprintf_fits (hlib.1.trans (by decide)), snprintf_fits hlib.1]
  cases hscan : scanned fs (pluginDir name) with
  | none => rfl
  | some q =>
    have hshort : q.length < 512 := by
      by_contra hlong
      exact uncut ⟨⟨opened, hplain, hlib⟩, q, hscan, Nat.le_of_not_lt hlong⟩
    rw [Option.map_some, Option.map_some, snprintf_fits (Nat.lt_trans hshort (by decide)),
      snprintf_fits hshort]

/-- A safe name stands in a URI without a step upwards. -/
private theorem opens_looked (opened : Opens (cleanUri uri)) :
    cleanUri uri ≠ [] ∧ uriHasTraversal uri = false := by
  obtain ⟨_, hdot, hname⟩ := safe_plain opened.1
  refine ⟨hname, ?_⟩
  rw [uriHasTraversal, strstr, decide_eq_false_iff_not]
  intro hin
  have hmem : 46 ∈ uri := hin.subset List.mem_cons_self
  unfold cleanUri at hdot
  split at hdot
  · rename_i hslash
    obtain ⟨u, rfl⟩ := List.head?_eq_some_iff.mp hslash
    exact hdot ((List.mem_cons.mp hmem).resolve_left (by decide))
  · exact hdot hmem

/-- For a URI that no copy cuts, only the path of an entry can be cut. -/
private theorem same_short (plain : 0 ∉ uri ∧ 63 ∉ uri) (hshort : uri.length ≤ 255) :
    SameLibrary fs uri ↔ ¬Cut fs (cleanUri uri) := by
  have hlength : (cleanUri uri).length ≤ 255 := by
    have h := clean_length uri 255
    rwa [List.take_of_length_le hshort] at h
  have hhandler : (evHandlerLibary fs uri).1 = found fs uri 512 := by
    rw [handler_found plain.1, List.take_of_length_le hshort]
  have hprobe : probePath fs uri = found fs uri 600 := by
    rw [probe_found plain, List.take_of_length_le (hshort.trans (by decide))]
  constructor
  · rintro ⟨hsame, _⟩ ⟨⟨opened, hplain, hlib⟩, q, hq, hlong⟩
    have hlooked := opens_looked opened
    have hown : ∀ size, ownLibrary fs (cleanUri uri) size = some (snprintf size q) := by
      intro size
      rw [ownLibrary, if_pos opened, find_eq, if_neg hplain, if_neg hlib, hq, Option.map_some]
    rw [hhandler, hprobe, found, found, if_pos hlooked, if_pos hlooked,
      resolved_eq hlooked.1 (by omega), resolved_eq hlooked.1 (by omega), hown, hown,
      Option.some_or, Option.some_or] at hsame
    have hcut := congrArg List.length (Option.some.inj hsame)
    rw [snprintf, snprintf, List.length_take, List.length_take] at hcut
    omega
  · intro uncut
    refine ⟨?_, fun path hpath => ?_⟩
    · rw [hhandler, hprobe, found, found]
      refine if_ctx_congr Iff.rfl (fun hlooked => ?_) fun _ => rfl
      rw [resolved_eq hlooked.1 (by omega), resolved_eq hlooked.1 (by omega), own_same uncut]
    · rw [hhandler, found, Option.ite_none_right_eq_some] at hpath
      obtain ⟨hlooked, hpath⟩ := hpath
      rw [resolved_eq hlooked.1 (by omega)] at hpath
      rcases Option.or_eq_some_iff.mp hpath with hown | ⟨_, hrest⟩
      · exact own_candidate (Nat.le_refl 512) hown uncut
      · exact fallback_candidate hrest

end Short

section Long

variable {fs : FileSystem} {name rest path uri : Bytes}

/-- A name of that length has no candidate by its name in its directory. -/
private theorem long_not_hit (hlong : 249 ≤ name.length) : ¬Hit fs (plainIn (pluginDir name) name) ∧
    ¬Hit fs (libIn (pluginDir name) name) := by
  have hlens : PLUGINS_DIR.length = 9 ∧ PATH_SEP.length = 1 ∧ FFI_EXT.length = 3 := by decide
  have hplain : (plainIn (pluginDir name) name).length = 14 + 2 * name.length := by
    simp only [plainIn, pluginDir, List.length_append, hlens]
    omega
  have hlib := plain_shorter (pluginDir name) name
  have hmax : PLUGIN_PATH_MAX = 512 := rfl
  refine ⟨fun h => ?_, fun h => ?_⟩
  · have hshort := h.1
    omega
  · have hshort := h.1
    omega

private theorem long_own (hlong : 249 ≤ name.length) (size : Nat) : ownLibrary fs name size =
    if Opens name then (scanned fs (pluginDir name)).map (snprintf size) else none := by
  obtain ⟨hplain, hlib⟩ := @long_not_hit fs name hlong
  rw [ownLibrary, find_eq, if_neg hplain, if_neg hlib]

/-- A library in the directory of a front of the name is no candidate. -/
private theorem front_own (hrest : rest ≠ []) (hlong : 249 ≤ name.length) (hshort : name.length ≤ 255)
    (h : ownLibrary fs name 512 = some path) : path ∉ candidates fs (name ++ rest) := by
  rw [long_own hlong, Option.ite_none_right_eq_some] at h
  obtain ⟨_, hscan⟩ := h
  obtain ⟨q, hq, rfl⟩ := Option.map_eq_some_iff.mp hscan
  obtain ⟨e, _, rfl⟩ := Option.map_eq_some_iff.mp hq
  have hlens : PLUGINS_DIR.length = 9 ∧ PATH_SEP.length = 1 := by decide
  have hfront : pluginDir name ++ PATH_SEP <+:
      snprintf 512 (pluginDir name ++ PATH_SEP ++ e.dName) := by
    refine prefix_snprintf ?_
    simp only [pluginDir, List.length_append, hlens]
    omega
  have hplugins : PLUGINS_DIR <+: pluginDir name ++ PATH_SEP :=
    ⟨PATH_SEP ++ name ++ PATH_SEP, by simp [pluginDir]⟩
  intro hmem
  rcases mem_candidates.mp hmem with hown | hfallback
  · obtain ⟨hsafe, hdir⟩ := own_directory hown
    have hdirs : pluginDir (name ++ rest) = pluginDir name ++ rest := by simp [pluginDir]
    rw [hdirs, List.append_assoc] at hdir
    have hsep := List.prefix_of_prefix_length_le hfront hdir
      (by simp only [List.length_append]; omega)
    rw [List.prefix_append_right_inj] at hsep
    obtain ⟨c, r, rfl⟩ := List.exists_cons_of_ne_nil hrest
    have hslash : slash = c := (List.cons_prefix_cons.mp hsep).1
    refine (safe_plain hsafe).1 (List.mem_append_right name ?_)
    rw [hslash]
    exact List.mem_cons_self
  · exact fallback_outside hfallback (hplugins.trans hfront)

/-- A library below `./libary` for a front of the name is a candidate in one case only. -/
private theorem front_fallback (hrest : rest ≠ []) (h : Fallback name path)
    (hmem : path ∈ candidates fs (name ++ rest)) :
    path = libIn LIBARY_DIR name ∧ name ++ rest = ascii "lib" ++ name := by
  have hlength : 0 < rest.length := List.length_pos_of_ne_nil hrest
  have hlens : ∀ n, (plainIn LIBARY_DIR n).length = n.length + 12 := by
    intro n
    have hparts : LIBARY_DIR.length = 8 ∧ PATH_SEP.length = 1 ∧ FFI_EXT.length = 3 := by decide
    simp only [plainIn, List.length_append, hparts]
    omega
  rcases mem_candidates.mp hmem with hown | hlibary
  · exact absurd (own_plugins hown) (fallback_outside h)
  rcases h with rfl | rfl
  · rcases hlibary with heq | heq
    · have hcut := congrArg List.length heq
      rw [hlens, hlens, List.length_append] at hcut
      omega
    · have hcut := congrArg List.length heq
      rw [hlens, libary_length, List.length_append] at hcut
      omega
  · rcases hlibary with heq | heq
    · refine ⟨rfl, ?_⟩
      have hparts : LIBARY_DIR ++ PATH_SEP ++ ((ascii "lib" ++ name) ++ FFI_EXT) =
          LIBARY_DIR ++ PATH_SEP ++ ((name ++ rest) ++ FFI_EXT) := by
        simpa only [libIn, plainIn, List.append_assoc] using heq
      exact (List.append_cancel_right (List.append_cancel_left hparts)).symm
    · have hcut := congrArg List.length heq
      rw [libary_length, libary_length, List.length_append] at hcut
      omega

private theorem own_outside (hlong : 249 ≤ name.length) {size : Nat} (hsize : 512 ≤ size)
    (h : ownLibrary fs name size = some path) : PLUGINS_DIR <+: path := by
  rw [long_own hlong, Option.ite_none_right_eq_some] at h
  obtain ⟨q, hq, rfl⟩ := Option.map_eq_some_iff.mp h.2
  obtain ⟨e, _, rfl⟩ := Option.map_eq_some_iff.mp hq
  have hlens : PLUGINS_DIR.length = 9 := by decide
  have hshape : pluginDir name ++ PATH_SEP ++ e.dName =
      PLUGINS_DIR ++ (PATH_SEP ++ name ++ PATH_SEP ++ e.dName) := by simp [pluginDir]
  rw [hshape]
  exact prefix_snprintf (by omega)

private theorem own_none_iff (hlong : 249 ≤ name.length) (size : Nat) :
    ownLibrary fs name size = none ↔
    (Opens name → scanned fs (pluginDir name) = none) := by
  rw [long_own hlong]
  by_cases hopened : Opens name
  · rw [if_pos hopened, Option.map_eq_none_iff]
    exact ⟨fun h _ => h, fun h => h hopened⟩
  · rw [if_neg hopened]
    exact iff_of_true rfl fun h => absurd h hopened

private theorem plain_lib (dir name : Bytes) : plainIn dir (ascii "lib" ++ name) = libIn dir name := by
  simp [plainIn, libIn]

private theorem level_take {n : Nat} (h : uriHasTraversal uri = false) :
    uriHasTraversal (uri.take n) = false := by
  rw [uriHasTraversal, strstr, decide_eq_false_iff_not] at h ⊢
  exact fun hin => h (hin.trans (List.take_prefix n uri).isInfix)

/-- The name in a URI that is cut is a front of the name in the URI. -/
private theorem clean_front (hlong : 255 < uri.length) : ∃ rest, rest ≠ [] ∧
    cleanUri uri = cleanUri (uri.take 255) ++ rest ∧ 254 ≤ (cleanUri (uri.take 255)).length ∧
    uri.length = rest.length + 255 := by
  obtain ⟨k, hlow, hhigh, hlength, htake⟩ := clean_take uri (show 0 < 255 by decide)
  refine ⟨(cleanUri uri).drop k, ?_, ?_, ?_, ?_⟩
  · intro h
    have hdrop := congrArg List.length h
    rw [List.length_drop, List.length_nil] at hdrop
    omega
  · rw [htake, List.take_append_drop]
  · rw [htake, List.length_take]
    omega
  · rw [List.length_drop]
    omega

/-- What both find for a URI that the handler cuts is below `./libary`. -/
private theorem doubled_of_same (plain : 0 ∉ uri ∧ 63 ∉ uri) (hlong : 255 < uri.length)
    (h : SameLibrary fs uri) (hpath : (evHandlerLibary fs uri).1 = some path) : Doubled fs uri := by
  obtain ⟨rest, hrest, hclean, hlow, hlength⟩ := clean_front hlong
  have hshort := clean_length uri 255
  obtain ⟨b, hb⟩ : ∃ b, cleanUri (uri.take 255) = b := ⟨_, rfl⟩
  rw [hb] at hclean hlow hshort
  have hmem := h.own path hpath
  have hsame := hpath.symm.trans h.same
  rw [hclean] at hmem
  rw [handler_found plain.1, found, Option.ite_none_right_eq_some, hb] at hpath
  obtain ⟨hlooked, hpath⟩ := hpath
  rw [resolved_eq hlooked.1 (by omega)] at hpath
  rcases Option.or_eq_some_iff.mp hpath with hin | ⟨hnone, hfind⟩
  · exact absurd hmem (front_own hrest (by omega) hshort hin)
  have hfallback : path = plainIn LIBARY_DIR b ∨ path = libIn LIBARY_DIR b := by
    simpa only [List.mem_cons, List.not_mem_nil, or_false] using List.mem_of_find?_eq_some hfind
  obtain ⟨rfl, hname⟩ := front_fallback hrest hfallback hmem
  have hthree : rest.length = 3 := by
    have hsum := congrArg List.length hname
    have hlib : (ascii "lib").length = 3 := rfl
    rw [List.length_append, List.length_append, hlib] at hsum
    omega
  -- the probe sees the whole of a URI that is longer by three bytes only
  rw [probe_found plain, List.take_of_length_le (by omega), found] at hsame
  obtain ⟨hlookedWhole, hwhole⟩ := Option.ite_none_right_eq_some.mp hsame.symm
  rw [hclean] at hwhole hlookedWhole
  rw [resolved_eq hlookedWhole.1 (by rw [List.length_append]; omega)] at hwhole
  have hlongName : 249 ≤ (b ++ rest).length := by
    rw [List.length_append]
    omega
  have hnoneWhole : ownLibrary fs (b ++ rest) 600 = none := by
    rcases Option.or_eq_some_iff.mp hwhole with hin | ⟨hnoneWhole, _⟩
    · exact absurd (own_outside hlongName (by decide) hin) (fallback_outside (Or.inr rfl))
    · exact hnoneWhole
  refine ⟨?_, hlookedWhole.2, ?_, ?_, ?_, ?_⟩
  · rw [hb, hclean, hname]
  · rw [hclean]
    exact (own_none_iff hlongName 600).mp hnoneWhole
  · rw [hb]
    exact (own_none_iff (by omega) 512).mp hnone
  · rw [hb, ← Bool.not_eq_true]
    intro hplain
    rw [List.find?_cons_of_pos hplain] at hfind
    exact plain_ne_lib LIBARY_DIR b (Option.some.inj hfind)
  · rw [hclean, hname, plain_lib]
    exact List.find?_some hfind

private theorem same_of_doubled (plain : 0 ∉ uri ∧ 63 ∉ uri) (hlong : 255 < uri.length)
    (h : Doubled fs uri) : SameLibrary fs uri := by
  obtain ⟨rest, _, hclean, hlow, hlength⟩ := clean_front hlong
  have hshort := clean_length uri 255
  obtain ⟨hname, hlevel, hempty, hemptyCut, hmissing, hexists⟩ := h
  obtain ⟨b, hb⟩ : ∃ b, cleanUri (uri.take 255) = b := ⟨_, rfl⟩
  rw [hb] at hclean hlow hshort hname hemptyCut hmissing
  have hnameLength : (cleanUri uri).length = b.length + 3 := by
    have hlib : (ascii "lib").length = 3 := rfl
    rw [hname, List.length_append, hlib]
    omega
  have huri : uri.take 511 = uri := by
    have hsum := congrArg List.length hclean
    rw [List.length_append] at hsum
    exact List.take_of_length_le (by omega)
  have hne : b ≠ [] := List.ne_nil_of_length_pos (by omega)
  have hneWhole : cleanUri uri ≠ [] := List.ne_nil_of_length_pos (by omega)
  have hhandled : (evHandlerLibary fs uri).1 = some (plainIn LIBARY_DIR (cleanUri uri)) := by
    have hlooked : cleanUri (uri.take 255) ≠ [] ∧ uriHasTraversal (uri.take 255) = false :=
      ⟨hb ▸ hne, level_take hlevel⟩
    rw [handler_found plain.1, found, if_pos hlooked, hb, resolved_eq hne (by omega),
      (own_none_iff (by omega) 512).mpr hemptyCut, Option.none_or,
      List.find?_cons_of_neg (Bool.eq_false_iff.mp hmissing), hname, plain_lib,
      List.find?_cons_of_pos (by rwa [hname, plain_lib] at hexists)]
  have hprobed : probePath fs uri = some (plainIn LIBARY_DIR (cleanUri uri)) := by
    have hlooked : cleanUri uri ≠ [] ∧ uriHasTraversal uri = false := ⟨hneWhole, hlevel⟩
    rw [probe_found plain, huri, found, if_pos hlooked, resolved_eq hneWhole (by omega),
      (own_none_iff (by omega) 600).mpr hempty, Option.none_or, List.find?_cons_of_pos hexists]
  refine ⟨hhandled.trans hprobed.symm, fun path hpath => ?_⟩
  obtain rfl := Option.some.inj (hhandled.symm.trans hpath)
  exact mem_candidates.mpr (Or.inr (Or.inl rfl))

/-- For a URI that the handler cuts, there is one library at most that both find. -/
private theorem same_long (plain : 0 ∉ uri ∧ 63 ∉ uri) (hlong : 255 < uri.length) :
    SameLibrary fs uri ↔ (namesPlugin fs (uri.take 511) = false ∧
      namesPlugin fs (uri.take 255) = false) ∨ Doubled fs uri := by
  have hprobed : probePath fs uri = none ↔ namesPlugin fs (uri.take 511) = false := by
    have hcut := clean_length uri 511
    rw [probe_found plain, found_none_iff (by omega)]
  have hhandled : (evHandlerLibary fs uri).1 = none ↔ namesPlugin fs (uri.take 255) = false := by
    have hcut := clean_length uri 255
    rw [handler_found plain.1, found_none_iff (by omega)]
  rw [← hprobed, ← hhandled]
  constructor
  · intro h
    cases hpath : (evHandlerLibary fs uri).1 with
    | none => exact Or.inl ⟨h.same.symm.trans hpath, rfl⟩
    | some path => exact Or.inr (doubled_of_same plain hlong h hpath)
  · rintro (⟨hnone, hnone'⟩ | h)
    · refine ⟨hnone'.trans hnone.symm, fun path hpath => ?_⟩
      cases hnone'.symm.trans hpath
    · exact same_of_doubled plain hlong h

end Long

section Requests

/-- The dispatcher goes on the probe. -/
theorem probe_route (fs : FileSystem) (hm : HttpMessage) :
    (pluginRoute fs hm.uri).1 = (probePath fs hm.uri).isSome := by
  have hcut := clean_length hm.uri 511
  have hnone := @found_none_iff fs 600 (hm.uri.take 511) (by omega)
  rw [← probe_found hm.uri_plain] at hnone
  rw [Bool.eq_iff_iff, pluginRoute_iff hm.uri_plain, Option.isSome_iff_ne_none, ne_eq, hnone,
    Bool.not_eq_false]

/-- Probe and handler see one library, the one of the URI, exactly when no copy loses anything that
matters. -/
theorem same_library_iff (fs : FileSystem) (hm : HttpMessage) :
    SameLibrary fs hm.uri ↔ Whole fs hm.uri := by
  rw [Whole]
  split
  · rename_i hshort
    exact same_short hm.uri_plain hshort
  · rename_i hlong
    exact same_long hm.uri_plain (Nat.lt_of_not_le hlong)

def onlyFile (file : Bytes) : FileSystem := ⟨fun path => decide (path = file), fun _ => none⟩

/-- A path of directories that ends at the last byte which the handler copies. -/
def deepUri : Bytes := slash :: (List.replicate 126 [97, slash]).flatten ++ [98, 99]

theorem deep_plain : 0 ∉ deepUri ++ [100] ∧ 63 ∉ deepUri ++ [100] := by decide +kernel

def deepRequest : HttpMessage :=
  ⟨GET, deepUri ++ [100], [], [], [], get_plain, deep_plain, plain_nil, headers_nil, size_nil⟩

/-- The library of the URI is found by the probe only, and the one of its front by the handler only. -/
theorem copies_differ : ¬SameLibrary (onlyFile (plainIn LIBARY_DIR (cleanUri deepRequest.uri)))
      deepRequest.uri ∧
    ¬SameLibrary (onlyFile (plainIn LIBARY_DIR (cleanUri deepUri))) deepRequest.uri := by
  refine ⟨fun h => ?_, fun h => ?_⟩
  · exact absurd h.same (by decide +kernel)
  · exact absurd h.same (by decide +kernel)

end Requests

end Cyctron.Http.Probe
