/- Cyctron/Plugin/Path
   digest: The resolver of plugin_path.c with its callers, and where the paths it gives can lie. -/

import Cyctron.Base.Path
import Cyctron.Call.Protocol

set_option autoImplicit false
set_option relaxedAutoImplicit false

namespace Cyctron.Plugin.Path

open Cyctron.Base.CString Cyctron.Base.Path Cyctron.Call.Protocol

abbrev PLUGIN_PATH_MAX : Nat := 512

def PATH_SEP : Bytes := ascii "/"
def LIBARY_DIR : Bytes := ascii "./libary"
def PLUGINS_DIR : Bytes := ascii "./plugins"
def FFI_EXT : Bytes := ascii ".so"

def slash : UInt8 := 47

def dotDot : Bytes := ascii ".."

/-- The name of a directory entry has no slash. -/
structure DirEntry where
  dName : Bytes
  plain : slash ∉ dName

/-- What `stat` and `opendir` say; entries come in the order of `readdir`. -/
structure FileSystem where
  fileExists : Bytes → Bool
  entries : Bytes → Option (List DirEntry)

def pluginNameIsSafe (name : Bytes) : Bool := wsSafeName name

/-- The entry ends with the extension of libraries and has a name before it. -/
def hasLibraryName (e : DirEntry) : Bool :=
  FFI_EXT.length < e.dName.length && e.dName.drop (e.dName.length - FFI_EXT.length) = FFI_EXT

/-- The path that `find_library_in_dir` writes, if any, and the paths that it asks the file system
about. -/
def findLibraryInDir (fs : FileSystem) (dir name : Bytes) (outSize : Nat) :
    Option Bytes × List Bytes :=
  let plain := dir ++ PATH_SEP ++ name ++ FFI_EXT
  let lib := dir ++ PATH_SEP ++ ascii "lib" ++ name ++ FFI_EXT
  let fits (candidate : Bytes) : Bool := candidate.length < PLUGIN_PATH_MAX
  let asked (candidate : Bytes) : List Bytes := if fits candidate then [candidate] else []
  if fits plain && fs.fileExists plain then (some (snprintf outSize plain), asked plain)
  else if fits lib && fs.fileExists lib then (some (snprintf outSize lib), asked plain ++ asked lib)
  else
    let found := (fs.entries dir).bind fun es => es.find? hasLibraryName
    (found.map fun e => snprintf outSize (dir ++ PATH_SEP ++ e.dName),
      asked plain ++ asked lib ++ [dir])

/-- Return code of `plugin_resolve_path`, the path that is left in its buffer, and the paths that it
asks the file system about. -/
def pluginResolvePath (fs : FileSystem) (name : Bytes) (outSize : Nat) :
    Int × Option Bytes × List Bytes :=
  if name = [] ∨ outSize = 0 then (-1, none, [])
  else
    let dir := PLUGINS_DIR ++ PATH_SEP ++ name
    let r := if pluginNameIsSafe name && decide (dir.length < PLUGIN_PATH_MAX) then
      findLibraryInDir fs dir name outSize else (none, [])
    match r.1 with
    | some path => (0, some path, r.2)
    | none =>
      let plain := snprintf outSize (LIBARY_DIR ++ PATH_SEP ++ name ++ FFI_EXT)
      let lib := snprintf outSize (LIBARY_DIR ++ PATH_SEP ++ ascii "lib" ++ name ++ FFI_EXT)
      if fs.fileExists plain then (0, some plain, r.2 ++ [plain])
      else (if fs.fileExists lib then 0 else -1, some lib, r.2 ++ [plain, lib])

def uriHasTraversal (uri : Bytes) : Bool := strstr uri (ascii "..")

/-- The name in a URI. -/
def cleanUri (uri : Bytes) : Bytes := if uri.head? = some slash then uri.drop 1 else uri

/-- `ev_handler_libary` up to the call of the plugin: the path handed to the loader, if any, and the
paths that were asked about. -/
def evHandlerLibary (fs : FileSystem) (hmUri : Bytes) : Option Bytes × List Bytes :=
  let uri := cString (hmUri.take 255)
  if uriHasTraversal uri then (none, [])
  else if cleanUri uri = [] then (none, [])
  else
    let r := pluginResolvePath fs (cleanUri uri) 512
    (if r.1 = 0 then r.2.1 else none, r.2.2)

/-- The question of `ev_handler` whether a URI names a plugin. -/
def pluginRoute (fs : FileSystem) (hmUri : Bytes) : Bool × List Bytes :=
  let probe := (cString (hmUri.take 511)).takeWhile (· ≠ 63)
  if cleanUri probe ≠ [] ∧ uriHasTraversal probe = false then
    let r := pluginResolvePath fs (cleanUri probe) 600
    (r.1 = 0, r.2.2)
  else (false, [])

def sseSafeName (s : Bytes) : Bool := wsSafeName s

/-- `sse_lib_path` into a buffer of 512 bytes. -/
def sseLibPath (fs : FileSystem) (lib : Bytes) : Option Bytes × List Bytes :=
  let r := pluginResolvePath fs lib 512
  (if r.1 = 0 then r.2.1 else some (snprintf 512 (LIBARY_DIR ++ PATH_SEP ++ lib ++ FFI_EXT)), r.2.2)

/-- A query parameter copied to a field of the given size, or the default of the field. -/
def queryField (dflt : String) (size : Nat) (var : Option Bytes) : Bytes :=
  match var with
  | none | some [] => ascii dflt
  | some v => snprintf size (cString v)

/-- The library and the symbol that `ev_handler_sse` accepts; the parameters are what
`mg_http_get_var` decodes. -/
def sseAccepts (lib symbol : Option Bytes) : Option (Bytes × Bytes) :=
  let l := queryField "sse_demo" 64 lib
  let f := queryField "sse_next" 128 symbol
  if sseSafeName l && sseSafeName f then some (l, f) else none

/-- The path on which a worker calls an accepted request. -/
def workerPath (fs : FileSystem) (lib : Bytes) : Option Bytes × List Bytes :=
  (pluginResolvePath fs lib 512).2

/-- A library of a plugin with a safe name, or one below `./libary`, and no step upwards. -/
structure Confined (path : Bytes) : Prop where
  place : (∃ name file, pluginNameIsSafe name = true ∧ slash ∉ file ∧
      path = PLUGINS_DIR ++ PATH_SEP ++ name ++ PATH_SEP ++ file) ∨
    ascii "./libary/" <+: path
  level : ¬HasSegment slash dotDot path

/-- Below `./plugins`, only the directory of a safe name is asked about. -/
def Consults (probes : List Bytes) : Prop :=
  ∀ path ∈ probes, PLUGINS_DIR <+: path → ∃ name, pluginNameIsSafe name = true ∧
    (path = PLUGINS_DIR ++ PATH_SEP ++ name ∨ PLUGINS_DIR ++ PATH_SEP ++ name ++ PATH_SEP <+: path)

section Names

variable {name x file : Bytes}

/-- A safe name has no slash and no dot, and is not empty. -/
theorem safe_plain (safe : pluginNameIsSafe name = true) :
    slash ∉ name ∧ 46 ∉ name ∧ name ≠ [] := by
  simp only [pluginNameIsSafe, wsSafeName, Bool.and_eq_true, decide_eq_true_eq,
    List.all_eq_true] at safe
  obtain ⟨hne, hall⟩ := safe
  refine ⟨?_, ?_, hne⟩
  · intro hmem
    exact absurd (hall slash hmem) (by decide)
  · intro hmem
    exact absurd (hall 46 hmem) (by decide)

/-- The name does not contain two dots in a row. -/
def Level (name : Bytes) : Prop := ¬dotDot <:+: name

private theorem level_of_safe (safe : pluginNameIsSafe name = true) : Level name := by
  intro h
  exact (safe_plain safe).2.1 (h.subset List.mem_cons_self)

theorem Level.lib (h : Level name) : Level (ascii "lib" ++ name) := by
  intro hin
  refine h ?_
  change 46 :: [46] <:+: 108 :: 105 :: 98 :: name at hin
  rwa [infix_cons_of_ne (by decide), infix_cons_of_ne (by decide),
    infix_cons_of_ne (by decide)] at hin

/-- With the extension of a library, such a name has no segment upwards. -/
private theorem Level.extended (h : Level x) : ¬HasSegment slash dotDot (x ++ FFI_EXT) := by
  intro hseg
  have hshape : slash :: (x ++ FFI_EXT) ++ [slash] =
      (((slash :: x ++ [46]) ++ [115]) ++ [111]) ++ [slash] := by
    change slash :: (x ++ [46, 115, 111]) ++ [slash] = _
    simp
  have hnot : ¬[slash, 46, 46] <:+ ((slash :: x ++ [46]) ++ [115]) ++ [111] := by
    intro hs
    rw [← List.reverse_prefix, List.reverse_append] at hs
    exact absurd (List.cons_prefix_cons.mp hs).1 (by decide)
  unfold HasSegment at hseg
  rw [hshape] at hseg
  rcases List.infix_concat_iff.mp hseg with hs | hin
  · exact hnot (List.suffix_append_self_iff.mp hs)
  · rw [infix_concat_of_ne (by decide), infix_concat_of_ne (by decide),
      infix_concat_of_ne (by decide)] at hin
    have hdots : dotDot <:+: slash :: x := List.IsInfix.trans ⟨[slash], [slash], rfl⟩ hin
    change 46 :: [46] <:+: slash :: x at hdots
    rw [infix_cons_of_ne (by decide)] at hdots
    exact h hdots

end Names

section Candidates

variable {name x file : Bytes}

/-- A candidate below `./libary`. -/
private theorem confined_libary (h : Level x) : Confined (LIBARY_DIR ++ PATH_SEP ++ x ++ FFI_EXT) := by
  have hshape : LIBARY_DIR ++ PATH_SEP ++ x ++ FFI_EXT = LIBARY_DIR ++ slash :: (x ++ FFI_EXT) := by
    change LIBARY_DIR ++ [slash] ++ x ++ FFI_EXT = _
    simp
  refine ⟨Or.inr ⟨x ++ FFI_EXT, ?_⟩, ?_⟩
  · rw [hshape]
    rfl
  · rw [hshape, hasSegment_append (by decide), not_or]
    exact ⟨by decide, h.extended⟩

/-- A file in the directory of a plugin. -/
private theorem confined_plugin (safe : pluginNameIsSafe name = true) (plain : slash ∉ file)
    (up : file ≠ dotDot) : Confined (PLUGINS_DIR ++ PATH_SEP ++ name ++ PATH_SEP ++ file) := by
  obtain ⟨hslash, hdot, _⟩ := safe_plain safe
  have hshape : PLUGINS_DIR ++ PATH_SEP ++ name ++ PATH_SEP ++ file =
      PLUGINS_DIR ++ slash :: (name ++ slash :: file) := by
    change PLUGINS_DIR ++ [slash] ++ name ++ [slash] ++ file = _
    simp
  refine ⟨Or.inl ⟨name, file, safe, plain, rfl⟩, ?_⟩
  rw [hshape, hasSegment_append (by decide), hasSegment_append (by decide), not_or, not_or,
    hasSegment_single hslash, hasSegment_single plain]
  refine ⟨by decide, ?_, fun h => up h.symm⟩
  rintro rfl
  exact hdot List.mem_cons_self

end Candidates

section Resolve

variable {fs : FileSystem} {name path : Bytes}

/-- The names that the callers pass: not empty, shorter than a URI field, and level. -/
structure Passed (name : Bytes) : Prop where
  ne : name ≠ []
  length : name.length ≤ 255
  level : Level name

private theorem slash_not_mem_extended {x : Bytes} (h : slash ∉ x) : slash ∉ x ++ FFI_EXT := by
  rw [List.mem_append, not_or]
  exact ⟨h, by decide⟩

private theorem extended_ne_dotDot {x : Bytes} : x ++ FFI_EXT ≠ dotDot := by
  intro h
  have hlength := congrArg List.length h
  have hext : FFI_EXT.length = 3 := by decide
  have hdots : dotDot.length = 2 := by decide
  rw [List.length_append, hext, hdots] at hlength
  omega

/-- What is found in the directory of a safe name is a file of this directory. -/
private theorem find_confined (safe : pluginNameIsSafe name = true) (length : name.length ≤ 255)
    (h : (findLibraryInDir fs (PLUGINS_DIR ++ PATH_SEP ++ name) name 512).1 = some path) :
    Confined path := by
  obtain ⟨hslash, _, _⟩ := safe_plain safe
  have hlead : (PLUGINS_DIR ++ PATH_SEP).length = 10 := by decide
  have hsep : PATH_SEP.length = 1 := by decide
  unfold findLibraryInDir at h
  dsimp only at h
  split at h
  · rename_i hfits
    simp only [Bool.and_eq_true, decide_eq_true_eq] at hfits
    obtain rfl := Option.some.inj h
    rw [snprintf_fits hfits.1, List.append_assoc]
    exact confined_plugin safe (slash_not_mem_extended hslash) extended_ne_dotDot
  · split at h
    · rename_i hfits
      simp only [Bool.and_eq_true, decide_eq_true_eq] at hfits
      have hlib : slash ∉ ascii "lib" ++ name := by
        rw [List.mem_append, not_or]
        exact ⟨by decide, hslash⟩
      obtain rfl := Option.some.inj h
      rw [snprintf_fits hfits.1, List.append_assoc _ name, List.append_assoc _ (ascii "lib"),
        ← List.append_assoc (ascii "lib")]
      exact confined_plugin safe (slash_not_mem_extended hlib) extended_ne_dotDot
    · obtain ⟨e, he, rfl⟩ := Option.map_eq_some_iff.mp h
      obtain ⟨es, _, hfind⟩ := Option.bind_eq_some_iff.mp he
      have hname := List.find?_some hfind
      simp only [hasLibraryName, Bool.and_eq_true, decide_eq_true_eq] at hname
      -- the buffer cuts the name of the entry, but leaves more than two bytes of it
      have hcut : snprintf 512 (PLUGINS_DIR ++ PATH_SEP ++ name ++ PATH_SEP ++ e.dName) =
          PLUGINS_DIR ++ PATH_SEP ++ name ++ PATH_SEP ++ e.dName.take (500 - name.length) := by
        have hdir : (PLUGINS_DIR ++ PATH_SEP ++ name ++ PATH_SEP).length = 11 + name.length := by
          rw [List.length_append, List.length_append, hlead, hsep]
          omega
        have hrest : 511 - (11 + name.length) = 500 - name.length := by omega
        rw [snprintf, List.take_append, hdir, List.take_of_length_le (by omega), hrest]
      rw [hcut]
      refine confined_plugin safe (fun hmem => e.plain (List.mem_of_mem_take hmem)) ?_
      intro hdots
      have hlength := congrArg List.length hdots
      have hext : FFI_EXT.length = 3 := by decide
      have htwo : dotDot.length = 2 := by decide
      rw [List.length_take, htwo] at hlength
      omega

/-- Every call that a caller makes leaves a confined path. -/
private theorem resolve_confined (fs : FileSystem) (h : Passed name) :
    ∃ rc path probes, pluginResolvePath fs name 512 = (rc, some path, probes) ∧ Confined path := by
  have hlibary : ∀ x : Bytes, x.length ≤ 258 →
      snprintf 512 (LIBARY_DIR ++ PATH_SEP ++ x ++ FFI_EXT) = LIBARY_DIR ++ PATH_SEP ++ x ++ FFI_EXT := by
    intro x hx
    refine snprintf_fits ?_
    have hlead : (LIBARY_DIR ++ PATH_SEP).length = 9 := by decide
    have hext : FFI_EXT.length = 3 := by decide
    rw [List.length_append, List.length_append, hlead, hext]
    omega
  have hlength := h.length
  have hlib : (ascii "lib" ++ name).length ≤ 258 := by
    have hthree : (ascii "lib").length = 3 := by decide
    rw [List.length_append, hthree]
    omega
  unfold pluginResolvePath
  rw [if_neg (not_or.mpr ⟨h.ne, by decide⟩)]
  dsimp only
  split
  · rename_i path hfound
    split at hfound
    · rename_i hsafe
      simp only [Bool.and_eq_true] at hsafe
      exact ⟨0, path, _, rfl, find_confined hsafe.1 h.length hfound⟩
    · cases hfound
  · rw [List.append_assoc _ (ascii "lib"), hlibary name (by omega), hlibary _ hlib]
    split
    · exact ⟨0, _, _, rfl, confined_libary h.level⟩
    · exact ⟨_, _, _, rfl, confined_libary h.level.lib⟩

end Resolve

section Probes

variable {fs : FileSystem} {name : Bytes} {outSize : Nat}

/-- The paths below `./libary`, cut or not, are no paths below `./plugins`. -/
theorem libary_not_plugins {rest : Bytes} :
    ¬PLUGINS_DIR <+: snprintf outSize (LIBARY_DIR ++ rest) := by
  intro h
  have hfull : PLUGINS_DIR <+: LIBARY_DIR ++ rest := h.trans (List.take_prefix _ _)
  change 46 :: 47 :: 112 :: _ <+: 46 :: 47 :: 108 :: _ at hfull
  have hthird := List.cons_prefix_cons.mp
    (List.cons_prefix_cons.mp (List.cons_prefix_cons.mp hfull).2).2
  exact absurd hthird.1 (by decide)

private theorem find_consults (safe : pluginNameIsSafe name = true) :
    Consults (findLibraryInDir fs (PLUGINS_DIR ++ PATH_SEP ++ name) name outSize).2 := by
  have hall : ∀ path ∈ (findLibraryInDir fs (PLUGINS_DIR ++ PATH_SEP ++ name) name outSize).2,
      path = PLUGINS_DIR ++ PATH_SEP ++ name ∨
        PLUGINS_DIR ++ PATH_SEP ++ name ++ PATH_SEP <+: path := by
    intro path hmem
    unfold findLibraryInDir at hmem
    dsimp only at hmem
    have hasked : ∀ (c : Bytes) (b : Bool), path ∈ (if b then [c] else []) → path = c := by
      intro c b hc
      cases b with
      | false => cases hc
      | true => exact List.mem_singleton.mp hc
    have hplain : PLUGINS_DIR ++ PATH_SEP ++ name ++ PATH_SEP <+:
        PLUGINS_DIR ++ PATH_SEP ++ name ++ PATH_SEP ++ name ++ FFI_EXT := ⟨name ++ FFI_EXT, by simp⟩
    have hlib : PLUGINS_DIR ++ PATH_SEP ++ name ++ PATH_SEP <+:
        PLUGINS_DIR ++ PATH_SEP ++ name ++ PATH_SEP ++ ascii "lib" ++ name ++ FFI_EXT :=
      ⟨ascii "lib" ++ name ++ FFI_EXT, by simp⟩
    split at hmem
    · rw [hasked _ _ hmem]
      exact Or.inr hplain
    · split at hmem
      · rcases List.mem_append.mp hmem with hmem | hmem <;> rw [hasked _ _ hmem]
        · exact Or.inr hplain
        · exact Or.inr hlib
      · rcases List.mem_append.mp hmem with hmem | hmem
        · rcases List.mem_append.mp hmem with hmem | hmem <;> rw [hasked _ _ hmem]
          · exact Or.inr hplain
          · exact Or.inr hlib
        · exact Or.inl (List.mem_singleton.mp hmem)
  intro path hmem _
  exact ⟨name, safe, hall path hmem⟩

theorem Consults.append {x y : List Bytes} (hx : Consults x) (hy : Consults y) :
    Consults (x ++ y) := by
  intro path hmem
  rcases List.mem_append.mp hmem with hmem | hmem
  · exact hx path hmem
  · exact hy path hmem

private theorem consults_nil : Consults [] := fun _ hmem => absurd hmem List.not_mem_nil

private theorem consults_libary {rest : Bytes} : Consults [snprintf outSize (LIBARY_DIR ++ rest)] := by
  intro path hmem hplugins
  rw [List.mem_singleton.mp hmem] at hplugins
  exact absurd hplugins libary_not_plugins

/-- Whatever the name, only the directory of a safe name is asked about. -/
private theorem resolve_consults (fs : FileSystem) (name : Bytes) (outSize : Nat) :
    Consults (pluginResolvePath fs name outSize).2.2 := by
  unfold pluginResolvePath
  split
  · exact consults_nil
  · dsimp only
    have hfind : Consults (if (pluginNameIsSafe name && decide
        ((PLUGINS_DIR ++ PATH_SEP ++ name).length < PLUGIN_PATH_MAX)) = true then
        findLibraryInDir fs (PLUGINS_DIR ++ PATH_SEP ++ name) name outSize else (none, [])).2 := by
      split
      · rename_i hsafe
        rw [Bool.and_eq_true] at hsafe
        exact find_consults hsafe.1
      · exact consults_nil
    have hplain : Consults [snprintf outSize (LIBARY_DIR ++ PATH_SEP ++ name ++ FFI_EXT)] := by
      rw [List.append_assoc, List.append_assoc]
      exact consults_libary
    have hlib : Consults
        [snprintf outSize (LIBARY_DIR ++ PATH_SEP ++ ascii "lib" ++ name ++ FFI_EXT)] := by
      rw [List.append_assoc, List.append_assoc, List.append_assoc]
      exact consults_libary
    split
    · exact hfind
    · split
      · exact hfind.append hplain
      · exact hfind.append (hplain.append hlib)

end Probes

section Callers

variable {fs : FileSystem}

private theorem length_takeWhile_le {p : UInt8 → Bool} {l : Bytes} :
    (l.takeWhile p).length ≤ l.length :=
  (List.takeWhile_prefix p).length_le

/-- A name in a URI without two dots in a row. -/
private theorem passed_uri {uri : Bytes} (length : uri.length ≤ 255)
    (level : uriHasTraversal uri = false)
    (ne : cleanUri uri ≠ []) : Passed (cleanUri uri) := by
  have hsuffix : cleanUri uri <:+ uri := by
    unfold cleanUri
    split
    · exact List.drop_suffix 1 uri
    · exact List.suffix_rfl
  refine ⟨ne, Nat.le_trans hsuffix.length_le length, fun h => ?_⟩
  have hnot : ¬ascii ".." <:+: uri := by
    simpa only [uriHasTraversal, strstr, decide_eq_false_iff_not] using level
  exact hnot (h.trans hsuffix.isInfix)

private theorem passed_safe {name : Bytes} (safe : pluginNameIsSafe name = true)
    (length : name.length ≤ 255) :
    Passed name :=
  ⟨(safe_plain safe).2.2, length, level_of_safe safe⟩

private theorem libary_confined {name : Bytes} (h : Passed name) :
    Confined (snprintf 512 (LIBARY_DIR ++ PATH_SEP ++ name ++ FFI_EXT)) := by
  have hlead : (LIBARY_DIR ++ PATH_SEP).length = 9 := by decide
  have hext : FFI_EXT.length = 3 := by decide
  have hlength := h.length
  rw [snprintf_fits (by rw [List.length_append, List.length_append, hlead, hext]; omega)]
  exact confined_libary h.level

/-- The library that a request names is loaded from a confined path. -/
private theorem libary_route {uri path : Bytes} (h : (evHandlerLibary fs uri).1 = some path) :
    Confined path := by
  unfold evHandlerLibary at h
  dsimp only at h
  split at h
  · cases h
  · rename_i level
    split at h
    · cases h
    · rename_i ne
      have hlength : (cString (uri.take 255)).length ≤ 255 :=
        Nat.le_trans length_takeWhile_le (List.length_take_le 255 uri)
      obtain ⟨rc, path', probes, hcall, confined⟩ :=
        resolve_confined fs (passed_uri hlength (by simpa using level) ne)
      rw [hcall] at h
      dsimp only at h
      split at h
      · obtain rfl := Option.some.inj h
        exact confined
      · cases h

private theorem sse_route {lib symbol : Option Bytes} {l f path : Bytes}
    (accepted : sseAccepts lib symbol = some (l, f)) (h : (sseLibPath fs l).1 = some path) :
    Confined path := by
  have hsafe : pluginNameIsSafe l = true ∧ l = queryField "sse_demo" 64 lib := by
    unfold sseAccepts at accepted
    dsimp only at accepted
    split at accepted
    · rename_i hsafe
      obtain ⟨rfl, _⟩ := Prod.mk.inj (Option.some.inj accepted)
      rw [Bool.and_eq_true] at hsafe
      exact ⟨hsafe.1, rfl⟩
    · cases accepted
  have hlength : l.length ≤ 255 := by
    rw [hsafe.2]
    unfold queryField
    split
    · decide
    · decide
    · exact Nat.le_trans (List.length_take_le _ _) (by decide)
  have passed := passed_safe hsafe.1 hlength
  obtain ⟨rc, path', probes, hcall, confined⟩ := resolve_confined fs passed
  unfold sseLibPath at h
  dsimp only at h
  rw [hcall] at h
  split at h
  · obtain rfl := Option.some.inj h
    exact confined
  · obtain rfl := Option.some.inj h
    exact libary_confined passed

/-- An accepted request names a library with a safe name of at most 128 bytes. -/
private theorem accepted_lib {mg : MgJson} {mem : ParseAlloc} {payload : Option Bytes} {errSize : Nat}
    {l : Bytes} (h : (wsCallParse mg mem payload errSize).code = WS_CALL_OK)
    (lib : (wsCallParse mg mem payload errSize).req.lib = some l) : Passed l := by
  cases payload with
  | none =>
    change WS_CALL_ERR_PARAM = WS_CALL_OK at h
    exact absurd h (by decide)
  | some json =>
    obtain ⟨i, l', f, a, accepted⟩ := wsCallParse_accepts.mp h
    rw [accepted.parse] at lib
    obtain rfl := Option.some.inj lib
    exact passed_safe accepted.libSafe (Nat.le_trans accepted.libLength (by decide))

/-- Whatever the file system holds, each path handed to the loader is confined, and only directories
of safe names below `./plugins` are asked about. -/
theorem plugin_paths_confined (fs : FileSystem) :
    (∀ uri path, (evHandlerLibary fs uri).1 = some path → Confined path) ∧
    (∀ lib symbol l f path, sseAccepts lib symbol = some (l, f) →
      (sseLibPath fs l).1 = some path → Confined path) ∧
    (∀ mg mem payload errSize l, (wsCallParse mg mem payload errSize).code = WS_CALL_OK →
      (wsCallParse mg mem payload errSize).req.lib = some l →
        ∃ path, (workerPath fs l).1 = some path ∧ Confined path) ∧
    ∀ uri l, Consults (evHandlerLibary fs uri).2 ∧ Consults (pluginRoute fs uri).2 ∧
      Consults (sseLibPath fs l).2 ∧ Consults (workerPath fs l).2 := by
  refine ⟨fun uri path h => libary_route h, fun lib symbol l f path accepted h =>
    sse_route accepted h, ?_, ?_⟩
  · intro mg mem payload errSize l h lib
    obtain ⟨rc, path, probes, hcall, confined⟩ := resolve_confined fs (accepted_lib h lib)
    refine ⟨path, ?_, confined⟩
    rw [workerPath, hcall]
  · intro uri l
    refine ⟨?_, ?_, resolve_consults fs l 512, resolve_consults fs l 512⟩
    · unfold evHandlerLibary
      dsimp only
      split
      · exact consults_nil
      · split
        · exact consults_nil
        · exact resolve_consults fs _ 512
    · unfold pluginRoute
      dsimp only
      split
      · exact resolve_consults fs _ 600
      · exact consults_nil

/-- One plugin, whose library has another name than the plugin. -/
def demoFiles : FileSystem where
  fileExists _ := false
  entries dir := if dir = ascii "./plugins/demo" then some [⟨ascii "..", by decide⟩,
    ⟨ascii "actual.so", by decide⟩] else none

theorem demo_confined : (evHandlerLibary demoFiles (ascii "/demo")).1 =
    some (ascii "./plugins/demo/actual.so") ∧ Confined (ascii "./plugins/demo/actual.so") := by
  have hpath : (evHandlerLibary demoFiles (ascii "/demo")).1 =
      some (ascii "./plugins/demo/actual.so") := by decide +kernel
  exact ⟨hpath, (plugin_paths_confined demoFiles).1 _ _ hpath⟩

end Callers

end Cyctron.Plugin.Path
