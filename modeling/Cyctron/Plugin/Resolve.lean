/- Cyctron/Plugin/Resolve
   digest: The candidates of plugin_path.c in their order, and when the resolver gives the first one. -/

import Cyctron.Plugin.Path

set_option autoImplicit false
set_option relaxedAutoImplicit false

namespace Cyctron.Plugin.Resolve

open Cyctron.Base.CString Cyctron.Plugin.Path

def pluginDir (name : Bytes) : Bytes := PLUGINS_DIR ++ PATH_SEP ++ name

/-- The two names by convention in a directory. -/
def plainIn (dir name : Bytes) : Bytes := dir ++ PATH_SEP ++ name ++ FFI_EXT

def libIn (dir name : Bytes) : Bytes := dir ++ PATH_SEP ++ ascii "lib" ++ name ++ FFI_EXT

/-- The first entry of a directory with the extension of libraries. -/
def scanned (fs : FileSystem) (dir : Bytes) : Option Bytes :=
  ((fs.entries dir).bind fun es => es.find? hasLibraryName).map fun e => dir ++ PATH_SEP ++ e.dName

/-- The documented candidates in the directory of a plugin, and all of them in their order. None of
them is cut. -/
def ownCandidates (fs : FileSystem) (name : Bytes) : List Bytes :=
  if pluginNameIsSafe name then plainIn (pluginDir name) name :: libIn (pluginDir name) name ::
    (scanned fs (pluginDir name)).toList else []

def candidates (fs : FileSystem) (name : Bytes) : List Bytes :=
  ownCandidates fs name ++ [plainIn LIBARY_DIR name, libIn LIBARY_DIR name]

def firstCandidate (fs : FileSystem) (name : Bytes) : Option Bytes :=
  (candidates fs name).find? fs.fileExists

/-- The call gives the first candidate that exists; without any, it fails and leaves the candidate
that the worker hands to the loader. -/
structure Documented (fs : FileSystem) (name : Bytes) (outSize : Nat) : Prop where
  found : ∀ path, firstCandidate fs name = some path → fs.fileExists path = true ∧
    (pluginResolvePath fs name outSize).1 = 0 ∧ (pluginResolvePath fs name outSize).2.1 = some path
  missing : firstCandidate fs name = none → (pluginResolvePath fs name outSize).1 = -1 ∧
    (pluginResolvePath fs name outSize).2.1 = some (plainIn LIBARY_DIR name) ∧
    (workerPath fs name).1 = some (plainIn LIBARY_DIR name)

/-- The directory of a plugin is looked into. -/
def Opens (name : Bytes) : Prop :=
  pluginNameIsSafe name = true ∧ (pluginDir name).length < PLUGIN_PATH_MAX

instance (name : Bytes) : Decidable (Opens name) := inferInstanceAs (Decidable (_ ∧ _))

/-- A candidate by its name is found in a directory. -/
def Hit (fs : FileSystem) (path : Bytes) : Prop :=
  path.length < PLUGIN_PATH_MAX ∧ fs.fileExists path = true

instance (fs : FileSystem) (path : Bytes) : Decidable (Hit fs path) :=
  inferInstanceAs (Decidable (_ ∧ _))

/-- The buffers have room for a candidate where it is looked for: by its name in the directory of the
plugin, as the entry that the scan of this directory meets first, or below `./libary` when there is no
such entry. -/
inductive Taken (fs : FileSystem) (name : Bytes) (outSize : Nat) (path : Bytes) : Prop
  | named (safe : pluginNameIsSafe name = true) (short : path.length < PLUGIN_PATH_MAX)
      (name : path = plainIn (pluginDir name) name ∨ path = libIn (pluginDir name) name)
  | entry (opened : Opens name)
      (entry : (scanned fs (pluginDir name)).map (snprintf outSize) = some path)
  | libary (empty : Opens name → scanned fs (pluginDir name) = none) (short : path.length < outSize)
      (name : path = plainIn LIBARY_DIR name ∨ path = libIn LIBARY_DIR name)

section Directories

variable {fs : FileSystem} {dir name path : Bytes} {size : Nat}

/-- What `find_library_in_dir` writes. -/
theorem find_eq (fs : FileSystem) (dir name : Bytes) (size : Nat) :
    (findLibraryInDir fs dir name size).1 =
      if Hit fs (plainIn dir name) then some (snprintf size (plainIn dir name))
      else if Hit fs (libIn dir name) then some (snprintf size (libIn dir name))
      else (scanned fs dir).map (snprintf size) := by
  have hhit : ∀ path, (decide (path.length < PLUGIN_PATH_MAX) && fs.fileExists path) = true ↔
      Hit fs path := by
    intro path
    rw [Bool.and_eq_true, decide_eq_true_eq, Hit]
  unfold findLibraryInDir
  dsimp only
  rw [apply_ite Prod.fst, apply_ite Prod.fst]
  refine if_congr (hhit _) rfl (if_congr (hhit _) rfl ?_)
  rw [scanned, Option.map_map]
  rfl

/-- What is found in the directory of a plugin. -/
def ownLibrary (fs : FileSystem) (name : Bytes) (size : Nat) : Option Bytes :=
  if Opens name then (findLibraryInDir fs (pluginDir name) name size).1 else none

theorem resolve_own (hsize : size ≠ 0) (h : ownLibrary fs name size = some path) :
    (pluginResolvePath fs name size).1 = 0 ∧ (pluginResolvePath fs name size).2.1 = some path := by
  rw [ownLibrary, Option.ite_none_right_eq_some] at h
  obtain ⟨hopens, hfound⟩ := h
  have hopened : (pluginNameIsSafe name && decide ((PLUGINS_DIR ++ PATH_SEP ++ name).length <
      PLUGIN_PATH_MAX)) = true := Bool.and_eq_true_iff.mpr ⟨hopens.1, decide_eq_true hopens.2⟩
  unfold pluginResolvePath
  rw [if_neg (not_or.mpr ⟨(safe_plain hopens.1).2.2, hsize⟩)]
  dsimp only
  rw [if_pos hopened]
  change (findLibraryInDir fs (PLUGINS_DIR ++ PATH_SEP ++ name) name size).1 = some path at hfound
  rw [hfound]
  exact ⟨rfl, rfl⟩

theorem resolve_fallback (hname : name ≠ []) (hsize : size ≠ 0) (h : ownLibrary fs name size = none) :
    ((pluginResolvePath fs name size).1, (pluginResolvePath fs name size).2.1) =
      if fs.fileExists (snprintf size (plainIn LIBARY_DIR name)) then
        (0, some (snprintf size (plainIn LIBARY_DIR name)))
      else (if fs.fileExists (snprintf size (libIn LIBARY_DIR name)) then 0 else -1,
        some (snprintf size (libIn LIBARY_DIR name))) := by
  have hnone : (if (pluginNameIsSafe name && decide ((PLUGINS_DIR ++ PATH_SEP ++ name).length <
      PLUGIN_PATH_MAX)) = true then findLibraryInDir fs (PLUGINS_DIR ++ PATH_SEP ++ name) name size
      else (none, [])).1 = none := by
    split
    · rename_i hopened
      obtain ⟨hsafe, hdir⟩ := Bool.and_eq_true_iff.mp hopened
      have hopens : Opens name := ⟨hsafe, of_decide_eq_true hdir⟩
      rwa [ownLibrary, if_pos hopens] at h
    · rfl
  unfold pluginResolvePath
  rw [if_neg (not_or.mpr ⟨hname, hsize⟩)]
  dsimp only
  rw [hnone]
  dsimp only
  change (Prod.fst (if fs.fileExists (snprintf size (plainIn LIBARY_DIR name)) = true then _ else _),
    Prod.fst (Prod.snd (if fs.fileExists (snprintf size (plainIn LIBARY_DIR name)) = true then _
      else _))) = _
  split
  · rfl
  · rfl

end Directories

section Names

variable {fs : FileSystem} {name path : Bytes} {size : Nat}

theorem plain_shorter (dir name : Bytes) : (plainIn dir name).length < (libIn dir name).length := by
  have hlib : (ascii "lib").length = 3 := rfl
  simp only [plainIn, libIn, List.length_append, hlib]
  omega

theorem plain_ne_lib (dir name : Bytes) : plainIn dir name ≠ libIn dir name := fun h =>
  Nat.ne_of_lt (plain_shorter dir name) (congrArg List.length h)

/-- The candidate with the prefix is never cut to the one without it. -/
private theorem cut_lib_ne : snprintf size (libIn LIBARY_DIR name) ≠ plainIn LIBARY_DIR name := by
  intro h
  have hlead : LIBARY_DIR ++ PATH_SEP = ascii "./libary/" := by decide
  have hplain : plainIn LIBARY_DIR name = ascii "./libary/" ++ (name ++ FFI_EXT) := by
    rw [plainIn, hlead, List.append_assoc]
  have hlib : libIn LIBARY_DIR name = (ascii "./libary/" ++ (ascii "lib" ++ name)) ++ FFI_EXT := by
    rw [libIn, hlead, List.append_assoc _ (ascii "lib")]
  have hlens : (ascii "./libary/").length = 9 ∧ (ascii "lib").length = 3 ∧ FFI_EXT.length = 3 := by
    decide
  have hlength := congrArg List.length h
  rw [snprintf, List.length_take, hplain, hlib] at hlength
  simp only [List.length_append, hlens] at hlength
  rw [snprintf, hplain, hlib, List.take_append_of_le_length
    (by simp only [List.length_append, hlens]; omega), List.take_of_length_le
    (by simp only [List.length_append, hlens]; omega)] at h
  -- only one of the two sides has the dot of the extension
  have hdots := congrArg (List.count 46) h
  have hcounts : (ascii "lib").count 46 = 0 ∧ FFI_EXT.count 46 = 1 := by decide
  simp only [List.count_append, hcounts] at hdots
  omega

theorem own_directory (h : path ∈ ownCandidates fs name) :
    pluginNameIsSafe name = true ∧ pluginDir name ++ PATH_SEP <+: path := by
  unfold ownCandidates at h
  split at h
  · rename_i hsafe
    refine ⟨hsafe, ?_⟩
    rcases List.mem_cons.mp h with rfl | h
    · exact ⟨name ++ FFI_EXT, by simp [plainIn]⟩
    rcases List.mem_cons.mp h with rfl | h
    · exact ⟨ascii "lib" ++ name ++ FFI_EXT, by simp [libIn]⟩
    · obtain ⟨e, _, rfl⟩ := Option.map_eq_some_iff.mp (Option.mem_toList.mp h)
      exact ⟨e.dName, rfl⟩
  · cases h

theorem own_plugins (h : path ∈ ownCandidates fs name) : PLUGINS_DIR <+: path := by
  have hdir : PLUGINS_DIR <+: pluginDir name ++ PATH_SEP :=
    ⟨PATH_SEP ++ name ++ PATH_SEP, by simp [pluginDir]⟩
  exact hdir.trans (own_directory h).2

/-- The candidates below `./libary`. -/
def Fallback (name path : Bytes) : Prop := path = plainIn LIBARY_DIR name ∨ path = libIn LIBARY_DIR name

theorem mem_candidates : path ∈ candidates fs name ↔ path ∈ ownCandidates fs name ∨ Fallback name path := by
  simp [candidates, Fallback]

private theorem fallback_not_plugins (h : Fallback name path) (size : Nat) :
    ¬PLUGINS_DIR <+: snprintf size path := by
  rcases h with rfl | rfl
  · rw [plainIn, List.append_assoc, List.append_assoc]
    exact libary_not_plugins
  · rw [libIn, List.append_assoc, List.append_assoc, List.append_assoc]
    exact libary_not_plugins

theorem fallback_outside (h : Fallback name path) : ¬PLUGINS_DIR <+: path := by
  have hfull := fallback_not_plugins h (path.length + 1)
  rwa [snprintf_fits (Nat.lt_succ_self _)] at hfull

private theorem fallback_not_own (h : Fallback name path) : path ∉ ownCandidates fs name :=
  fun hown => fallback_outside h (own_plugins hown)

/-- A candidate below `./libary` that is cut is no candidate. -/
private theorem fallback_uncut (hsize : size ≠ 0) (h : Fallback name path)
    (hcut : snprintf size path ∈ candidates fs name) : path.length < size := by
  have hwhole : snprintf size path = path := by
    rcases mem_candidates.mp hcut with hown | hrest
    · exact absurd (own_plugins hown) (fallback_not_plugins h size)
    rcases h with rfl | rfl
    · refine hrest.resolve_right fun heq => ?_
      have hle := List.length_take_le' (size - 1) (plainIn LIBARY_DIR name)
      rw [← snprintf, heq] at hle
      exact absurd (plain_shorter LIBARY_DIR name) (Nat.not_lt.mpr hle)
    · exact hrest.resolve_left cut_lib_ne
  have hlength := congrArg List.length hwhole
  rw [snprintf, List.length_take] at hlength
  omega

private theorem first_eq (fs : FileSystem) (name : Bytes) : firstCandidate fs name =
    ((ownCandidates fs name).find? fs.fileExists).or
      ([plainIn LIBARY_DIR name, libIn LIBARY_DIR name].find? fs.fileExists) := by
  rw [firstCandidate, candidates, List.find?_append]

private theorem first_plain (safe : pluginNameIsSafe name = true)
    (h : fs.fileExists (plainIn (pluginDir name) name) = true) :
    firstCandidate fs name = some (plainIn (pluginDir name) name) := by
  rw [first_eq, ownCandidates, if_pos safe, List.find?_cons_of_pos h, Option.some_or]

private theorem first_lib (safe : pluginNameIsSafe name = true)
    (hplain : fs.fileExists (plainIn (pluginDir name) name) = false)
    (h : fs.fileExists (libIn (pluginDir name) name) = true) :
    firstCandidate fs name = some (libIn (pluginDir name) name) := by
  rw [first_eq, ownCandidates, if_pos safe, List.find?_cons_of_neg (Bool.eq_false_iff.mp hplain),
    List.find?_cons_of_pos h, Option.some_or]

end Names

section Results

variable {fs : FileSystem} {name path : Bytes} {size : Nat}

/-- What is found in the directory of a plugin, when the first candidate is there. -/
private theorem own_of_first (hsize : 512 ≤ size) (first : firstCandidate fs name = some path)
    (opened : Opens name) :
    (ownLibrary fs name size = some path ∧ path ∈ ownCandidates fs name) ∨
      ¬Hit fs (plainIn (pluginDir name) name) ∧ ¬Hit fs (libIn (pluginDir name) name) ∧
      ownLibrary fs name size = (scanned fs (pluginDir name)).map (snprintf size) := by
  rw [ownLibrary, if_pos opened, find_eq, ownCandidates, if_pos opened.1]
  by_cases hplain : Hit fs (plainIn (pluginDir name) name)
  · obtain rfl := Option.some.inj ((first_plain opened.1 hplain.2).symm.trans first)
    rw [if_pos hplain, snprintf_fits (Nat.lt_of_lt_of_le hplain.1 hsize)]
    exact Or.inl ⟨rfl, List.mem_cons_self⟩
  rw [if_neg hplain]
  by_cases hlib : Hit fs (libIn (pluginDir name) name)
  · have hmissing : fs.fileExists (plainIn (pluginDir name) name) = false := by
      rw [← Bool.not_eq_true]
      exact fun h => hplain ⟨(plain_shorter (pluginDir name) name).trans hlib.1, h⟩
    obtain rfl := Option.some.inj ((first_lib opened.1 hmissing hlib.2).symm.trans first)
    rw [if_pos hlib, snprintf_fits (Nat.lt_of_lt_of_le hlib.1 hsize)]
    exact Or.inl ⟨rfl, List.mem_cons_of_mem _ List.mem_cons_self⟩
  · rw [if_neg hlib]
    exact Or.inr ⟨hplain, hlib, rfl⟩

private theorem first_fallback (first : firstCandidate fs name = some path) (h : Fallback name path) :
    [plainIn LIBARY_DIR name, libIn LIBARY_DIR name].find? fs.fileExists = some path := by
  rw [first_eq] at first
  cases hown : (ownCandidates fs name).find? fs.fileExists with
  | none => rwa [hown, Option.none_or] at first
  | some q =>
    rw [hown, Option.some_or] at first
    obtain rfl := Option.some.inj first
    exact absurd (List.mem_of_find?_eq_some hown) (fallback_not_own h)

/-- Where the buffers have room, the resolver gives the first candidate. -/
private theorem resolve_first (hsize : 512 ≤ size) (hname : name ≠ [])
    (first : firstCandidate fs name = some path) (taken : Taken fs name size path) :
    (pluginResolvePath fs name size).1 = 0 ∧ (pluginResolvePath fs name size).2.1 = some path := by
  have hzero : size ≠ 0 := by omega
  have hexists := List.find?_some first
  cases taken with
  | named safe short hnamed =>
    refine resolve_own hzero ?_
    have hopened : Opens name := by
      refine ⟨safe, Nat.lt_of_le_of_lt ?_ short⟩
      rcases hnamed with rfl | rfl <;> simp only [plainIn, libIn, List.length_append] <;> omega
    rcases own_of_first hsize first hopened with h | ⟨hplain, hlib, _⟩
    · exact h.1
    · rcases hnamed with rfl | rfl
      · exact absurd ⟨short, hexists⟩ hplain
      · exact absurd ⟨short, hexists⟩ hlib
  | entry opened hentry =>
    refine resolve_own hzero ?_
    rcases own_of_first hsize first opened with h | ⟨_, _, h⟩
    · exact h.1
    · exact h.trans hentry
  | libary empty short hnamed =>
    have hnone : ownLibrary fs name size = none := by
      by_cases hopened : Opens name
      · rcases own_of_first hsize first hopened with h | ⟨_, _, h⟩
        · exact absurd h.2 (fallback_not_own hnamed)
        · rw [h, empty hopened, Option.map_none]
      · rw [ownLibrary, if_neg hopened]
    have hcode := resolve_fallback hname hzero hnone
    have hfind := first_fallback first hnamed
    rcases hnamed with rfl | rfl
    · rw [snprintf_fits short, if_pos hexists] at hcode
      exact Prod.mk.inj hcode
    · have hplain : fs.fileExists (plainIn LIBARY_DIR name) = false := by
        rw [← Bool.not_eq_true]
        intro h
        rw [List.find?_cons_of_pos h] at hfind
        exact plain_ne_lib LIBARY_DIR name (Option.some.inj hfind)
      rw [snprintf_fits ((plain_shorter LIBARY_DIR name).trans short), hplain,
        if_neg Bool.false_ne_true, snprintf_fits short, hexists, if_pos rfl] at hcode
      exact Prod.mk.inj hcode

/-- A documented success is one where the buffers have room. -/
private theorem taken_of_found (hsize : 512 ≤ size) (hname : name ≠ [])
    (first : firstCandidate fs name = some path) (hcode : (pluginResolvePath fs name size).1 = 0)
    (hpath : (pluginResolvePath fs name size).2.1 = some path) : Taken fs name size path := by
  have hzero : size ≠ 0 := by omega
  have hmem : path ∈ candidates fs name := List.mem_of_find?_eq_some first
  cases hown : ownLibrary fs name size with
  | some q =>
    obtain rfl := Option.some.inj ((resolve_own hzero hown).2.symm.trans hpath)
    rw [ownLibrary, Option.ite_none_right_eq_some, find_eq] at hown
    obtain ⟨hopened, hfound⟩ := hown
    split at hfound
    · rename_i hplain
      rw [snprintf_fits (Nat.lt_of_lt_of_le hplain.1 hsize)] at hfound
      obtain rfl := Option.some.inj hfound
      exact .named hopened.1 hplain.1 (Or.inl rfl)
    · split at hfound
      · rename_i hlib
        rw [snprintf_fits (Nat.lt_of_lt_of_le hlib.1 hsize)] at hfound
        obtain rfl := Option.some.inj hfound
        exact .named hopened.1 hlib.1 (Or.inr rfl)
      · exact .entry hopened hfound
  | none =>
    have hempty : Opens name → scanned fs (pluginDir name) = none := by
      intro hopened
      rw [ownLibrary, if_pos hopened, find_eq] at hown
      split_ifs at hown
      exact Option.map_eq_none_iff.mp hown
    have huncut : ∀ y, Fallback name y → path = snprintf size y → y.length < size := by
      rintro y hy rfl
      exact fallback_uncut hzero hy hmem
    have hresolved := resolve_fallback hname hzero hown
    rw [hcode, hpath] at hresolved
    split at hresolved
    · obtain ⟨_, hplain⟩ := Prod.mk.inj hresolved
      have hshort := huncut _ (Or.inl rfl) (Option.some.inj hplain)
      rw [snprintf_fits hshort] at hplain
      obtain rfl := Option.some.inj hplain
      exact .libary hempty hshort (Or.inl rfl)
    · obtain ⟨_, hlib⟩ := Prod.mk.inj hresolved
      have hshort := huncut _ (Or.inr rfl) (Option.some.inj hlib)
      rw [snprintf_fits hshort] at hlib
      obtain rfl := Option.some.inj hlib
      exact .libary hempty hshort (Or.inr rfl)

/-- Without any candidate the documented one is not left in the buffer. -/
private theorem never_left (hname : name ≠ []) (hsize : 512 ≤ size)
    (hcode : (pluginResolvePath fs name size).1 = -1) :
    (pluginResolvePath fs name size).2.1 ≠ some (plainIn LIBARY_DIR name) := by
  have hzero : size ≠ 0 := by omega
  have hminus : (0 : Int) ≠ -1 := by decide
  intro hpath
  cases hown : ownLibrary fs name size with
  | some q => exact hminus ((resolve_own hzero hown).1.symm.trans hcode)
  | none =>
    have hresolved := resolve_fallback hname hzero hown
    rw [hcode, hpath] at hresolved
    split at hresolved
    · exact hminus (Prod.mk.inj hresolved).1.symm
    · exact cut_lib_ne (Option.some.inj (Prod.mk.inj hresolved).2).symm

/-- The resolver does what is documented exactly when the name is not empty and some candidate exists
for the first of which the buffers have room. -/
theorem documented_iff (fs : FileSystem) (name : Bytes) (hsize : 512 ≤ size) :
    Documented fs name size ↔
      name ≠ [] ∧ ∃ path, firstCandidate fs name = some path ∧ Taken fs name size path := by
  constructor
  · intro h
    have hname : name ≠ [] := by
      rintro rfl
      cases hfirst : firstCandidate fs [] with
      | none => cases (h.missing hfirst).2.1
      | some path => cases (h.found path hfirst).2.2
    refine ⟨hname, ?_⟩
    cases hfirst : firstCandidate fs name with
    | none =>
      obtain ⟨hcode, hpath, _⟩ := h.missing hfirst
      exact absurd hpath (never_left hname hsize hcode)
    | some path =>
      obtain ⟨_, hcode, hpath⟩ := h.found path hfirst
      exact ⟨path, rfl, taken_of_found hsize hname hfirst hcode hpath⟩
  · rintro ⟨hname, path, hfirst, taken⟩
    refine ⟨fun q hq => ?_, fun hnone => ?_⟩
    · obtain rfl := Option.some.inj (hfirst.symm.trans hq)
      exact ⟨List.find?_some hfirst, resolve_first hsize hname hfirst taken⟩
    · cases hnone.symm.trans hfirst

theorem actual_plain : slash ∉ ascii "actual.so" := by decide

/-- A plugin whose library has another name, below `./plugins`. -/
def renamedFiles : FileSystem where
  fileExists path := decide (path = ascii "./plugins/renamed/actual.so")
  entries dir := if dir = ascii "./plugins/renamed" then some [⟨ascii "actual.so", actual_plain⟩]
    else none

theorem renamed_documented : Documented renamedFiles (ascii "renamed") 512 := by
  refine (documented_iff renamedFiles (ascii "renamed") (Nat.le_refl 512)).mpr
    ⟨by decide, ascii "./plugins/renamed/actual.so", by decide +kernel, ?_⟩
  exact .entry (by decide +kernel) (by decide +kernel)

def noFiles : FileSystem := ⟨fun _ => false, fun _ => none⟩

def longName : Bytes := List.replicate 249 97

/-- Only the library by its name is there, and its path has 512 bytes. -/
def longFiles : FileSystem :=
  ⟨fun path => decide (path = plainIn (pluginDir longName) longName), fun _ => none⟩

theorem entry_plain : slash ∉ List.replicate 252 98 ++ FFI_EXT := by decide +kernel

/-- Only an entry with another name is there, and its path has more than 512 bytes. -/
def deepFiles : FileSystem :=
  ⟨fun path => decide (path = pluginDir longName ++ PATH_SEP ++ (List.replicate 252 98 ++ FFI_EXT)),
    fun dir => if dir = pluginDir longName then some [⟨List.replicate 252 98 ++ FFI_EXT, entry_plain⟩]
      else none⟩

/-- The entry is a link to nothing, and the library is below `./libary`. -/
def brokenFiles : FileSystem :=
  ⟨fun path => decide (path = ascii "./libary/renamed.so"), renamedFiles.entries⟩

/-- A plugin that is missing leaves the wrong candidate; a library by a long name is passed over, a
long entry is cut, and a broken link is taken for a library. -/
theorem resolver_strays : ¬Documented noFiles (ascii "missing") 512 ∧
    ¬Documented longFiles longName 512 ∧ ¬Documented deepFiles longName 512 ∧
    ¬Documented brokenFiles (ascii "renamed") 512 := by
  refine ⟨fun h => ?_, fun h => ?_, fun h => ?_, fun h => ?_⟩
  · exact absurd (h.missing (by decide +kernel)).2.1 (by decide +kernel)
  · exact absurd (h.found (plainIn (pluginDir longName) longName) (by decide +kernel)).2.1
      (by decide +kernel)
  · exact absurd (h.found (pluginDir longName ++ PATH_SEP ++ (List.replicate 252 98 ++ FFI_EXT))
      (by decide +kernel)).2.2 (by decide +kernel)
  · exact absurd (h.found (ascii "./libary/renamed.so") (by decide +kernel)).2.2 (by decide +kernel)

end Results

end Cyctron.Plugin.Resolve
