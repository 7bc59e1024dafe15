/- Cyctron/Http/Routing
   digest: The dispatch of handler.c, its documented table, and the requests on which they agree. -/

import Cyctron.Http.Message
import Cyctron.Plugin.Path

set_option autoImplicit false
set_option relaxedAutoImplicit false

namespace Cyctron.Http.Routing

open Cyctron.Base.CString Cyctron.Http.Message Cyctron.Plugin.Path

/-- Where a request goes. Both the call of an installed plugin and the route for what is left are
`ev_handler_libary`. -/
inductive Endpoint
  | preflight
  | soket
  | sse
  | push
  | status
  | iceoryx
  | log
  | libary
  | static
  deriving DecidableEq

def OPTIONS : Bytes := ascii "OPTIONS"
def GET : Bytes := ascii "GET"
def HEAD : Bytes := ascii "HEAD"
def POST : Bytes := ascii "POST"

def soketUri : Bytes := ascii "/soket"
def sseUri : Bytes := ascii "/sse"
def pushUri : Bytes := ascii "/api/push"
def statusUri : Bytes := ascii "/api/status"
def iceoryxUri : Bytes := ascii "/api/iceoryx"
def logUri : Bytes := ascii "/api/log"

/-- The test of a route of the API: a bound of the length and a count of bytes to compare. -/
def uriTest (uri lit : Bytes) (len n : Nat) : Prop := len ≤ uri.length ∧ strncmpEq uri lit n = true

instance (uri lit : Bytes) (len n : Nat) : Decidable (uriTest uri lit len n) :=
  inferInstanceAs (Decidable (_ ∧ _))

/-- The dispatch of `ev_handler`. -/
def evHandler (fs : FileSystem) (hm : HttpMessage) : Endpoint :=
  let method := methodOf hm
  if method = OPTIONS then .preflight
  else if hm.uri.length = 6 ∧ strncmpEq hm.uri soketUri 6 = true then .soket
  else if hm.uri.length = 4 ∧ strncmpEq hm.uri sseUri 4 = true then .sse
  else if uriTest hm.uri pushUri 10 10 ∧ method = POST then .push
  else if uriTest hm.uri statusUri 11 11 ∧ method = GET then .status
  else if uriTest hm.uri iceoryxUri 12 12 ∧ method = POST then .iceoryx
  else if uriTest hm.uri logUri 10 8 ∧ method = POST then .log
  else if (pluginRoute fs hm.uri).1 = true then .libary
  else if method = GET ∨ method = HEAD then .static
  else .libary

/-- A directory has one of the two candidates, or any library. -/
def inDirectory (fs : FileSystem) (dir name : Bytes) : Bool :=
  [dir ++ PATH_SEP ++ name ++ FFI_EXT, dir ++ PATH_SEP ++ ascii "lib" ++ name ++ FFI_EXT].any
    (fun c => decide (c.length < PLUGIN_PATH_MAX) && fs.fileExists c) ||
  (fs.entries dir).any fun es => es.any hasLibraryName

/-- A library is installed for a name, in its directory below `./plugins` or below `./libary`. -/
def installed (fs : FileSystem) (name : Bytes) : Bool :=
  let dir := PLUGINS_DIR ++ PATH_SEP ++ name
  (pluginNameIsSafe name && decide (dir.length < PLUGIN_PATH_MAX) && inDirectory fs dir name) ||
  [LIBARY_DIR ++ PATH_SEP ++ name ++ FFI_EXT,
    LIBARY_DIR ++ PATH_SEP ++ ascii "lib" ++ name ++ FFI_EXT].any fs.fileExists

/-- The path is the one of an installed plugin, and it has no step upwards. -/
def namesPlugin (fs : FileSystem) (path : Bytes) : Bool :=
  decide (cleanUri path ≠ []) && !uriHasTraversal path && installed fs (cleanUri path)

/-- The table of the documentation. -/
def documented (fs : FileSystem) (hm : HttpMessage) : Endpoint :=
  if hm.method = OPTIONS then .preflight
  else if hm.uri = soketUri then .soket
  else if hm.uri = sseUri then .sse
  else if hm.method = POST ∧ hm.uri = pushUri then .push
  else if hm.method = GET ∧ hm.uri = statusUri then .status
  else if hm.method = POST ∧ hm.uri = iceoryxUri then .iceoryx
  else if hm.method = POST ∧ hm.uri = logUri then .log
  else if namesPlugin fs hm.uri = true then .libary
  else if hm.method = GET ∨ hm.method = HEAD then .static
  else .libary

/-- The length bound of the route is longer than its path. -/
def Dead (hm : HttpMessage) : Prop := hm.method = POST ∧ (hm.uri = pushUri ∨ hm.uri = logUri)

/-- The route takes a path that only starts with its own. -/
def Wide (hm : HttpMessage) : Prop :=
  (hm.method = GET ∧ statusUri <+: hm.uri ∧ hm.uri ≠ statusUri) ∨
  (hm.method = POST ∧ iceoryxUri <+: hm.uri ∧ hm.uri ≠ iceoryxUri) ∨
  (hm.method = POST ∧ logUri <+: hm.uri ∧ 10 ≤ hm.uri.length)

/-- The copy of the URI in a buffer of 512 bytes names a plugin when the URI does. -/
def SameName (fs : FileSystem) (hm : HttpMessage) : Prop :=
  namesPlugin fs (hm.uri.take 511) = namesPlugin fs hm.uri

section Names

variable {fs : FileSystem} {name dir uri : Bytes} {size : Nat}

private theorem found_iff (size : Nat) :
    (findLibraryInDir fs dir name size).1.isSome = true ↔ inDirectory fs dir name = true := by
  rw [inDirectory, List.any_cons, List.any_cons, List.any_nil, Bool.or_false]
  unfold findLibraryInDir
  dsimp only
  split
  · rename_i hplain
    exact iff_of_true rfl (by rw [hplain]; rfl)
  · rename_i hplain
    split
    · rename_i hlib
      exact iff_of_true rfl (by rw [hlib, Bool.or_true]; rfl)
    · rename_i hlib
      rw [Bool.not_eq_true] at hplain hlib
      rw [hplain, hlib, Bool.or_self, Bool.false_or, Option.isSome_map]
      cases fs.entries dir with
      | none => rfl
      | some es =>
        rw [Option.bind_some, Option.any_some, List.find?_isSome, List.any_eq_true]

/-- A buffer with room for the candidates below `./libary` is no limit for the resolver. -/
theorem resolved_iff (hname : name ≠ []) (hsize : name.length + 16 ≤ size) :
    (pluginResolvePath fs name size).1 = 0 ↔ installed fs name = true := by
  have hplain : snprintf size (LIBARY_DIR ++ PATH_SEP ++ name ++ FFI_EXT) =
      LIBARY_DIR ++ PATH_SEP ++ name ++ FFI_EXT := by
    have h : LIBARY_DIR.length + PATH_SEP.length + FFI_EXT.length = 12 := rfl
    refine snprintf_fits ?_
    simp only [List.length_append]
    omega
  have hlib : snprintf size (LIBARY_DIR ++ PATH_SEP ++ ascii "lib" ++ name ++ FFI_EXT) =
      LIBARY_DIR ++ PATH_SEP ++ ascii "lib" ++ name ++ FFI_EXT := by
    have h : LIBARY_DIR.length + PATH_SEP.length + (ascii "lib").length + FFI_EXT.length = 15 := rfl
    refine snprintf_fits ?_
    simp only [List.length_append]
    omega
  have hroom : ¬(name = [] ∨ size = 0) := not_or.mpr ⟨hname, by omega⟩
  have hfallback : ∀ (found : Bool) (plain lib : Bytes) (probes : List Bytes), found = false →
      ((if fs.fileExists plain = true then (0, some plain, probes ++ [plain])
        else (if fs.fileExists lib = true then 0 else -1, some lib, probes ++ [plain, lib]) :
          Int × Option Bytes × List Bytes).1 = 0 ↔
        (found || (fs.fileExists plain || (fs.fileExists lib || false))) = true) := by
    rintro _ plain lib probes rfl
    cases fs.fileExists plain with
    | true => exact iff_of_true rfl rfl
    | false =>
      cases fs.fileExists lib with
      | true => exact iff_of_true rfl rfl
      | false => exact iff_of_false (by decide : ¬(-1 : Int) = 0) Bool.false_ne_true
  rw [pluginResolvePath, if_neg hroom, installed, List.any_cons, List.any_cons, List.any_nil]
  dsimp only
  rw [hplain, hlib]
  by_cases hsafe : (pluginNameIsSafe name &&
      decide ((PLUGINS_DIR ++ PATH_SEP ++ name).length < PLUGIN_PATH_MAX)) = true
  · rw [if_pos hsafe, hsafe, Bool.true_and]
    split
    · rename_i path hpath
      have hfound : inDirectory fs (PLUGINS_DIR ++ PATH_SEP ++ name) name = true :=
        (found_iff size).mp (Option.isSome_iff_exists.mpr ⟨path, hpath⟩)
      rw [hfound]
      exact iff_of_true rfl rfl
    · rename_i hnone
      refine hfallback _ _ _ _ ?_
      rw [Bool.eq_false_iff]
      intro h
      have hsome := (found_iff size).mpr h
      rw [hnone] at hsome
      cases hsome
  · rw [if_neg hsafe, Bool.eq_false_iff.mpr hsafe, Bool.false_and]
    exact hfallback _ _ _ _ rfl

/-- The probe of `ev_handler` looks at the first 511 bytes of the URI. -/
theorem pluginRoute_iff (plain : 0 ∉ uri ∧ 63 ∉ uri) :
    (pluginRoute fs uri).1 = true ↔ namesPlugin fs (uri.take 511) = true := by
  have hprobe : (cString (uri.take 511)).takeWhile (· ≠ 63) = uri.take 511 := by
    rw [cString_plain fun h => plain.1 (List.mem_of_mem_take h), List.takeWhile_eq_self_iff]
    intro c hc
    exact decide_eq_true fun heq => plain.2 (List.mem_of_mem_take (heq ▸ hc))
  have hshort : (cleanUri (uri.take 511)).length + 16 ≤ 600 := by
    have hcut : (uri.take 511).length ≤ 511 := by
      rw [List.length_take]
      exact Nat.min_le_left _ _
    unfold cleanUri
    split
    · rw [List.length_drop]
      omega
    · omega
  rw [pluginRoute, hprobe, namesPlugin]
  dsimp only
  by_cases hname : cleanUri (uri.take 511) ≠ [] ∧ uriHasTraversal (uri.take 511) = false
  · rw [if_pos hname, decide_eq_true hname.1, hname.2, decide_eq_true_eq,
      resolved_iff hname.1 hshort]
    rfl
  · rw [if_neg hname]
    refine iff_of_false Bool.false_ne_true fun h => hname ?_
    simp only [Bool.and_eq_true, decide_eq_true_eq, Bool.not_eq_true'] at h
    exact h.1

end Names

section Tests

variable {uri : Bytes} {n : Nat}

/-- A test of as many bytes as the path has. -/
private theorem uriTest_prefix (lit : Bytes) (len : Nat) (hlit : 0 ∉ lit) (hn : n = lit.length)
    (hle : n ≤ len) :
    uriTest uri lit len n ↔ len ≤ uri.length ∧ lit <+: uri := by
  rw [uriTest, and_congr_right_iff]
  intro hlen
  rw [strncmpEq_within (Nat.le_trans hle hlen) hlit (Nat.le_of_eq hn), hn, List.take_length]

/-- A test that counts the terminator of the path fails on each URI. -/
private theorem uriTest_beyond (lit : Bytes) (len : Nat) (hlit : 0 ∉ lit) (hn : lit.length < n)
    (hle : n ≤ len) (plain : 0 ∉ uri) :
    ¬uriTest uri lit len n := by
  rintro ⟨hlen, htest⟩
  rw [strncmpEq_beyond (Nat.le_trans hle hlen) hlit hn plain] at htest
  cases htest

/-- A test for the length of the path and all its bytes. -/
private theorem uriTest_exact (lit : Bytes) (hlit : 0 ∉ lit) (hn : n = lit.length) :
    (uri.length = n ∧ strncmpEq uri lit n = true) ↔ uri = lit := by
  constructor
  · rintro ⟨hlen, htest⟩
    rw [strncmpEq_within (Nat.le_of_eq hlen.symm) hlit (Nat.le_of_eq hn), hn, List.take_length]
      at htest
    exact (htest.eq_of_length (hn.symm.trans hlen.symm)).symm
  · rintro rfl
    refine ⟨hn.symm, ?_⟩
    rw [strncmpEq_within (Nat.le_of_eq hn) hlit (Nat.le_of_eq hn), hn, List.take_length]

end Tests

section Dispatch

variable {fs : FileSystem} {hm : HttpMessage}

/-- The dispatch in terms of the whole method and the whole URI. -/
theorem evHandler_eq : evHandler fs hm =
    if hm.method = OPTIONS then .preflight
    else if hm.uri = soketUri then .soket
    else if hm.uri = sseUri then .sse
    else if statusUri <+: hm.uri ∧ hm.method = GET then .status
    else if iceoryxUri <+: hm.uri ∧ hm.method = POST then .iceoryx
    else if (10 ≤ hm.uri.length ∧ logUri <+: hm.uri) ∧ hm.method = POST then .log
    else if namesPlugin fs (hm.uri.take 511) = true then .libary
    else if hm.method = GET ∨ hm.method = HEAD then .static
    else .libary := by
  have hlong : ∀ {lit : Bytes} {n : Nat}, n = lit.length →
      (n ≤ hm.uri.length ∧ lit <+: hm.uri ↔ lit <+: hm.uri) := by
    rintro lit _ rfl
    exact and_iff_right_of_imp List.IsPrefix.length_le
  have hpush : ¬(uriTest hm.uri pushUri 10 10 ∧ methodOf hm = POST) := fun h =>
    uriTest_beyond pushUri 10 (by decide) (by decide) (Nat.le_refl 10) hm.uri_plain.1 h.1
  unfold evHandler
  dsimp only
  rw [if_neg hpush]
  simp only [methodOf_eq_iff hm (show OPTIONS.length < 15 by decide),
    methodOf_eq_iff hm (show GET.length < 15 by decide),
    methodOf_eq_iff hm (show POST.length < 15 by decide),
    methodOf_eq_iff hm (show HEAD.length < 15 by decide),
    uriTest_exact soketUri (by decide) (show 6 = soketUri.length by decide),
    uriTest_exact sseUri (by decide) (show 4 = sseUri.length by decide),
    uriTest_prefix statusUri 11 (by decide) (show 11 = statusUri.length by decide)
      (Nat.le_refl 11), hlong (show 11 = statusUri.length by decide),
    uriTest_prefix iceoryxUri 12 (by decide) (show 12 = iceoryxUri.length by decide)
      (Nat.le_refl 12), hlong (show 12 = iceoryxUri.length by decide),
    uriTest_prefix logUri 10 (by decide) (show 8 = logUri.length by decide)
      (by decide), pluginRoute_iff hm.uri_plain]

private theorem sameName_short (h : hm.uri.length ≤ 511) : SameName fs hm := by
  rw [SameName, List.take_of_length_le h]

/-- Only paths of the API are dead or too wide. -/
private theorem api_of_dead_or_wide (h : Dead hm ∨ Wide hm) : ascii "/api/" <+: hm.uri := by
  have hinside : ∀ {lit : Bytes}, ascii "/api/" <+: lit → lit <+: hm.uri →
      ascii "/api/" <+: hm.uri := fun h h' => h.trans h'
  rcases h with ⟨_, h | h⟩ | ⟨_, h, _⟩ | ⟨_, h, _⟩ | ⟨_, h, _⟩
  · rw [h]
    decide
  · rw [h]
    decide
  · exact hinside (by decide) h
  · exact hinside (by decide) h
  · exact hinside (by decide) h

private theorem dispatch_get (hget : hm.method = GET) :
    ((if statusUri <+: hm.uri then Endpoint.status
      else if namesPlugin fs (hm.uri.take 511) = true then .libary else .static) =
      (if hm.uri = statusUri then .status
        else if namesPlugin fs hm.uri = true then .libary else .static)) ↔
      ¬Wide hm ∧ SameName fs hm := by
  have hwide : Wide hm ↔ statusUri <+: hm.uri ∧ hm.uri ≠ statusUri := by
    have hpost : hm.method ≠ POST := by
      rw [hget]
      decide
    rw [Wide, or_iff_left (by simp [hpost]), and_iff_right hget]
  rw [hwide]
  by_cases hexact : hm.uri = statusUri
  · have hsame : SameName fs hm := sameName_short (by rw [hexact]; decide)
    rw [if_pos hexact, if_pos (by rw [hexact])]
    exact iff_of_true rfl ⟨fun h => h.2 hexact, hsame⟩
  · rw [if_neg hexact]
    by_cases hfront : statusUri <+: hm.uri
    · rw [if_pos hfront]
      refine iff_of_false ?_ fun h => h.1 ⟨hfront, hexact⟩
      split <;> decide
    · rw [if_neg hfront, and_iff_right fun h => hfront h.1, SameName]
      cases namesPlugin fs (hm.uri.take 511) <;> cases namesPlugin fs hm.uri <;> decide

private theorem dispatch_post (hpost : hm.method = POST) :
    ((if iceoryxUri <+: hm.uri then Endpoint.iceoryx
      else if 10 ≤ hm.uri.length ∧ logUri <+: hm.uri then .log else .libary) =
      (if hm.uri = pushUri then .push else if hm.uri = iceoryxUri then .iceoryx
        else if hm.uri = logUri then .log else .libary)) ↔ ¬Dead hm ∧ ¬Wide hm := by
  have hwide : Wide hm ↔ iceoryxUri <+: hm.uri ∧ hm.uri ≠ iceoryxUri ∨
      logUri <+: hm.uri ∧ 10 ≤ hm.uri.length := by
    have hget : hm.method ≠ GET := by
      rw [hpost]
      decide
    rw [Wide, or_iff_right (by simp [hget]), and_iff_right hpost, and_iff_right hpost]
  rw [hwide, Dead, and_iff_right hpost]
  by_cases hpush : hm.uri = pushUri
  · rw [hpush]
    decide
  by_cases hlog : hm.uri = logUri
  · rw [hlog]
    decide
  by_cases hice : hm.uri = iceoryxUri
  · rw [hice]
    decide
  rw [if_neg hpush, if_neg hlog, if_neg hice, and_iff_right (not_or.mpr ⟨hpush, hlog⟩)]
  by_cases hfront : iceoryxUri <+: hm.uri
  · rw [if_pos hfront]
    exact iff_of_false (by decide) fun h => h (Or.inl ⟨hfront, hice⟩)
  · rw [if_neg hfront, or_iff_right fun h => hfront h.1]
    by_cases hlong : 10 ≤ hm.uri.length ∧ logUri <+: hm.uri
    · rw [if_pos hlong]
      exact iff_of_false (by decide) fun h => h hlong.symm
    · rw [if_neg hlong]
      exact iff_of_true rfl fun h => hlong h.symm

/-- The dispatch follows the table exactly when the request is a preflight, or its route is neither
dead nor too wide and, for `GET` and `HEAD`, the cut URI names a plugin when the whole URI does. -/
theorem dispatch_documented_iff (fs : FileSystem) (hm : HttpMessage) :
    evHandler fs hm = documented fs hm ↔
      hm.method = OPTIONS ∨
      ¬Dead hm ∧ ¬Wide hm ∧ (hm.method = GET ∨ hm.method = HEAD → SameName fs hm) := by
  have hplain : ∀ {lit : Bytes}, hm.uri = lit → ¬ascii "/api/" <+: lit → lit.length ≤ 511 →
      ¬Dead hm ∧ ¬Wide hm ∧ (hm.method = GET ∨ hm.method = HEAD → SameName fs hm) := by
    rintro lit rfl hapi hlen
    exact ⟨fun h => hapi (api_of_dead_or_wide (Or.inl h)),
      fun h => hapi (api_of_dead_or_wide (Or.inr h)), fun _ => sameName_short hlen⟩
  rw [evHandler_eq, documented]
  by_cases hoptions : hm.method = OPTIONS
  · rw [if_pos hoptions, if_pos hoptions]
    exact iff_of_true rfl (Or.inl hoptions)
  rw [if_neg hoptions, if_neg hoptions, or_iff_right hoptions]
  by_cases hsoket : hm.uri = soketUri
  · rw [if_pos hsoket, if_pos hsoket]
    exact iff_of_true rfl (hplain hsoket (by decide) (by decide))
  rw [if_neg hsoket, if_neg hsoket]
  by_cases hsse : hm.uri = sseUri
  · rw [if_pos hsse, if_pos hsse]
    exact iff_of_true rfl (hplain hsse (by decide) (by decide))
  rw [if_neg hsse, if_neg hsse]
  have hdistinct : GET ≠ POST ∧ POST ≠ GET ∧ GET ≠ HEAD ∧ POST ≠ HEAD := by decide
  obtain ⟨hgp, hpg, hgh, hph⟩ := hdistinct
  by_cases hget : hm.method = GET
  · have hdead : ¬Dead hm := fun h => hgp (hget.symm.trans h.1)
    have h := @dispatch_get fs hm hget
    simpa [hget, hgp, hgh, hdead] using h
  by_cases hpost : hm.method = POST
  · have h := dispatch_post hpost
    simpa [hpost, hpg, hph] using h
  · have hdead : ¬Dead hm := fun h => hpost h.1
    have hwide : ¬Wide hm := by
      rintro (h | h | h)
      · exact hget h.1
      · exact hpost h.1
      · exact hpost h.1
    simp only [hget, hpost, hdead, hwide, false_and, and_false, if_false, not_false_eq_true,
      true_and, false_or]
    rw [SameName]
    by_cases hhead : hm.method = HEAD
    · simp only [hhead, if_true, true_implies]
      cases namesPlugin fs (hm.uri.take 511) <;> cases namesPlugin fs hm.uri <;> decide
    · simp [hhead]

def noPlugins : FileSystem := ⟨fun _ => false, fun _ => none⟩

theorem get_plain : 0 ∉ GET := by decide

theorem post_plain : 0 ∉ POST := by decide

def pushRequest : HttpMessage :=
  ⟨POST, pushUri, [], [], [], post_plain, by decide, plain_nil, headers_nil, size_nil⟩

/-- The documented push goes to the plugins. -/
theorem push_route_dead : evHandler noPlugins pushRequest = .libary ∧
    documented noPlugins pushRequest = .push := by
  decide +kernel

end Dispatch

end Cyctron.Http.Routing
