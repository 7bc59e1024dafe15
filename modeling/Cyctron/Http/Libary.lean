/- Cyctron/Http/Libary
   digest: The plugin call of handler_libary.c, from the dispatch of a request to its reply. -/

import Cyctron.Base.Number
import Cyctron.Calldyn.Local
import Cyctron.Http.Routing
import Cyctron.Mongoose.Query
import Cyctron.Plugin.Resolve

set_option autoImplicit false
set_option relaxedAutoImplicit false

namespace Cyctron.Http.Libary

open Cyctron.Base.CString Cyctron.Base.Number Cyctron.Calldyn.Local Cyctron.Http.Message
open Cyctron.Http.Routing Cyctron.Mongoose.Query
open Cyctron.Plugin.Path hiding evHandlerLibary
open Cyctron.Plugin.Resolve (plainIn libIn pluginDir scanned ownLibrary find_eq plain_shorter
  resolve_own resolve_fallback)

universe u

variable {η : Type u}

/-- The loop of `query_get_long` over the parts of a query: the number behind the first key, if it
begins with one. -/
def queryGetLong (query key : Bytes) : Option Int :=
  match (query.splitOn 38).find? fun part => decide (key ++ [61] <+: part) with
  | none => none
  | some part =>
    let value := part.drop (key.length + 1)
    if strtolDigits value = [] then none else some (strtol value)

def queryToJson (hm : HttpMessage) : Option Bytes :=
  if hm.query = [] then none
  else
    let query := cString (hm.query.take 255)
    match queryGetLong query (ascii "id") with
    | some id => some (snprintf 32 (ascii "\x7b\"id\":" ++ decimalInt id ++ ascii "\x7d"))
    | none =>
      let v := (query.dropWhile (· ≠ 61)).drop 1
      if v = [] then none
      else some (snprintf (v.length + 8) (ascii "\x7b\"q\":\"" ++ v ++ ascii "\"\x7d"))

/-- The buffer that `build_json_in` allocates, without its terminator. -/
def buildJsonIn (hm : HttpMessage) : Option Bytes :=
  match queryToJson hm with
  | some q => some q
  | none => if hm.body = [] then none else some hm.body

def tolower (c : UInt8) : UInt8 := if 65 ≤ c ∧ c ≤ 90 then c + 32 else c

/-- The symbol that the handler builds in buffers of 16, 128 and 256 bytes. -/
def finalSymbol (hm : HttpMessage) : Bytes :=
  let ffiSymbol :=
    match mgHttpGetHeader hm "FFI-Symbol" with
    | none | some [] => ascii "handle"
    | some v => cString (v.take 127)
  snprintf 256 ((methodOf hm).map tolower ++ ascii "_" ++ ffiSymbol)

structure HttpReply where
  code : Nat
  body : Bytes
  deriving DecidableEq

def badRequest : HttpReply := ⟨400, ascii "\x7b\"error\":400,\"message\":\"Bad Request\"\x7d"⟩

def notFound : HttpReply := ⟨404, ascii "\x7b\"error\":404,\"message\":\"Not Found\"\x7d"⟩

def pluginNotFound : HttpReply :=
  ⟨404, ascii "\x7b\"error\":404,\"message\":\"Plugin Not Found\"\x7d"⟩

/-- The reply to a request, the functions that are called for it, and the cache of libraries. -/
structure Handled (η : Type u) where
  reply : HttpReply
  invoked : List (Invocation η)
  cache : DlCache η

/-- `ev_handler_libary` on a request. -/
def evHandlerLibary (L : Loader η) (mem : Bool) (fs : FileSystem) (cache : DlCache η)
    (hm : HttpMessage) : Handled η :=
  let uri := cString (hm.uri.take 255)
  if uriHasTraversal uri then ⟨badRequest, [], cache⟩
  else if cleanUri uri = [] then ⟨notFound, [], cache⟩
  else
    let r := pluginResolvePath fs (cleanUri uri) 512
    if r.1 ≠ 0 then ⟨pluginNotFound, [], cache⟩
    else
      let q := callLocalDynLibffi L mem cache (r.2.1.getD []) (finalSymbol hm) (buildJsonIn hm)
      match q.jsonOut with
      | none => ⟨pluginNotFound, q.invoked, q.cache⟩
      | some out => ⟨if q.rc ≠ 0 then pluginNotFound else ⟨200, out⟩, q.invoked, q.cache⟩

/-- What the dispatcher makes of a request, when it goes to the plugins. -/
def serve (L : Loader η) (mem : Bool) (fs : FileSystem) (cache : DlCache η) (hm : HttpMessage) :
    Option (Handled η) :=
  if evHandler fs hm = .libary then some (evHandlerLibary L mem fs cache hm) else none

/-- The first of the two candidates in a directory, or else any library in it. -/
def libraryIn (fs : FileSystem) (dir name : Bytes) : Option Bytes :=
  ([dir ++ PATH_SEP ++ name ++ FFI_EXT, dir ++ PATH_SEP ++ ascii "lib" ++ name ++ FFI_EXT].find?
    fs.fileExists).or
    (((fs.entries dir).bind fun es => es.find? hasLibraryName).map fun e =>
      dir ++ PATH_SEP ++ e.dName)

/-- The library of a plugin, in the documented order. -/
def libraryOf (fs : FileSystem) (name : Bytes) : Option Bytes :=
  (if pluginNameIsSafe name then libraryIn fs (PLUGINS_DIR ++ PATH_SEP ++ name) name else none).or
    ([LIBARY_DIR ++ PATH_SEP ++ name ++ FFI_EXT,
      LIBARY_DIR ++ PATH_SEP ++ ascii "lib" ++ name ++ FFI_EXT].find? fs.fileExists)

/-- The path of a request names an installed plugin. -/
structure Names (fs : FileSystem) (hm : HttpMessage) (path : Bytes) : Prop where
  name : cleanUri hm.uri ≠ []
  level : uriHasTraversal hm.uri = false
  library : libraryOf fs (cleanUri hm.uri) = some path

/-- The symbol in the header of a request, or the one that is documented for none. -/
def headerSymbol (hm : HttpMessage) : Bytes :=
  match mgHttpGetHeader hm "FFI-Symbol" with
  | none | some [] => ascii "handle"
  | some v => v

/-- The documented symbol of a request. -/
def symbolName (hm : HttpMessage) : Bytes :=
  hm.method.map tolower ++ ascii "_" ++ headerSymbol hm

/-- The plugin that the path of a request names exports the symbol of the request. -/
structure Exports (L : Loader η) (fs : FileSystem) (hm : HttpMessage) (path : Bytes) (h : η) : Prop
    extends Names fs hm path where
  opened : L.dlopen path = some h
  symbol : L.dlsym h (symbolName hm) = true

instance [DecidableEq η] (L : Loader η) (fs : FileSystem) (hm : HttpMessage) (path : Bytes) (h : η) :
    Decidable (Exports L fs hm path h) :=
  decidable_of_iff ((cleanUri hm.uri ≠ [] ∧ uriHasTraversal hm.uri = false ∧
      libraryOf fs (cleanUri hm.uri) = some path) ∧
      L.dlopen path = some h ∧ L.dlsym h (symbolName hm) = true)
    ⟨fun e => ⟨⟨e.1.1, e.1.2.1, e.1.2.2⟩, e.2.1, e.2.2⟩,
      fun e => ⟨⟨e.name, e.level, e.library⟩, e.opened, e.symbol⟩⟩

/-- The request belongs to a route of the server itself. -/
def OwnRoute (hm : HttpMessage) : Prop :=
  hm.method = OPTIONS ∨ hm.uri = soketUri ∨ hm.uri = sseUri ∨
    (statusUri <+: hm.uri ∧ hm.method = GET) ∨ (iceoryxUri <+: hm.uri ∧ hm.method = POST) ∨
    ((10 ≤ hm.uri.length ∧ logUri <+: hm.uri) ∧ hm.method = POST)

/-- The parts of a request fit into the buffers of the handler. -/
structure Fits (hm : HttpMessage) (path : Bytes) : Prop where
  method : hm.method.length ≤ 15
  symbol : (headerSymbol hm).length ≤ 127
  uri : hm.uri.length ≤ 255
  path : path.length < 512

section Paths

variable {fs : FileSystem} {dir name path : Bytes}

private theorem libraryIn_eq (fs : FileSystem) (dir name : Bytes) : libraryIn fs dir name =
    ([plainIn dir name, libIn dir name].find? fs.fileExists).or (scanned fs dir) := rfl

/-- A library whose path fits is the one that is found. -/
private theorem find_library (h : libraryIn fs dir name = some path) (short : path.length < 512) :
    (findLibraryInDir fs dir name 512).1 = some path := by
  rw [libraryIn_eq, List.find?_cons, List.find?_singleton] at h
  rw [find_eq]
  cases hplain : fs.fileExists (plainIn dir name) with
  | true =>
    rw [hplain] at h
    obtain rfl := Option.some.inj h
    rw [if_pos ⟨short, hplain⟩, snprintf_fits short]
  | false =>
    rw [hplain] at h
    rw [if_neg fun hit => Bool.eq_false_iff.mp hplain hit.2]
    cases hlib : fs.fileExists (libIn dir name) with
    | true =>
      rw [hlib] at h
      obtain rfl := Option.some.inj h
      rw [if_pos ⟨short, hlib⟩, snprintf_fits short]
    | false =>
      rw [hlib] at h
      have hscanned : scanned fs dir = some path := h
      rw [if_neg fun hit => Bool.eq_false_iff.mp hlib hit.2, hscanned, Option.map_some,
        snprintf_fits short]

private theorem find_no_library (h : libraryIn fs dir name = none) :
    (findLibraryInDir fs dir name 512).1 = none := by
  obtain ⟨hcandidates, hentries⟩ := Option.or_eq_none_iff.mp h
  have hmissing := List.find?_eq_none.mp hcandidates
  have hplain := hmissing (plainIn dir name) List.mem_cons_self
  have hlib := hmissing (libIn dir name) (List.mem_cons_of_mem _ List.mem_cons_self)
  have hscanned : scanned fs dir = none := hentries
  rw [find_eq, if_neg fun hit => hplain hit.2, if_neg fun hit => hlib hit.2, hscanned,
    Option.map_none]

/-- The resolver finds the library of a plugin when its path fits. -/
private theorem resolve_library (hname : name ≠ []) (hlength : name.length ≤ 255)
    (h : libraryOf fs name = some path) (short : path.length < 512) :
    (pluginResolvePath fs name 512).1 = 0 ∧ (pluginResolvePath fs name 512).2.1 = some path := by
  have hdir : (pluginDir name).length < PLUGIN_PATH_MAX := by
    have hlead : PLUGINS_DIR.length + PATH_SEP.length = 10 := rfl
    rw [pluginDir, List.length_append, List.length_append, hlead]
    exact Nat.lt_of_le_of_lt (Nat.add_le_add_left hlength 10) (by decide)
  have hlib : (libIn LIBARY_DIR name).length < 512 := by
    have hlens : LIBARY_DIR.length + PATH_SEP.length + (ascii "lib").length + FFI_EXT.length = 15 :=
      rfl
    simp only [libIn, List.length_append]
    omega
  rcases Option.or_eq_some_iff.mp h with hown | ⟨hown, hrest⟩
  · obtain ⟨hsafe, hin⟩ := Option.ite_none_right_eq_some.mp hown
    refine resolve_own (by decide) ?_
    rw [ownLibrary, if_pos ⟨hsafe, hdir⟩]
    exact find_library hin short
  · have hempty : ownLibrary fs name 512 = none := by
      rw [ownLibrary]
      split
      · rename_i hopens
        rw [if_pos hopens.1] at hown
        exact find_no_library hown
      · rfl
    have hcode := resolve_fallback hname (by decide) hempty
    rw [snprintf_fits ((plain_shorter LIBARY_DIR name).trans hlib), snprintf_fits hlib] at hcode
    change [plainIn LIBARY_DIR name, libIn LIBARY_DIR name].find? fs.fileExists = some path at hrest
    rw [List.find?_cons, List.find?_singleton] at hrest
    cases hplain : fs.fileExists (plainIn LIBARY_DIR name) with
    | true =>
      rw [hplain] at hrest hcode
      obtain rfl := Option.some.inj hrest
      exact Prod.mk.inj hcode
    | false =>
      rw [hplain] at hrest hcode
      obtain ⟨hfound, hpath⟩ := Option.ite_none_right_eq_some.mp hrest
      obtain rfl := Option.some.inj hpath
      rw [if_neg Bool.false_ne_true, if_pos hfound] at hcode
      exact Prod.mk.inj hcode

private theorem length_cleanUri (uri : Bytes) : (cleanUri uri).length ≤ uri.length := by
  unfold cleanUri
  split
  · exact (List.drop_suffix 1 uri).length_le
  · exact Nat.le_refl _

/-- What names a plugin is dispatched as the name of one. -/
private theorem namesPlugin_of_names {hm : HttpMessage} (names : Names fs hm path)
    (fits : Fits hm path) :
    namesPlugin fs (hm.uri.take 511) = true := by
  have hlength : (cleanUri hm.uri).length ≤ 255 := (length_cleanUri hm.uri).trans fits.uri
  have hfound := (resolve_library names.name hlength names.library fits.path).1
  rw [List.take_of_length_le (fits.uri.trans (by decide)), namesPlugin,
    decide_eq_true names.name, names.level,
    (resolved_iff names.name (Nat.add_le_add_right hlength 16 |>.trans (by decide))).mp hfound]
  rfl

/-- A request that is no route of the server and names a plugin goes to the plugins. -/
private theorem dispatched {hm : HttpMessage} (names : Names fs hm path) (fits : Fits hm path)
    (foreign : ¬OwnRoute hm) : evHandler fs hm = .libary := by
  obtain ⟨hoptions, hsoket, hsse, hstatus, hiceoryx, hlog⟩ :
      hm.method ≠ OPTIONS ∧ hm.uri ≠ soketUri ∧ hm.uri ≠ sseUri ∧
      ¬(statusUri <+: hm.uri ∧ hm.method = GET) ∧ ¬(iceoryxUri <+: hm.uri ∧ hm.method = POST) ∧
      ¬((10 ≤ hm.uri.length ∧ logUri <+: hm.uri) ∧ hm.method = POST) := by
    simpa only [OwnRoute, not_or] using foreign
  rw [evHandler_eq, if_neg hoptions, if_neg hsoket, if_neg hsse, if_neg hstatus, if_neg hiceoryx,
    if_neg hlog, if_pos (namesPlugin_of_names names fits)]

end Paths

section Calls

variable {L : Loader η} {fs : FileSystem} {cache : DlCache η} {hm : HttpMessage} {path : Bytes}

private theorem header_plain {v : Bytes} (h : mgHttpGetHeader hm "FFI-Symbol" = some v) : 0 ∉ v := by
  obtain ⟨e, he, rfl⟩ := Option.map_eq_some_iff.mp h
  exact hm.headers_plain e (List.mem_of_find?_eq_some he)

/-- Without a cut, the handler calls the documented symbol. -/
private theorem finalSymbol_eq (fits : Fits hm path) : finalSymbol hm = symbolName hm := by
  have hmethod : methodOf hm = hm.method := by
    rw [methodOf_eq, List.take_of_length_le fits.method]
  have hlength : (symbolName hm).length < 256 := by
    have hone : (ascii "_").length = 1 := rfl
    have hfits := fits.method
    have hsymbol := fits.symbol
    rw [symbolName, List.length_append, List.length_append, List.length_map, hone]
    omega
  have hsymbol := fits.symbol
  unfold headerSymbol at hsymbol
  unfold symbolName headerSymbol at hlength
  unfold finalSymbol symbolName headerSymbol
  dsimp only
  rw [hmethod]
  cases hget : mgHttpGetHeader hm "FFI-Symbol" with
  | none =>
    rw [hget] at hlength
    exact snprintf_fits hlength
  | some v =>
    have hplain := header_plain hget
    rw [hget] at hlength hsymbol
    cases v with
    | nil => exact snprintf_fits hlength
    | cons c v =>
      dsimp only at hlength hsymbol ⊢
      rw [List.take_of_length_le hsymbol, cString_plain hplain, snprintf_fits hlength]

/-- A plugin that is found and exports the symbol is called, and its return code decides the reply. -/
private theorem handler_calls {h : η} (names : Names fs hm path) (fits : Fits hm path)
    (hhandle : (dlGet L cache path).1 = some h) (hsym : L.dlsym h (symbolName hm) = true) :
    evHandlerLibary L true fs cache hm =
      ⟨if (L.invoke h (symbolName hm) (buildJsonIn hm)).1 ≠ 0 then pluginNotFound
        else ⟨200, cString (L.invoke h (symbolName hm) (buildJsonIn hm)).2⟩,
        [⟨h, symbolName hm, buildJsonIn hm⟩], (dlGet L cache path).2⟩ := by
  have huri : cString (hm.uri.take 255) = hm.uri := by
    rw [List.take_of_length_le fits.uri, cString_plain hm.uri_plain.1]
  have hlength : (cleanUri hm.uri).length ≤ 255 := (length_cleanUri hm.uri).trans fits.uri
  obtain ⟨hfound, hpath⟩ := resolve_library names.name hlength names.library fits.path
  unfold evHandlerLibary
  dsimp only
  rw [huri, names.level, if_neg Bool.false_ne_true, if_neg names.name, hfound,
    if_neg (fun hne => hne rfl), hpath, Option.getD_some, finalSymbol_eq fits,
    call_exported hhandle hsym]

private theorem buildJsonIn_body (h : hm.query = []) :
    buildJsonIn hm = if hm.body = [] then none else some hm.body := by
  rw [buildJsonIn, queryToJson, if_pos h]

/-- Whatever libraries were asked for before, a request whose path names a plugin that exports its
symbol calls this function, once and with the assembled input, and is answered by its return code:
when the request is no route of the server itself and nothing in it is cut, the library has a place
in the cache under its own path, and there is memory for the output. -/
theorem plugin_called (L : Loader η) (paths : List Bytes) (fs : FileSystem) (hm : HttpMessage)
    (path : Bytes) (h : η) (plugin : Exports L fs hm path h) (foreign : ¬OwnRoute hm)
    (fits : Fits hm path) (room : Room (cacheAfter L paths) path)
    (unmistaken : Unmistaken paths path) :
    ∃ r, serve L true fs (cacheAfter L paths) hm = some r ∧
      r.invoked = [⟨h, symbolName hm, buildJsonIn hm⟩] ∧
      (hm.query = [] → buildJsonIn hm = if hm.body = [] then none else some hm.body) ∧
      (r.reply = ⟨200, cString (L.invoke h (symbolName hm) (buildJsonIn hm)).2⟩ ↔
        (L.invoke h (symbolName hm) (buildJsonIn hm)).1 = 0) ∧
      ((L.invoke h (symbolName hm) (buildJsonIn hm)).1 ≠ 0 → r.reply.code = 404) := by
  have hcall := handler_calls plugin.toNames fits (dlGet_handle plugin.opened room unmistaken)
    plugin.symbol
  refine ⟨_, ?_, congrArg Handled.invoked hcall, buildJsonIn_body, ?_, ?_⟩
  · rw [serve, if_pos (dispatched plugin.toNames fits foreign)]
  · rw [hcall]
    dsimp only
    constructor
    · intro hreply
      by_contra hne
      rw [if_pos hne] at hreply
      have hcode : 404 = 200 := congrArg HttpReply.code hreply
      exact absurd hcode (by decide)
    · intro hzero
      rw [if_neg (not_not_intro hzero)]
  · intro hne
    rw [hcall]
    dsimp only
    rw [if_pos hne]
    rfl

/-- Plugins that give back their input, at the handles that are their paths. -/
def echoLoader (exports : List Bytes) : Loader Bytes where
  dlopen := some
  dlsym _ symbol := decide (symbol ∈ exports)
  invoke _ _ input := (0, input.getD (ascii "null"))

/-- The library of the name in a URI, below `./libary`. -/
def libaryPath (uri : Bytes) : Bytes := LIBARY_DIR ++ PATH_SEP ++ cleanUri uri ++ FFI_EXT

def onlyFile (file : Bytes) : FileSystem := ⟨fun path => decide (path = file), fun _ => none⟩

/-- A request without a body; the header of the symbol may be empty. -/
def headRequest (method uri query symbol : Bytes)
    (plain : 0 ∉ method ∧ (0 ∉ uri ∧ 63 ∉ uri) ∧ 0 ∉ query ∧ 0 ∉ symbol) : HttpMessage :=
  ⟨method, uri, query, [(ascii "ffi-symbol", symbol)], [], plain.1, plain.2.1, plain.2.2.1, by
    intro h hmem
    rw [List.mem_singleton.mp hmem]
    exact plain.2.2.2, size_nil⟩

def demoRequest : HttpMessage :=
  headRequest GET (ascii "/demo") (ascii "id=2") (ascii "show") (by decide +kernel)

theorem demo_called : ∃ r, serve (echoLoader [ascii "get_show"]) true
      (onlyFile (ascii "./libary/demo.so")) (cacheAfter (echoLoader [ascii "get_show"]) [])
      demoRequest = some r ∧
    r.invoked = [⟨ascii "./libary/demo.so", ascii "get_show", some (ascii "\x7b\"id\":2\x7d")⟩] ∧
    r.reply = ⟨200, ascii "\x7b\"id\":2\x7d"⟩ := by
  have hinput : symbolName demoRequest = ascii "get_show" ∧
      buildJsonIn demoRequest = some (ascii "\x7b\"id\":2\x7d") := by decide +kernel
  obtain ⟨r, hserve, hinvoked, _, hreply, _⟩ := plugin_called (echoLoader [ascii "get_show"]) []
    (onlyFile (ascii "./libary/demo.so")) demoRequest (ascii "./libary/demo.so")
    (ascii "./libary/demo.so") (by decide +kernel) (by unfold OwnRoute; decide +kernel)
    ⟨by decide +kernel, by decide +kernel, by decide +kernel, by decide +kernel⟩
    (Or.inr (by decide +kernel)) (fun q hq => absurd hq List.not_mem_nil)
  rw [hinput.1, hinput.2] at hinvoked hreply
  refine ⟨r, hserve, hinvoked, ?_⟩
  rw [hreply.mpr rfl]
  decide +kernel

def preflightRequest : HttpMessage := headRequest OPTIONS (ascii "/demo") [] [] (by decide +kernel)

def streamRequest : HttpMessage := headRequest GET sseUri [] [] (by decide +kernel)

def longMethodRequest : HttpMessage :=
  headRequest (List.replicate 16 65) (ascii "/demo") [] [] (by decide +kernel)

def longSymbolRequest : HttpMessage :=
  headRequest GET (ascii "/demo") [] (List.replicate 128 97) (by decide +kernel)

def longUriRequest : HttpMessage :=
  headRequest GET (slash :: List.replicate 255 97) [] [] (by decide +kernel)

def getRequest : HttpMessage := headRequest GET (ascii "/demo") [] [] (by decide +kernel)

def longPathRequest : HttpMessage :=
  headRequest GET (slash :: List.replicate 250 97) [] [] (by decide +kernel)

/-- The library of this request has a path that just fits into the cache. -/
def cutPathRequest : HttpMessage :=
  headRequest GET (slash :: List.replicate 243 97) [] [] (by decide +kernel)

/-- The plugin in this file is named and exports the symbol of the request and no other, and yet its
function is not called once with the assembled input. -/
def Missed (mem : Bool) (paths : List Bytes) (file : Bytes) (hm : HttpMessage) : Prop :=
  let L := echoLoader [symbolName hm]
  Exports L (onlyFile file) hm file file ∧
    (serve L mem (onlyFile file) (cacheAfter L paths) hm).all (fun r =>
      decide (r.invoked ≠ [⟨file, symbolName hm, buildJsonIn hm⟩])) = true

instance (mem : Bool) (paths : List Bytes) (file : Bytes) (hm : HttpMessage) :
    Decidable (Missed mem paths file hm) :=
  inferInstanceAs (Decidable (_ ∧ _))

/-- A route of the server; a method, a symbol, a URI or a path that is cut; a cache that other
libraries fill, or that has an entry of another library cut to this path; and no memory for the
output. -/
theorem plugins_missed :
    Missed true [] (libaryPath (ascii "/demo")) preflightRequest ∧
    Missed true [] (libaryPath sseUri) streamRequest ∧
    Missed true [] (libaryPath (ascii "/demo")) longMethodRequest ∧
    Missed true [] (libaryPath (ascii "/demo")) longSymbolRequest ∧
    Missed true [] (libaryPath longUriRequest.uri) longUriRequest ∧
    Missed true [] (PLUGINS_DIR ++ longPathRequest.uri ++ longPathRequest.uri ++ FFI_EXT)
      longPathRequest ∧
    Missed true ((List.range 32).map fun i => ascii "./libary/" ++ decimal i)
      (libaryPath (ascii "/demo")) getRequest ∧
    Missed true [libaryPath (cutPathRequest.uri ++ FFI_EXT)] (libaryPath cutPathRequest.uri)
      cutPathRequest ∧
    Missed false [] (libaryPath (ascii "/demo")) getRequest := by
  decide +kernel

end Calls

end Cyctron.Http.Libary
