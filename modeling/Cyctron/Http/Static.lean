/- Cyctron/Http/Static
   digest: The static files of handler_static.c, and which of their paths lie below the web root. -/

import Cyctron.Base.FileTree
import Cyctron.Http.Libary
import Cyctron.Http.Parse

set_option autoImplicit false
set_option relaxedAutoImplicit false

namespace Cyctron.Http.Static

open Cyctron.Base.CString Cyctron.Base.FileTree Cyctron.Http.Message Cyctron.Http.Parse
open Cyctron.Mongoose.Query
open Cyctron.Http.Libary (HttpReply badRequest)
open Cyctron.Plugin.Path (slash dotDot uriHasTraversal)

def WEB_ROOT : Bytes := ascii "./web"
def INDEX_HTML : Bytes := ascii "index.html"

abbrev MG_PATH_MAX : Nat := 4096

def INDEX_HTML_CONTENT : Bytes := ascii ("<!DOCTYPE html>\n" ++
  "<html lang=\"zh-cn\">\n" ++
  "<head>\n" ++
  "  <meta charset=\"UTF-8\">\n" ++
  "  <meta name=\"viewport\" content=\"width=device-width,minimum-scale=1,maximum-scale=1," ++
  "initial-scale=1,user-scalable=no\">\n" ++
  "  <link rel=\"icon\" href=\"https://book.funxdata.com/public/funxdata.ico\">\n" ++
  "  <title>Piksel</title>\n" ++
  "</head>\n" ++
  "<body>\n" ++
  "  <div id=\"asides\" class=\"vg-asides\"></div>\n" ++
  "  <div id=\"app\"></div>\n" ++
  "  <div id=\"popup\"></div>\n" ++
  "  <script type=\"module\" src=\"/pages/browser.js\"></script>\n" ++
  "  <script type=\"module\" src=\"/pages/router.js\"></script>\n" ++
  "  <script type=\"module\" src=\"/init/init.js\"></script>\n" ++
  "</body>\n" ++
  "</html>\n")

def indexHtml : HttpReply := ⟨200, INDEX_HTML_CONTENT⟩

/-- The reply of `mg_http_serve_file` for a file that it cannot open. -/
def notFound : HttpReply := ⟨404, ascii "Not found\n"⟩

def strrchr : Bytes → UInt8 → Option Nat
  | [], _ => none
  | x :: s, c =>
    match strrchr s c with
    | some i => some (i + 1)
    | none => if x = c then some 0 else none

def hasFileExtension (path : Bytes) : Bool :=
  match strrchr path 46 with
  | none => false
  | some dot =>
    if (strrchr path slash).any fun s => dot < s then false else decide (dot + 1 ≠ path.length)

/-- `static_resolve_path`: the path in its buffer, unless the URI is rejected. -/
def staticResolvePath (uri : Bytes) (outSize : Nat) : Option Bytes :=
  if uriHasTraversal uri then none
  else if hasFileExtension uri = false then
    if uri = [] ∨ uri = [slash] then some (snprintf outSize (WEB_ROOT ++ slash :: INDEX_HTML))
    else some (snprintf outSize (WEB_ROOT ++ uri ++ slash :: INDEX_HTML))
  else some (snprintf outSize (WEB_ROOT ++ uri))

def staticShouldFallback (uri : Bytes) : Bool :=
  if uri = [] ∨ uri = [slash] then false
  else if hasFileExtension uri then false
  else if uri = ascii "/api" ∨ strncmpEq uri (ascii "/api/") 5 = true then false
  else if uri = ascii "/soket" then false
  else if uri = ascii "/sse" ∨ strncmpEq uri (ascii "/sse?") 5 = true then false
  else true

/-- The loop of `mg_match` on what is left of a string and of a pattern, with the place to go back
to; each step moves on in one of them, or the place does. -/
def mgMatchLoop : Nat → Bytes → Bytes → Option (Bytes × Bytes) → Bool
  | 0, _, _, _ => false
  | fuel + 1, s, p, back =>
    if s = [] ∧ p = [] then true
    else if s ≠ [] ∧ p ≠ [] ∧ (p.head? = some 63 ∨
        (p.head? ≠ some 42 ∧ p.head? ≠ some 35 ∧ s.head? = p.head?)) then
      mgMatchLoop fuel s.tail p.tail back
    else if p.head? = some 42 ∨ p.head? = some 35 then
      mgMatchLoop fuel s p.tail (if s = [] then none else some (s.tail, p))
    else
      match back with
      | none => false
      | some (s', p') =>
        if p'.head? = some 35 ∨ s.head? ≠ some slash then mgMatchLoop fuel s' p' back else false

def mgMatch (s p : Bytes) : Bool :=
  mgMatchLoop ((s.length + 2) * (s.length + p.length + 2)) s p none

/-- What the file system says: a file can be opened, and its status can be read. -/
structure Disk where
  op : Bytes → Bool
  st : Bytes → Bool

/-- The reply to a request for a file: a whole reply, or the file at a path, which may be packed. -/
inductive StaticReply
  | reply (r : HttpReply)
  | file (path : Bytes) (gzip : Bool)
  deriving DecidableEq

/-- A file that is open is served when its status can be read. -/
def served (d : Disk) (path : Bytes) (gzip : Bool) : StaticReply :=
  if d.st path then .file path gzip else .reply notFound

/-- `mg_http_serve_file` with the options of the handler: its reply, and the paths that it opens. -/
def mgHttpServeFile (d : Disk) (hm : HttpMessage) (path : Bytes) : StaticReply × List Bytes :=
  let tmp := snprintf MG_PATH_MAX (path ++ ascii ".gz")
  let packed := (mgHttpGetHeader hm "Accept-Encoding").any fun ae => mgMatch ae (ascii "*gzip*")
  if packed && d.op tmp then (served d tmp true, [tmp])
  else (if d.op path then served d path false else .reply notFound,
    (if packed then [tmp] else []) ++ [path])

/-- The URI in the buffer of the handler. -/
def uriOf (hm : HttpMessage) : Bytes := (cString (hm.uri.take 511)).takeWhile (· ≠ 63)

/-- `ev_handler_static`: its reply, and the paths that it opens. -/
def evHandlerStatic (d : Disk) (hm : HttpMessage) : StaticReply × List Bytes :=
  let uri := uriOf hm
  if uriHasTraversal uri then (.reply badRequest, [])
  else
    match staticResolvePath uri 1024 with
    | none => (.reply badRequest, [])
    | some filePath =>
      if filePath = WEB_ROOT ++ slash :: INDEX_HTML then (.reply indexHtml, [])
      else if staticShouldFallback uri then (.reply indexHtml, [])
      else mgHttpServeFile d hm filePath

/-- Whatever file the path opens, in any tree and from any directory, lies below the directory `web`
there. -/
def BelowRoot (path : Bytes) : Prop :=
  ∀ (t : Base.FileTree.Tree UInt8) (cwd q : List Bytes), t.Opens 46 slash cwd path q →
    Inside (cwd ++ [ascii "web"]) q

/-- Every path that the handler opens or serves is below the root. -/
def Contained (d : Disk) (hm : HttpMessage) : Prop :=
  (∀ path ∈ (evHandlerStatic d hm).2, BelowRoot path) ∧
  ∀ path gzip, (evHandlerStatic d hm).1 = .file path gzip → BelowRoot path

example : mgMatch (ascii "deflate, gzip;q=1") (ascii "*gzip*") = true ∧
    mgMatch (ascii "x/gzip") (ascii "*gzip*") = false := by decide +kernel

section Extensions

variable {s a b u : Bytes} {c : UInt8} {i : Nat}

private theorem strrchr_none : strrchr s c = none ↔ c ∉ s := by
  induction s with
  | nil => exact iff_of_true rfl List.not_mem_nil
  | cons x s ih =>
    rw [strrchr, List.mem_cons, not_or]
    cases hs : strrchr s c with
    | some i =>
      rw [hs] at ih
      exact iff_of_false (by exact Option.some_ne_none _) fun h => Option.some_ne_none i (ih.mpr h.2)
    | none =>
      have hrest : c ∉ s := ih.mp hs
      by_cases hx : x = c
      · simp [hx]
      · simp [hx, Ne.symm hx, hrest]

private theorem strrchr_append : strrchr (a ++ s) c =
    ((strrchr s c).map (a.length + ·)).or (strrchr a c) := by
  induction a with
  | nil =>
    cases h : strrchr s c with
    | none => rw [List.nil_append, h]; rfl
    | some i => rw [List.nil_append, h]; simp
  | cons x a ih =>
    rw [List.cons_append, strrchr, ih, strrchr]
    cases h : strrchr s c with
    | none => rfl
    | some i =>
      simp only [Option.map_some, Option.some_or, List.length_cons]
      congr 1
      omega

private theorem strrchr_split (h : strrchr s c = some i) :
    ∃ a b, s = a ++ c :: b ∧ a.length = i ∧ c ∉ b := by
  have hmem : c ∈ s := by
    by_contra hno
    rw [strrchr_none.mpr hno] at h
    cases h
  obtain ⟨a, b, rfl, hb⟩ := exists_last hmem
  have hlast : strrchr (c :: b) c = some 0 := by
    rw [strrchr, strrchr_none.mpr hb]
    exact if_pos rfl
  rw [strrchr_append, hlast] at h
  exact ⟨a, b, rfl, Option.some.inj h, hb⟩

/-- A path with an extension has its last dot behind every slash, and not at its end. -/
private theorem extension_split (h : hasFileExtension u = true) :
    ∃ a ext, u = a ++ 46 :: ext ∧ ext ≠ [] ∧ slash ∉ ext := by
  rw [hasFileExtension] at h
  cases hdot : strrchr u 46 with
  | none =>
    rw [hdot] at h
    cases h
  | some dot =>
    rw [hdot] at h
    dsimp only at h
    obtain ⟨a, ext, rfl, rfl, -⟩ := strrchr_split hdot
    split at h
    · cases h
    · rename_i hslash
      refine ⟨a, ext, rfl, ?_, fun hmem => hslash ?_⟩
      · rintro rfl
        refine of_decide_eq_true h ?_
        rw [List.length_append]
        rfl
      · cases hs : strrchr ext slash with
        | none => exact absurd hmem (strrchr_none.mp hs)
        | some j =>
          have hsplit : a ++ 46 :: ext = (a ++ [46]) ++ ext := by simp
          rw [hsplit, strrchr_append, hs]
          simp only [Option.map_some, Option.some_or, Option.any_some, List.length_append,
            List.length_singleton, decide_eq_true_eq]
          omega

/-- A URI that asks for no file of its own and has no fallback starts with a slash. -/
private theorem head_of_no_fallback (hext : hasFileExtension u = false) (hne : u ≠ [] ∧ u ≠ [slash])
    (h : staticShouldFallback u = false) : u.head? = some slash := by
  have hlead : ∀ lit : Bytes, strncmpEq u (slash :: lit) 5 = true → u.head? = some slash := by
    intro lit hcmp
    cases u with
    | nil => exact absurd rfl hne.1
    | cons x u =>
      rw [strncmpEq] at hcmp
      have hx : (x == slash) = true := (Bool.and_eq_true_iff.mp hcmp).1
      rw [List.head?_cons, eq_of_beq hx]
  rw [staticShouldFallback, if_neg (not_or.mpr hne), if_neg (by rw [hext]; exact Bool.false_ne_true)] at h
  split at h
  · rename_i hapi
    rcases hapi with rfl | hcmp
    · rfl
    · exact hlead _ hcmp
  split at h
  · rename_i hsoket
    rw [hsoket]
    rfl
  split at h
  · rename_i hsse
    rcases hsse with rfl | hcmp
    · rfl
    · exact hlead _ hcmp
  · cases h

end Extensions

section Places

variable {u v b path : Bytes} {c : UInt8}

/-- No component of the path goes up. -/
def LevelPath (path : Bytes) : Prop := dotDot ∉ path.splitOn slash

private theorem level_of_not_infix (h : ¬dotDot <:+: u) :
    LevelPath u := fun hmem => h (component_within hmem)

private theorem level_append : LevelPath (u ++ slash :: v) ↔ LevelPath u ∧ LevelPath v := by
  unfold LevelPath
  rw [List.splitOn_append_cons_self, List.mem_append, not_or]

/-- A last name of its own length does not make two dots. -/
private theorem level_extended (h : LevelPath u) (hb : slash ∉ b) (hlength : 3 ≤ b.length) :
    LevelPath (u ++ b) := by
  intro hmem
  rcases component_append hb hmem with hu | hs
  · exact h hu
  · have hle := hs.length_le
    have htwo : dotDot.length = 2 := rfl
    omega

private theorem root_eq : WEB_ROOT ++ u = [46] ++ slash :: (ascii "web" ++ u) := rfl

private theorem level_root (h : ¬dotDot <:+: u) : LevelPath (WEB_ROOT ++ u) := by
  rw [root_eq, level_append]
  refine ⟨by unfold LevelPath; decide, level_of_not_infix fun hin => h ?_⟩
  change 46 :: [46] <:+: 119 :: 101 :: 98 :: u at hin
  rwa [Base.Path.infix_cons_of_ne (by decide), Base.Path.infix_cons_of_ne (by decide),
    Base.Path.infix_cons_of_ne (by decide)] at hin

private theorem splitOn_root_slash : (WEB_ROOT ++ slash :: v).splitOn slash =
    [[46], ascii "web"] ++ v.splitOn slash := by
  have hroot : WEB_ROOT.splitOn slash = [[46], ascii "web"] := by decide
  rw [List.splitOn_append_cons_self, hroot]

/-- A level path with a slash behind the root opens only what is below the root. -/
private theorem rooted_below (level : LevelPath (WEB_ROOT ++ slash :: v)) :
    BelowRoot (WEB_ROOT ++ slash :: v) := by
  intro t cwd q hopens
  unfold LevelPath at level
  obtain ⟨hwalk, hfile⟩ := hopens
  rw [splitOn_root_slash] at level hwalk
  exact opened_inside level (List.splitOn_ne_nil slash v) hwalk hfile

/-- Without the slash, the directory has another name. -/
private theorem splitOn_root_other (hc : c ≠ slash) : ∃ g gs,
    (WEB_ROOT ++ c :: u).splitOn slash = [46] :: (ascii "web" ++ c :: g) :: gs := by
  have hroot : (WEB_ROOT ++ c :: u).splitOn slash =
      [46] :: (119 :: 101 :: 98 :: c :: u).splitOn slash := by
    rw [root_eq, List.splitOn_append_cons_self]
    rfl
  have hw : ((119 : UInt8) == slash) = false ∧ ((101 : UInt8) == slash) = false ∧
      ((98 : UInt8) == slash) = false := by decide
  have hcs : ¬(c == slash) = true := fun h => hc (eq_of_beq h)
  rw [hroot, List.splitOn_cons_eq_if_modifyHead, List.splitOn_cons_eq_if_modifyHead,
    List.splitOn_cons_eq_if_modifyHead, List.splitOn_cons_eq_if_modifyHead, hw.1, hw.2.1, hw.2.2,
    if_neg hcs]
  cases hs : u.splitOn slash with
  | nil => exact absurd hs (List.splitOn_ne_nil slash u)
  | cons g gs => exact ⟨g, gs, rfl⟩

/-- Without the slash, a level path to a name opens a file that is not below the root. -/
private theorem other_not_below (hc : c ≠ slash) (level : LevelPath (WEB_ROOT ++ c :: u))
    {l ext : Bytes}
    (hend : WEB_ROOT ++ c :: u = l ++ 46 :: ext) (hne : ext ≠ []) (hext : slash ∉ ext) :
    ¬BelowRoot (WEB_ROOT ++ c :: u) := by
  intro hbelow
  obtain ⟨g, gs, hfirst⟩ := splitOn_root_other (u := u) hc
  have hmem : slash ∈ WEB_ROOT ++ c :: u := List.mem_append_left _ (by decide)
  obtain ⟨a, n, hlast, hn⟩ := exists_last hmem
  have hname : isName 46 n = true := by
    have hsuffix : 46 :: ext <:+ n := by
      have hin : slash :: n <:+ WEB_ROOT ++ c :: u := ⟨a, hlast.symm⟩
      have hin' : 46 :: ext <:+ WEB_ROOT ++ c :: u := ⟨l, hend.symm⟩
      rcases List.suffix_or_suffix_of_suffix hin' hin with hs | hs
      · rcases List.suffix_cons_iff.mp hs with heq | hs
        · exact absurd (List.cons.inj heq).1 (by decide)
        · exact hs
      · rcases List.mem_cons.mp (hs.subset List.mem_cons_self) with hbad | hbad
        · exact absurd hbad (by decide)
        · exact absurd hbad hext
    have hlength := hsuffix.length_le
    have hpos := List.length_pos_iff.mpr hne
    rw [List.length_cons] at hlength
    have hnil : n ≠ [] := fun h => by
      rw [h, List.length_nil] at hlength
      omega
    have hdot : n ≠ [46] := fun h => by
      rw [h, List.length_singleton] at hlength
      omega
    rw [isName, decide_eq_true hnil, decide_eq_true hdot]
    rfl
  have hsplit : (WEB_ROOT ++ c :: u).splitOn slash = a.splitOn slash ++ [n] := by
    rw [hlast, splitOn_last hn]
  have hwalk := single_walk (p := []) (by rwa [LevelPath, hsplit] at level) hname rfl
  rw [← hsplit] at hwalk
  have hin := hbelow _ [] _ ⟨hwalk, if_pos rfl⟩
  rw [List.nil_append, hfirst, List.filter_cons_of_neg (by decide),
    List.filter_cons_of_pos (by rfl)] at hin
  have hweb := (List.cons_prefix_cons.mp hin.1).1
  exact absurd (congrArg List.length hweb) (by simp)

end Places

section Requests

variable {d : Disk} {hm : HttpMessage} {path p : Bytes} {gzip packed : Bool}

private theorem served_file (h : served d path packed = .file p gzip) : p = path := by
  rw [served] at h
  split at h
  · exact (StaticReply.file.inj h).1.symm
  · cases h

/-- A file is served at a path that was opened. -/
private theorem served_opened (h : (mgHttpServeFile d hm path).1 = .file p gzip) :
    p ∈ (mgHttpServeFile d hm path).2 := by
  rw [mgHttpServeFile] at h ⊢
  split at h
  · rename_i hpacked
    rw [if_pos hpacked, served_file h]
    exact List.mem_singleton_self _
  · rename_i hpacked
    rw [if_neg hpacked]
    dsimp only at h
    split at h
    · rw [served_file h]
      exact List.mem_append_right _ List.mem_cons_self
    · cases h

/-- The paths that are opened for a file are its own and that of the packed file. -/
private theorem opened_cases (hlength : path.length < 1024) (h : p ∈ (mgHttpServeFile d hm path).2) :
    p = path ∨ p = path ++ ascii ".gz" := by
  have hgz : snprintf MG_PATH_MAX (path ++ ascii ".gz") = path ++ ascii ".gz" := by
    refine snprintf_fits ?_
    have hthree : (ascii ".gz").length = 3 := rfl
    have hmax : MG_PATH_MAX = 4096 := rfl
    rw [List.length_append, hthree, hmax]
    omega
  rw [mgHttpServeFile, hgz] at h
  split at h
  · exact Or.inr (List.mem_singleton.mp h)
  · rcases List.mem_append.mp h with h | h
    · split at h
      · exact Or.inr (List.mem_singleton.mp h)
      · exact absurd h List.not_mem_nil
    · exact Or.inl (List.mem_singleton.mp h)

private theorem opened_some (d : Disk) (hm : HttpMessage) (path : Bytes) :
    ∃ p, p ∈ (mgHttpServeFile d hm path).2 := by
  rw [mgHttpServeFile]
  split
  · exact ⟨_, List.mem_singleton_self _⟩
  · exact ⟨path, List.mem_append_right _ List.mem_cons_self⟩

private theorem uriOf_eq (hm : HttpMessage) : uriOf hm = hm.uri.take 511 := by
  rw [uriOf, cString_plain fun h => hm.uri_plain.1 (List.mem_of_mem_take h)]
  refine List.takeWhile_eq_self_iff.mpr fun c hc => decide_eq_true ?_
  rintro rfl
  exact hm.uri_plain.2 (List.mem_of_mem_take hc)

/-- Without a rejection, the request asks for a resolved path, or for the page in the program. -/
private theorem handler_cases (accepted : (evHandlerStatic d hm).1 ≠ .reply badRequest) :
    ¬dotDot <:+: uriOf hm ∧
    (evHandlerStatic d hm = (.reply indexHtml, []) ∧
        (hasFileExtension (uriOf hm) = false ∨ (uriOf hm).head? = some slash) ∨
      hasFileExtension (uriOf hm) = false ∧ (uriOf hm).head? = some slash ∧
        evHandlerStatic d hm = mgHttpServeFile d hm (WEB_ROOT ++ uriOf hm ++ slash :: INDEX_HTML) ∨
      hasFileExtension (uriOf hm) = true ∧
        evHandlerStatic d hm = mgHttpServeFile d hm (WEB_ROOT ++ uriOf hm)) := by
  have hlength : (uriOf hm).length ≤ 511 := by
    rw [uriOf_eq]
    exact List.length_take_le 511 hm.uri
  have hroot : WEB_ROOT.length = 5 := rfl
  have hindex : (slash :: INDEX_HTML).length = 11 := rfl
  by_cases htraversal : uriHasTraversal (uriOf hm) = true
  · rw [evHandlerStatic] at accepted
    rw [if_pos htraversal] at accepted
    exact absurd rfl accepted
  refine ⟨fun hin => htraversal (decide_eq_true hin), ?_⟩
  rw [evHandlerStatic, if_neg htraversal, staticResolvePath, if_neg htraversal]
  cases hext : hasFileExtension (uriOf hm) with
  | true =>
    have hfits : snprintf 1024 (WEB_ROOT ++ uriOf hm) = WEB_ROOT ++ uriOf hm :=
      snprintf_fits (by rw [List.length_append, hroot]; omega)
    have hfallback : ¬staticShouldFallback (uriOf hm) = true := by
      rw [staticShouldFallback, hext]
      split <;> exact Bool.false_ne_true
    rw [if_neg (by decide), hfits]
    dsimp only
    by_cases hsame : WEB_ROOT ++ uriOf hm = WEB_ROOT ++ slash :: INDEX_HTML
    · rw [if_pos hsame, List.append_cancel_left hsame]
      exact Or.inl ⟨rfl, Or.inr rfl⟩
    · rw [if_neg hsame, if_neg hfallback]
      exact Or.inr (Or.inr ⟨rfl, rfl⟩)
  | false =>
    rw [if_pos rfl]
    by_cases hhome : uriOf hm = [] ∨ uriOf hm = [slash]
    · rw [if_pos hhome]
      dsimp only
      rw [if_pos (by decide)]
      exact Or.inl ⟨rfl, Or.inl rfl⟩
    have hfits : snprintf 1024 (WEB_ROOT ++ uriOf hm ++ slash :: INDEX_HTML) =
        WEB_ROOT ++ uriOf hm ++ slash :: INDEX_HTML :=
      snprintf_fits (by rw [List.length_append, List.length_append, hroot, hindex]; omega)
    rw [if_neg hhome, hfits]
    dsimp only
    by_cases hsame : WEB_ROOT ++ uriOf hm ++ slash :: INDEX_HTML = WEB_ROOT ++ slash :: INDEX_HTML
    · rw [if_pos hsame]
      exact Or.inl ⟨rfl, Or.inl rfl⟩
    rw [if_neg hsame]
    cases hfallback : staticShouldFallback (uriOf hm) with
    | true => exact Or.inl ⟨if_pos rfl, Or.inl rfl⟩
    | false =>
      refine Or.inr (Or.inl ⟨rfl, head_of_no_fallback hext (not_or.mp hhome) hfallback, ?_⟩)
      exact if_neg Bool.false_ne_true

/-- The files of an accepted request are below the root exactly when its URI starts with a slash, or
when what the handler keeps of it has no extension. -/
theorem static_contained_iff (d : Disk) (hm : HttpMessage)
    (accepted : (evHandlerStatic d hm).1 ≠ .reply badRequest) : Contained d hm ↔
      hm.uri.head? = some slash ∨ hasFileExtension (hm.uri.take 511) = false := by
  have hhead : (uriOf hm).head? = hm.uri.head? := by
    rw [uriOf_eq, List.head?_take, if_neg (by decide)]
  obtain ⟨hlevel, hcases⟩ := handler_cases accepted
  have hlength : (uriOf hm).length ≤ 511 := by
    rw [uriOf_eq]
    exact List.length_take_le 511 hm.uri
  rw [← hhead, ← uriOf_eq]
  -- what is opened is level, and so is the path of the packed file
  have hbelow : ∀ path, path.length < 1024 → LevelPath path →
      (∃ v, path = WEB_ROOT ++ slash :: v) → evHandlerStatic d hm = mgHttpServeFile d hm path →
      Contained d hm := by
    rintro path hpath level ⟨v, rfl⟩ heq
    have hopened : ∀ p ∈ (evHandlerStatic d hm).2, BelowRoot p := by
      intro p hp
      rw [heq] at hp
      rcases opened_cases hpath hp with rfl | rfl
      · exact rooted_below level
      · have hgz := level_extended level (b := ascii ".gz") (by decide) (by decide)
        rw [List.append_assoc, List.cons_append] at hgz ⊢
        exact rooted_below hgz
    refine ⟨hopened, fun p gzip hfile => hopened p ?_⟩
    rw [heq] at hfile ⊢
    exact served_opened hfile
  have hroot : WEB_ROOT.length = 5 := rfl
  rcases hcases with ⟨heq, hcond⟩ | ⟨hext, hslash, heq⟩ | ⟨hext, heq⟩
  · refine iff_of_true ?_ hcond.symm
    rw [Contained, heq]
    exact ⟨fun p hp => absurd hp List.not_mem_nil, fun p gzip h => StaticReply.noConfusion h⟩
  · refine iff_of_true (hbelow _ ?_ ?_ ?_ heq) (Or.inr hext)
    · have hindex : (slash :: INDEX_HTML).length = 11 := rfl
      rw [List.length_append, List.length_append, hroot, hindex]
      omega
    · exact level_append.mpr ⟨level_root hlevel, by unfold LevelPath; decide⟩
    · obtain ⟨v, hv⟩ : ∃ v, uriOf hm = slash :: v := List.head?_eq_some_iff.mp hslash
      rw [hv, List.append_assoc, List.cons_append]
      exact ⟨_, rfl⟩
  · have hpath : (WEB_ROOT ++ uriOf hm).length < 1024 := by
      rw [List.length_append, hroot]
      omega
    constructor
    · intro hcontained
      by_contra hnot
      obtain ⟨a, ext, huri, hne, hslash⟩ := extension_split hext
      obtain ⟨c, u, hu⟩ : ∃ c u, uriOf hm = c :: u := by
        refine List.exists_cons_of_ne_nil ?_
        rw [huri]
        exact List.append_ne_nil_of_right_ne_nil a (List.cons_ne_nil 46 ext)
      have hc : c ≠ slash := fun h => hnot (Or.inl (by rw [hu, h]; rfl))
      have level := level_root hlevel
      obtain ⟨p, hp⟩ := opened_some d hm (WEB_ROOT ++ uriOf hm)
      have hin := hcontained.1 p (by rw [heq]; exact hp)
      have hend : WEB_ROOT ++ uriOf hm = (WEB_ROOT ++ a) ++ 46 :: ext := by
        rw [huri, List.append_assoc]
      rcases opened_cases hpath hp with rfl | rfl
      · rw [hu] at hin level hend
        exact other_not_below hc level hend hne hslash hin
      · have hgz := level_extended level (b := ascii ".gz") (by decide) (by decide)
        have hend' : WEB_ROOT ++ uriOf hm ++ ascii ".gz" =
            (WEB_ROOT ++ a) ++ 46 :: (ext ++ ascii ".gz") := by
          rw [hend, List.append_assoc, List.cons_append]
        rw [hu, List.append_assoc, List.cons_append] at hin hgz hend'
        refine other_not_below hc hgz hend' (fun h => hne (List.append_eq_nil_iff.mp h).1) ?_ hin
        rw [List.mem_append]
        exact not_or.mpr ⟨hslash, by decide⟩
    · rintro (hslash | hno)
      · obtain ⟨v, hv⟩ : ∃ v, uriOf hm = slash :: v := List.head?_eq_some_iff.mp hslash
        exact hbelow _ hpath (level_root hlevel) ⟨v, by rw [hv]⟩ heq
      · rw [hext] at hno
        cases hno

def emptyDisk : Disk := ⟨fun _ => false, fun _ => false⟩

def scriptUri : Bytes := ascii "/assets/app.js"

theorem scriptUri_plain : 0 ∉ scriptUri ∧ 63 ∉ scriptUri := by decide +kernel

def scriptRequest : HttpMessage :=
  ⟨ascii "GET", scriptUri, [], [], [], by decide, scriptUri_plain, plain_nil, headers_nil, size_nil⟩

theorem script_contained : Contained emptyDisk scriptRequest :=
  (static_contained_iff emptyDisk scriptRequest (by decide +kernel)).mpr (Or.inl (by decide +kernel))

/-- A request whose URI has no slash at its front. -/
def secretBytes : Bytes := ascii "GET secret/x.txt HTTP/1.1\r\n\r\n"

def secretUri : Bytes := ascii "secret/x.txt"

theorem secretUri_plain : 0 ∉ secretUri ∧ 63 ∉ secretUri := by decide +kernel

def secretRequest : HttpMessage :=
  ⟨ascii "GET", secretUri, [], [], [], by decide, secretUri_plain, plain_nil, headers_nil, size_nil⟩

/-- Mongoose accepts the request, no route takes it before the handler, which does not reject it, and
the file that it opens is `./websecret/x.txt`. -/
theorem secret_not_contained : Parsed secretBytes secretRequest ∧
    Routing.evHandler Routing.noPlugins secretRequest = .static ∧
    (evHandlerStatic emptyDisk secretRequest).1 ≠ .reply badRequest ∧
    (evHandlerStatic emptyDisk secretRequest).2 = [ascii "./websecret/x.txt"] ∧
    ¬Contained emptyDisk secretRequest := by
  have hopened : (evHandlerStatic emptyDisk secretRequest).2 = [ascii "./websecret/x.txt"] := by
    decide +kernel
  refine ⟨⟨⟨29, ascii "GET", secretUri, [], ascii "HTTP/1.1", [], 0⟩, by decide +kernel, rfl, rfl, rfl,
    rfl, rfl⟩, by decide +kernel, by decide +kernel, hopened, fun h => ?_⟩
  have hin := h.1 (ascii "./websecret/x.txt") (by rw [hopened]; exact List.mem_cons_self)
  have hwalk := hin (single [ascii "websecret", ascii "x.txt"]) []
    [ascii "websecret", ascii "x.txt"] ⟨by decide +kernel, by decide +kernel⟩
  exact absurd hwalk.1 (by decide)

end Requests

end Cyctron.Http.Static
