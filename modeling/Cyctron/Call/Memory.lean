/- Cyctron/Call/Memory
   digest: What ws_call_parse allocates, frees, and leaves to its caller, on each of its exits. -/

import Cyctron.Machine.Ledger
import Cyctron.Mongoose.Json

set_option autoImplicit false
set_option relaxedAutoImplicit false

namespace Cyctron.Call.Memory

open Cyctron.Base.CString Cyctron.Call.Protocol Cyctron.Machine.Ledger Cyctron.Mongoose.Json
open Cyctron.Machine.Holdings (items items_none items_some)

/-- A string in a block of its own. -/
structure Str where
  block : Nat
  text : Bytes
  deriving DecidableEq

structure CallReq where
  id : Option Str
  lib : Option Str
  symbol : Option Str
  args : Option Str
  timeoutMs : Int
  deriving DecidableEq

def CallReq.zero : CallReq := ⟨none, none, none, none, 0⟩

/-- `mg_json_get_str` with its allocation, which it gives back when the string cannot be decoded. -/
def mgJsonGetStrAt (mem : Nat → Bool) (h : Heap) (json : Bytes) (path : String) :
    Heap × Option Str :=
  match mgJsonGet json path with
  | .found tok =>
    if 1 < tok.length ∧ tok.head? = some 34 then
      let a := h.malloc mem
      match a.2 with
      | none => (a.1, none)
      | some b =>
        match mgJsonUnescape ((tok.drop 1).take (tok.length - 2)) with
        | none => (a.1.free (some b), none)
        | some s => (a.1, some ⟨b, cString s⟩)
    else (h, none)
  | _ => (h, none)

/-- A copy of a string in a new block, as `dup_str` makes it. -/
def dupStr (mem : Nat → Bool) (h : Heap) (s : Bytes) : Heap × Option Str :=
  let a := h.malloc mem
  (a.1, a.2.map fun b => ⟨b, cString s⟩)

/-- `snprintf` into the error buffer; an empty one stands for no buffer. -/
def storeErr (buf : Bytes) (msg : String) : Bytes :=
  if buf = [] then []
  else
    let text := snprintf buf.length (ascii msg)
    text ++ 0 :: buf.drop (text.length + 1)

/-- `err[0] = 0`. -/
def clearErr (buf : Bytes) : Bytes := if buf = [] then [] else 0 :: buf.tail

/-- Return code, result, error buffer and heap after the parser. -/
structure Parsed where
  code : Int
  req : CallReq
  err : Bytes
  heap : Heap

/-- The text of the arguments in a block of its own. -/
def argsAt (mem : Nat → Bool) (h : Heap) (tok : Bytes) : Heap × Option Str :=
  let c := if tok ≠ [] then dupStr mem h tok else (h, none)
  match c.2 with
  | some a => (c.1, some a)
  | none => dupStr mem c.1 (ascii "\x7b\x7d")

def freeStr (h : Heap) (s : Option Str) : Heap := h.free (s.map Str.block)

/-- `ws_call_parse` with its allocations; the conversion of the timeout is a parameter. -/
def wsCallParseAt (getLong : Bytes → String → Int → Int) (mem : Nat → Bool)
    (payload : Option Bytes) (buf : Bytes) : Parsed :=
  let err := clearErr buf
  match payload with
  | none => ⟨WS_CALL_ERR_PARAM, .zero, storeErr err "invalid payload size", .initial⟩
  | some json =>
    if json.length = 0 ∨ WS_CALL_MAX_PAYLOAD < json.length then
      ⟨WS_CALL_ERR_PARAM, .zero, storeErr err "invalid payload size", .initial⟩
    else
      let id := mgJsonGetStrAt mem .initial json "$.id"
      let lib := mgJsonGetStrAt mem id.1 json "$.lib"
      let symbol := mgJsonGetStrAt mem lib.1 json "$.symbol"
      let out := { CallReq.zero with id := id.2 }
      match id.2, lib.2, symbol.2 with
      | some i, some l, some f =>
        if WS_CALL_MAX_NAME < i.text.length ∨ WS_CALL_MAX_NAME < l.text.length ∨
            WS_CALL_MAX_NAME < f.text.length then
          ⟨WS_CALL_ERR_PARAM, out, storeErr err "id/lib/symbol too long",
            freeStr (freeStr symbol.1 (some l)) (some f)⟩
        else if !wsSafeName l.text || !wsSafeName f.text then
          ⟨WS_CALL_ERR_DENIED, out, storeErr err "invalid lib or symbol",
            freeStr (freeStr symbol.1 (some l)) (some f)⟩
        else
          let args := argsAt mem symbol.1 (mgJsonGetTok json "$.args")
          match args.2 with
          | none => ⟨WS_CALL_ERR_PARAM, out, storeErr err "out of memory",
              freeStr (freeStr args.1 (some l)) (some f)⟩
          | some a =>
            if isObjectOrNull a.text then
              ⟨WS_CALL_OK, ⟨some i, some l, some f, some a, getLong json "$.timeout_ms" 0⟩, err,
                args.1⟩
            else ⟨WS_CALL_ERR_PARAM, out, storeErr err "args must be an object or null",
              freeStr (freeStr (freeStr args.1 (some a)) (some l)) (some f)⟩
      | _, l, f => ⟨WS_CALL_ERR_PARAM, out, storeErr err "missing id/lib/symbol",
          freeStr (freeStr symbol.1 l) f⟩

/-- `ws_call_req_free`. -/
def wsCallReqFree (h : Heap) (req : CallReq) : Heap × CallReq :=
  (freeStr (freeStr (freeStr (freeStr h req.id) req.lib) req.symbol) req.args, .zero)

/-- The string that mongoose decodes for the id, when the parser asks for one and there is memory for
it. -/
def decodedId (mem : Nat → Bool) (payload : Option Bytes) : Option Bytes :=
  payload.bind fun json =>
    if json.length ≠ 0 ∧ json.length ≤ WS_CALL_MAX_PAYLOAD ∧ mem 0 = true then
      mgJsonGetStr json "$.id"
    else none

/-- What an error leaves in the buffer: a text that is not empty, and its terminator. -/
def HasText (buf : Bytes) : Prop := ∃ text rest, buf = text ++ 0 :: rest ∧ text ≠ [] ∧ 0 ∉ text

/-- The names of libraries and functions. -/
def IsName (s : Bytes) : Prop :=
  s ≠ [] ∧ s.length ≤ 128 ∧ ∀ c ∈ s, isalnum c = true ∨ c = 95 ∨ c = 45

/-- Arguments begin with a brace after spaces, or are the word null with spaces around it. -/
def IsArgs (s : Bytes) : Prop := ∃ w r, s = w ++ r ∧ (∀ c ∈ w, isspace c = true) ∧
  (r.head? = some 123 ∨ ∃ w', r = ascii "null" ++ w' ∧ ∀ c ∈ w', isspace c = true)

variable {getLong : Bytes → String → Int → Int} {mem : Nat → Bool} {payload : Option Bytes}
  {json buf s : Bytes} {path : String} {h : Heap} {m : Multiset Nat} {o : Option Str}

def blocks (o : Option Str) : Multiset Nat := items (o.map Str.block)

section Strings

theorem getStrAt_holds (mem : Nat → Bool) (json : Bytes) (path : String) (hold : h.Holds m) :
    (mgJsonGetStrAt mem h json path).1.Holds (blocks (mgJsonGetStrAt mem h json path).2 + m) := by
  have hnone : h.Holds (blocks none + m) := by
    rw [blocks, Option.map_none, items_none, zero_add]
    exact hold
  unfold mgJsonGetStrAt
  split
  · split
    · have hnew := hold.malloc mem
      dsimp only
      split
      · rename_i hfail
        rw [hfail] at hnew
        exact hnew
      · rename_i b hb
        rw [hb] at hnew
        split
        · have hfree := Heap.Holds.free hnew
          rw [blocks, Option.map_none, items_none, zero_add]
          exact hfree
        · exact hnew
    · exact hnone
  · exact hnone

theorem getStrAt_text : (mgJsonGetStrAt mem h json path).2.map Str.text =
    if mem h.calls then mgJsonGetStr json path else none := by
  unfold mgJsonGetStrAt mgJsonGetStr
  cases mgJsonGet json path with
  | found tok =>
    dsimp only
    by_cases hstring : 1 < tok.length ∧ tok.head? = some 34
    · rw [if_pos hstring, if_pos hstring, Heap.malloc]
      cases hmem : mem h.calls with
      | false => rfl
      | true =>
        rw [if_pos rfl, if_pos rfl]
        dsimp only
        cases mgJsonUnescape ((tok.drop 1).take (tok.length - 2)) <;> rfl
    · rw [if_neg hstring, if_neg hstring, ite_self]
      rfl
  | _ => exact (ite_self none).symm

end Strings

section Errors

private theorem clearErr_length (buf : Bytes) : (clearErr buf).length = buf.length := by
  cases buf with
  | nil => rfl
  | cons c buf => rfl

/-- A buffer of two bytes has room for a byte of the text and the terminator. -/
private theorem storeErr_text {msg : String} (hbuf : 2 ≤ buf.length) (hne : ascii msg ≠ [])
    (hzero : 0 ∉ ascii msg) :
    HasText (storeErr buf msg) ∧ (storeErr buf msg).length = buf.length := by
  have hnil : buf ≠ [] := by
    rintro rfl
    exact absurd hbuf (by decide)
  have hlength : (snprintf buf.length (ascii msg)).length + 1 ≤ buf.length := by
    rw [snprintf, List.length_take]
    omega
  rw [storeErr, if_neg hnil]
  refine ⟨⟨_, _, rfl, ?_, fun h => hzero (List.mem_of_mem_take h)⟩, ?_⟩
  · obtain ⟨c, t, ht⟩ := List.exists_cons_of_ne_nil hne
    obtain ⟨n, hn⟩ : ∃ n, buf.length - 1 = n + 1 := ⟨buf.length - 2, by omega⟩
    rw [snprintf, ht, hn]
    exact List.cons_ne_nil _ _
  · rw [List.length_append, List.length_cons, List.length_drop]
    omega

/-- The texts of the errors. -/
def errors : List String :=
  ["invalid payload size", "missing id/lib/symbol", "id/lib/symbol too long",
    "invalid lib or symbol", "out of memory", "args must be an object or null"]

private theorem storeErr_errors {msg : String} (hbuf : 2 ≤ buf.length) (hmsg : msg ∈ errors) :
    HasText (storeErr (clearErr buf) msg) ∧ (storeErr (clearErr buf) msg).length = buf.length := by
  have hall : ∀ e ∈ errors, ascii e ≠ [] ∧ 0 ∉ ascii e := by decide
  rw [← clearErr_length buf] at hbuf ⊢
  exact storeErr_text hbuf (hall msg hmsg).1 (hall msg hmsg).2

end Errors

section Exits

/-- What an exit with an error leaves. -/
structure Failed (mem : Nat → Bool) (payload : Option Bytes) (buf : Bytes) (r : Parsed) : Prop where
  code : r.code ≠ WS_CALL_OK
  lib : r.req.lib = none
  symbol : r.req.symbol = none
  args : r.req.args = none
  id : r.req.id.map Str.text = decodedId mem payload
  err : HasText r.err ∧ r.err.length = buf.length
  holds : r.heap.Holds (blocks r.req.id)

/-- What the exit without one leaves. -/
structure Passed (mem : Nat → Bool) (payload : Option Bytes) (r : Parsed) : Prop where
  code : r.code = WS_CALL_OK
  id : ∃ i, r.req.id = some i ∧ decodedId mem payload = some i.text ∧ i.text.length ≤ 128
  lib : ∃ l, r.req.lib = some l ∧ IsName l.text
  symbol : ∃ f, r.req.symbol = some f ∧ IsName f.text
  args : ∃ a, r.req.args = some a ∧ IsArgs a.text
  holds : r.heap.Holds (blocks r.req.id + (blocks r.req.lib + (blocks r.req.symbol +
    blocks r.req.args)))

theorem freeStr_holds (hold : h.Holds (blocks o + m)) : (freeStr h o).Holds m := Heap.Holds.free hold

private theorem dupStr_holds (hold : h.Holds m) :
    (dupStr mem h s).1.Holds (blocks (dupStr mem h s).2 + m) := by
  have hnew := hold.malloc mem
  rw [blocks, dupStr, Option.map_map]
  have hid : (Str.block ∘ fun b => (⟨b, cString s⟩ : Str)) = id := rfl
  rw [hid, Option.map_id]
  exact hnew

private theorem argsAt_holds (mem : Nat → Bool) (s : Bytes) (hold : h.Holds m) :
    (argsAt mem h s).1.Holds (blocks (argsAt mem h s).2 + m) := by
  have hcopy : ∀ c : Heap × Option Str, c = (if s ≠ [] then dupStr mem h s else (h, none)) →
      c.1.Holds (blocks c.2 + m) := by
    rintro c rfl
    split
    · exact dupStr_holds hold
    · rw [blocks, Option.map_none, items_none, zero_add]
      exact hold
  have hfirst := hcopy _ rfl
  unfold argsAt
  dsimp only
  split
  · rename_i a ha
    rw [ha] at hfirst
    exact hfirst
  · rename_i hnone
    rw [hnone, blocks, Option.map_none, items_none, zero_add] at hfirst
    exact dupStr_holds hfirst

private theorem wsSafeName_isName (hlong : s.length ≤ 128) (h : wsSafeName s = true) : IsName s := by
  simp only [wsSafeName, Bool.and_eq_true, decide_eq_true_eq, List.all_eq_true, Bool.or_eq_true] at h
  exact ⟨h.1, hlong, fun c hc => by rcases h.2 c hc with (h | h) | h <;> simp [h]⟩

private theorem isObjectOrNull_isArgs (h : isObjectOrNull s = true) : IsArgs s := by
  refine ⟨s.takeWhile isspace, s.dropWhile isspace, List.takeWhile_append_dropWhile.symm,
    fun c hc => List.mem_takeWhile_imp hc, ?_⟩
  unfold isObjectOrNull at h
  dsimp only at h
  split at h
  · exact Or.inl ‹_›
  · split at h
    · rename_i hnull
      refine Or.inr ⟨(s.dropWhile isspace).drop 4, ?_, fun c hc => ?_⟩
      · rw [← hnull, List.take_append_drop]
      · exact List.dropWhile_eq_nil_iff.mp (of_decide_eq_true h) c hc
    · cases h

private theorem free_two {l f : Option Str} (hold : h.Holds (blocks f + (blocks l + m))) :
    (freeStr (freeStr h l) f).Holds m := by
  rw [add_left_comm] at hold
  exact freeStr_holds (freeStr_holds hold)

/-- An exit before the id is looked up. -/
private theorem exit_size {out : Parsed} (hbuf : 2 ≤ buf.length) (hid : decodedId mem payload = none)
    (hout : out = ⟨WS_CALL_ERR_PARAM, .zero, storeErr (clearErr buf) "invalid payload size", .initial⟩) :
    Failed mem payload buf out := by
  have hcode : WS_CALL_ERR_PARAM ≠ WS_CALL_OK := by decide
  subst hout
  exact ⟨hcode, rfl, rfl, rfl, hid.symm, storeErr_errors hbuf (by decide), holds_initial⟩

/-- An exit with an error after the three strings were looked up. -/
private theorem exit_error {id : Option Str} {code : Int} {msg : String} (hbuf : 2 ≤ buf.length)
    (hcode : code ≠ WS_CALL_OK) (hmsg : msg ∈ errors) (hid : id.map Str.text = decodedId mem payload)
    (hold : h.Holds (blocks id)) : Failed mem payload buf
      ⟨code, { CallReq.zero with id := id }, storeErr (clearErr buf) msg, h⟩ :=
  ⟨hcode, rfl, rfl, rfl, hid, storeErr_errors hbuf hmsg, hold⟩

/-- The parser leaves by one of its exits. -/
private theorem parse_cases (getLong : Bytes → String → Int → Int) (mem : Nat → Bool)
    (payload : Option Bytes) (hbuf : 2 ≤ buf.length) :
    Failed mem payload buf (wsCallParseAt getLong mem payload buf) ∨
      Passed mem payload (wsCallParseAt getLong mem payload buf) := by
  cases payload with
  | none => exact Or.inl (exit_size hbuf rfl rfl)
  | some json =>
    by_cases hsize : json.length = 0 ∨ WS_CALL_MAX_PAYLOAD < json.length
    · refine Or.inl (exit_size hbuf ?_ (if_pos hsize))
      exact if_neg fun h => hsize.elim h.1 (Nat.not_lt.mpr h.2.1)
    have hvalid : json.length ≠ 0 ∧ json.length ≤ WS_CALL_MAX_PAYLOAD :=
      ⟨fun h => hsize (Or.inl h), Nat.not_lt.mp fun h => hsize (Or.inr h)⟩
    -- the three lookups
    obtain ⟨id, hidAt⟩ : ∃ id, mgJsonGetStrAt mem .initial json "$.id" = id := ⟨_, rfl⟩
    obtain ⟨lib, hlibAt⟩ : ∃ lib, mgJsonGetStrAt mem id.1 json "$.lib" = lib := ⟨_, rfl⟩
    obtain ⟨symbol, hsymbolAt⟩ : ∃ symbol, mgJsonGetStrAt mem lib.1 json "$.symbol" = symbol := ⟨_, rfl⟩
    have hid : id.2.map Str.text = decodedId mem (some json) := by
      rw [← hidAt, getStrAt_text]
      exact if_congr ⟨fun h => ⟨hvalid.1, hvalid.2, h⟩, fun h => h.2.2⟩ rfl rfl
    have hholds : symbol.1.Holds (blocks symbol.2 + (blocks lib.2 + blocks id.2)) := by
      have hfirst := getStrAt_holds mem json "$.id" holds_initial
      rw [hidAt, add_zero] at hfirst
      have hsecond := getStrAt_holds mem json "$.lib" hfirst
      rw [hlibAt] at hsecond
      have hthird := getStrAt_holds mem json "$.symbol" hsecond
      rwa [hsymbolAt] at hthird
    unfold wsCallParseAt
    dsimp only
    rw [if_neg hsize, hidAt, hlibAt, hsymbolAt]
    obtain ⟨h₁, oi⟩ := id
    obtain ⟨h₂, ol⟩ := lib
    obtain ⟨h₃, os⟩ := symbol
    dsimp only at hid hholds ⊢
    split
    · rename_i i l f
      split
      · exact Or.inl (exit_error hbuf (by decide) (by decide) hid (free_two hholds))
      rename_i hlong
      simp only [not_or, Nat.not_lt] at hlong
      split
      · exact Or.inl (exit_error hbuf (by decide) (by decide) hid (free_two hholds))
      rename_i hsafe
      simp only [Bool.or_eq_true, Bool.not_eq_true', not_or, Bool.not_eq_false] at hsafe
      have hargs := argsAt_holds mem (mgJsonGetTok json "$.args") hholds
      split
      · rename_i hnone
        rw [hnone, blocks, Option.map_none, items_none, zero_add] at hargs
        exact Or.inl (exit_error hbuf (by decide) (by decide) hid (free_two hargs))
      · rename_i a ha
        rw [ha] at hargs
        split
        · rename_i hshape
          refine Or.inr ⟨rfl, ⟨i, rfl, hid.symm, hlong.1⟩, ⟨l, rfl, wsSafeName_isName hlong.2.1 hsafe.1⟩,
            ⟨f, rfl, wsSafeName_isName hlong.2.2 hsafe.2⟩, ⟨a, rfl, isObjectOrNull_isArgs hshape⟩, ?_⟩
          have hsum : blocks (some i) + (blocks (some l) + (blocks (some f) + blocks (some a))) =
              blocks (some a) + (blocks (some f) + (blocks (some l) + blocks (some i))) := by
            ac_rfl
          dsimp only
          rwa [hsum]
        · exact Or.inl (exit_error hbuf (by decide) (by decide) hid (free_two (freeStr_holds hargs)))
    · exact Or.inl (exit_error hbuf (by decide) (by decide) hid (free_two hholds))

end Exits

section Refinement

def CallReq.texts (r : CallReq) : WsCallReq :=
  ⟨r.id.map Str.text, r.lib.map Str.text, r.symbol.map Str.text, r.args.map Str.text, r.timeoutMs⟩

private theorem storeErr_setErr (buf : Bytes) {msg : String} (hmsg : msg ∈ errors) :
    cString (storeErr (clearErr buf) msg) = setErr buf.length msg := by
  have hall : ∀ e ∈ errors, 0 ∉ ascii e := by decide
  cases buf with
  | nil => rfl
  | cons c buf =>
    have hplain : ∀ x ∈ snprintf (buf.length + 1) (ascii msg), x ≠ 0 := by
      rintro x hx rfl
      exact hall msg hmsg (List.mem_of_mem_take hx)
    have hstore : storeErr (clearErr (c :: buf)) msg = snprintf (buf.length + 1) (ascii msg) ++
        0 :: (0 :: buf).drop ((snprintf (buf.length + 1) (ascii msg)).length + 1) := rfl
    have hset : setErr (c :: buf).length msg = snprintf (buf.length + 1) (ascii msg) := rfl
    rw [hstore, hset, cString, List.takeWhile_append_of_pos fun x hx => decide_eq_true (hplain x hx)]
    exact List.append_nil _

private theorem clearErr_empty (buf : Bytes) : cString (clearErr buf) = [] := by
  cases buf with
  | nil => rfl
  | cons c buf => rfl

/-- The copies of the arguments succeed or fail as their two calls do. -/
private theorem argsAt_text (tok : Bytes) : (argsAt mem h tok).2.map Str.text =
    if tok ≠ [] && mem h.calls then some (cString tok)
    else if (if tok = [] then mem h.calls else mem (h.calls + 1)) then some (ascii "\x7b\x7d")
    else none := by
  have hdflt : cString (ascii "\x7b\x7d") = ascii "\x7b\x7d" := by decide
  have hdup : ∀ h' s, (dupStr mem h' s).2.map Str.text = if mem h'.calls then some (cString s) else none := by
    intro h' s
    rw [dupStr, Heap.malloc]
    cases mem h'.calls <;> rfl
  unfold argsAt
  by_cases htok : tok = []
  · subst htok
    have hcopy := hdup h (ascii "\x7b\x7d")
    rw [hdflt] at hcopy
    simpa using hcopy
  · cases hmem : mem h.calls with
    | false =>
      have hfail : dupStr mem h tok = (⟨h.calls + 1, h.ops⟩, none) := by
        rw [dupStr, Heap.malloc, hmem]
        rfl
      have hcopy := hdup ⟨h.calls + 1, h.ops⟩ (ascii "\x7b\x7d")
      rw [hdflt] at hcopy
      simpa [htok, hfail] using hcopy
    | true =>
      have hcopy := hdup h tok
      rw [hmem, if_pos rfl] at hcopy
      obtain ⟨a, ha, _⟩ := Option.map_eq_some_iff.mp hcopy
      simpa [htok, ha] using hcopy

/-- Both give the same code, strings and error text. -/
structure Computes (r : Parsed) (p : WsCallParsed) : Prop where
  code : r.code = p.code
  req : r.req.texts = p.req
  err : cString r.err = p.err

private theorem computes_over (mg : MgJson) {alloc : ParseAlloc} {id lib symbol : Heap × Option Str}
    (hid : mgJsonGetStrAt mem .initial json "$.id" = id)
    (hlib : mgJsonGetStrAt mem id.1 json "$.lib" = lib)
    (hsymbol : mgJsonGetStrAt mem lib.1 json "$.symbol" = symbol)
    (hgetId : mg.getStr json "$.id" = id.2.map Str.text)
    (hgetLib : mg.getStr json "$.lib" = lib.2.map Str.text)
    (hgetSymbol : mg.getStr json "$.symbol" = symbol.2.map Str.text)
    (hargs : argsText mg alloc json =
      (argsAt mem symbol.1 (mgJsonGetTok json "$.args")).2.map Str.text) :
    Computes (wsCallParseAt mg.getLong mem (some json) buf)
      (wsCallParse mg alloc (some json) buf.length) := by
  unfold argsText at hargs
  unfold wsCallParseAt wsCallParse
  dsimp only
  rw [hid, hlib, hsymbol, hgetId, hgetLib, hgetSymbol, hargs]
  by_cases hsize : json.length = 0 ∨ WS_CALL_MAX_PAYLOAD < json.length
  · rw [if_pos hsize, if_pos hsize]
    exact ⟨rfl, rfl, storeErr_setErr buf (by decide)⟩
  rw [if_neg hsize, if_neg hsize]
  have hmissing := storeErr_setErr buf (show "missing id/lib/symbol" ∈ errors by decide)
  obtain ⟨h₁, i⟩ := id
  obtain ⟨h₂, l⟩ := lib
  obtain ⟨h₃, f⟩ := symbol
  cases i with
  | none => exact ⟨rfl, rfl, hmissing⟩
  | some i =>
    cases l with
    | none => exact ⟨rfl, rfl, hmissing⟩
    | some l =>
      cases f with
      | none => exact ⟨rfl, rfl, hmissing⟩
      | some f =>
        dsimp only [Option.map_some]
        split
        · exact ⟨rfl, rfl, storeErr_setErr buf (by decide)⟩
        split
        · exact ⟨rfl, rfl, storeErr_setErr buf (by decide)⟩
        cases (argsAt mem h₃ (mgJsonGetTok json "$.args")).2 with
        | none => exact ⟨rfl, rfl, storeErr_setErr buf (by decide)⟩
        | some a =>
          dsimp only [Option.map_some]
          split
          · exact ⟨rfl, rfl, clearErr_empty buf⟩
          · exact ⟨rfl, rfl, storeErr_setErr buf (by decide)⟩

/-- The parser with its allocations computes what the parser does over a reader that fails when there
is no memory. -/
theorem parse_refines (getLong : Bytes → String → Int → Int) (mem : Nat → Bool)
    (payload : Option Bytes) (buf : Bytes) : ∃ (avail : String → Bool) (alloc : ParseAlloc),
    Computes (wsCallParseAt getLong mem payload buf)
      (wsCallParse ⟨fun j path => if avail path then mgJsonGetStr j path else none, mgJsonGetTok,
        getLong⟩ alloc payload buf.length) := by
  cases payload with
  | none => exact ⟨fun _ => true, ⟨true, true⟩, rfl, rfl, storeErr_setErr buf (by decide)⟩
  | some json =>
    obtain ⟨id, hid⟩ : ∃ id, mgJsonGetStrAt mem .initial json "$.id" = id := ⟨_, rfl⟩
    obtain ⟨lib, hlib⟩ : ∃ lib, mgJsonGetStrAt mem id.1 json "$.lib" = lib := ⟨_, rfl⟩
    obtain ⟨symbol, hsymbol⟩ : ∃ symbol, mgJsonGetStrAt mem lib.1 json "$.symbol" = symbol := ⟨_, rfl⟩
    obtain ⟨tok, htok⟩ : ∃ tok, mgJsonGetTok json "$.args" = tok := ⟨_, rfl⟩
    refine ⟨fun path => if path = "$.id" then mem 0 else
      if path = "$.lib" then mem id.1.calls else mem lib.1.calls,
      ⟨mem symbol.1.calls, if tok = [] then mem symbol.1.calls else mem (symbol.1.calls + 1)⟩,
      computes_over ⟨_, mgJsonGetTok, getLong⟩ hid hlib hsymbol ?_ ?_ ?_ ?_⟩
    · rw [← hid, getStrAt_text]
      rfl
    · rw [← hlib, getStrAt_text]
      rfl
    · rw [← hsymbol, getStrAt_text]
      rfl
    · rw [htok, argsAt_text, ← htok]
      rfl

end Refinement

section Release

variable {r : Parsed}

/-- `ws_call_req_free` gives back all that is left. -/
theorem Failed.release (hr : Failed mem payload buf r) : (wsCallReqFree r.heap r.req).1.Holds 0 := by
  have hnone : ∀ {h' : Heap} {m' : Multiset Nat}, h'.Holds m' → (freeStr h' none).Holds m' := by
    intro h' m' hold
    refine freeStr_holds ?_
    rw [blocks, Option.map_none, items_none, zero_add]
    exact hold
  have hid : (freeStr r.heap r.req.id).Holds 0 := freeStr_holds (by rw [add_zero]; exact hr.holds)
  rw [wsCallReqFree, hr.lib, hr.symbol, hr.args]
  exact hnone (hnone (hnone hid))

theorem Passed.release (hr : Passed mem payload r) : (wsCallReqFree r.heap r.req).1.Holds 0 := by
  have hall := hr.holds
  rw [← add_zero (blocks r.req.args)] at hall
  exact freeStr_holds (freeStr_holds (freeStr_holds (freeStr_holds hall)))

/-- Whatever fails, the parser and one call of `ws_call_req_free` free each of their blocks exactly
once; an error leaves the id at most, and a text in the error buffer; otherwise the result is a
request with safe names. -/
theorem parse_owns (getLong : Bytes → String → Int → Int) (mem : Nat → Bool) (payload : Option Bytes)
    (buf : Bytes) (hbuf : 2 ≤ buf.length) :
    let r := wsCallParseAt getLong mem payload buf
    let f := wsCallReqFree r.heap r.req
    (r.code ≠ WS_CALL_OK → r.req.lib = none ∧ r.req.symbol = none ∧ r.req.args = none ∧
      r.req.id.map Str.text = decodedId mem payload ∧
      (HasText r.err ∧ r.err.length = buf.length) ∧
      ∀ b, .alloc b ∈ r.heap.ops → some b ≠ r.req.id.map Str.block →
        r.heap.ops.count (.free b) = 1) ∧
    (r.code = WS_CALL_OK → ∃ i l f a, r.req.id = some i ∧ r.req.lib = some l ∧ r.req.symbol = some f ∧
      r.req.args = some a ∧ i.text.length ≤ 128 ∧ IsName l.text ∧ IsName f.text ∧ IsArgs a.text) ∧
    Leaves r.heap.ops (blocks r.req.id + (blocks r.req.lib + (blocks r.req.symbol +
      blocks r.req.args))) ∧
    Leaves f.1.ops 0 ∧ (∀ b, .alloc b ∈ f.1.ops → f.1.ops.count (.free b) = 1) ∧ f.2 = .zero := by
  intro r f
  have hreleased : f.1.Holds 0 := (parse_cases getLong mem payload hbuf).elim Failed.release Passed.release
  refine ⟨fun hcode => ?_, fun hcode => ?_, ?_, hreleased.leaves,
    fun b hb => hreleased.leaves.freed_once hb (Multiset.notMem_zero b), rfl⟩
  · rcases parse_cases getLong mem payload hbuf with hr | hr
    · refine ⟨hr.lib, hr.symbol, hr.args, hr.id, hr.err, fun b hb hne => ?_⟩
      refine hr.holds.leaves.freed_once hb fun hin => hne ?_
      rw [blocks] at hin
      cases hblock : r.req.id.map Str.block with
      | none =>
        rw [hblock, items_none] at hin
        exact absurd hin (Multiset.notMem_zero b)
      | some c =>
        rw [hblock, items_some, Multiset.mem_singleton] at hin
        rw [hin]
    · exact absurd hr.code hcode
  · rcases parse_cases getLong mem payload hbuf with hr | hr
    · exact absurd hcode hr.code
    · obtain ⟨i, hi, _, hlong⟩ := hr.id
      obtain ⟨l, hl, hlib⟩ := hr.lib
      obtain ⟨s, hs, hsymbol⟩ := hr.symbol
      obtain ⟨a, ha, hargs⟩ := hr.args
      exact ⟨i, l, s, a, hi, hl, hs, ha, hlong, hlib, hsymbol, hargs⟩
  · rcases parse_cases getLong mem payload hbuf with hr | hr
    · have hleaves := hr.holds.leaves
      rw [hr.lib, hr.symbol, hr.args]
      simpa [blocks] using hleaves
    · exact hr.holds.leaves

def plainCall : Bytes := ascii "\x7b\"id\":\"r1\",\"lib\":\"l\",\"symbol\":\"s\"\x7d"

def callAt (mem : Nat → Bool) : Parsed := wsCallParseAt (fun _ _ d => d) mem (some plainCall) [1, 2]

/-- A request with memory for everything, and with none for its arguments. -/
theorem plainCall_owned :
    ((callAt fun _ => true).code = WS_CALL_OK ∧
      (∃ l, (callAt fun _ => true).req.lib = some l ∧ IsName l.text) ∧
      Leaves (wsCallReqFree (callAt fun _ => true).heap (callAt fun _ => true).req).1.ops 0) ∧
    ((callAt fun n => n ≠ 3).code ≠ WS_CALL_OK ∧ (callAt fun n => n ≠ 3).req.lib = none ∧
      (callAt fun n => n ≠ 3).req.id.map Str.text = some (ascii "r1") ∧
      HasText (callAt fun n => n ≠ 3).err) := by
  have hall := parse_owns (fun _ _ d => d) (fun _ => true) (some plainCall) [1, 2] (by decide)
  have hshort := parse_owns (fun _ _ d => d) (fun n => n ≠ 3) (some plainCall) [1, 2] (by decide)
  have hok : (callAt fun _ => true).code = WS_CALL_OK := by decide +kernel
  have hfail : (callAt fun n => n ≠ 3).code ≠ WS_CALL_OK := by decide +kernel
  have hdecoded : decodedId (fun n => n ≠ 3) (some plainCall) = some (ascii "r1") := by decide +kernel
  obtain ⟨_, l, _, _, _, hl, _, _, _, hname, _⟩ := hall.2.1 hok
  obtain ⟨hlib, _, _, hid, herr, _⟩ := hshort.1 hfail
  exact ⟨⟨hok, ⟨l, hl, hname⟩, hall.2.2.2.1⟩, hfail, hlib, hid.trans hdecoded, herr.1⟩

end Release

end Cyctron.Call.Memory
