/- Cyctron/Call/Protocol
   digest: The call protocol of ws_call.c: request parsing, return code mapping, responses. -/

import Cyctron.Base.CString

set_option autoImplicit false
set_option relaxedAutoImplicit false

namespace Cyctron.Call.Protocol

open Cyctron.Base.CString

def WS_CALL_OK : Int := 0
def WS_CALL_ERR_PARAM : Int := -1
def WS_CALL_ERR_LIB : Int := -2
def WS_CALL_ERR_SYMBOL : Int := -3
def WS_CALL_ERR_INVOKE : Int := -4
def WS_CALL_ERR_DENIED : Int := -5

def WS_CALL_MAX_NAME : Nat := 128
def WS_CALL_MAX_PAYLOAD : Nat := 1024 * 1024

/-- The JSON reader that the parser calls: decoded strings, raw tokens (empty when there
is none) and numbers with a default, each by path. -/
structure MgJson where
  getStr : Bytes → String → Option Bytes
  getTok : Bytes → String → Bytes
  getLong : Bytes → String → Int → Int

structure WsCallReq where
  id : Option Bytes
  lib : Option Bytes
  symbol : Option Bytes
  args : Option Bytes
  timeoutMs : Int
  deriving DecidableEq

structure WsCallResp where
  json : Option Bytes
  code : Int
  deriving DecidableEq

/-- The zeroed request and response that `memset` leaves. -/
def WsCallReq.zero : WsCallReq := ⟨none, none, none, none, 0⟩

def WsCallResp.zero : WsCallResp := ⟨none, 0⟩

def wsSafeName (s : Bytes) : Bool :=
  s ≠ [] && s.all fun c => isalnum c || c = 95 || c = 45

/-- An object, or the word null with nothing but blanks around it. -/
def isObjectOrNull (s : Bytes) : Bool :=
  let s := s.dropWhile isspace
  if s.head? = some 123 then true
  else if s.take 4 = ascii "null" then (s.drop 4).dropWhile isspace = [] else false

/-- An error buffer of size zero stands for no buffer. -/
def setErr (size : Nat) (msg : String) : Bytes :=
  if size = 0 then [] else snprintf size (ascii msg)

/-- What the two allocations of the parser give: the copy of the args token, and the copy
of the default. -/
structure ParseAlloc where
  argsCopy : Bool
  dfltCopy : Bool

/-- Return code, result and error text of `ws_call_parse`. -/
structure WsCallParsed where
  code : Int
  req : WsCallReq
  err : Bytes

def wsCallParse (mg : MgJson) (mem : ParseAlloc) (payload : Option Bytes) (errSize : Nat) :
    WsCallParsed :=
  match payload with
  | none => ⟨WS_CALL_ERR_PARAM, .zero, setErr errSize "invalid payload size"⟩
  | some json =>
    if json.length = 0 ∨ WS_CALL_MAX_PAYLOAD < json.length then
      ⟨WS_CALL_ERR_PARAM, .zero, setErr errSize "invalid payload size"⟩
    else
      let id := mg.getStr json "$.id"
      let out := { WsCallReq.zero with id := id }
      match id, mg.getStr json "$.lib", mg.getStr json "$.symbol" with
      | some i, some lib, some symbol =>
        if WS_CALL_MAX_NAME < i.length ∨ WS_CALL_MAX_NAME < lib.length ∨
            WS_CALL_MAX_NAME < symbol.length then
          ⟨WS_CALL_ERR_PARAM, out, setErr errSize "id/lib/symbol too long"⟩
        else if !wsSafeName lib || !wsSafeName symbol then
          ⟨WS_CALL_ERR_DENIED, out, setErr errSize "invalid lib or symbol"⟩
        else
          let argsTok := mg.getTok json "$.args"
          let args := if argsTok ≠ [] && mem.argsCopy then some (cString argsTok)
            else if mem.dfltCopy then some (ascii "\x7b\x7d") else none
          match args with
          | none => ⟨WS_CALL_ERR_PARAM, out, setErr errSize "out of memory"⟩
          | some a =>
            if isObjectOrNull a then
              ⟨WS_CALL_OK, ⟨some i, some lib, some symbol, some a,
                mg.getLong json "$.timeout_ms" 0⟩, []⟩
            else ⟨WS_CALL_ERR_PARAM, out, setErr errSize "args must be an object or null"⟩
      | _, _, _ => ⟨WS_CALL_ERR_PARAM, out, setErr errSize "missing id/lib/symbol"⟩

def escapeByte (c : UInt8) : Bytes :=
  if c = 34 then [92, 34]
  else if c = 92 then [92, 92]
  else if c = 10 then [92, 110]
  else if c = 13 then [92, 114]
  else if c = 9 then [92, 116]
  else if c < 32 then []
  else [c]

def jsonEscapeDup (s : Option Bytes) : Bytes := (s.getD []).flatMap escapeByte

/-- The opening that every response shares. -/
def callOpening : Bytes := ascii "\x7b\"type\":\"call\",\"id\":\""

/-- `mem` says whether every allocation succeeds; `now` is the value of `time(NULL)`. -/
def wsCallBuildOk (mem : Bool) (id lib symbol : Option Bytes) (elapsedMs : Nat)
    (resultJson : Option Bytes) (now : Int) : Int × WsCallResp :=
  if mem then
    let eid := jsonEscapeDup id
    let elib := jsonEscapeDup lib
    let esym := jsonEscapeDup symbol
    let result := match resultJson with
      | some (c :: r) => c :: r
      | _ => ascii "null"
    let need := eid.length + elib.length + esym.length + result.length + 256
    (0, ⟨some (snprintf need (callOpening ++ (eid ++ ascii "\",\"ok\":true,\"code\":0,\"lib\":\"" ++
      elib ++ ascii "\",\"symbol\":\"" ++ esym ++ ascii "\",\"elapsed_ms\":" ++ decimal elapsedMs ++
      ascii ",\"result\":" ++ result ++ ascii ",\"timestamp\":" ++ decimalInt now ++
      ascii "\x7d"))), WS_CALL_OK⟩)
  else (-1, .zero)

def wsCallBuildError (mem : Bool) (id : Option Bytes) (code : Int) (message : Option Bytes)
    (now : Int) : Int × WsCallResp :=
  if mem then
    let eid := jsonEscapeDup id
    let emsg := jsonEscapeDup message
    let need := eid.length + emsg.length + 160
    (0, ⟨some (snprintf need (callOpening ++ (eid ++ ascii "\",\"ok\":false,\"code\":" ++
      decimalInt code ++ ascii ",\"error\":\"" ++ emsg ++ ascii "\",\"timestamp\":" ++
      decimalInt now ++ ascii "\x7d"))), code⟩)
  else (-1, .zero)

def wsCallMapRc (ffiRc : Int) : Int :=
  if ffiRc = 0 then WS_CALL_OK
  else if ffiRc = -100 then WS_CALL_ERR_PARAM
  else if ffiRc = -1 then WS_CALL_ERR_LIB
  else if ffiRc = -2 then WS_CALL_ERR_SYMBOL
  else WS_CALL_ERR_INVOKE

/-- A response object of type "call". -/
def IsCallResponse (json : Bytes) : Prop := callOpening <+: json

theorem wsCallBuildOk_response {mem : Bool} {id lib symbol : Option Bytes} {elapsed : Nat}
    {result : Option Bytes} {now : Int} {json : Bytes}
    (h : (wsCallBuildOk mem id lib symbol elapsed result now).2.json = some json) :
    IsCallResponse json := by
  cases mem with
  | false => exact absurd h.symm (Option.some_ne_none json)
  | true =>
    obtain rfl := Option.some.inj h
    exact prefix_snprintf (Nat.lt_of_lt_of_le (show callOpening.length < 256 by decide)
      (Nat.le_add_left _ _))

theorem wsCallBuildError_response {mem : Bool} {id : Option Bytes} {code : Int}
    {message : Option Bytes} {now : Int} {json : Bytes}
    (h : (wsCallBuildError mem id code message now).2.json = some json) :
    IsCallResponse json := by
  cases mem with
  | false => exact absurd h.symm (Option.some_ne_none json)
  | true =>
    obtain rfl := Option.some.inj h
    exact prefix_snprintf (Nat.lt_of_lt_of_le (show callOpening.length < 160 by decide)
      (Nat.le_add_left _ _))

/-- An accepted request carries every field that the worker requires. -/
theorem wsCallParse_ok {mg : MgJson} {mem : ParseAlloc} {payload : Option Bytes} {errSize : Nat} :
    let r := wsCallParse mg mem payload errSize
    r.code = WS_CALL_OK → r.req.id.isSome ∧ r.req.lib.isSome ∧ r.req.symbol.isSome := by
  have hparam : WS_CALL_ERR_PARAM ≠ WS_CALL_OK := by decide
  have hdenied : WS_CALL_ERR_DENIED ≠ WS_CALL_OK := by decide
  intro r
  simp only [r, wsCallParse]
  cases payload with
  | none => exact fun h => absurd h hparam
  | some json =>
    dsimp only
    split
    · exact fun h => absurd h hparam
    · split
      · split
        · exact fun h => absurd h hparam
        · split
          · exact fun h => absurd h hdenied
          · split
            · exact fun h => absurd h hparam
            · split
              · exact fun _ => ⟨rfl, rfl, rfl⟩
              · exact fun h => absurd h hparam
      · exact fun h => absurd h hparam

/-- The text of the arguments: the token, or the default when it is empty or cannot be copied. -/
def argsText (mg : MgJson) (mem : ParseAlloc) (json : Bytes) : Option Bytes :=
  if mg.getTok json "$.args" ≠ [] && mem.argsCopy then some (cString (mg.getTok json "$.args"))
  else if mem.dfltCopy then some (ascii "\x7b\x7d") else none

/-- What an accepted payload gives. -/
structure Accepted (mg : MgJson) (mem : ParseAlloc) (json i l f a : Bytes) : Prop where
  nonempty : json.length ≠ 0
  length : json.length ≤ WS_CALL_MAX_PAYLOAD
  getId : mg.getStr json "$.id" = some i
  getLib : mg.getStr json "$.lib" = some l
  getSymbol : mg.getStr json "$.symbol" = some f
  idLength : i.length ≤ WS_CALL_MAX_NAME
  libLength : l.length ≤ WS_CALL_MAX_NAME
  symbolLength : f.length ≤ WS_CALL_MAX_NAME
  libSafe : wsSafeName l = true
  symbolSafe : wsSafeName f = true
  args : argsText mg mem json = some a
  argsShape : isObjectOrNull a = true

section Accept

variable {mg : MgJson} {mem : ParseAlloc} {json i l f a : Bytes} {errSize : Nat}

theorem Accepted.parse (h : Accepted mg mem json i l f a) :
    wsCallParse mg mem (some json) errSize =
      ⟨WS_CALL_OK, ⟨some i, some l, some f, some a, mg.getLong json "$.timeout_ms" 0⟩, []⟩ := by
  have hsize : ¬(json.length = 0 ∨ WS_CALL_MAX_PAYLOAD < json.length) :=
    not_or.mpr ⟨h.nonempty, Nat.not_lt.mpr h.length⟩
  have hlong : ¬(WS_CALL_MAX_NAME < i.length ∨ WS_CALL_MAX_NAME < l.length ∨
      WS_CALL_MAX_NAME < f.length) :=
    not_or.mpr ⟨Nat.not_lt.mpr h.idLength,
      not_or.mpr ⟨Nat.not_lt.mpr h.libLength, Nat.not_lt.mpr h.symbolLength⟩⟩
  have hsafe : ¬(!wsSafeName l || !wsSafeName f) = true := by
    rw [h.libSafe, h.symbolSafe]
    decide
  have hargs := h.args
  unfold argsText at hargs
  unfold wsCallParse
  dsimp only
  rw [if_neg hsize, h.getId, h.getLib, h.getSymbol]
  dsimp only
  rw [if_neg hlong, if_neg hsafe, hargs]
  dsimp only
  rw [if_pos h.argsShape]

/-- A payload is accepted exactly when its parts are as required. -/
theorem wsCallParse_accepts : (wsCallParse mg mem (some json) errSize).code = WS_CALL_OK ↔
    ∃ i l f a, Accepted mg mem json i l f a := by
  constructor
  · have hparam : WS_CALL_ERR_PARAM ≠ WS_CALL_OK := by decide
    have hdenied : WS_CALL_ERR_DENIED ≠ WS_CALL_OK := by decide
    unfold wsCallParse
    dsimp only
    split
    · exact fun h => absurd h hparam
    · rename_i hsize
      rw [not_or, Nat.not_lt] at hsize
      split
      · rename_i i l f hi hl hf
        split
        · exact fun h => absurd h hparam
        · rename_i hlong
          simp only [not_or, Nat.not_lt] at hlong
          split
          · exact fun h => absurd h hdenied
          · rename_i hsafe
            simp only [Bool.or_eq_true, Bool.not_eq_true', not_or, Bool.not_eq_false] at hsafe
            split
            · exact fun h => absurd h hparam
            · rename_i a ha
              split
              · rename_i hshape
                exact fun _ => ⟨i, l, f, a, hsize.1, hsize.2, hi, hl, hf, hlong.1, hlong.2.1,
                  hlong.2.2, hsafe.1, hsafe.2, ha, hshape⟩
              · exact fun h => absurd h hparam
      · exact fun h => absurd h hparam
  · rintro ⟨i, l, f, a, h⟩
    rw [h.parse]

end Accept

end Cyctron.Call.Protocol
