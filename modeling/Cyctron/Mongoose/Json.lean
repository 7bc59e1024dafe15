/- Cyctron/Mongoose/Json
   digest: The JSON reader of mongoose.c for paths of one member, as a loop over the bytes of the text. -/

import Cyctron.Call.Protocol
import Cyctron.Json.Text

set_option autoImplicit false
set_option relaxedAutoImplicit false

namespace Cyctron.Mongoose.Json

open Cyctron.Base.CString Cyctron.Json.Text
open Cyctron.Call.Protocol (MgJson)

def MG_JSON_MAX_DEPTH : Nat := 30

/-- What `mg_json_get` returns: the token that was found, or one of its three error codes. -/
inductive Lookup
  | found (tok : Bytes)
  | notFound
  | invalid
  | tooDeep
  deriving DecidableEq

inductive Expecting
  | value
  | key
  | colon
  | commaOrEoo
  deriving DecidableEq

def escapeSeq (esc : Bool) : Bytes := if esc then [8, 12, 10, 13, 9, 92, 34] else ascii "bfnrt\\\""

def jsonEsc (c : UInt8) (esc : Bool) : UInt8 :=
  (((escapeSeq esc).zip (escapeSeq !esc)).lookup c).getD 0

/-- The loop of `mg_pass_string`: the offset of the closing quote; the flag says that the next byte
is passed over. -/
def passFrom : Bool → Bytes → Option Nat
  | _, [] => none
  | true, _ :: s => (passFrom false s).map (· + 1)
  | false, c :: s =>
    if c = 92 ∧ (s.head?.any fun e => jsonEsc e true ≠ 0) then (passFrom true s).map (· + 1)
    else if c = 0 then none
    else if c = 34 then some 0
    else (passFrom false s).map (· + 1)

def mgPassString (s : Bytes) : Option Nat := passFrom false s

def digitRun (s : Bytes) : Nat := (s.takeWhile isDigit).length

/-- The digits of an exponent are read while its value is below 308. -/
def exponentRun : Nat → Bytes → Nat
  | _, [] => 0
  | exp, c :: s =>
    if isDigit c ∧ exp < 308 then exponentRun (exp * 10 + (c.toNat - 48)) s + 1 else 0

/-- The length that `mg_atod` stores. -/
def atodLength (s : Bytes) : Nat :=
  let i := if s.head? = some 45 ∨ s.head? = some 43 then 1 else 0
  let i := i + digitRun (s.drop i)
  let i := if (s.drop i).head? = some 46 then i + 1 + digitRun (s.drop (i + 1)) else i
  if (s.drop i).head? = some 101 ∨ (s.drop i).head? = some 69 then
    let i := i + 1
    let i := if (s.drop i).head? = some 45 then i + 1 else i
    let i := if (s.drop i).head? = some 43 then i + 1 else i
    i + exponentRun 0 (s.drop i)
  else i

/-- The variables of `mg_json_get` for the path of a member of the top object: `ed` is 1 once the
object is entered, `pos` is at the end of the path once the name is matched, `start` is the text from
offset `j` on. The open brackets are listed with the innermost first. -/
structure Reader where
  expecting : Expecting
  nesting : Bytes
  entered : Bool
  matched : Bool
  start : Bytes
  deriving DecidableEq

def Reader.initial : Reader := ⟨.value, [], false, false, []⟩

/-- `depth == ed`. -/
def Reader.atDepth (r : Reader) : Bool := r.nesting.length = if r.entered then 1 else 0

/-- The loop returns, or goes on after some more bytes. -/
inductive Outcome
  | done (l : Lookup)
  | next (r : Reader) (skip : Nat)
  deriving DecidableEq

/-- `MG_CHECKRET`, when `rest` follows the byte that was read last. -/
def checkRet (r : Reader) (rest : Bytes) (go : Outcome) : Outcome :=
  if r.atDepth && r.matched then .done (.found (r.start.take (r.start.length - rest.length))) else go

/-- `MG_EOO`; it is reached only with an open bracket. -/
def eoo (r : Reader) (c : UInt8) (rest : Bytes) (go : Reader → Outcome) : Outcome :=
  match r.nesting with
  | [] => .done .invalid
  | top :: up =>
    if c ≠ top + 2 then .done .invalid
    else checkRet { r with nesting := up } rest (go { r with nesting := up })

/-- After a value of `n` bytes at the front of the text. -/
def passValue (r : Reader) (t : Bytes) (n : Nat) : Outcome :=
  checkRet r (t.drop n) (.next { r with expecting := .commaOrEoo } (n - 1))

def pushNesting (r : Reader) (c : UInt8) : Outcome :=
  if MG_JSON_MAX_DEPTH ≤ r.nesting.length then .done .tooDeep
  else .next { r with nesting := c :: r.nesting } 0

def stepValue (r : Reader) (c : UInt8) (s : Bytes) : Outcome :=
  let t := c :: s
  let r := if r.atDepth then { r with start := t } else r
  if c = 123 then
    pushNesting { r with expecting := .key, entered := r.entered || r.nesting.isEmpty } c
  else if c = 91 then pushNesting r c
  else if c = 93 ∧ r.nesting ≠ [] then eoo r c s fun r => passValue r t 1
  else if t.take 4 = ascii "true" then passValue r t 4
  else if t.take 4 = ascii "null" then passValue r t 4
  else if t.take 5 = ascii "false" then passValue r t 5
  else if c = 45 ∨ isDigit c then passValue r t (atodLength t)
  else if c = 34 then
    match mgPassString s with
    | none => .done .invalid
    | some n => passValue r t (n + 2)
  else .done .invalid

def stepKey (key : Bytes) (r : Reader) (c : UInt8) (s : Bytes) : Outcome :=
  if c = 34 then
    match mgPassString s with
    | none => .done .invalid
    | some n =>
      if r.atDepth && (r.matched || !r.entered) then .done .notFound
      else
        .next { r with
          expecting := .colon
          matched := r.matched || (r.atDepth && r.entered && s.take n = key) } (n + 1)
  else if c = 125 then eoo r c s fun r => .next { r with expecting := .commaOrEoo } 0
  else .done .invalid

def stepColon (r : Reader) (c : UInt8) : Outcome :=
  if c = 58 then .next { r with expecting := .value } 0 else .done .invalid

def stepCommaOrEoo (r : Reader) (c : UInt8) (s : Bytes) : Outcome :=
  match r.nesting with
  | [] => .done .invalid
  | top :: _ =>
    if c = 44 then .next { r with expecting := if top = 123 then .key else .value } 0
    else if c = 93 ∨ c = 125 then
      if r.atDepth && c = 125 && r.entered && !r.matched then .done .notFound
      else eoo r c s fun r => .next r 0
    else .done .invalid

/-- The body of the loop at a byte that is not blank, with what follows it. -/
def step (key : Bytes) (r : Reader) (c : UInt8) (s : Bytes) : Outcome :=
  match r.expecting with
  | .value => stepValue r c s
  | .key => stepKey key r c s
  | .colon => stepColon r c
  | .commaOrEoo => stepCommaOrEoo r c s

/-- The loop, when some bytes are read already. -/
def loop (key : Bytes) : Reader → Nat → Bytes → Lookup
  | _, _, [] => .notFound
  | r, k + 1, _ :: s => loop key r k s
  | r, 0, c :: s =>
    if isWs c then loop key r 0 s
    else
      match step key r c s with
      | .done l => l
      | .next r k => loop key r k s

/-- How many bytes the loop reads of a text of this length: the conversion to `int` is modulo 2^32,
and may be negative. -/
def intLength (n : Nat) : Nat := if n % 2 ^ 32 < 2 ^ 31 then n % 2 ^ 32 else 0

/-- `mg_json_get` for a path `$.key`. -/
def mgJsonGet (json : Bytes) (path : String) : Lookup :=
  if (ascii path).head? ≠ some 36 then .invalid
  else loop ((ascii path).drop 2) .initial 0 (json.take (intLength json.length))

def mgJsonGetTok (json : Bytes) (path : String) : Bytes :=
  match mgJsonGet json path with
  | .found tok => tok
  | _ => []

def hexDigit (c : UInt8) : Option Nat :=
  if 48 ≤ c ∧ c ≤ 57 then some (c.toNat - 48)
  else if 65 ≤ c ∧ c ≤ 70 then some (c.toNat - 55)
  else if 97 ≤ c ∧ c ≤ 102 then some (c.toNat - 87)
  else none

/-- The loop of `mg_str_to_num` in base 16 into one byte, which has to read the whole string. -/
def hexByte : Nat → Bytes → Option UInt8
  | n, [] => some (UInt8.ofNat n)
  | n, c :: s =>
    match hexDigit c with
    | none => none
    | some d => if 255 / 16 < n ∨ 255 - d < n * 16 then none else hexByte (n * 16 + d) s

/-- The loop of `mg_json_unescape`, when some bytes are read already. Its buffer holds the result. -/
def unescapeFrom : Nat → Bytes → Option Bytes
  | _, [] => some []
  | k + 1, _ :: s => unescapeFrom k s
  | 0, c :: s =>
    if c = 92 ∧ 5 ≤ s.length ∧ s.head? = some 117 then
      match hexByte 0 ((s.drop 1).take 4) with
      | none => none
      | some b => (unescapeFrom 5 s).map (b :: ·)
    else if c = 92 ∧ s ≠ [] then
      if jsonEsc (s.headD 0) false = 0 then none
      else (unescapeFrom 1 s).map (jsonEsc (s.headD 0) false :: ·)
    else (unescapeFrom 0 s).map (c :: ·)

def mgJsonUnescape (s : Bytes) : Option Bytes := unescapeFrom 0 s

/-- `mg_json_get_str`, whose result is read as a C string. -/
def mgJsonGetStr (json : Bytes) (path : String) : Option Bytes :=
  match mgJsonGet json path with
  | .found tok =>
    if 1 < tok.length ∧ tok.head? = some 34 then
      (mgJsonUnescape ((tok.drop 1).take (tok.length - 2))).map cString
    else none
  | _ => none

/-- The reader, with the conversion of numbers as a parameter. -/
def mongoose (getLong : Bytes → String → Int → Int) : MgJson where
  getStr := mgJsonGetStr
  getTok := mgJsonGetTok
  getLong := getLong

example : mgJsonGetStr (ascii "\x7b\"a\": [1, \x7b\"id\": 2\x7d], \"id\" : \"x\\n\"") "$.id" =
    some (ascii "x\n") := by decide +kernel

end Cyctron.Mongoose.Json
