/- Cyctron/Event/Format
   digest: The event texts of event_format.c: escaping into a buffer, and the three templates. -/

import Cyctron.Base.CString

set_option autoImplicit false
set_option relaxedAutoImplicit false

namespace Cyctron.Event.Format

open Cyctron.Base.CString

/-- The replacement of a byte in `event_escape_json`. -/
def rep (c : UInt8) : Option Bytes :=
  if c = 34 then some [92, 34]
  else if c = 92 then some [92, 92]
  else if c = 10 then some [92, 110]
  else if c = 13 then some [92, 114]
  else if c = 9 then some [92, 116]
  else none

/-- The loop of `event_escape_json` when `o` bytes are written. -/
def escapeLoop (outSize : Nat) : Nat → Bytes → Bytes
  | _, [] => []
  | o, c :: p =>
    match rep c with
    | some r => if outSize ≤ o + r.length then [] else r ++ escapeLoop outSize (o + r.length) p
    | none =>
      if c < 32 then escapeLoop outSize o p
      else if outSize ≤ o + 1 then [] else c :: escapeLoop outSize (o + 1) p

/-- The C string that is left in a buffer of the given size, which is not zero. -/
def eventEscapeJson (s : Option Bytes) (outSize : Nat) : Bytes :=
  match s with
  | none => []
  | some s => escapeLoop outSize 0 s

/-- `mem` says whether the allocation succeeds. -/
def eventEscapeAlloc (mem : Bool) (s : Option Bytes) : Option Bytes :=
  if mem then some (eventEscapeJson (some (s.getD [])) ((s.getD []).length * 2 + 1)) else none

/-- The allocations of a call of a formatting function and its `time(NULL)`. -/
structure FormatEnv where
  mem : Bool
  now : Int

/-- Return code and output of `event_format_with_type`. -/
def eventFormatWithType (env : FormatEnv) (type data : Option Bytes) : Int × Option Bytes :=
  match type, data with
  | some type, some data =>
    match eventEscapeAlloc env.mem (some type) with
    | none => (-1, none)
    | some etype =>
      (0, some (snprintf (etype.length + data.length + 64) (ascii "\x7b\"type\":\"" ++ etype ++
        ascii "\",\"data\":" ++ data ++ ascii ",\"timestamp\":" ++ decimalInt env.now ++
        ascii "\x7d")))
  | _, _ => (-1, none)

def eventFormatMessage (env : FormatEnv) (msg : Option Bytes) : Int × Option Bytes :=
  match msg with
  | some msg =>
    match eventEscapeAlloc env.mem (some msg) with
    | none => (-1, none)
    | some emsg =>
      (0, some (snprintf (emsg.length + 64) (ascii "\x7b\"type\":\"message\",\"message\":\"" ++
        emsg ++ ascii "\",\"timestamp\":" ++ decimalInt env.now ++ ascii "\x7d")))
  | none => (-1, none)

def eventFormatJsonString (env : FormatEnv) (type str : Option Bytes) : Int × Option Bytes :=
  match type, str with
  | some type, some str =>
    match eventEscapeAlloc env.mem (some type), eventEscapeAlloc env.mem (some str) with
    | some etype, some estr =>
      (0, some (snprintf (etype.length + estr.length + 64) (ascii "\x7b\"type\":\"" ++ etype ++
        ascii "\",\"data\":\"" ++ estr ++ ascii "\",\"timestamp\":" ++ decimalInt env.now ++
        ascii "\x7d")))
    | _, _ => (-1, none)
  | _, _ => (-1, none)

end Cyctron.Event.Format
