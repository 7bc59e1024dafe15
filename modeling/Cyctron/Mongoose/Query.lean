/- Cyctron/Mongoose/Query
   digest: The variables of a query and the headers of a request, as mongoose.c finds them. -/

import Cyctron.Http.Message
import Cyctron.Mongoose.Json

set_option autoImplicit false
set_option relaxedAutoImplicit false

namespace Cyctron.Mongoose.Query

open Cyctron.Base.CString Cyctron.Http.Message
open Cyctron.Json.Text (isHex)
open Cyctron.Mongoose.Json (hexByte)

def mgTolc (c : UInt8) : UInt8 := if 65 ≤ c ∧ c ≤ 90 then c + 32 else c

/-- `mg_ncasecmp` finds no difference between names of one length. -/
def sameName (a b : Bytes) : Bool := a.map mgTolc = b.map mgTolc

/-- The parts that `mg_span` leaves of an entry at its first equals sign. -/
def spanKey (entry : Bytes) : Bytes := entry.takeWhile (· ≠ 61)

def spanValue (entry : Bytes) : Bytes := (entry.dropWhile (· ≠ 61)).drop 1

/-- The value of the first entry with this name; empty entries are passed over. -/
def mgHttpVar (query name : Bytes) : Option Bytes :=
  ((query.splitOn 38).find? fun e => e ≠ [] && sameName name (spanKey e)).map spanValue

/-- `mg_url_decode` of a form value into a buffer with this much room before its terminator. -/
def mgUrlDecode : Nat → Bytes → Option Bytes
  | _, [] => some []
  | 0, _ :: _ => none
  | room + 1, c :: s =>
    if c = 37 then
      match s with
      | x :: y :: s =>
        if isHex x && isHex y then (mgUrlDecode room s).map ((hexByte 0 [x, y]).getD 0 :: ·)
        else none
      | _ => none
    else (mgUrlDecode room s).map ((if c = 43 then 32 else c) :: ·)

/-- What `mg_http_get_var` stores when it returns no error. -/
def mgHttpGetVar (query : Bytes) (name : String) (dstLen : Nat) : Option Bytes :=
  if query = [] then none
  else (mgHttpVar query (ascii name)).bind (mgUrlDecode (dstLen - 1))

def mgHttpGetHeader (hm : HttpMessage) (name : String) : Option Bytes :=
  (hm.headers.find? fun h => sameName (ascii name) h.1).map Prod.snd

example : mgHttpGetVar (ascii "a=1&&LIB=sys%5Finfo+x&lib=2") "lib" 64 =
    some (ascii "sys_info x") := by decide +kernel

end Cyctron.Mongoose.Query
