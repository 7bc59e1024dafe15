/- Cyctron/Http/Stream
   digest: http_cb on a connection of the server: which requests its handler gets, and how often. -/

import Cyctron.Base.Number
import Cyctron.Http.Chunked
import Cyctron.Http.Parse
import Cyctron.Machine.Framing
import Cyctron.Machine.Labelled
import Cyctron.Mongoose.Iobuf

set_option autoImplicit false
set_option relaxedAutoImplicit false

namespace Cyctron.Http.Stream

open Cyctron.Base.CString Cyctron.Base.Number Cyctron.Http.Parse Cyctron.Mongoose.Query
open Cyctron.Http.Chunked (Chunk findEnd join chunked Carried)
open Cyctron.Machine.Framing (Reader Place loop)
open Cyctron.Mongoose.Iobuf (deleted)

/-- A request as the handler gets it: its head, the length of its body, and what the buffer holds from
the beginning of the body on. -/
structure Delivered where
  head : Head
  bodyLen : Nat
  buffered : Bytes
  deriving DecidableEq

def Delivered.body (m : Delivered) : Bytes := m.buffered.take m.bodyLen

/-- What `http_cb` does besides moving its input: `MG_EV_HTTP_HDRS`, `MG_EV_HTTP_MSG`, the response
411, `mg_error`, and that a response is complete. -/
inductive Effect
  | hdrs (h : Head)
  | msg (m : Delivered)
  | lengthRequired
  | error (text : String)
  | answered
  deriving DecidableEq

/-- An accepted connection; the number of messages is not in the source. -/
structure HttpConn where
  recv : Bytes
  isResp : Bool
  isDraining : Bool
  isClosing : Bool
  messages : Nat
  deriving DecidableEq

def HttpConn.fresh : HttpConn := ⟨[], false, false, false, 0⟩

/-- The three events that `http_cb` acts upon. -/
inductive Ev
  | read
  | poll
  | close
  deriving DecidableEq

/-- The loop of `http_cb`: left by a `break`, or with the whole function by a `return`. -/
structure Parsing where
  conn : HttpConn
  ofs : Nat
  left : Bool
  gone : Bool
  deriving DecidableEq

def header (h : Head) (name : String) : Option Bytes := mgHttpGetHeaderIn h.headers name

/-- `mg_strcasecmp` with a literal. -/
def isText (text : String) (s : Bytes) : Bool := sameName s (ascii text)

/-- The call of the handler. Whether it has completed its response is the handler's choice; it is
given for each message by its number. -/
def deliver (answered : Nat → Bool) (s : Parsing) (m : Delivered) (ofs : Nat) : Parsing × List Effect :=
  let ready := answered s.conn.messages
  let close := ready && (header m.head "Connection").any (isText "close")
  let conn := { s.conn with
    isResp := !ready
    isDraining := s.conn.isDraining || close
    messages := s.conn.messages + 1 }
  (⟨conn, ofs, close, false⟩, .msg m :: if ready then [.answered] else [])

/-- The branch for chunked data, with what stands behind the head. -/
def chunkedData (answered : Nat → Bool) (s : Parsing) (h : Head) (rest : Bytes) :
    Parsing × List Effect :=
  match findEnd rest (rest.length + 1) 0 with
  | .more => ({ s with left := true }, [])
  | .error => ({ s with conn := { s.conn with isClosing := true }, left := true },
      [.error "Invalid chunk"])
  | .chunk _ _ =>
    let r := join (rest.length + 1) rest 0 0
    let recv := s.conn.recv.take (s.ofs + h.len) ++ r.1
    deliver answered { s with conn := { s.conn with recv := recv } } ⟨h, r.2.2, r.1⟩
      (s.ofs + h.len + r.2.1)

/-- The branch for other data; the subtraction and the sum are the ones of `size_t`. -/
def plainData (answered : Nat → Bool) (s : Parsing) (h : Head) (bodyLen : Nat) (rest : Bytes) :
    Parsing × List Effect :=
  let len := (2 ^ 64 + s.conn.recv.length - s.ofs - h.len) % 2 ^ 64
  if len < bodyLen then ({ s with left := true }, [])
  else deliver answered s ⟨h, bodyLen, rest⟩ ((s.ofs + h.len + bodyLen) % 2 ^ 64)

/-- The checks of a head without a length, with the response 411: whether it is sent, and whether
the head then counts as processed. -/
def lengthMissing (h : Head) : Bool × Bool :=
  let isResponse := isText "HTTP/" (h.method.take 5)
  if isResponse = false ∧ (isText "POST" h.method = true ∨ isText "PUT" h.method = true) then (true, true)
  else if isResponse then
    let status := atoi h.uri
    (200 ≤ status && status ≠ 204 && status ≠ 304, false)
  else (false, false)

/-- What follows when the head at the offset is there. -/
def serve (answered : Nat → Bool) (ev : Ev) (s : Parsing) (h : Head) : Parsing × List Effect :=
  let rest := s.conn.recv.drop (s.ofs + h.len)
  let bodyLen := if ev = .close then rest.length else h.bodyLen
  match header h "Transfer-Encoding" with
  | some te =>
    if isText "chunked" te then chunkedData answered s h rest
    else ({ s with conn := { s.conn with isClosing := true }, gone := true },
      [.error "Invalid Transfer-Encoding"])
  | none =>
    if (header h "Content-length").isSome then plainData answered s h bodyLen rest
    else
      let missing := lengthMissing h
      let t := if missing.2 then { s with ofs := s.ofs + h.len } else s
      let r := plainData answered t h bodyLen rest
      (r.1, (if missing.1 then [Effect.lengthRequired] else []) ++ r.2)

/-- One round of the loop of `http_cb`. -/
def httpRound (answered : Nat → Bool) (ev : Ev) (s : Parsing) : Option (Parsing × List Effect) :=
  if s.left = true ∨ s.gone = true ∨ s.conn.isResp = true ∨ s.conn.recv.length ≤ s.ofs then none
  else
    match mgHttpParse (s.conn.recv.drop s.ofs) with
    | .error n =>
      if n < 0 then
        some ({ s with conn := { s.conn with isDraining := true, recv := [] }, gone := true }, [])
      else some ({ s with left := true }, [])
    | .ok h =>
      let r := serve answered ev s h
      some (r.1, .hdrs h :: r.2)

/-- `http_cb` -/
def httpCb (answered : Nat → Bool) (ev : Ev) (c : HttpConn) : HttpConn × List Effect :=
  if ev = .poll ∧ (c.isDraining = true ∨ c.recv = []) then (c, [])
  else
    let r := loop (httpRound answered ev) (c.recv.length + 2) ⟨c, 0, false, false⟩
    if r.1.gone ∨ r.1.ofs = 0 then (r.1.conn, r.2)
    else ({ r.1.conn with recv := deleted r.1.conn.recv 0 r.1.ofs }, r.2)

/-- The requests that reach the handler. -/
def messages (es : List Effect) : List (Head × Bytes) :=
  es.filterMap fun e => match e with
    | .msg m => some (m.head, m.body)
    | _ => none

section Heads

variable {s c q : Bytes} {h : Head}

/-- The end of a head stays where it is when more arrives. -/
private theorem requestLenLoop_append {i : Nat} {a b : UInt8} (found : requestLenLoop i b a s ≠ 0)
    (c : Bytes) :
    requestLenLoop i b a (s ++ c) = requestLenLoop i b a s := by
  induction s generalizing i a b with
  | nil => exact absurd rfl found
  | cons x s ih =>
    rw [requestLenLoop] at found
    rw [List.cons_append, requestLenLoop, requestLenLoop]
    split
    · rfl
    · next hok =>
      rw [if_neg hok] at found
      split
      · rfl
      · next hend =>
        rw [if_neg hend] at found
        exact ih found

private theorem requestLenLoop_le {i : Nat} {a b : UInt8} (found : 0 < requestLenLoop i b a s) :
    (i : Int) < requestLenLoop i b a s ∧ requestLenLoop i b a s ≤ i + s.length := by
  induction s generalizing i a b with
  | nil => exact absurd found (Int.lt_irrefl 0)
  | cons x s ih =>
    rw [requestLenLoop] at found ⊢
    rw [List.length_cons]
    split
    · next hok =>
      rw [if_pos hok] at found
      exact absurd found (by decide)
    · next hok =>
      rw [if_neg hok] at found
      split
      · omega
      · next hend =>
        rw [if_neg hend] at found
        have := ih found
        omega

/-- A head that is not found in the front of the bytes ends behind it. -/
private theorem requestLenLoop_late {i : Nat} {a b : UInt8} (none_ : requestLenLoop i b a q = 0)
    (found : 0 < requestLenLoop i b a (q ++ c)) :
    (i : Int) + q.length < requestLenLoop i b a (q ++ c) := by
  induction q generalizing i a b with
  | nil =>
    have := (requestLenLoop_le found).1
    rw [List.length_nil]
    omega
  | cons x q ih =>
    rw [requestLenLoop] at none_
    rw [List.cons_append, requestLenLoop] at found ⊢
    rw [List.length_cons]
    split at none_
    · cases none_
    · next hok =>
      rw [if_neg hok] at found ⊢
      split at none_
      · omega
      · next hend =>
        rw [if_neg hend] at found ⊢
        have := ih none_ found
        omega

/-- The parser reads nothing behind the head. -/
private theorem parse_congr {t : Bytes} (hlen : mgHttpGetRequestLen s = mgHttpGetRequestLen t)
    (hhead : s.take (mgHttpGetRequestLen s).toNat = t.take (mgHttpGetRequestLen t).toNat) :
    mgHttpParse s = mgHttpParse t := by
  rw [mgHttpParse, mgHttpParse, hhead, hlen]

private theorem parse_found (parsed : mgHttpParse s = .ok h) :
    0 < mgHttpGetRequestLen s ∧ (h.len : Int) = mgHttpGetRequestLen s := by
  rw [mgHttpParse] at parsed
  dsimp only at parsed
  split at parsed
  · cases parsed
  · next hpos =>
    refine ⟨Int.not_le.mp hpos, ?_⟩
    split at parsed
    · cases parsed
    split at parsed
    · cases parsed
    split at parsed
    · cases parsed
    split at parsed
    · cases parsed
    split at parsed
    · cases parsed
    split at parsed
    · cases parsed
    obtain rfl := Except.ok.inj parsed
    exact Int.toNat_of_nonneg (Int.le_of_lt (Int.not_le.mp hpos))

theorem parse_len (parsed : mgHttpParse s = .ok h) : 0 < h.len ∧ h.len ≤ s.length := by
  obtain ⟨hpos, hlen⟩ := parse_found parsed
  have hle := (requestLenLoop_le (s := s) (i := 0) (a := 0) (b := 0) hpos).2
  rw [mgHttpGetRequestLen] at hlen hpos
  omega

theorem parse_append (parsed : mgHttpParse s = .ok h) (c : Bytes) : mgHttpParse (s ++ c) = .ok h := by
  obtain ⟨hpos, hlen⟩ := parse_found parsed
  have hsame : mgHttpGetRequestLen (s ++ c) = mgHttpGetRequestLen s :=
    requestLenLoop_append (Int.ne_of_gt hpos) c
  have hle := (parse_len parsed).2
  rw [← parsed]
  refine parse_congr hsame ?_
  rw [hsame, List.take_append_of_le_length (by omega)]

/-- The front of a request is waited for while its head is not there, and parsed when it is. -/
theorem parse_prefix (parsed : mgHttpParse s = .ok h) (hq : q <+: s) :
    mgHttpParse q = if q.length < h.len then .error 0 else .ok h := by
  obtain ⟨c, rfl⟩ := hq
  obtain ⟨hpos, hlen⟩ := parse_found parsed
  by_cases hz : mgHttpGetRequestLen q = 0
  · have hlate := requestLenLoop_late (i := 0) (a := 0) (b := 0) hz hpos
    have hshort : q.length < h.len := by
      rw [mgHttpGetRequestLen] at hlen
      omega
    rw [if_pos hshort, mgHttpParse, hz]
    rfl
  · have hsame : mgHttpGetRequestLen (q ++ c) = mgHttpGetRequestLen q := requestLenLoop_append hz c
    have hqpos : 0 < mgHttpGetRequestLen q := by rw [← hsame]; exact hpos
    have hle := (requestLenLoop_le (s := q) (i := 0) (a := 0) (b := 0) hqpos).2
    rw [mgHttpGetRequestLen] at hsame hlen hqpos
    rw [mgHttpGetRequestLen] at hsame
    rw [if_neg (by omega), ← parsed]
    refine parse_congr hsame.symm ?_
    rw [mgHttpGetRequestLen, mgHttpGetRequestLen, hsame, List.take_append_of_le_length (by omega)]

end Heads

section Requests

/-- A head that fixes the length of its body. -/
def Sized (h : Head) : Prop :=
  header h "Transfer-Encoding" = none ∧
    ((header h "Content-length").isSome = true ∨ lengthMissing h = (false, false))

instance (h : Head) : Decidable (Sized h) := inferInstanceAs (Decidable (_ ∧ (_ ∨ _)))

/-- A head that does not ask for the end of the connection. -/
def KeepsAlive (h : Head) : Prop := (header h "Connection").any (isText "close") = false

instance (h : Head) : Decidable (KeepsAlive h) := inferInstanceAs (Decidable (_ = _))

/-- A whole request. -/
structure Request where
  bytes : Bytes
  head : Head
  parsed : mgHttpParse bytes = .ok head
  whole : bytes.length = head.len + head.bodyLen
  sized : Sized head
  keepsAlive : KeepsAlive head

def Request.body (r : Request) : Bytes := r.bytes.drop r.head.len

/-- What the handler should get of a request. -/
def Request.content (r : Request) : Head × Bytes := (r.head, r.body)

theorem Request.bytes_pos (r : Request) : 0 < r.bytes.length := by
  have := parse_len r.parsed
  omega

private theorem Request.body_length (r : Request) : r.body.length = r.head.bodyLen := by
  rw [Request.body, List.length_drop, r.whole, Nat.add_sub_cancel_left]

variable {answered : Nat → Bool} {ev : Ev} {s : Parsing} {h : Head} {p : Bytes} {r : Request}

theorem messages_append (es fs : List Effect) : messages (es ++ fs) = messages es ++ messages fs :=
  List.filterMap_append

theorem serve_sized (hs : Sized h) :
    serve answered ev s h = plainData answered s h
      (if ev = .close then (s.conn.recv.drop (s.ofs + h.len)).length else h.bodyLen)
      (s.conn.recv.drop (s.ofs + h.len)) := by
  rw [serve, hs.1]
  dsimp only
  rcases hs.2 with hl | hm
  · rw [if_pos hl]
  · rw [hm]
    split
    · rfl
    · rfl

theorem plainData_there {bodyLen : Nat} {rest : Bytes} (there : s.ofs + h.len + bodyLen ≤
    s.conn.recv.length) (small : s.conn.recv.length < 2 ^ 64) :
    plainData answered s h bodyLen rest =
      deliver answered s ⟨h, bodyLen, rest⟩ (s.ofs + h.len + bodyLen) := by
  rw [plainData, if_neg (by omega), Nat.mod_eq_of_lt (by omega)]

private theorem plainData_short {bodyLen : Nat} {rest : Bytes}
    (head : s.ofs + h.len ≤ s.conn.recv.length)
    (short : s.conn.recv.length < s.ofs + h.len + bodyLen) (small : s.conn.recv.length < 2 ^ 64) :
    plainData answered s h bodyLen rest = ({ s with left := true }, []) := by
  rw [plainData, if_pos (by omega)]

/-- The connection after one more message. -/
def HttpConn.served (c : HttpConn) (answered : Nat → Bool) : HttpConn :=
  { c with isResp := !answered c.messages, messages := c.messages + 1 }

theorem deliver_keepsAlive {m : Delivered} (hk : KeepsAlive m.head) (ofs : Nat) :
    deliver answered s m ofs =
      (⟨s.conn.served answered, ofs, false, false⟩,
        .msg m :: if answered s.conn.messages then [.answered] else []) := by
  rw [KeepsAlive] at hk
  rw [deliver, hk]
  simp only [Bool.and_false, Bool.or_false]
  rfl

theorem messages_delivered (m : Delivered) (b : Bool) :
    messages (.msg m :: if b then [.answered] else []) = [(m.head, m.body)] := by
  cases b <;> rfl

/-- Where the loop goes on. -/
structure Parsing.Open (s : Parsing) : Prop where
  left : s.left = false
  gone : s.gone = false
  ready : s.conn.isResp = false

variable (answered ev) in
theorem httpRound_parsed (ho : s.Open) (parsed : mgHttpParse (s.conn.recv.drop s.ofs) = .ok h) :
    httpRound answered ev s =
      some ((serve answered ev s h).1, .hdrs h :: (serve answered ev s h).2) := by
  have hlen := parse_len parsed
  rw [List.length_drop] at hlen
  rw [httpRound, if_neg, parsed]
  rw [ho.left, ho.gone, ho.ready]
  rintro (h | h | h | h)
  · cases h
  · cases h
  · cases h
  · omega

theorem httpRound_left (h : s.left = true ∨ s.gone = true ∨ s.conn.isResp = true ∨
    s.conn.recv.length ≤ s.ofs) : httpRound answered ev s = none := by
  rw [httpRound, if_pos h]

theorem loop_stops {n : Nat} (h : httpRound answered ev s = none) :
    loop (httpRound answered ev) n s = (s, []) := by
  cases n with
  | zero => rfl
  | succ n => rw [loop, h]

/-- An empty buffer is left alone. -/
theorem httpCb_empty {c : HttpConn} (hrecv : c.recv = []) : httpCb answered ev c = (c, []) := by
  rw [httpCb]
  split
  · rfl
  · have hstop : httpRound answered ev ⟨c, 0, false, false⟩ = none :=
      httpRound_left (Or.inr (Or.inr (Or.inr (by rw [hrecv]; exact Nat.zero_le _))))
    rw [loop_stops hstop]
    exact if_pos (Or.inr rfl)

theorem httpRound_waits (ho : s.Open) (hne : s.conn.recv.drop s.ofs ≠ [])
    (parsed : mgHttpParse (s.conn.recv.drop s.ofs) = .error 0) :
    httpRound answered ev s = some ({ s with left := true }, []) := by
  rw [httpRound, if_neg, parsed]
  · rfl
  · rw [ho.left, ho.gone, ho.ready]
    rintro (h | h | h | h)
    · cases h
    · cases h
    · cases h
    · exact hne (List.drop_eq_nil_of_le h)

variable (answered) in
/-- A request that is there is handed over, and the loop stands behind it. -/
theorem httpRound_request (ho : s.Open) (hev : ev ≠ .close) (small : s.conn.recv.length < 2 ^ 64)
    (at_ : s.conn.recv.drop s.ofs = r.bytes ++ p) :
    ∃ es, httpRound answered ev s =
        some (⟨s.conn.served answered, s.ofs + r.bytes.length, false, false⟩, es) ∧
      messages es = [r.content] := by
  obtain ⟨hpos, hle⟩ := parse_len r.parsed
  have hlen := congrArg List.length at_
  rw [List.length_drop, List.length_append, r.whole] at hlen
  have hrest : s.conn.recv.drop (s.ofs + r.head.len) = r.body ++ p := by
    rw [← List.drop_drop, at_, List.drop_append_of_le_length hle, Request.body]
  have hparsed : mgHttpParse (s.conn.recv.drop s.ofs) = .ok r.head := by
    rw [at_]
    exact parse_append r.parsed p
  rw [httpRound_parsed answered ev ho hparsed, serve_sized r.sized, if_neg hev, plainData_there (by omega) small,
    deliver_keepsAlive r.keepsAlive, hrest]
  refine ⟨.hdrs r.head :: .msg ⟨r.head, r.head.bodyLen, r.body ++ p⟩ ::
    (if answered s.conn.messages then [.answered] else []), ?_, ?_⟩
  · rw [r.whole, Nat.add_assoc]
  · change messages (.msg _ :: _) = _
    rw [messages_delivered, Delivered.body, ← r.body_length, List.take_left]
    rfl

variable (answered) in
/-- The front of a request is waited for. -/
theorem httpRound_part (ho : s.Open) (hev : ev ≠ .close) (small : s.conn.recv.length < 2 ^ 64)
    (at_ : s.conn.recv.drop s.ofs = p) (hne : p ≠ []) (hp : p <+: r.bytes)
    (short : p.length < r.bytes.length) :
    ∃ es, httpRound answered ev s = some ({ s with left := true }, es) ∧ messages es = [] := by
  have hlen := congrArg List.length at_
  rw [List.length_drop] at hlen
  have hpos := List.length_pos_of_ne_nil hne
  have hparsed := parse_prefix r.parsed hp
  rw [r.whole] at short
  by_cases hhead : p.length < r.head.len
  · rw [if_pos hhead, ← at_] at hparsed
    exact ⟨[], httpRound_waits ho (at_ ▸ hne) hparsed, rfl⟩
  · rw [if_neg hhead, ← at_] at hparsed
    rw [httpRound_parsed answered ev ho hparsed, serve_sized r.sized, if_neg hev,
      plainData_short (by omega) (by omega) small]
    exact ⟨[.hdrs r.head], rfl, rfl⟩

end Requests

end Cyctron.Http.Stream
