/- Cyctron/Mongoose/Websocket
   digest: WebSocket frames as ws.c writes and reads them, and that what it writes it reads. -/

import Cyctron.Base.CString
import Mathlib.Data.Nat.Bitwise

set_option autoImplicit false
set_option relaxedAutoImplicit false

namespace Cyctron.Mongoose.Websocket

open Cyctron.Base.CString

def WEBSOCKET_OP_CONTINUE : UInt8 := 0
def WEBSOCKET_OP_TEXT : UInt8 := 1
def WEBSOCKET_OP_BINARY : UInt8 := 2
def WEBSOCKET_OP_CLOSE : UInt8 := 8
def WEBSOCKET_OP_PING : UInt8 := 9
def WEBSOCKET_OP_PONG : UInt8 := 10

/-- A byte of the buffer, where there is one. -/
def byte (p : Bytes) (i : Nat) : Nat := (p.getD i 0).toNat

def be32 (p : Bytes) : Nat :=
  byte p 3 <<< 0 ||| byte p 2 <<< 8 ||| byte p 1 <<< 16 ||| byte p 0 <<< 24

/-- `struct ws_msg` -/
structure WsMsg where
  flags : UInt8
  headerLen : Nat
  dataLen : Nat
  deriving DecidableEq

/-- The loop `p[i] ^= m[i & 3]`. -/
def xorMask (m p : Bytes) : Bytes := p.mapIdx fun i b => b ^^^ m.getD (i &&& 3) 0

def maskLen (buf : Bytes) : Nat := if buf.getD 1 0 &&& 128 ≠ 0 then 4 else 0

/-- The header, as far as it has arrived. -/
def wsHeader (buf : Bytes) : WsMsg :=
  let n := (buf.getD 1 0 &&& 0x7f).toNat
  if buf.length < 2 then ⟨0, 0, 0⟩
  else if n < 126 ∧ maskLen buf ≤ buf.length then ⟨buf.getD 0 0, 2 + maskLen buf, n⟩
  else if n = 126 ∧ 4 + maskLen buf ≤ buf.length then
    ⟨buf.getD 0 0, 4 + maskLen buf, byte buf 2 <<< 8 ||| byte buf 3⟩
  else if 10 + maskLen buf ≤ buf.length then
    ⟨buf.getD 0 0, 10 + maskLen buf, be32 (buf.drop 2) <<< 32 + be32 (buf.drop 6)⟩
  else ⟨buf.getD 0 0, 0, 0⟩

/-- The buffer with the payload unmasked in its place. -/
def unmask (buf : Bytes) (msg : WsMsg) : Bytes :=
  let p := buf.drop msg.headerLen
  let m := buf.drop (msg.headerLen - 4)
  buf.take msg.headerLen ++ xorMask m (p.take msg.dataLen) ++ p.drop msg.dataLen

/-- `ws_process`: what it returns, the message, and the buffer. -/
def wsProcess (buf : Bytes) : Nat × WsMsg × Bytes :=
  let msg := wsHeader buf
  if 1024 * 1024 * 1024 < msg.dataLen then (0, msg, buf)
  else if buf.length < msg.headerLen + msg.dataLen then (0, msg, buf)
  else (msg.headerLen + msg.dataLen, msg, if 0 < maskLen buf then unmask buf msg else buf)

/-- The bytes of `mg_htons` in memory. -/
def mgHtons (n : Nat) : Bytes := [UInt8.ofNat (n >>> 8), UInt8.ofNat n]

/-- The bytes of `mg_htonl` in memory. -/
def mgHtonl (n : Nat) : Bytes :=
  [UInt8.ofNat (n >>> 24), UInt8.ofNat (n >>> 16), UInt8.ofNat (n >>> 8), UInt8.ofNat n]

/-- The second byte of a header without its mask bit, and the bytes of the length. -/
def lengthField (len : Nat) : UInt8 × Bytes :=
  if len < 126 then (UInt8.ofNat len, [])
  else if len < 65536 then (126, mgHtons len)
  else (127, mgHtonl (len >>> 32) ++ mgHtonl (len &&& 0xffffffff))

/-- `mkhdr`; the mask comes from `mg_random`. -/
def mkhdr (len : Nat) (op : UInt8) (isClient : Bool) (mask : Bytes) : Bytes :=
  let f := lengthField len
  if isClient then [op ||| 128, f.1 ||| 128] ++ f.2 ++ mask
  else [op ||| 128, f.1] ++ f.2

/-- `mg_ws_mask`: the last `len` bytes of the buffer are masked with the four before them. -/
def mgWsMask (isClient : Bool) (send : Bytes) (len : Nat) : Bytes :=
  if isClient ∧ send ≠ [] then
    let at_ := send.length - len
    send.take at_ ++ xorMask (send.drop (at_ - 4)) (send.drop at_)
  else send

/-- `mg_ws_send`, with the answers of the two calls of `mg_send`: the send buffer and what it
returns. -/
def mgWsSend (isClient headerOk dataOk : Bool) (mask send buf : Bytes) (op : UInt8) : Bytes × Nat :=
  let header := mkhdr buf.length op isClient mask
  if headerOk = false then (send, 0)
  else if dataOk = false then (send ++ header, header.length)
  else (mgWsMask isClient (send ++ header ++ buf) buf.length, header.length + buf.length)

section Bits

private theorem or_shift {a : Nat} (b : Nat) (k : Nat) (h : a < 2 ^ k) :
    a ||| b <<< k = b * 2 ^ k + a := by
  rw [Nat.or_comm, ← Nat.shiftLeft_add_eq_or_of_lt h, Nat.shiftLeft_eq]

private theorem seven_bits {n : Nat} (h : n < 128) : (UInt8.ofNat n).toNat = n ∧
    UInt8.ofNat n &&& 128 = 0 ∧ UInt8.ofNat n &&& 0x7f = UInt8.ofNat n ∧
    (UInt8.ofNat n ||| 128) &&& 128 ≠ 0 ∧ (UInt8.ofNat n ||| 128) &&& 0x7f = UInt8.ofNat n := by
  revert n
  decide

private theorem byte_ofNat (n : Nat) (p : Bytes) : byte (UInt8.ofNat n :: p) 0 = n % 256 := by
  simp [byte]

private theorem byte_succ (b : UInt8) (p : Bytes) (i : Nat) : byte (b :: p) (i + 1) = byte p i := by
  simp [byte]

private theorem byte_lt (p : Bytes) (i : Nat) : byte p i < 256 := UInt8.toNat_lt _

private theorem be32_eq (p : Bytes) :
    be32 p = byte p 0 * 2 ^ 24 + byte p 1 * 2 ^ 16 + byte p 2 * 2 ^ 8 + byte p 3 := by
  have h0 := byte_lt p 0
  have h1 := byte_lt p 1
  have h2 := byte_lt p 2
  have h3 := byte_lt p 3
  rw [be32, Nat.shiftLeft_zero, or_shift _ 8 h3, or_shift _ 16 (by omega), or_shift _ 24 (by omega)]
  omega

private theorem be32_mgHtonl {n : Nat} (h : n < 2 ^ 32) (p : Bytes) : be32 (mgHtonl n ++ p) = n := by
  rw [be32_eq, mgHtonl]
  simp only [List.cons_append, byte_ofNat, byte_succ, Nat.shiftRight_eq_div_pow]
  omega

private theorem be16_mgHtons {n : Nat} (h : n < 2 ^ 16) (p : Bytes) :
    byte (mgHtons n ++ p) 0 <<< 8 ||| byte (mgHtons n ++ p) 1 = n := by
  rw [Nat.or_comm, or_shift _ 8 (byte_lt _ _), mgHtons]
  simp only [List.cons_append, byte_ofNat, byte_succ, Nat.shiftRight_eq_div_pow]
  omega

private theorem byte_append {p : Bytes} {i : Nat} (h : i < p.length) (c : Bytes) :
    byte (p ++ c) i = byte p i := by
  rw [byte, byte, List.getD_append _ _ _ _ h]

end Bits

section Masks

variable {m p q : Bytes}

@[simp] theorem xorMask_length : (xorMask m p).length = p.length := List.length_mapIdx

/-- Only the first four bytes of the mask count. -/
private theorem xorMask_congr {m' : Bytes} (h : m.take 4 = m'.take 4) :
    xorMask m p = xorMask m' p := by
  have hget : ∀ i, m.getD (i &&& 3) 0 = m'.getD (i &&& 3) 0 := by
    intro i
    have hi : i &&& 3 < 4 := Nat.lt_succ_of_le Nat.and_le_right
    have := congrArg (fun l => l.getD (i &&& 3) 0) h
    simpa [List.getD_eq_getElem?_getD, List.getElem?_take_of_lt hi] using this
  rw [xorMask, xorMask]
  congr 1
  funext i b
  rw [hget]

/-- A mask undoes itself. -/
private theorem xorMask_xorMask : xorMask m (xorMask m p) = p := by
  rw [xorMask, xorMask, List.mapIdx_mapIdx]
  refine List.ext_getElem List.length_mapIdx fun i h h' => ?_
  rw [List.getElem_mapIdx, Function.comp_apply, UInt8.xor_assoc, UInt8.xor_self, UInt8.xor_zero]

end Masks

section Reading

/-- How many bytes of the length follow the second byte. -/
def extLen (buf : Bytes) : Nat :=
  if (buf.getD 1 0 &&& 0x7f).toNat < 126 then 0
  else if (buf.getD 1 0 &&& 0x7f).toNat = 126 then 2 else 8

/-- The length that the header announces. -/
def announced (buf : Bytes) : Nat :=
  if (buf.getD 1 0 &&& 0x7f).toNat < 126 then (buf.getD 1 0 &&& 0x7f).toNat
  else if (buf.getD 1 0 &&& 0x7f).toNat = 126 then byte buf 2 <<< 8 ||| byte buf 3
  else be32 (buf.drop 2) <<< 32 + be32 (buf.drop 6)

def headLen (buf : Bytes) : Nat := 2 + extLen buf + maskLen buf

/-- A whole frame of a length that is accepted stands at the front. -/
def Complete (buf : Bytes) : Prop :=
  2 ≤ buf.length ∧ headLen buf ≤ buf.length ∧ announced buf ≤ 1024 * 1024 * 1024 ∧
    headLen buf + announced buf ≤ buf.length

instance (buf : Bytes) : Decidable (Complete buf) := by
  unfold Complete
  infer_instance

/-- The payload of the frame at the front, unmasked. -/
def payload (buf : Bytes) : Bytes :=
  let p := (buf.drop (headLen buf)).take (announced buf)
  if 0 < maskLen buf then xorMask (buf.drop (headLen buf - 4)) p else p

variable {buf : Bytes}

/-- Where the header is there, it is read as it stands. -/
private theorem wsHeader_complete (h2 : 2 ≤ buf.length) (h : headLen buf ≤ buf.length) :
    wsHeader buf = ⟨buf.getD 0 0, headLen buf, announced buf⟩ := by
  rw [headLen, extLen] at h
  rw [wsHeader, headLen, extLen, announced]
  rw [if_neg (by omega)]
  by_cases hs : (buf.getD 1 0 &&& 0x7f).toNat < 126
  · rw [if_pos hs] at h
    rw [if_pos ⟨hs, by omega⟩, if_pos hs, if_pos hs]
  · rw [if_neg hs] at h
    rw [if_neg (fun hc => hs hc.1), if_neg hs, if_neg hs]
    by_cases hm : (buf.getD 1 0 &&& 0x7f).toNat = 126
    · rw [if_pos hm] at h
      rw [if_pos ⟨hm, by omega⟩, if_pos hm, if_pos hm]
    · rw [if_neg hm] at h
      rw [if_neg (fun hc => hm hc.1), if_neg hm, if_neg hm, if_pos (by omega)]

/-- A header that is not there is longer than the buffer, or counts as empty. -/
private theorem wsHeader_short (h : buf.length < 2 ∨ buf.length < headLen buf) :
    (wsHeader buf).headerLen = 0 ∧ (wsHeader buf).dataLen = 0 ∨
      buf.length < (wsHeader buf).headerLen := by
  by_cases h2 : buf.length < 2
  · refine Or.inl ?_
    rw [wsHeader]
    rw [if_pos h2]
    exact ⟨rfl, rfl⟩
  · have hlen := h.resolve_left h2
    rw [headLen, extLen] at hlen
    rw [wsHeader]
    rw [if_neg h2]
    by_cases hs : (buf.getD 1 0 &&& 0x7f).toNat < 126
    · rw [if_pos hs] at hlen
      by_cases hm : maskLen buf ≤ buf.length
      · rw [if_pos ⟨hs, hm⟩]
        exact Or.inr hlen
      · rw [if_neg (fun hc => hm hc.2), if_neg (fun hc => by omega), if_neg (by omega)]
        exact Or.inl ⟨rfl, rfl⟩
    · rw [if_neg hs] at hlen
      rw [if_neg (fun hc => hs hc.1)]
      by_cases hm : (buf.getD 1 0 &&& 0x7f).toNat = 126
      · rw [if_pos hm] at hlen
        rw [if_neg (fun hc => by omega), if_neg (by omega)]
        exact Or.inl ⟨rfl, rfl⟩
      · rw [if_neg hm] at hlen
        rw [if_neg (fun hc => hm hc.1), if_neg (by omega)]
        exact Or.inl ⟨rfl, rfl⟩

theorem wsProcess_incomplete (h : ¬ Complete buf) : (wsProcess buf).1 = 0 := by
  rw [wsProcess]
  by_cases hshort : buf.length < 2 ∨ buf.length < headLen buf
  · rcases wsHeader_short hshort with ⟨hh, hd⟩ | hlong
    · rw [hh, hd, if_neg (by omega), if_neg (by omega)]
    · split
      · rfl
      · rw [if_pos (by omega)]
  · have h2 : 2 ≤ buf.length := by omega
    have hlen : headLen buf ≤ buf.length := by omega
    rw [wsHeader_complete h2 hlen]
    dsimp only
    split
    · rfl
    · next hdata =>
      rw [if_pos]
      by_contra hfit
      exact h ⟨h2, hlen, by omega, by omega⟩

private theorem unmask_length {msg : WsMsg} (h : msg.headerLen + msg.dataLen ≤ buf.length) :
    (unmask buf msg).length = buf.length := by
  simp only [unmask, List.length_append, List.length_take, List.length_drop, xorMask_length]
  omega

/-- The message that is found lies in the buffer, and the buffer keeps its length. -/
theorem wsProcess_length (h : (wsProcess buf).1 ≠ 0) :
    (wsProcess buf).1 = (wsProcess buf).2.1.headerLen + (wsProcess buf).2.1.dataLen ∧
      (wsProcess buf).1 ≤ buf.length ∧ (wsProcess buf).2.2.length = buf.length := by
  rw [wsProcess] at h ⊢
  split at h
  · exact absurd rfl h
  · next hsmall =>
    split at h
    · exact absurd rfl h
    · next hfit =>
      rw [if_neg hsmall, if_neg hfit]
      refine ⟨rfl, Nat.not_lt.mp hfit, ?_⟩
      dsimp only
      split
      · exact unmask_length (Nat.not_lt.mp hfit)
      · rfl

/-- Of a complete frame the header and the rest of the buffer stay, and the payload is unmasked. -/
theorem wsProcess_complete (h : Complete buf) :
    wsProcess buf = (headLen buf + announced buf, ⟨buf.getD 0 0, headLen buf, announced buf⟩,
      buf.take (headLen buf) ++ payload buf ++ buf.drop (headLen buf + announced buf)) := by
  obtain ⟨h2, hlen, hdata, hfit⟩ := h
  rw [wsProcess, wsHeader_complete h2 hlen]
  dsimp only
  rw [if_neg (by omega), if_neg (by omega), payload]
  rw [unmask]
  dsimp only
  rw [List.drop_drop]
  split
  · rfl
  · rw [List.append_assoc, ← List.drop_drop, List.take_append_drop, List.take_append_drop]

theorem payload_length (h : Complete buf) : (payload buf).length = announced buf := by
  obtain ⟨h2, hlen, hdata, hfit⟩ := h
  have : ((buf.drop (headLen buf)).take (announced buf)).length = announced buf := by
    rw [List.length_take, List.length_drop]
    omega
  rw [payload]
  split
  · rw [xorMask_length, this]
  · exact this

end Reading

section Prefixes

variable {buf : Bytes}

theorem getD_append {i : Nat} (h : i < buf.length) (c : Bytes) : (buf ++ c).getD i 0 = buf.getD i 0 :=
  List.getD_append _ _ _ _ h

/-- The second byte fixes the length of the header. -/
theorem headLen_append (h : 2 ≤ buf.length) (c : Bytes) : headLen (buf ++ c) = headLen buf := by
  rw [headLen, headLen, extLen, extLen, maskLen, maskLen, getD_append (by omega)]

theorem announced_append (h2 : 2 ≤ buf.length) (h : headLen buf ≤ buf.length) (c : Bytes) :
    announced (buf ++ c) = announced buf := by
  rw [headLen, extLen] at h
  rw [announced, announced, getD_append (by omega)]
  split
  · rfl
  · next hs =>
    rw [if_neg hs] at h
    split
    · next hm =>
      rw [if_pos hm] at h
      rw [byte_append (by omega), byte_append (by omega)]
    · next hm =>
      rw [if_neg hm] at h
      have hb : ∀ k, k ≤ 6 → be32 ((buf ++ c).drop k) = be32 (buf.drop k) := by
        intro k hk
        have hlen : (buf.drop k).length = buf.length - k := List.length_drop
        rw [List.drop_append_of_le_length (by omega), be32_eq, be32_eq]
        rw [byte_append (by omega), byte_append (by omega), byte_append (by omega),
          byte_append (by omega)]
      rw [hb 2 (by omega), hb 6 (by omega)]

theorem Complete.append (h : Complete buf) (c : Bytes) : Complete (buf ++ c) := by
  obtain ⟨h2, hlen, hdata, hfit⟩ := h
  rw [Complete, headLen_append h2, announced_append h2 hlen, List.length_append]
  exact ⟨by omega, by omega, hdata, by omega⟩

theorem payload_append (h : Complete buf) (c : Bytes) : payload (buf ++ c) = payload buf := by
  obtain ⟨h2, hlen, hdata, hfit⟩ := h
  have hmask : maskLen (buf ++ c) = maskLen buf := by
    rw [maskLen, maskLen, getD_append (by omega)]
  have htake : ((buf ++ c).drop (headLen buf)).take (announced buf) =
      (buf.drop (headLen buf)).take (announced buf) := by
    rw [List.drop_append_of_le_length hlen,
      List.take_append_of_le_length (by rw [List.length_drop]; omega)]
  rw [payload, payload, headLen_append h2, announced_append h2 hlen, hmask, htake]
  split
  · next hm =>
    refine xorMask_congr ?_
    have h4 : maskLen buf = 4 := by
      rw [maskLen] at hm ⊢
      split <;> simp_all
    have hhead : 4 ≤ headLen buf := by
      rw [headLen]
      omega
    rw [List.drop_append_of_le_length (by omega),
      List.take_append_of_le_length (by rw [List.length_drop]; omega)]
  · rfl

end Prefixes

section Frames

/-- The mask of a frame that a client sends. -/
structure MaskKey where
  bytes : Bytes
  four : bytes.length = 4

/-- A frame on the wire, with any first byte. -/
def frame (flags : UInt8) (key : Option MaskKey) (data : Bytes) : Bytes :=
  let f := lengthField data.length
  match key with
  | none => [flags, f.1] ++ f.2 ++ data
  | some k => [flags, f.1 ||| 128] ++ f.2 ++ k.bytes ++ xorMask k.bytes data

/-- The side that sends: a client masks. -/
def keyOf (isClient : Bool) (k : MaskKey) : Option MaskKey := if isClient then some k else none

variable {flags : UInt8} {key : Option MaskKey} {data rest : Bytes}

/-- The payload behind a mask is masked with it. -/
private theorem mgWsMask_tail (a : Bytes) (k : MaskKey) (data : Bytes) :
    mgWsMask true (a ++ k.bytes ++ data) data.length = a ++ k.bytes ++ xorMask k.bytes data := by
  have h4 := k.four
  have hat : (a ++ k.bytes ++ data).length - data.length = (a ++ k.bytes).length := by
    rw [List.length_append, Nat.add_sub_cancel]
  have hfour : (a ++ k.bytes).length - 4 = a.length := by
    rw [List.length_append, h4, Nat.add_sub_cancel]
  have hne : a ++ k.bytes ++ data ≠ [] := by
    intro h
    rw [List.append_assoc, List.append_eq_nil_iff, List.append_eq_nil_iff] at h
    rw [h.2.1] at h4
    exact absurd h4 (by decide)
  have hdrop : (a ++ k.bytes ++ data).drop a.length = k.bytes ++ data := by
    rw [List.append_assoc, List.drop_left]
  have hmask : xorMask (k.bytes ++ data) data = xorMask k.bytes data := by
    refine xorMask_congr ?_
    rw [List.take_append_of_le_length h4.ge]
  rw [mgWsMask, if_pos ⟨rfl, hne⟩, hat]
  dsimp only
  rw [hfour, List.take_left, List.drop_left, hdrop, hmask]

/-- Where nothing fails, `mg_ws_send` appends one frame. -/
theorem mgWsSend_frame (isClient : Bool) (k : MaskKey) (send data : Bytes) (op : UInt8) :
    mgWsSend isClient true true k.bytes send data op =
      (send ++ frame (op ||| 128) (keyOf isClient k) data,
        (frame (op ||| 128) (keyOf isClient k) data).length) := by
  cases isClient with
  | false =>
    simp [mgWsSend, mkhdr, mgWsMask, frame, keyOf]
    omega
  | true =>
    have hsend : send ++ mkhdr data.length op true k.bytes ++ data =
        send ++ ([op ||| 128, (lengthField data.length).1 ||| 128] ++ (lengthField data.length).2) ++
          k.bytes ++ data := by
      simp only [mkhdr, if_true, List.append_assoc]
    rw [mgWsSend, if_neg (by decide), if_neg (by decide), hsend, mgWsMask_tail]
    simp [mkhdr, frame, keyOf]
    omega

/-- What stands behind the length. -/
def masked (key : Option MaskKey) (data : Bytes) : Bytes :=
  match key with
  | none => data
  | some k => k.bytes ++ xorMask k.bytes data

def keyLen : Option MaskKey → Nat
  | none => 0
  | some _ => 4

private theorem masked_length : (masked key data).length = keyLen key + data.length := by
  cases key with
  | none => simp [masked, keyLen]
  | some k => simp [masked, keyLen, k.four]

private theorem lengthField_code (len : Nat) : ∃ n, n < 128 ∧ (lengthField len).1 = UInt8.ofNat n ∧
    n = if len < 126 then len else if len < 65536 then 126 else 127 := by
  refine ⟨_, ?_, ?_, rfl⟩
  · split
    · omega
    · split <;> decide
  · rw [lengthField]
    split
    · rfl
    · split <;> rfl

/-- The second byte of a frame gives back the length's code and whether there is a mask. -/
theorem frame_shape (flags : UInt8) (key : Option MaskKey) (data : Bytes) : ∃ c : UInt8,
    frame flags key data = flags :: c :: ((lengthField data.length).2 ++ masked key data) ∧
      (c &&& 0x7f).toNat =
        (if data.length < 126 then data.length else if data.length < 65536 then 126 else 127) ∧
      (if c &&& 128 ≠ 0 then 4 else 0) = keyLen key := by
  obtain ⟨n, hn, hcode, hval⟩ := lengthField_code data.length
  obtain ⟨hnat, hclear, hlow, hset, hlow'⟩ := seven_bits hn
  rw [← hval]
  cases key with
  | none =>
    refine ⟨UInt8.ofNat n, ?_, ?_, ?_⟩
    · simp [frame, masked, hcode]
    · rw [hlow, hnat]
    · rw [if_neg (fun h => h hclear)]
      rfl
  | some k =>
    refine ⟨UInt8.ofNat n ||| 128, ?_, ?_, ?_⟩
    · simp [frame, masked, hcode]
    · rw [hlow', hnat]
    · rw [if_pos hset]
      rfl

private theorem lengthField_length (len : Nat) :
    (lengthField len).2.length = if len < 126 then 0 else if len < 65536 then 2 else 8 := by
  rw [lengthField]
  split
  · rfl
  · split <;> rfl

variable (flags key data) in
theorem frame_length :
    (frame flags key data).length =
      2 + (lengthField data.length).2.length + keyLen key + data.length := by
  obtain ⟨c, hshape, -, -⟩ := frame_shape flags key data
  rw [hshape]
  simp only [List.length_cons, List.length_append, masked_length]
  omega

variable (flags key data) in
theorem frame_headLen : headLen (frame flags key data) + data.length =
    (frame flags key data).length := by
  obtain ⟨c, hshape, hcode, hmask⟩ := frame_shape flags key data
  have hget : (frame flags key data).getD 1 0 = c := by rw [hshape]; rfl
  have hext : extLen (frame flags key data) = (lengthField data.length).2.length := by
    rw [extLen, hget, hcode, lengthField_length]
    split_ifs <;> first | rfl | omega
  rw [frame_length, headLen, hext, maskLen, hget, hmask]

/-- The length comes back from each of its three forms. -/
theorem frame_announced (h : data.length < 2 ^ 64) :
    announced (frame flags key data) = data.length := by
  obtain ⟨c, hshape, hcode, hmask⟩ := frame_shape flags key data
  have hget : (frame flags key data).getD 1 0 = c := by rw [hshape]; rfl
  rw [announced, hget, hcode, hshape, lengthField]
  by_cases hs : data.length < 126
  · rw [if_pos hs, if_pos hs]
  · by_cases hm : data.length < 65536
    · simp only [if_neg hs, if_pos hm, byte_succ]
      rw [if_neg (by decide), if_pos trivial, be16_mgHtons hm]
    · have hhi : data.length >>> 32 < 2 ^ 32 := by
        rw [Nat.shiftRight_eq_div_pow]
        omega
      have hlo : data.length &&& 0xffffffff = data.length % 2 ^ 32 :=
        Nat.and_two_pow_sub_one_eq_mod _ 32
      simp only [if_neg hs, if_neg hm]
      rw [if_neg (by decide), if_neg (by decide), List.append_assoc]
      have hfirst : (flags :: c :: (mgHtonl (data.length >>> 32) ++
          (mgHtonl (data.length &&& 0xffffffff) ++ masked key data))).drop 2 =
            mgHtonl (data.length >>> 32) ++
              (mgHtonl (data.length &&& 0xffffffff) ++ masked key data) := rfl
      have hsecond : (flags :: c :: (mgHtonl (data.length >>> 32) ++
          (mgHtonl (data.length &&& 0xffffffff) ++ masked key data))).drop 6 =
            mgHtonl (data.length &&& 0xffffffff) ++ masked key data := rfl
      rw [hfirst, hsecond, be32_mgHtonl hhi, be32_mgHtonl (by omega), hlo,
        Nat.shiftRight_eq_div_pow, Nat.shiftLeft_eq]
      omega

/-- A frame of at most a gigabyte is complete, and its payload is what was put into it. -/
theorem frame_complete (h : data.length ≤ 1024 * 1024 * 1024) :
    Complete (frame flags key data) ∧ payload (frame flags key data) = data := by
  have hann : announced (frame flags key data) = data.length := frame_announced (by omega)
  have hhead := frame_headLen flags key data
  have htwo : 2 ≤ headLen (frame flags key data) := by
    rw [headLen]
    omega
  obtain ⟨c, hshape, hcode, hmask⟩ := frame_shape flags key data
  have hget : (frame flags key data).getD 1 0 = c := by rw [hshape]; rfl
  have hlen : maskLen (frame flags key data) = keyLen key := by rw [maskLen, hget, hmask]
  have hlead : headLen (frame flags key data) =
      (flags :: c :: (lengthField data.length).2).length + keyLen key := by
    have := frame_length flags key data
    simp only [List.length_cons]
    omega
  have happ : frame flags key data =
      (flags :: c :: (lengthField data.length).2) ++ masked key data := hshape
  refine ⟨⟨by omega, by omega, by omega, by omega⟩, ?_⟩
  rw [payload, hann, hlen, hlead]
  cases key with
  | none =>
    have hdrop : (frame flags none data).drop
        ((flags :: c :: (lengthField data.length).2).length + 0) = data := by
      rw [happ, Nat.add_zero, List.drop_left]
      rfl
    rw [keyLen, if_neg (by decide), hdrop, List.take_length]
  | some k =>
    have hdrop : (frame flags (some k) data).drop
        ((flags :: c :: (lengthField data.length).2).length + 4) = xorMask k.bytes data := by
      rw [happ, ← List.drop_drop, List.drop_left, masked, ← k.four, List.drop_left]
    have hkey : (frame flags (some k) data).drop
        ((flags :: c :: (lengthField data.length).2).length + 4 - 4) =
          k.bytes ++ xorMask k.bytes data := by
      rw [happ, Nat.add_sub_cancel, List.drop_left]
      rfl
    rw [keyLen, if_pos (by decide), hdrop, hkey, List.take_of_length_le (by rw [xorMask_length]),
      xorMask_congr (show _ = k.bytes.take 4 by rw [List.take_append_of_le_length k.four.ge]),
      xorMask_xorMask]

end Frames

end Cyctron.Mongoose.Websocket
