/- Cyctron/Mongoose/Receive
   digest: mg_ws_cb over a stream of frames: cuts, fragments, and messages as they were sent. -/

import Cyctron.Machine.Framing
import Cyctron.Mongoose.Iobuf
import Cyctron.Mongoose.Websocket

set_option autoImplicit false
set_option relaxedAutoImplicit false

namespace Cyctron.Mongoose.Receive

open Cyctron.Base.CString Cyctron.Mongoose.Websocket
open Cyctron.Machine.Framing (Reader Record Place loop play)
open Cyctron.Mongoose.Iobuf (deleted deleted_middle)

/-- What `mg_ws_cb` does besides moving its input, in order: the two calls of the user's handler,
`mg_ws_send`, the mark `is_draining`, and `mg_error`. -/
inductive Effect
  | wsCtl (flags : UInt8) (data : Bytes)
  | wsMsg (flags : UInt8) (data : Bytes)
  | wsSend (data : Bytes) (op : UInt8)
  | draining
  | error (op : UInt8)
  deriving DecidableEq

/-- The input of a connection: `recv`, and the offset kept in `pfn_data`. -/
structure WsRecv where
  recv : Bytes
  ofs : Nat
  deriving DecidableEq

def WsRecv.fresh : WsRecv := ⟨[], 0⟩

def isFinal (flags : UInt8) : Bool := flags &&& 128 ≠ 0

def opOf (flags : UInt8) : UInt8 := flags &&& 15

/-- The switch of `mg_ws_cb`. -/
def wsDispatch (flags : UInt8) (data : Bytes) : List Effect :=
  if opOf flags = WEBSOCKET_OP_CONTINUE then [.wsCtl flags data]
  else if opOf flags = WEBSOCKET_OP_PING then
    [.wsSend data WEBSOCKET_OP_PONG, .wsCtl flags data]
  else if opOf flags = WEBSOCKET_OP_PONG then [.wsCtl flags data]
  else if opOf flags = WEBSOCKET_OP_TEXT ∨ opOf flags = WEBSOCKET_OP_BINARY then
    if isFinal flags then [.wsMsg flags data] else []
  else if opOf flags = WEBSOCKET_OP_CLOSE then
    [.wsCtl flags data, .wsSend data WEBSOCKET_OP_CLOSE, .draining]
  else [.error (opOf flags)]

/-- A frame that is part of a message stays in the buffer without its header; of a first frame
the first byte stays too. -/
def keepFragment (s : WsRecv) (flags : UInt8) (headerLen len : Nat) : WsRecv :=
  let first := if opOf flags ≠ 0 then 1 else 0
  let ofs := s.ofs + first
  let headerLen := headerLen - first
  let len := len - first - headerLen
  ⟨deleted s.recv ofs headerLen, ofs + len⟩

/-- One round of the loop of `mg_ws_cb`. -/
def mgWsRound (s : WsRecv) : Option (WsRecv × List Effect) :=
  let r := wsProcess (s.recv.drop s.ofs)
  if r.1 = 0 then none
  else
    let msg := r.2.1
    let recv := s.recv.take s.ofs ++ r.2.2
    let data := (recv.drop (s.ofs + msg.headerLen)).take msg.dataLen
    let len := msg.headerLen + msg.dataLen
    let final := isFinal msg.flags
    let op := opOf msg.flags
    let t := if final = false ∨ op = 0 then keepFragment ⟨recv, s.ofs⟩ msg.flags msg.headerLen len
      else ⟨recv, s.ofs⟩
    let t := if final = true ∧ op ≠ 0 then ⟨deleted t.recv t.ofs len, t.ofs⟩ else t
    if final = true ∧ op = 0 ∧ 0 < t.ofs then
      some (⟨deleted t.recv 0 t.ofs, 0⟩,
        wsDispatch msg.flags data ++ [.wsMsg (t.recv.getD 0 0) ((t.recv.drop 1).take (t.ofs - 1))])
    else some (t, wsDispatch msg.flags data)

/-- `mg_ws_cb` on `MG_EV_READ`. -/
def mgWsCb (s : WsRecv) : WsRecv × List Effect := loop mgWsRound s.recv.length s

/-- Each piece of the stream that is read comes with one `MG_EV_READ`. -/
def receiveAll : WsRecv → List Bytes → WsRecv × List Effect
  | s, [] => (s, [])
  | s, chunk :: chunks =>
    let r := mgWsCb ⟨s.recv ++ chunk, s.ofs⟩
    let q := receiveAll r.1 chunks
    (q.1, r.2 ++ q.2)

/-- What one frame does where these bytes are kept of a message. -/
def keep (kept : Bytes) (flags : UInt8) (data : Bytes) : Bytes × List Effect :=
  if isFinal flags = true ∧ opOf flags ≠ 0 then (kept, wsDispatch flags data)
  else
    let kept := if opOf flags ≠ 0 then kept ++ flags :: data else kept ++ data
    if isFinal flags = true ∧ 0 < kept.length then
      ([], wsDispatch flags data ++ [.wsMsg (kept.getD 0 0) (kept.drop 1)])
    else (kept, wsDispatch flags data)

/-- The frame at the front of the bytes, when it is there. -/
def nextFrame (kept b : Bytes) : Option (Record Bytes Effect) :=
  if Complete b then
    some ⟨(keep kept (b.getD 0 0) (payload b)).1, (keep kept (b.getD 0 0) (payload b)).2,
      headLen b + announced b⟩
  else none

theorem nextFrame_advances {s b : Bytes} {r : Record Bytes Effect} (h : nextFrame s b = some r) :
    0 < r.length ∧ r.length ≤ b.length := by
  rw [nextFrame, Option.ite_none_right_eq_some] at h
  obtain ⟨⟨h2, hlen, hdata, hfit⟩, h⟩ := h
  obtain rfl := Option.some.inj h
  refine ⟨?_, hfit⟩
  dsimp only
  rw [headLen]
  omega

theorem nextFrame_stable {s b : Bytes} {r : Record Bytes Effect} (c : Bytes)
    (h : nextFrame s b = some r) : nextFrame s (b ++ c) = some r := by
  rw [nextFrame, Option.ite_none_right_eq_some] at h
  obtain ⟨hc, h⟩ := h
  rw [nextFrame, if_pos (hc.append c), payload_append hc, headLen_append hc.1,
    announced_append hc.1 hc.2.1, getD_append (by have := hc.1; omega)]
  exact h

/-- The frames of a stream, read one after the other. -/
def frames : Reader Bytes UInt8 Effect := ⟨nextFrame, nextFrame_advances, nextFrame_stable⟩

/-- The bytes kept of a message stand before the unread ones. -/
def store (p : Place Bytes UInt8) : WsRecv := ⟨p.state ++ p.unread, p.state.length⟩

section Rounds

/-- The fragment behind what is kept loses its header, and is kept. -/
private theorem keepFragment_eq (kept lead data rest : Bytes) (flags : UInt8) :
    keepFragment ⟨kept ++ (flags :: lead ++ data ++ rest), kept.length⟩ flags (lead.length + 1)
        (lead.length + 1 + data.length) =
      if opOf flags ≠ 0 then ⟨(kept ++ flags :: data) ++ rest, (kept ++ flags :: data).length⟩
      else ⟨(kept ++ data) ++ rest, (kept ++ data).length⟩ := by
  rw [keepFragment]
  split
  · have hdel := deleted_middle (kept ++ [flags]) lead (data ++ rest)
    simp only [List.append_assoc, List.length_append, List.length_cons, List.length_nil,
      List.nil_append, List.cons_append, Nat.zero_add] at hdel ⊢
    rw [Nat.add_sub_cancel, hdel]
    congr 1
    omega
  · have hdel := deleted_middle kept (flags :: lead) (data ++ rest)
    simp only [List.append_assoc, List.length_append, List.length_cons, List.cons_append] at hdel ⊢
    rw [Nat.sub_zero, Nat.add_zero, hdel]
    congr 1
    omega

/-- A round takes a complete frame off the front of the unread bytes. -/
private theorem mgWsRound_complete (kept b : Bytes) (hc : Complete b) :
    mgWsRound ⟨kept ++ b, kept.length⟩ =
      some (⟨(keep kept (b.getD 0 0) (payload b)).1 ++ b.drop (headLen b + announced b),
        (keep kept (b.getD 0 0) (payload b)).1.length⟩, (keep kept (b.getD 0 0) (payload b)).2) := by
  have hlen := payload_length hc
  have htwo : 2 ≤ headLen b := by
    rw [headLen]
    omega
  obtain ⟨lead, hlead⟩ : ∃ lead, b.take (headLen b) = b.getD 0 0 :: lead := by
    cases b with
    | nil => exact absurd hc.1 (by decide)
    | cons x b => exact ⟨b.take (headLen (x :: b) - 1), by
        rw [List.take_cons (by omega)]; rfl⟩
  have hsize : lead.length + 1 = headLen b := by
    have := congrArg List.length hlead
    rw [List.length_take, List.length_cons, Nat.min_eq_left hc.2.1] at this
    exact this.symm
  have hdata : ((kept ++ (b.getD 0 0 :: lead ++ payload b ++ b.drop (headLen b + announced b))).drop
      (kept.length + headLen b)).take (announced b) = payload b := by
    rw [← List.drop_drop, List.drop_left, ← hsize, ← List.length_cons (a := b.getD 0 0),
      List.append_assoc, List.drop_left, ← hlen, List.take_left]
  have hkeep := keepFragment_eq kept lead (payload b) (b.drop (headLen b + announced b)) (b.getD 0 0)
  rw [hlen, hsize] at hkeep
  have hdel := deleted_middle kept (b.getD 0 0 :: lead ++ payload b)
    (b.drop (headLen b + announced b))
  rw [List.length_append, List.length_cons, hlen, hsize, List.append_assoc] at hdel
  rw [mgWsRound]
  simp only [List.drop_left, List.take_left]
  rw [wsProcess_complete hc]
  dsimp only
  rw [if_neg (by omega), hlead, hdata, hkeep, keep]
  by_cases hop : opOf (b.getD 0 0) = 0
  · -- a continuation is kept, and the last one ends the message
    have hdel0 := deleted_middle [] (kept ++ payload b) (b.drop (headLen b + announced b))
    rw [List.nil_append, List.nil_append, List.length_nil] at hdel0
    simp only [hop, ne_eq, not_true_eq_false, and_false, or_true, if_true, if_false, true_and]
    by_cases hlast : isFinal (b.getD 0 0) = true ∧ 0 < (kept ++ payload b).length
    · rw [if_pos hlast, if_pos hlast, hdel0]
      cases hk : kept ++ payload b with
      | nil => exact absurd hlast.2 (by rw [hk]; decide)
      | cons x k => simp
    · rw [if_neg hlast, if_neg hlast]
  · cases hfin : isFinal (b.getD 0 0) with
    | true =>
      simp only [hop, ne_eq, not_false_eq_true, and_self, Bool.true_eq_false, false_or, if_true,
        if_false, false_and, and_false]
      rw [hdel]
    | false =>
      simp only [hop, ne_eq, not_false_eq_true, Bool.false_eq_true, true_or, if_true, if_false,
        false_and]

/-- A round does what the frame at the front does. -/
private theorem mgWsRound_implements : frames.Implements mgWsRound store := by
  rintro ⟨kept, b⟩
  change mgWsRound ⟨kept ++ b, kept.length⟩ = (frames.next kept b).map _
  by_cases hc : Complete b
  · have hnext : frames.next kept b = some _ := if_pos hc
    rw [hnext, Option.map_some, mgWsRound_complete kept b hc]
    rfl
  · have hnone : frames.next kept b = none := if_neg hc
    rw [hnone, mgWsRound, List.drop_left]
    dsimp only
    rw [if_pos (wsProcess_incomplete hc)]
    rfl

end Rounds

section Streams

/-- The callback drains the unread bytes. -/
theorem mgWsCb_store (p : Place Bytes UInt8) :
    mgWsCb (store p) = (store (frames.drain p).1, (frames.drain p).2) := by
  have henough : p.unread.length ≤ (store p).recv.length := by
    rw [store, List.length_append]
    exact Nat.le_add_left _ _
  rw [mgWsCb, mgWsRound_implements.loop_drain henough]

/-- Piece by piece, the callback does what the reader of frames does. -/
private theorem receiveAll_store (p : Place Bytes UInt8) (chunks : List Bytes) :
    receiveAll (store p) chunks = (store (frames.feedAll p chunks).1, (frames.feedAll p chunks).2) := by
  induction chunks generalizing p with
  | nil => rfl
  | cons chunk chunks ih =>
    have hput : (⟨(store p).recv ++ chunk, (store p).ofs⟩ : WsRecv) =
        store ⟨p.state, p.unread ++ chunk⟩ := by
      rw [store, store]
      dsimp only
      rw [List.append_assoc]
    rw [receiveAll, hput, mgWsCb_store, Reader.feedAll]
    dsimp only
    rw [ih]
    rfl

/-- A frame as a sender makes it: any first byte, masked or not. -/
structure WireFrame where
  flags : UInt8
  data : Bytes
  key : Option MaskKey
  small : data.length ≤ 1024 * 1024 * 1024

def WireFrame.bytes (f : WireFrame) : Bytes := frame f.flags f.key f.data

def WireFrame.content (f : WireFrame) : UInt8 × Bytes := (f.flags, f.data)

def keepContent (kept : Bytes) (f : UInt8 × Bytes) : Bytes × List Effect := keep kept f.1 f.2

theorem frames_reads :
    frames.Reads (fun _ => True) WireFrame.bytes fun kept f => keepContent kept f.content := by
  intro kept f rest _
  obtain ⟨hc, hdata⟩ : Complete (frame f.flags f.key f.data) ∧ payload (frame f.flags f.key f.data) = f.data :=
    frame_complete f.small
  have hann : announced (frame f.flags f.key f.data) = f.data.length :=
    frame_announced (by have := f.small; omega)
  obtain ⟨c, hshape, -, -⟩ := frame_shape f.flags f.key f.data
  have hflags : (frame f.flags f.key f.data ++ rest).getD 0 0 = f.flags := by
    rw [hshape]
    rfl
  have hnext : frames.next kept (frame f.flags f.key f.data ++ rest) = some _ := if_pos (hc.append rest)
  rw [WireFrame.bytes, hnext, hflags, payload_append hc, hdata, headLen_append hc.1,
    announced_append hc.1 hc.2.1, hann, frame_headLen]
  rfl

theorem play_content (kept : Bytes) (fs : List WireFrame) :
    play (fun kept f => keepContent kept f.content) kept fs =
      play keepContent kept (fs.map WireFrame.content) := by
  induction fs generalizing kept with
  | nil => rfl
  | cons f fs ih =>
    rw [List.map_cons, play, play]
    rw [ih]

/-- A stream of frames has the effects of its frames, wherever it is cut. -/
private theorem receiveAll_frames {fs : List WireFrame} {chunks : List Bytes}
    (same : chunks.flatten = fs.flatMap WireFrame.bytes) :
    receiveAll .fresh chunks =
      (store ⟨(play keepContent [] (fs.map WireFrame.content)).1, []⟩,
        (play keepContent [] (fs.map WireFrame.content)).2) := by
  have hfresh : WsRecv.fresh = store ⟨[], []⟩ := rfl
  rw [hfresh, receiveAll_store, frames_reads.feedAll (fun _ _ => trivial) same [], play_content]

end Streams

section Conversations

inductive DataOp
  | text
  | binary
  deriving DecidableEq

inductive ControlOp
  | close
  | ping
  | pong
  deriving DecidableEq

def DataOp.code : DataOp → UInt8
  | .text => WEBSOCKET_OP_TEXT
  | .binary => WEBSOCKET_OP_BINARY

def ControlOp.code : ControlOp → UInt8
  | .close => WEBSOCKET_OP_CLOSE
  | .ping => WEBSOCKET_OP_PING
  | .pong => WEBSOCKET_OP_PONG

/-- What may stand between the first and the last fragment of a message. -/
inductive Piece
  | control (op : ControlOp) (data : Bytes)
  | more (data : Bytes)

/-- What a peer sends: a message or a control frame in one frame, or a message in fragments. -/
inductive Item
  | message (op : DataOp) (data : Bytes)
  | control (op : ControlOp) (data : Bytes)
  | fragmented (op : DataOp) (first : Bytes) (middle : List Piece) (last : Bytes)

def Piece.content : Piece → UInt8 × Bytes
  | .control op data => (op.code ||| 128, data)
  | .more data => (WEBSOCKET_OP_CONTINUE, data)

def Piece.data : Piece → Bytes
  | .control _ _ => []
  | .more data => data

/-- The frames of an item, by first byte and payload. -/
def Item.contents : Item → List (UInt8 × Bytes)
  | .message op data => [(op.code ||| 128, data)]
  | .control op data => [(op.code ||| 128, data)]
  | .fragmented op first middle last =>
    (op.code, first) :: middle.map Piece.content ++ [(WEBSOCKET_OP_CONTINUE ||| 128, last)]

def controlEffects (op : ControlOp) (data : Bytes) : List Effect :=
  match op with
  | .close => [.wsCtl (op.code ||| 128) data, .wsSend data WEBSOCKET_OP_CLOSE, .draining]
  | .ping => [.wsSend data WEBSOCKET_OP_PONG, .wsCtl (op.code ||| 128) data]
  | .pong => [.wsCtl (op.code ||| 128) data]

def Piece.effects : Piece → List Effect
  | .control op data => controlEffects op data
  | .more data => [.wsCtl WEBSOCKET_OP_CONTINUE data]

/-- Each message reaches the handler once and whole; of a fragmented one it has the first byte. -/
def Item.effects : Item → List Effect
  | .message op data => [.wsMsg (op.code ||| 128) data]
  | .control op data => controlEffects op data
  | .fragmented op first middle last =>
    middle.flatMap Piece.effects ++ [.wsCtl (WEBSOCKET_OP_CONTINUE ||| 128) last,
      .wsMsg op.code (first ++ middle.flatMap Piece.data ++ last)]

private theorem keep_message (kept : Bytes) (op : DataOp) (data : Bytes) :
    keep kept (op.code ||| 128) data = (kept, [.wsMsg (op.code ||| 128) data]) := by
  cases op <;> rfl

private theorem keep_control (kept : Bytes) (op : ControlOp) (data : Bytes) :
    keep kept (op.code ||| 128) data = (kept, controlEffects op data) := by
  cases op <;> rfl

private theorem keep_first (kept : Bytes) (op : DataOp) (data : Bytes) :
    keep kept op.code data = (kept ++ op.code :: data, []) := by
  cases op <;> rfl

private theorem keep_more (kept data : Bytes) :
    keep kept WEBSOCKET_OP_CONTINUE data =
      (kept ++ data, [.wsCtl WEBSOCKET_OP_CONTINUE data]) := rfl

private theorem keep_last (flags : UInt8) (kept data : Bytes) :
    keep (flags :: kept) (WEBSOCKET_OP_CONTINUE ||| 128) data =
      ([], [.wsCtl (WEBSOCKET_OP_CONTINUE ||| 128) data, .wsMsg flags (kept ++ data)]) := by
  have hkeep : keep (flags :: kept) (WEBSOCKET_OP_CONTINUE ||| 128) data =
      if True ∧ 0 < (flags :: kept ++ data).length then
        ([], [.wsCtl (WEBSOCKET_OP_CONTINUE ||| 128) data] ++
          [.wsMsg ((flags :: kept ++ data).getD 0 0) ((flags :: kept ++ data).drop 1)])
      else (flags :: kept ++ data, [.wsCtl (WEBSOCKET_OP_CONTINUE ||| 128) data]) := rfl
  rw [hkeep, if_pos ⟨trivial, Nat.succ_pos _⟩]
  rfl

private theorem play_pieces (kept : Bytes) (middle : List Piece) :
    play keepContent kept (middle.map Piece.content) =
      (kept ++ middle.flatMap Piece.data, middle.flatMap Piece.effects) := by
  induction middle generalizing kept with
  | nil => simp [play]
  | cons piece middle ih =>
    cases piece with
    | control op data =>
      simp only [List.map_cons, play, keepContent, Piece.content, keep_control, ih,
        List.flatMap_cons, Piece.data, Piece.effects, List.nil_append]
    | more data =>
      simp only [List.map_cons, play, keepContent, Piece.content, keep_more, ih,
        List.flatMap_cons, Piece.data, Piece.effects, List.append_assoc]

/-- Between items nothing is kept. -/
private theorem play_item (item : Item) :
    play keepContent [] item.contents = ([], item.effects) := by
  cases item with
  | message op data => simp only [Item.contents, play, keepContent, keep_message, Item.effects,
      List.append_nil]
  | control op data => simp only [Item.contents, play, keepContent, keep_control, Item.effects,
      List.append_nil]
  | fragmented op first middle last =>
    rw [Item.contents, Machine.Framing.play_append]
    simp only [play, keepContent, keep_first, List.nil_append, play_pieces, List.cons_append,
      keep_last, List.append_nil, Item.effects]

theorem play_items (items : List Item) :
    play keepContent [] (items.flatMap Item.contents) = ([], items.flatMap Item.effects) := by
  induction items with
  | nil => rfl
  | cons item items ih =>
    rw [List.flatMap_cons, Machine.Framing.play_append, play_item, ih, List.flatMap_cons]

/-- The frame that `mg_ws_send` queues for an effect, by first byte and payload. -/
def Effect.queued : Effect → Option (UInt8 × Bytes)
  | .wsSend data op => some (op ||| 128, data)
  | _ => none

/-- A ping asks for a pong with its payload, a close frame for itself. -/
def answer (op : ControlOp) (data : Bytes) : List Item :=
  match op with
  | .close => [.control .close data]
  | .ping => [.control .pong data]
  | .pong => []

def Piece.answers : Piece → List Item
  | .control op data => answer op data
  | .more _ => []

def Item.answers : Item → List Item
  | .message _ _ => []
  | .control op data => answer op data
  | .fragmented _ _ middle _ => middle.flatMap Piece.answers

private theorem controlEffects_queued (op : ControlOp) (data : Bytes) :
    (controlEffects op data).filterMap Effect.queued =
      (answer op data).flatMap Item.contents := by
  cases op <;> rfl

private theorem pieces_queued (middle : List Piece) :
    (middle.flatMap Piece.effects).filterMap Effect.queued =
      (middle.flatMap Piece.answers).flatMap Item.contents := by
  induction middle with
  | nil => rfl
  | cons piece middle ih =>
    rw [List.flatMap_cons, List.filterMap_append, ih, List.flatMap_cons, List.flatMap_append]
    congr 1
    cases piece with
    | control op data => exact controlEffects_queued op data
    | more data => rfl

private theorem items_queued (items : List Item) :
    (items.flatMap Item.effects).filterMap Effect.queued =
      (items.flatMap Item.answers).flatMap Item.contents := by
  induction items with
  | nil => rfl
  | cons item items ih =>
    rw [List.flatMap_cons, List.filterMap_append, ih, List.flatMap_cons, List.flatMap_append]
    congr 1
    cases item with
    | message op data => rfl
    | control op data => exact controlEffects_queued op data
    | fragmented op first middle last =>
      rw [Item.effects, List.filterMap_append, pieces_queued]
      exact List.append_nil _

theorem four_zeros : ([1, 2, 3, 4] : Bytes).length = 4 := rfl

theorem small_text : (ascii "He").length ≤ 1024 * 1024 * 1024 := by decide

theorem small_empty : ([] : Bytes).length ≤ 1024 * 1024 * 1024 := by decide

/-- A text in two fragments with a ping between them; the ping is masked. -/
def sampleItems : List Item :=
  [.fragmented .text (ascii "He") [.control .ping []] (ascii "He"), .message .binary []]

def sampleFrames : List WireFrame :=
  [⟨1, ascii "He", none, small_text⟩, ⟨137, [], some ⟨[1, 2, 3, 4], four_zeros⟩, small_empty⟩,
    ⟨128, ascii "He", none, small_text⟩, ⟨130, [], none, small_empty⟩]

private theorem sample_cut (n : Nat) (b : Bytes) : [b.take n, b.drop n].flatten = b := by
  rw [List.flatten_cons, List.flatten_cons, List.flatten_nil, List.append_nil,
    List.take_append_drop]

theorem sample_framed : sampleFrames.map WireFrame.content = sampleItems.flatMap Item.contents := rfl

private theorem sample_whole :
    [sampleFrames.flatMap WireFrame.bytes].flatten = sampleFrames.flatMap WireFrame.bytes :=
  List.append_nil _

def samplePong : WireFrame := ⟨138, [], none, small_empty⟩

private theorem sample_pong : [samplePong].map WireFrame.content =
    (receiveAll .fresh [sampleFrames.flatMap WireFrame.bytes]).2.filterMap Effect.queued := by
  rw [receiveAll_frames sample_whole]
  rfl

end Conversations

section Sending

inductive Opcode
  | data (op : DataOp)
  | control (op : ControlOp)
  deriving DecidableEq

def Opcode.code : Opcode → UInt8
  | .data op => op.code
  | .control op => op.code

/-- One call of `mg_ws_send`. -/
structure Outgoing where
  op : Opcode
  data : Bytes
  key : MaskKey
  small : data.length ≤ 1024 * 1024 * 1024

/-- The send buffer after one more call, where memory does not run out. -/
def Outgoing.send (isClient : Bool) (send : Bytes) (o : Outgoing) : Bytes :=
  (mgWsSend isClient true true o.key.bytes send o.data o.op.code).1

def sendAll (isClient : Bool) (outs : List Outgoing) : Bytes :=
  outs.foldl (Outgoing.send isClient) []

def Outgoing.item (o : Outgoing) : Item :=
  match o.op with
  | .data op => .message op o.data
  | .control op => .control op o.data

variable {isClient : Bool} {outs : List Outgoing} {chunks : List Bytes}

def Outgoing.frame (isClient : Bool) (o : Outgoing) : WireFrame :=
  ⟨o.op.code ||| 128, o.data, keyOf isClient o.key, o.small⟩

private theorem foldl_send (send : Bytes) (outs : List Outgoing) :
    outs.foldl (Outgoing.send isClient) send =
      send ++ (outs.map (Outgoing.frame isClient)).flatMap WireFrame.bytes := by
  induction outs generalizing send with
  | nil => simp
  | cons o outs ih =>
    rw [List.foldl_cons, ih, Outgoing.send, mgWsSend_frame, List.map_cons, List.flatMap_cons,
      List.append_assoc]
    rfl

private theorem item_contents (o : Outgoing) :
    o.item.contents = [(Outgoing.frame isClient o).content] := by
  rcases o with ⟨op | op, data, key, small⟩ <;> rfl

def sampleOut : Outgoing := ⟨.data .text, ascii "He", ⟨[1, 2, 3, 4], four_zeros⟩, small_text⟩

end Sending

section Limits

/-- A frame that announces more than a gigabyte is waited for; nothing behind it is read. -/
private theorem oversized_waits {kept lead rest : Bytes} (h2 : 2 ≤ lead.length)
    (hlen : headLen lead ≤ lead.length) (big : 1024 * 1024 * 1024 < announced lead) :
    frames.Waits ⟨kept, lead ++ rest⟩ := by
  refine if_neg fun h => ?_
  have hdata := h.2.2.1
  rw [announced_append h2 hlen] at hdata
  omega

def hugeLead : Bytes := [129, 127, 255, 255, 255, 255, 255, 255, 255, 255]

private theorem huge_carried : [(sampleFrames.flatMap WireFrame.bytes ++ (hugeLead ++ [7])).take 3,
      (sampleFrames.flatMap WireFrame.bytes ++ (hugeLead ++ [7])).drop 3].flatten =
    sampleFrames.flatMap WireFrame.bytes ++ (hugeLead ++ [7]) := sample_cut 3 _

end Limits

end Cyctron.Mongoose.Receive
