/- Cyctron/Mongoose/Reading
   digest: read_conn in front of mg_ws_cb: how large the input grows, and which messages get through. -/

import Cyctron.Mongoose.Receive

set_option autoImplicit false
set_option relaxedAutoImplicit false

namespace Cyctron.Mongoose.Reading

open Cyctron.Base.CString Cyctron.Mongoose.Iobuf Cyctron.Mongoose.Receive
open Cyctron.Mongoose.Websocket (headLen announced payload payload_length keyOf wsProcess
  wsProcess_length)
open Cyctron.Machine.Framing (Reader Place play)
open Cyctron.Machine.Labelled (System Path Run)
open Cyctron.Machine.Storage (Fault)

abbrev MG_MAX_RECV_SIZE : Nat := 3 * 1024 * 1024

/-- `ioalloc`; where it has no room the connection is marked as closing. -/
def ioalloc (mem : Bool) (io : MgIobuf) : Except Fault (MgIobuf × Bool) :=
  if MG_MAX_RECV_SIZE ≤ io.len then .ok (io, false)
  else if io.size ≤ io.len then mgIobufResize mem io (sizeT (io.size + MG_IO_SIZE))
  else .ok (io, true)

/-- `read_conn` of a plain connection over the bytes that wait in the socket: the buffer, and what
was read into it, or nothing where the connection is given up. -/
def readConn (mem : Bool) (io : MgIobuf) (waiting : Bytes) : Except Fault (MgIobuf × Option Bytes) :=
  (ioalloc mem io).bind fun r =>
    if r.2 = false then .ok (r.1, none)
    else
      let data := waiting.take (r.1.size - r.1.len)
      (memmove r.1.buf r.1.len data).map fun buf =>
        ({ r.1 with buf := buf, len := r.1.len + data.length }, some data)

/-- A WebSocket connection that is read, and what its peer has yet to send. -/
structure WsInput where
  io : MgIobuf
  ofs : Nat
  closing : Bool
  unsent : Bytes

/-- The storage while `mg_ws_cb` works on it: the content is unmasked in its place, and parts of it
are deleted. -/
inductive Worked (io : MgIobuf) : MgIobuf → Prop
  | start : Worked io io
  | overwrite {t : MgIobuf} {b buf : Bytes} : Worked io t → b.length = t.len →
      memmove t.buf 0 b = .ok buf → Worked io { t with buf := buf }
  | delete {t u : MgIobuf} {ofs len n : Nat} : Worked io t → mgIobufDel t ofs len = .ok (u, n) →
      Worked io u

/-- One turn of the manager: at most `n` bytes wait in the socket. -/
structure Poll where
  mem : Bool
  n : Nat

/-- The callback leaves its content in the storage (`mgWsCb_worked`). -/
def poll (s : WsInput) (a : Poll) : Option (WsInput × List Effect) :=
  if s.closing then none
  else
    match readConn a.mem s.io (s.unsent.take a.n) with
    | .error _ => none
    | .ok (io, none) => some ({ s with io := io, closing := true }, [])
    | .ok (io, some data) =>
      let r := mgWsCb ⟨io.content, s.ofs⟩
      some (⟨refill io r.1.recv, r.1.ofs, false, s.unsent.drop data.length⟩, r.2)

/-- The connection over a stream; its effects are the events. -/
def reading (stream : Bytes) : System WsInput Poll Effect :=
  ⟨⟨⟨[], 0, MG_IO_SIZE⟩, 0, false, stream⟩, poll⟩

/-- Memory does not run out. -/
def memory (_ : WsInput) (a : Poll) : Prop := a.mem = true

section Polls

variable {s : WsInput} {a : Poll} {io : MgIobuf} {data : Bytes}

private theorem poll_lost (hopen : s.closing = false)
    (hread : readConn a.mem s.io (s.unsent.take a.n) = .ok (io, none)) :
    poll s a = some ({ s with io := io, closing := true }, []) := by
  rw [poll, hopen, if_neg (by decide), hread]

private theorem poll_data (hopen : s.closing = false)
    (hread : readConn a.mem s.io (s.unsent.take a.n) = .ok (io, some data)) :
    poll s a = some (⟨refill io (mgWsCb ⟨io.content, s.ofs⟩).1.recv, (mgWsCb ⟨io.content, s.ofs⟩).1.ofs,
      false, s.unsent.drop data.length⟩, (mgWsCb ⟨io.content, s.ofs⟩).2) := by
  rw [poll, hopen, if_neg (by decide), hread]

private theorem poll_open {r : WsInput × List Effect} (h : poll s a = some r) : s.closing = false := by
  rw [poll] at h
  split at h
  · cases h
  · next hopen => exact Bool.eq_false_iff.mpr hopen

end Polls

section Callback

variable {io t u : MgIobuf} {b : Bytes} {ofs : Nat} {ds : List (Nat × Nat)}

theorem Worked.trans (h : Worked io t) (h' : Worked t u) : Worked io u := by
  induction h' with
  | start => exact h
  | overwrite _ hlen hput ih => exact ih.overwrite hlen hput
  | delete _ hdel ih => exact ih.delete hdel

private theorem worked_overwrite (h : Tidy io) (hlen : b.length = io.content.length) :
    Worked io (refill io b) := by
  obtain ⟨c, k, align, rfl, -⟩ := h.form
  rw [content_mk] at hlen
  have hput : memmove (c ++ zeros k) 0 b = .ok (b ++ zeros k) := memmove_middle [] c (zeros k) hlen
  have hstore : refill ⟨c ++ zeros k, c.length, align⟩ b = ⟨b ++ zeros k, c.length, align⟩ := by
    rw [refill, size_mk, hlen, Nat.add_sub_cancel_left]
  rw [hstore]
  exact Worked.start.overwrite hlen hput

/-- Deletions within the content, one after the other. -/
def deleteAll (b : Bytes) (ds : List (Nat × Nat)) : Bytes := ds.foldl (fun b d => deleted b d.1 d.2) b

private theorem deleteAll_length (b : Bytes) (ds : List (Nat × Nat)) :
    (deleteAll b ds).length ≤ b.length := by
  induction ds generalizing b with
  | nil => exact Nat.le_refl _
  | cons d ds ih => exact Nat.le_trans (ih _) (deleted_length _ _ _)

private theorem worked_deletes (h : Tidy io) (small : ∀ d ∈ ds, d.1 + d.2 < 2 ^ 64) :
    Worked io (refill io (deleteAll io.content ds)) := by
  induction ds generalizing io with
  | nil =>
    rw [deleteAll, List.foldl_nil, refill_self h]
    exact Worked.start
  | cons d ds ih =>
    have hd := small d List.mem_cons_self
    have hsmall : min d.1 io.len + d.2 < 2 ^ 64 := by omega
    obtain ⟨n, hdel⟩ := mgIobufDel_refill h hsmall
    have hfits : (deleted io.content d.1 d.2).length ≤ io.size := by
      have hlen := h.content_length
      have hfit := h.fits
      have hdeleted := deleted_length io.content d.1 d.2
      omega
    have hrest := ih (refill_tidy h hfits) fun e he => small e (List.mem_cons_of_mem _ he)
    rw [refill_content, refill_refill hfits] at hrest
    exact (Worked.start.delete hdel).trans hrest

/-- A round unmasks a frame in its place and deletes within the content. -/
private theorem mgWsRound_deletes {s q : WsRecv} {es : List Effect} (h : mgWsRound s = some (q, es)) :
    ∃ b ds, b.length = s.recv.length ∧ q.recv = deleteAll b ds ∧
      ∀ d ∈ ds, d.1 + d.2 ≤ s.recv.length := by
  rw [mgWsRound] at h
  by_cases hz : (wsProcess (s.recv.drop s.ofs)).1 = 0
  · rw [if_pos hz] at h
    cases h
  · obtain ⟨hsum, hframe, hsame⟩ := wsProcess_length hz
    rw [List.length_drop] at hframe hsame
    rw [if_neg hz] at h
    rw [hsum] at hz hframe
    generalize (wsProcess (s.recv.drop s.ofs)).2.1 = msg at h hz hframe
    refine ⟨s.recv.take s.ofs ++ (wsProcess (s.recv.drop s.ofs)).2.2, ?_⟩
    have hlen : (s.recv.take s.ofs ++ (wsProcess (s.recv.drop s.ofs)).2.2).length = s.recv.length := by
      rw [List.length_append, List.length_take, hsame]
      omega
    generalize s.recv.take s.ofs ++ (wsProcess (s.recv.drop s.ofs)).2.2 = b at h hlen
    dsimp only at h
    by_cases hwhole : isFinal msg.flags = true ∧ opOf msg.flags ≠ 0
    · -- a whole message goes as one
      have hpart : ¬ (isFinal msg.flags = false ∨ opOf msg.flags = 0) := by
        rw [hwhole.1]
        simp [hwhole.2]
      rw [if_neg hpart, if_pos hwhole, if_neg (fun hc => hwhole.2 hc.2.1)] at h
      obtain ⟨rfl, -⟩ := Prod.mk.inj (Option.some.inj h)
      refine ⟨[(s.ofs, msg.headerLen + msg.dataLen)], hlen, rfl, ?_⟩
      rintro d hd
      rw [List.mem_singleton.mp hd]
      dsimp only
      omega
    · -- a fragment loses its header, and with the last one the message goes
      have hpart : isFinal msg.flags = false ∨ opOf msg.flags = 0 := by
        cases hfin : isFinal msg.flags with
        | false => exact Or.inl rfl
        | true => exact Or.inr (not_not.mp fun hop => hwhole ⟨hfin, hop⟩)
      rw [if_pos hpart, if_neg hwhole, keepFragment] at h
      dsimp only at h
      generalize hfirst : (if opOf msg.flags ≠ 0 then 1 else 0) = first at h
      have hle : first ≤ 1 := by
        rw [← hfirst]
        split <;> omega
      split at h
      · obtain ⟨rfl, -⟩ := Prod.mk.inj (Option.some.inj h)
        refine ⟨[(s.ofs + first, msg.headerLen - first), (0, s.ofs + first +
          (msg.headerLen + msg.dataLen - first - (msg.headerLen - first)))], hlen, rfl, ?_⟩
        rintro d hd
        rcases List.mem_cons.mp hd with rfl | hd
        · dsimp only
          omega
        · rw [List.mem_singleton.mp hd]
          dsimp only
          omega
      · obtain ⟨rfl, -⟩ := Prod.mk.inj (Option.some.inj h)
        refine ⟨[(s.ofs + first, msg.headerLen - first)], hlen, rfl, ?_⟩
        rintro d hd
        rw [List.mem_singleton.mp hd]
        dsimp only
        omega

/-- What the callback leaves in the storage is what its deletions leave there. -/
theorem mgWsCb_worked (h : Tidy io) (ofs : Nat) :
    Worked io (refill io (mgWsCb ⟨io.content, ofs⟩).1.recv) := by
  rw [mgWsCb]
  generalize (⟨io.content, ofs⟩ : WsRecv).recv.length = n
  induction n generalizing io ofs with
  | zero =>
    rw [Machine.Framing.loop, refill_self h]
    exact Worked.start
  | succ n ih =>
    rw [Machine.Framing.loop]
    cases hround : mgWsRound ⟨io.content, ofs⟩ with
    | none =>
      dsimp only
      rw [refill_self h]
      exact Worked.start
    | some r =>
      obtain ⟨q, es⟩ := r
      obtain ⟨b, ds, hlen, hq, hds⟩ := mgWsRound_deletes hround
      have hsize := h.sized.small
      have hclen := h.content_length
      have hfit := h.fits
      dsimp only at hlen hds ⊢
      have hb : Worked io (refill io b) := worked_overwrite h hlen
      have hbt : Tidy (refill io b) := refill_tidy h (by omega)
      have hsmall : ∀ d ∈ ds, d.1 + d.2 < 2 ^ 64 := by
        intro d hd
        have := hds d hd
        omega
      have hdel := worked_deletes hbt hsmall
      rw [refill_content, refill_refill (by omega), ← hq] at hdel
      have hqlen : q.recv.length ≤ io.size := by
        have := deleteAll_length b ds
        rw [hq]
        omega
      have hrest := ih (refill_tidy h hqlen) q.ofs
      rw [refill_content, refill_refill hqlen] at hrest
      exact (hb.trans hdel).trans hrest

end Callback

section Room

variable {c : Bytes} {k : Nat}

/-- A multiple of the granularity. -/
private theorem granular {n : Nat} (h : roundup n MG_IO_SIZE = n) : ∃ q, n = q * MG_IO_SIZE := by
  rw [roundup, if_neg (by decide)] at h
  exact ⟨_, h.symm⟩

private theorem roundup_granular {q : Nat} (small : (q + 1) * MG_IO_SIZE ≤ 2 ^ 64) :
    roundup (q * MG_IO_SIZE) MG_IO_SIZE = q * MG_IO_SIZE := by
  simp only [MG_IO_SIZE] at small ⊢
  rw [roundup_exact (by decide) (by omega)]
  omega

private theorem sized_room {n : Nat} (aligned : roundup n MG_IO_SIZE = n)
    (bounded : n ≤ MG_MAX_RECV_SIZE) :
    Sized n MG_IO_SIZE := by
  have hmax : MG_MAX_RECV_SIZE = 192 * 16384 := rfl
  exact ⟨aligned, by simp only [MG_IO_SIZE]; omega, by decide⟩

/-- Below the limit there is room after `ioalloc`, and the storage stays within the limit. -/
private theorem ioalloc_room (aligned : roundup (c.length + k) MG_IO_SIZE = c.length + k)
    (bounded : c.length + k ≤ MG_MAX_RECV_SIZE) (h : c.length < MG_MAX_RECV_SIZE) (mem : Bool) :
    ∃ k' ok, ioalloc mem ⟨c ++ zeros k, c.length, MG_IO_SIZE⟩ =
        .ok (⟨c ++ zeros k', c.length, MG_IO_SIZE⟩, ok) ∧
      roundup (c.length + k') MG_IO_SIZE = c.length + k' ∧ c.length + k' ≤ MG_MAX_RECV_SIZE ∧
      (ok = true → 0 < k') ∧ (mem = true → ok = true) := by
  have hsize : (⟨c ++ zeros k, c.length, MG_IO_SIZE⟩ : MgIobuf).size = c.length + k := size_mk
  have hmax : MG_MAX_RECV_SIZE = 192 * 16384 := rfl
  have hio : MG_IO_SIZE = 16384 := rfl
  obtain ⟨q, hq⟩ := granular aligned
  rw [ioalloc]
  dsimp only
  rw [if_neg (by omega), hsize]
  by_cases hk : k = 0
  · subst hk
    have htidy : Tidy ⟨c ++ zeros 0, c.length, MG_IO_SIZE⟩ := tidy_mk (sized_room aligned bounded)
    rw [hio] at hq
    have hround : roundup (c.length + 0 + MG_IO_SIZE) MG_IO_SIZE = c.length + 0 + MG_IO_SIZE := by
      rw [hq, hio, ← Nat.succ_mul]
      exact roundup_granular (by rw [hio]; omega)
    have hgrown : Sized (roundup (c.length + 0 + MG_IO_SIZE) MG_IO_SIZE) MG_IO_SIZE := by
      rw [hround]
      exact ⟨hround, by omega, by decide⟩
    obtain ⟨t, ok, ht, htt, halign, hok, hres⟩ := mgIobufResize_tidy htidy mem hgrown
    rw [if_pos (by omega), sizeT_self (by omega), ht]
    dsimp only at hres
    rw [hround, content_mk] at hres
    cases ok with
    | false =>
      obtain ⟨rfl, -⟩ := hres
      exact ⟨0, false, rfl, aligned, bounded, fun h => Bool.noConfusion h, hok⟩
    | true =>
      obtain ⟨hcontent, hsize'⟩ := hres
      rw [List.take_of_length_le (by omega)] at hcontent
      obtain ⟨c', k', align, rfl, haligned⟩ := htt.form
      rw [content_mk] at hcontent
      subst hcontent
      dsimp only at halign
      subst halign
      rw [size_mk] at hsize'
      exact ⟨k', true, rfl, haligned.aligned, by omega, fun _ => by omega, fun _ => rfl⟩
  · rw [if_neg (by omega)]
    exact ⟨k, true, rfl, aligned, bounded, fun _ => Nat.pos_of_ne_zero hk, fun _ => rfl⟩

/-- What `read_conn` does: it gives the connection up at the limit, and reads below it. -/
private theorem readConn_room (aligned : roundup (c.length + k) MG_IO_SIZE = c.length + k)
    (bounded : c.length + k ≤ MG_MAX_RECV_SIZE) (mem : Bool) (waiting : Bytes) :
    ∃ k', roundup (c.length + k') MG_IO_SIZE = c.length + k' ∧ c.length + k' ≤ MG_MAX_RECV_SIZE ∧
      ((readConn mem ⟨c ++ zeros k, c.length, MG_IO_SIZE⟩ waiting =
          .ok (⟨c ++ zeros k', c.length, MG_IO_SIZE⟩, none) ∧
        (mem = true → MG_MAX_RECV_SIZE ≤ c.length)) ∨
      (readConn mem ⟨c ++ zeros k, c.length, MG_IO_SIZE⟩ waiting =
          .ok (⟨(c ++ waiting.take k') ++ zeros (k' - (waiting.take k').length),
            (c ++ waiting.take k').length, MG_IO_SIZE⟩, some (waiting.take k')) ∧
        0 < k' ∧ c.length < MG_MAX_RECV_SIZE)) := by
  by_cases h : c.length < MG_MAX_RECV_SIZE
  · obtain ⟨k', ok, halloc, haligned, hbounded, hpos, hmem⟩ := ioalloc_room aligned bounded h mem
    refine ⟨k', haligned, hbounded, ?_⟩
    rw [readConn, halloc, Except.bind]
    dsimp only
    cases ok with
    | false => exact Or.inl ⟨rfl, fun hm => absurd (hmem hm) (by decide)⟩
    | true =>
      refine Or.inr ⟨?_, hpos rfl, h⟩
      have hroom : (⟨c ++ zeros k', c.length, MG_IO_SIZE⟩ : MgIobuf).size - c.length = k' := by
        rw [size_mk, Nat.add_sub_cancel_left]
      have hle : (waiting.take k').length ≤ k' := by
        rw [List.length_take]
        exact Nat.min_le_left _ _
      have hmove := memmove_middle (d := waiting.take k') c (zeros (waiting.take k').length)
        (zeros (k' - (waiting.take k').length)) (by rw [zeros_length])
      rw [List.append_assoc c, ← zeros_add, Nat.add_sub_cancel' hle] at hmove
      rw [if_neg (by decide), hroom, hmove, List.length_append]
      rfl
  · refine ⟨k, aligned, bounded, Or.inl ⟨?_, fun _ => Nat.le_of_not_lt h⟩⟩
    rw [readConn, ioalloc, if_pos (Nat.le_of_not_lt h)]
    rfl

end Room

section Runs

/-- The connection's buffer is tidy and within the limit. -/
structure Bounded (s : WsInput) : Prop where
  form : ∃ c k, s.io = ⟨c ++ zeros k, c.length, MG_IO_SIZE⟩ ∧
    roundup (c.length + k) MG_IO_SIZE = c.length + k ∧ c.length + k ≤ MG_MAX_RECV_SIZE
  within : s.ofs ≤ s.io.len

private theorem keep_length (kept : Bytes) (flags : UInt8) (data : Bytes) :
    (keep kept flags data).1.length ≤ kept.length + data.length + 1 := by
  have hlen : (if opOf flags ≠ 0 then kept ++ flags :: data else kept ++ data).length ≤
      kept.length + data.length + 1 := by
    split <;> simp only [List.length_append, List.length_cons] <;> omega
  rw [keep]
  by_cases hwhole : isFinal flags = true ∧ opOf flags ≠ 0
  · rw [if_pos hwhole]
    exact Nat.le_add_right_of_le (Nat.le_add_right _ _)
  · rw [if_neg hwhole]
    dsimp only
    generalize (if opOf flags ≠ 0 then kept ++ flags :: data else kept ++ data) = kept' at hlen
    split
    · exact Nat.zero_le _
    · exact hlen

/-- What the callback leaves in the buffer is no longer than what it found there. -/
private theorem drained_length (p : Place Bytes UInt8) :
    (frames.drain p).1.state.length + (frames.drain p).1.unread.length ≤
      p.state.length + p.unread.length := by
  induction p using frames.drain_induction with
  | waits p h => rw [Reader.drain_waits h]
  | next p r h ih =>
    have hnext : (if Websocket.Complete p.unread then _ else none) = some r := h
    rw [Option.ite_none_right_eq_some] at hnext
    obtain ⟨hc, hr⟩ := hnext
    obtain rfl := Option.some.inj hr
    have hkeep := keep_length p.state (p.unread.getD 0 0) (payload p.unread)
    have htwo : 2 ≤ headLen p.unread := by
      rw [headLen]
      omega
    have hfit := hc.2.2.2
    rw [payload_length hc] at hkeep
    rw [Reader.drain_next h]
    dsimp only at ih ⊢
    rw [List.length_drop] at ih
    omega

/-- The storage after the callback is the one before it with other content. -/
private theorem refill_form {c c' : Bytes} {k : Nat} (h : c'.length ≤ c.length) :
    ∃ k', refill ⟨c ++ zeros k, c.length, MG_IO_SIZE⟩ c' = ⟨c' ++ zeros k', c'.length, MG_IO_SIZE⟩ ∧
      c'.length + k' = c.length + k := by
  refine ⟨c.length + k - c'.length, ?_, by omega⟩
  rw [refill, size_mk]

private theorem poll_bounded {s s' : WsInput} {a : Poll} {es : List Effect} (h : Bounded s)
    (hstep : poll s a = some (s', es)) : Bounded s' := by
  obtain ⟨⟨c, k, hio, aligned, bounded⟩, hofs⟩ := h
  obtain ⟨io, ofs, closing, unsent⟩ := s
  dsimp only at hio
  subst hio
  dsimp only at hofs
  have hopen := poll_open hstep
  obtain ⟨k', aligned', bounded', ⟨hread, -⟩ | ⟨hread, -, -⟩⟩ :=
    readConn_room aligned bounded a.mem (unsent.take a.n)
  · rw [poll_lost hopen hread] at hstep
    obtain ⟨rfl, -⟩ := Prod.mk.inj (Option.some.inj hstep)
    exact ⟨⟨c, k', rfl, aligned', bounded'⟩, hofs⟩
  · rw [poll_data hopen hread] at hstep
    obtain ⟨rfl, -⟩ := Prod.mk.inj (Option.some.inj hstep)
    dsimp only
    set data := (unsent.take a.n).take k' with hdata
    have hle : data.length ≤ k' := by
      rw [hdata, List.length_take]
      exact Nat.min_le_left _ _
    have hplace : (⟨c ++ data, ofs⟩ : WsRecv) =
        store ⟨(c ++ data).take ofs, (c ++ data).drop ofs⟩ := by
      rw [store]
      dsimp only
      rw [List.take_append_drop, List.length_take, List.length_append, Nat.min_eq_left (by omega)]
    rw [content_mk, hplace, mgWsCb_store]
    have hlen := drained_length ⟨(c ++ data).take ofs, (c ++ data).drop ofs⟩
    dsimp only at hlen
    rw [← List.length_append, ← List.length_append, List.take_append_drop] at hlen
    obtain ⟨k'', hform, hsum⟩ := refill_form (c := c ++ data) (k := k' - data.length) hlen
    rw [@List.length_append _ c] at hsum
    refine ⟨⟨_, k'', hform, ?_, ?_⟩, ?_⟩
    · rw [hsum, Nat.add_assoc, Nat.add_sub_cancel' hle]
      exact aligned'
    · omega
    · rw [store, refill]
      dsimp only
      rw [List.length_append]
      exact Nat.le_add_right _ _

/-- Whatever arrives, the receive buffer of a connection stays tidy and never grows beyond
`MG_MAX_RECV_SIZE`. -/
theorem storage_bounded {stream : Bytes} {tr : List Effect} {s : WsInput}
    (h : Run (reading stream) Machine.Labelled.anyStep tr s) :
    Tidy s.io ∧ s.io.size ≤ MG_MAX_RECV_SIZE := by
  have hstart : Bounded (reading stream).initial :=
    ⟨⟨[], 0, rfl, by decide, by decide⟩, Nat.le_refl 0⟩
  obtain ⟨⟨c, k, hio, aligned, bounded⟩, -⟩ :=
    h.state_invariant Bounded hstart fun t a t' es ht _ hstep => poll_bounded ht hstep
  rw [hio]
  refine ⟨tidy_mk (sized_room aligned bounded), ?_⟩
  rw [size_mk]
  exact bounded

/-- The allocator refuses the first buffer. -/
private theorem refused_run : Run (reading [129, 0]) Machine.Labelled.anyStep []
    ⟨⟨[], 0, MG_IO_SIZE⟩, 0, true, [129, 0]⟩ :=
  Path.single (a := ⟨false, 1⟩) trivial rfl

theorem storage_bounded_sample : Tidy ⟨[], 0, MG_IO_SIZE⟩ ∧
    (⟨[], 0, MG_IO_SIZE⟩ : MgIobuf).size ≤ MG_MAX_RECV_SIZE :=
  storage_bounded refused_run

end Runs

section Limit

/-- What is kept behind some frames, and their effects. -/
def playFrames (kept : Bytes) (fs : List WireFrame) : Bytes × List Effect :=
  play keepContent kept (fs.map WireFrame.content)

/-- Each frame fits into the limit together with what is kept of a message before it. -/
def Fits : Bytes → List WireFrame → Prop
  | _, [] => True
  | kept, f :: fs =>
    kept.length + f.bytes.length ≤ MG_MAX_RECV_SIZE ∧ Fits (keepContent kept f.content).1 fs

/-- Where the reading of some frames stands: behind `done`, with `part` of the next one. -/
structure Position (fs done todo : List WireFrame) (part : Bytes) (k : Nat) (tr : List Effect)
    (s : WsInput) : Prop where
  frames : fs = done ++ todo
  unsent : part ++ s.unsent = todo.flatMap WireFrame.bytes
  within : part = [] ∨ ∃ f ∈ todo.head?, part.length < f.bytes.length
  waits : ∀ kept, Receive.frames.Waits ⟨kept, part⟩
  fits : Fits [] done
  io : s.io = ⟨((playFrames [] done).1 ++ part) ++ zeros k,
    ((playFrames [] done).1 ++ part).length, MG_IO_SIZE⟩
  ofs : s.ofs = (playFrames [] done).1.length
  aligned : roundup (((playFrames [] done).1 ++ part).length + k) MG_IO_SIZE =
    ((playFrames [] done).1 ++ part).length + k
  bounded : ((playFrames [] done).1 ++ part).length + k ≤ MG_MAX_RECV_SIZE
  effects : tr = (playFrames [] done).2

/-- A run that still reads, and one that was given up at the limit. -/
def Stage (fs : List WireFrame) (tr : List Effect) (s : WsInput) : Prop :=
  (s.closing = false ∧ ∃ done todo part k, Position fs done todo part k tr s) ∨
    (s.closing = true ∧ ¬ Fits [] fs)

variable {fs gs done todo : List WireFrame} {kept part : Bytes} {k : Nat} {tr : List Effect}
  {s s' : WsInput} {es : List Effect} {a : Poll}

private theorem playFrames_append (kept : Bytes) (fs gs : List WireFrame) :
    playFrames kept (fs ++ gs) = ((playFrames (playFrames kept fs).1 gs).1,
      (playFrames kept fs).2 ++ (playFrames (playFrames kept fs).1 gs).2) := by
  rw [playFrames, List.map_append, Machine.Framing.play_append]
  rfl

private theorem playFrames_cons (kept : Bytes) (f : WireFrame) (fs : List WireFrame) :
    (playFrames kept (f :: fs)).1 = (playFrames (keepContent kept f.content).1 fs).1 := rfl

/-- What a frame adds to the bytes kept is less than the frame. -/
private theorem keepContent_length (kept : Bytes) (f : WireFrame) :
    (keepContent kept f.content).1.length < kept.length + f.bytes.length := by
  have hkeep := keep_length kept f.flags f.data
  have hframe := Websocket.frame_length f.flags f.key f.data
  rw [keepContent, WireFrame.bytes]
  dsimp only [WireFrame.content]
  omega

private theorem fits_append :
    Fits kept (fs ++ gs) ↔ Fits kept fs ∧ Fits (playFrames kept fs).1 gs := by
  induction fs generalizing kept with
  | nil => exact (and_iff_right trivial).symm
  | cons f fs ih =>
    rw [List.cons_append, Fits, Fits, ih, playFrames_cons, and_assoc]

/-- Frames that lie in the buffer together fit. -/
private theorem fits_of_room
    (h : kept.length + (fs.flatMap WireFrame.bytes).length ≤ MG_MAX_RECV_SIZE) :
    Fits kept fs := by
  induction fs generalizing kept with
  | nil => trivial
  | cons f fs ih =>
    have hlt := keepContent_length kept f
    rw [List.flatMap_cons, List.length_append] at h
    exact ⟨by omega, ih (by omega)⟩

private theorem kept_below (h : Fits kept fs) (hkept : kept.length < MG_MAX_RECV_SIZE) :
    (playFrames kept fs).1.length < MG_MAX_RECV_SIZE := by
  induction fs generalizing kept with
  | nil => exact hkept
  | cons f fs ih =>
    have hlt := keepContent_length kept f
    rw [playFrames_cons]
    exact ih h.2 (Nat.lt_of_lt_of_le hlt h.1)

/-- A buffer that is full while the reader waits holds a part of a frame that does not fit. -/
theorem Position.full (h : Position fs done todo part k tr s)
    (full : MG_MAX_RECV_SIZE ≤ ((playFrames [] done).1 ++ part).length) : ¬ Fits [] fs := by
  intro hfits
  rw [h.frames, fits_append] at hfits
  have hbelow := kept_below hfits.1 (by decide : ([] : Bytes).length < MG_MAX_RECV_SIZE)
  rw [List.length_append] at full
  rcases h.within with rfl | ⟨f, hf, hpart⟩
  · rw [List.length_nil] at full
    omega
  · obtain ⟨rest, rfl⟩ := List.head?_eq_some_iff.mp hf
    have := hfits.2.1
    omega

/-- A piece of the stream that is read moves the position forward. -/
theorem Position.feed (h : Position fs done todo part k tr s) {n k' : Nat}
    (aligned : roundup (((playFrames [] done).1 ++ part).length + k') MG_IO_SIZE =
      ((playFrames [] done).1 ++ part).length + k')
    (bounded : ((playFrames [] done).1 ++ part).length + k' ≤ MG_MAX_RECV_SIZE)
    (hn : n ≤ k') (hsome : n ≤ s.unsent.length) :
    ∃ r, mgWsCb ⟨((playFrames [] done).1 ++ part) ++ s.unsent.take n, s.ofs⟩ = r ∧
      ∃ done' todo' part' k'', Position fs done' todo' part' k'' (tr ++ r.2)
        ⟨refill ⟨((playFrames [] done).1 ++ part) ++ s.unsent.take n ++ zeros (k' - n),
          (((playFrames [] done).1 ++ part) ++ s.unsent.take n).length, MG_IO_SIZE⟩ r.1.recv,
          r.1.ofs, false, s.unsent.drop n⟩ := by
  have hread : (part ++ s.unsent.take n) ++ s.unsent.drop n = todo.flatMap WireFrame.bytes := by
    rw [List.append_assoc, List.take_append_drop, h.unsent]
  obtain ⟨now, todo', part', rfl, hnow, hrest, hwaits, hpart⟩ :=
    frames_reads.cut (fun _ _ => trivial) hread
  set kept := (playFrames [] done).1 with hkept
  have hstore : (⟨(kept ++ part) ++ s.unsent.take n, s.ofs⟩ : WsRecv) =
      store ⟨kept, part ++ s.unsent.take n⟩ := by
    rw [store, h.ofs, List.append_assoc]
  have hdrain : Receive.frames.drain ⟨kept, part ++ s.unsent.take n⟩ =
      (⟨(playFrames kept now).1, part'⟩, (playFrames kept now).2) := by
    rw [hnow, frames_reads.drain (fun _ _ => trivial), Reader.drain_waits (hwaits _),
      List.append_nil, play_content]
    rfl
  have hplay : playFrames [] (done ++ now) =
      ((playFrames kept now).1, tr ++ (playFrames kept now).2) := by
    rw [playFrames_append, h.effects]
  have hlen := drained_length ⟨kept, part ++ s.unsent.take n⟩
  rw [hdrain] at hlen
  dsimp only at hlen
  rw [← List.length_append, ← List.length_append, ← List.append_assoc] at hlen
  have htake : (s.unsent.take n).length = n := by
    rw [List.length_take]
    exact Nat.min_eq_left hsome
  obtain ⟨k'', hform, hsum⟩ := refill_form (c := (kept ++ part) ++ s.unsent.take n) (k := k' - n) hlen
  have htotal : ((kept ++ part) ++ s.unsent.take n).length + (k' - n) =
      (kept ++ part).length + k' := by
    rw [List.length_append, htake]
    omega
  rw [htotal] at hsum
  refine ⟨_, rfl, done ++ now, todo', part', k'', ?_⟩
  rw [hstore, mgWsCb_store, hdrain]
  refine ⟨by rw [h.frames, List.append_assoc], hrest, hpart, hwaits, ?_, ?_, ?_, ?_, ?_, ?_⟩
  · refine fits_append.mpr ⟨h.fits, fits_of_room ?_⟩
    have hroom := congrArg List.length hnow
    rw [List.length_append, List.length_append, htake] at hroom
    rw [List.length_append] at bounded
    rw [← hkept]
    omega
  · rw [hplay]
    exact hform
  · rw [hplay]
    rfl
  · rw [hplay, hsum]
    exact aligned
  · rw [hplay, hsum]
    exact bounded
  · rw [hplay]

theorem Stage.poll (h : Stage fs tr s) (mem : memory s a)
    (hstep : Reading.poll s a = some (s', es)) : Stage fs (tr ++ es) s' := by
  rcases h with ⟨hopen, done, todo, part, k, hpos⟩ | ⟨hclosed, -⟩
  · obtain ⟨k', aligned', bounded', ⟨hread, hfull⟩ | ⟨hread, -, -⟩⟩ :=
      readConn_room hpos.aligned hpos.bounded a.mem (s.unsent.take a.n)
    · rw [← hpos.io] at hread
      rw [poll_lost hopen hread] at hstep
      obtain ⟨rfl, -⟩ := Prod.mk.inj (Option.some.inj hstep)
      exact Or.inr ⟨rfl, hpos.full (hfull mem)⟩
    · rw [← hpos.io] at hread
      rw [poll_data hopen hread] at hstep
      obtain ⟨rfl, rfl⟩ := Prod.mk.inj (Option.some.inj hstep)
      have hprefix : (s.unsent.take a.n).take k' <+: s.unsent :=
        (List.take_prefix _ _).trans (List.take_prefix _ _)
      have hdata := List.prefix_iff_eq_take.mp hprefix
      have hle : ((s.unsent.take a.n).take k').length ≤ k' := by
        rw [List.length_take]
        exact Nat.min_le_left _ _
      obtain ⟨r, hr, done', todo', part', k'', hpos'⟩ :=
        hpos.feed aligned' bounded' hle hprefix.length_le
      refine Or.inl ⟨rfl, done', todo', part', k'', ?_⟩
      rw [content_mk]
      rw [← hdata] at hr hpos'
      rw [hr]
      exact hpos'
  · rw [poll_open hstep] at hclosed
    cases hclosed

private theorem run_stage (h : Run (reading (fs.flatMap WireFrame.bytes)) memory tr s) :
    Stage fs tr s := by
  refine h.invariant (Stage fs) ?_ fun tr t a t' es ht hmem hstep => ht.poll hmem hstep
  refine Or.inl ⟨rfl, [], fs, [], 0, ?_⟩
  exact ⟨rfl, rfl, Or.inl rfl, Reader.waits_nil, trivial, rfl, rfl, by decide, by decide, rfl⟩

/-- At the end of the stream all frames have been read. -/
theorem Position.finished (h : Position fs done todo part k tr s) (hend : s.unsent = []) :
    fs = done ∧ part = [] := by
  have hunsent := h.unsent
  rw [hend, List.append_nil] at hunsent
  cases todo with
  | nil => exact ⟨by rw [h.frames, List.append_nil], hunsent⟩
  | cons f todo =>
    have hpos : 0 < f.bytes.length := by
      have := Websocket.frame_length f.flags f.key f.data
      rw [WireFrame.bytes]
      omega
    have hlen := congrArg List.length hunsent
    rw [List.flatMap_cons, List.length_append] at hlen
    rcases h.within with rfl | ⟨g, hg, hpart⟩
    · rw [List.length_nil] at hlen
      omega
    · obtain rfl := Option.some.inj hg
      omega

/-- Where a frame does not fit, a peer that keeps sending has its connection closed. -/
private theorem closes (hfits : ¬ Fits [] fs)
    (hrun : Run (reading (fs.flatMap WireFrame.bytes)) memory tr s)
    (hopen : s.closing = false) :
    ∃ tr s, Run (reading (fs.flatMap WireFrame.bytes)) memory tr s ∧ s.closing = true := by
  induction hlen : s.unsent.length using Nat.strongRecOn generalizing tr s with
  | ind n ih =>
    subst hlen
    have hmem : memory s ⟨true, s.unsent.length⟩ := rfl
    rcases run_stage hrun with ⟨-, done, todo, part, k, hpos⟩ | ⟨hclosed, -⟩
    · obtain ⟨k', -, -, ⟨hread, -⟩ | ⟨hread, hroom, -⟩⟩ :=
        readConn_room hpos.aligned hpos.bounded true (s.unsent.take s.unsent.length)
      · rw [← hpos.io] at hread
        exact ⟨_, _, hrun.snoc hmem (poll_lost hopen hread), rfl⟩
      · rw [← hpos.io] at hread
        have hmore : s.unsent ≠ [] := by
          intro hend
          exact hfits ((hpos.finished hend).1 ▸ hpos.fits)
        refine ih _ ?_ (hrun.snoc hmem (poll_data hopen hread)) rfl rfl
        have hne := List.length_pos_of_ne_nil hmore
        dsimp only
        rw [List.length_drop, List.length_take, List.length_take]
        omega
    · rw [hopen] at hclosed
      cases hclosed

/-- The limit on what a peer may send, exactly: a connection is given up for its size in some run
if and only if some frame, with what is kept of its message before it, is larger than
`MG_MAX_RECV_SIZE`; and a run that reads the whole stream has handed over each message. -/
theorem limit_exact {items : List Item}
    (framed : fs.map WireFrame.content = items.flatMap Item.contents) :
    ((∃ tr s, Run (reading (fs.flatMap WireFrame.bytes)) memory tr s ∧ s.closing = true) ↔
      ¬ Fits [] fs) ∧
    ∀ tr s, Run (reading (fs.flatMap WireFrame.bytes)) memory tr s → s.unsent = [] →
      s.closing = false → tr = items.flatMap Item.effects ∧ s.io.content = [] := by
  refine ⟨⟨?_, fun hfits => closes hfits .refl rfl⟩, ?_⟩
  · rintro ⟨tr, s, hrun, hclosed⟩
    rcases run_stage hrun with ⟨hopen, -⟩ | ⟨-, hfits⟩
    · rw [hopen] at hclosed
      cases hclosed
    · exact hfits
  · intro tr s hrun hend hopen
    rcases run_stage hrun with ⟨-, done, todo, part, k, hpos⟩ | ⟨hclosed, -⟩
    · obtain ⟨rfl, rfl⟩ := hpos.finished hend
      have hplay : playFrames [] fs = ([], items.flatMap Item.effects) := by
        rw [playFrames, framed, play_items]
      rw [hpos.effects, hpos.io, content_mk, hplay]
      exact ⟨rfl, rfl⟩
    · rw [hopen] at hclosed
      cases hclosed

theorem limit_exact_sample :
    ((∃ tr s, Run (reading (sampleFrames.flatMap WireFrame.bytes)) memory tr s ∧ s.closing = true) ↔
      ¬ Fits [] sampleFrames) ∧
    ∀ tr s, Run (reading (sampleFrames.flatMap WireFrame.bytes)) memory tr s → s.unsent = [] →
      s.closing = false → tr = sampleItems.flatMap Item.effects ∧ s.io.content = [] :=
  limit_exact sample_framed

end Limit

end Cyctron.Mongoose.Reading
