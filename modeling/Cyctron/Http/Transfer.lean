/- Cyctron/Http/Transfer
   digest: Chunked requests over several reads: which cuts of the stream http_cb survives. -/

import Cyctron.Http.Lengths

set_option autoImplicit false
set_option relaxedAutoImplicit false

namespace Cyctron.Http.Transfer

open Cyctron.Base.CString Cyctron.Http.Parse Cyctron.Http.Stream
open Cyctron.Http.Chunked
open Cyctron.Machine.Framing (loop)
open Cyctron.Mongoose.Iobuf (deleted deleted_front)

/-- The reads of a connection; one that is being closed is not read from. -/
def readAll (answered : Nat → Bool) : HttpConn → List Bytes → HttpConn × List Effect
  | c, [] => (c, [])
  | c, p :: ps =>
    if c.isClosing then (c, [])
    else
      let r := httpCb answered .read { c with recv := c.recv ++ p }
      let q := readAll answered r.1 ps
      (q.1, r.2 ++ q.2)

/-- A whole request with a chunked body. -/
structure ChunkedRequest where
  front : Bytes
  head : Head
  chunks : List Bytes
  parsed : mgHttpParse front = .ok head
  whole : front.length = head.len
  transfer : (header head "Transfer-Encoding").any (isText "chunked") = true
  keepsAlive : KeepsAlive head
  carried : Carried chunks

def ChunkedRequest.bytes (r : ChunkedRequest) : Bytes := r.front ++ chunked r.chunks

def ChunkedRequest.content (r : ChunkedRequest) : Head × Bytes := (r.head, r.chunks.flatten)

/-- Whether so many bytes of a request end within the first line of a chunk, with at least three bytes
of the line. -/
def ChunkedRequest.cutInLine (r : ChunkedRequest) (n : Nat) : Bool :=
  r.front.length ≤ n && Chunked.cutInLine r.chunks (n - r.front.length)

/-- What `mg_error` is called with when a chunk cannot be read. -/
abbrev refusal : Effect := .error "Invalid chunk"

section Chunks

private theorem chunked_cons_length (b : Bytes) (chunks : List Bytes) :
    (chunked (b :: chunks)).length = (mgHttpWriteChunk b).length + (chunked chunks).length := by
  rw [chunked, List.flatMap_cons, List.append_assoc, List.length_append]
  rfl

private theorem chunks_length_le (chunks : List Bytes) : chunks.length < (chunked chunks).length := by
  induction chunks with
  | nil =>
    have := writeChunk_length []
    have hlen : (chunked []).length = (mgHttpWriteChunk []).length := rfl
    rw [List.length_nil]
    omega
  | cons b chunks ih =>
    have := writeChunk_length b
    have hlen := chunked_cons_length b chunks
    rw [List.length_cons]
    omega

/-- Behind all chunks with data no line is cut. -/
private theorem cutInLine_all (chunks : List Bytes) :
    Chunked.cutInLine chunks (chunked chunks).length = false := by
  induction chunks with
  | nil => rfl
  | cons b chunks ih =>
    rw [Chunked.cutInLine, chunked_cons_length, if_pos (Nat.le_add_right _ _), Nat.add_sub_cancel_left, ih]

end Chunks

section Reads

variable {answered : Nat → Bool} {r : ChunkedRequest} {c : HttpConn} {q rest : Bytes} {ps : List Bytes}
  {ev : Ev}

private theorem serve_chunked (s : Parsing) (ev : Ev) :
    serve answered ev s r.head = chunkedData answered s r.head (s.conn.recv.drop (s.ofs + r.head.len)) := by
  have htransfer := r.transfer
  rw [serve]
  cases hte : header r.head "Transfer-Encoding" with
  | none =>
    rw [hte] at htransfer
    cases htransfer
  | some te =>
    rw [hte, Option.any_some] at htransfer
    dsimp only
    rw [if_pos htransfer]

/-- What the search finds behind the head. -/
private theorem findEnd_body (hq : q <+: chunked r.chunks) :
    findEnd q (q.length + 1) 0 =
      if q.length = (chunked r.chunks).length then .chunk 3 0
      else if Chunked.cutInLine r.chunks q.length then .error else .more := by
  have hle := hq.length_le
  split
  · next hall =>
    obtain rfl := hq.eq_of_length hall
    have hcount := chunks_length_le r.chunks
    obtain ⟨k, hk⟩ : ∃ k, (chunked r.chunks).length + 1 = r.chunks.length + 1 + k :=
      ⟨(chunked r.chunks).length - r.chunks.length, by omega⟩
    rw [hk]
    have hat : (chunked r.chunks).drop 0 = chunked r.chunks ++ [] := (List.append_nil _).symm
    exact findEnd_there r.carried hat k
  · exact findEnd_cut r.carried List.drop_zero hq (by omega) (Nat.lt_succ_self _)

private theorem front_take (hq : q <+: r.bytes) (hhead : r.front.length ≤ q.length) :
    ∃ p, q = r.front ++ p ∧ p <+: chunked r.chunks := by
  obtain ⟨p, rfl⟩ := List.prefix_of_prefix_length_le (List.prefix_append r.front _) hq hhead
  exact ⟨p, rfl, (List.prefix_append_right_inj _).mp hq⟩

/-- A round that leaves the loop at the front of the buffer. -/
private theorem httpCb_leaves {t : HttpConn} {es : List Effect} (hev : ev ≠ .poll)
    (round : httpRound answered ev ⟨c, 0, false, false⟩ = some (⟨t, 0, true, false⟩, es)) :
    httpCb answered ev c = (t, es) := by
  rw [httpCb, if_neg (fun h => hev h.1), loop, round]
  dsimp only
  rw [loop_stops (httpRound_left (Or.inl rfl)), if_pos (Or.inr rfl), List.append_nil]

/-- A request of which a part has been read is waited for, but given up where a line is cut. -/
private theorem httpCb_part (answered : Nat → Bool) (hev : ev ≠ .poll) (free : c.isResp = false)
    (hq : c.recv <+: r.bytes) (short : c.recv.length < r.bytes.length) :
    ∃ es, httpCb answered ev c =
        ({ c with isClosing := c.isClosing || r.cutInLine c.recv.length }, es) ∧ messages es = [] ∧
      (refusal ∈ es ↔ r.cutInLine c.recv.length = true) := by
  have hopen : Parsing.Open ⟨c, 0, false, false⟩ := ⟨rfl, rfl, free⟩
  rcases Nat.lt_or_ge c.recv.length r.front.length with hhead | hhead
  · have hcut : r.cutInLine c.recv.length = false := by
      rw [ChunkedRequest.cutInLine, decide_eq_false (Nat.not_le.mpr hhead), Bool.false_and]
    rw [hcut, Bool.or_false]
    rcases eq_or_ne c.recv [] with hnil | hne
    · exact ⟨[], httpCb_empty hnil, rfl, by simp⟩
    · have hparsed := parse_prefix r.parsed (List.prefix_of_prefix_length_le hq
        (List.prefix_append r.front _) (Nat.le_of_lt hhead))
      rw [if_pos (by rw [← r.whole]; exact hhead)] at hparsed
      exact ⟨[], httpCb_leaves hev (httpRound_waits hopen hne hparsed), rfl, by simp⟩
  · obtain ⟨p, hp, hbody⟩ := front_take hq hhead
    have hlen : c.recv.length = r.front.length + p.length := by rw [hp, List.length_append]
    have hshort : p.length < (chunked r.chunks).length := by
      rw [hlen, ChunkedRequest.bytes, List.length_append] at short
      exact Nat.lt_of_add_lt_add_left short
    have hparsed : mgHttpParse c.recv = .ok r.head := by
      rw [hp]
      exact parse_append r.parsed p
    have hdrop : c.recv.drop (0 + r.head.len) = p := by
      rw [hp, Nat.zero_add, ← r.whole, List.drop_left]
    have hcut : r.cutInLine c.recv.length = Chunked.cutInLine r.chunks p.length := by
      rw [ChunkedRequest.cutInLine, hlen, decide_eq_true (Nat.le_add_right _ _), Bool.true_and,
        Nat.add_sub_cancel_left]
    have hround := httpRound_parsed answered ev hopen hparsed
    rw [serve_chunked, hdrop, chunkedData, findEnd_body hbody, if_neg (Nat.ne_of_lt hshort), ← hcut]
      at hround
    cases hc : r.cutInLine c.recv.length with
    | true =>
      rw [hc, if_pos rfl] at hround
      rw [Bool.or_true]
      exact ⟨_, httpCb_leaves hev hround, rfl, by simp⟩
    | false =>
      rw [hc, if_neg (by decide)] at hround
      rw [Bool.or_false]
      exact ⟨_, httpCb_leaves hev hround, rfl, by simp⟩

/-- The second pass over a whole body. -/
private theorem join_body (r : ChunkedRequest) :
    join ((chunked r.chunks).length + 1) (chunked r.chunks) 0 0 =
      (r.chunks.flatten ++ (chunked r.chunks).drop r.chunks.flatten.length, (chunked r.chunks).length,
        r.chunks.flatten.length) := by
  have hcount := chunks_length_le r.chunks
  obtain ⟨k, hk⟩ : ∃ k, (chunked r.chunks).length + 1 = r.chunks.length + 1 + k :=
    ⟨(chunked r.chunks).length - r.chunks.length, by omega⟩
  have hnone : (chunked r.chunks).take ([] : Bytes).length = [] := rfl
  have hjoin := join_there (o := 0) r.carried hnone (Nat.zero_le 0) (List.append_nil _).symm k
  rw [List.length_nil, List.nil_append, Nat.zero_add, Nat.zero_add] at hjoin
  rw [hk]
  exact hjoin

/-- A request that is there is handed over with its chunks joined. -/
private theorem httpCb_whole (answered : Nat → Bool) (free : c.isResp = false)
    (hrecv : c.recv = r.bytes) :
    messages (httpCb answered .read c).2 = [r.content] ∧ refusal ∉ (httpCb answered .read c).2 ∧
      (httpCb answered .read c).1 = { c.served answered with recv := [] } := by
  have hopen : Parsing.Open ⟨c, 0, false, false⟩ := ⟨rfl, rfl, free⟩
  have hparsed : mgHttpParse c.recv = .ok r.head := by
    rw [hrecv, ChunkedRequest.bytes]
    exact parse_append r.parsed _
  have hdrop : c.recv.drop (0 + r.head.len) = chunked r.chunks := by
    rw [hrecv, ChunkedRequest.bytes, Nat.zero_add, ← r.whole, List.drop_left]
  have htake : c.recv.take (0 + r.head.len) = r.front := by
    rw [hrecv, ChunkedRequest.bytes, Nat.zero_add, ← r.whole, List.take_left]
  have hfind := findEnd_body (List.prefix_refl (chunked r.chunks))
  rw [if_pos rfl] at hfind
  have hround := httpRound_parsed answered .read hopen hparsed
  rw [serve_chunked, hdrop, chunkedData, hfind, join_body, htake] at hround
  dsimp only at hround
  rw [deliver_keepsAlive r.keepsAlive] at hround
  dsimp only at hround
  have hjoined : (r.front ++ (r.chunks.flatten ++
      (chunked r.chunks).drop r.chunks.flatten.length)).length = 0 + r.head.len + (chunked r.chunks).length := by
    have hfits := (Lengths.join_fits ((chunked r.chunks).length + 1) (Nat.zero_le (chunked r.chunks).length)
      (Nat.le_refl 0)).1
    rw [join_body] at hfits
    rw [List.length_append, hfits, r.whole, Nat.zero_add]
  have hofs : 0 + r.head.len + (chunked r.chunks).length ≠ 0 := by
    have := chunks_length_le r.chunks
    omega
  rw [httpCb, if_neg (fun h => Ev.noConfusion h.1), loop, hround]
  dsimp only
  rw [loop_stops (httpRound_left (Or.inr (Or.inr (Or.inr (Nat.le_of_eq hjoined)))))]
  dsimp only
  rw [if_neg (fun h => h.elim (fun h => Bool.noConfusion h) hofs), List.append_nil]
  refine ⟨?_, ?_, ?_⟩
  · change messages (.msg _ :: _) = _
    rw [messages_delivered, Delivered.body, List.take_left]
    rfl
  · split <;> simp
  · dsimp only [HttpConn.served]
    rw [deleted_front _ (Nat.le_of_eq hjoined.symm), List.drop_eq_nil_of_le (Nat.le_of_eq hjoined)]

/-- Where nothing is left to arrive, nothing happens any more. -/
private theorem readAll_idle (hrecv : c.recv = []) (hps : ps.flatten = []) :
    readAll answered c ps = (c, []) := by
  induction ps with
  | nil => rfl
  | cons p ps ih =>
    obtain ⟨rfl, hps⟩ := List.append_eq_nil_iff.mp (List.flatten_cons ▸ hps)
    have hidle : httpCb answered .read { c with recv := c.recv ++ [] } = (c, []) := by
      rw [List.append_nil]
      exact httpCb_empty hrecv
    rw [readAll]
    split
    · rfl
    · rw [hidle]
      dsimp only
      rw [ih hps]
      rfl

/-- A connection that is to be closed is not read. -/
private theorem readAll_closing (h : c.isClosing = true) : readAll answered c ps = (c, []) := by
  cases ps with
  | nil => rfl
  | cons p ps => rw [readAll, if_pos h]

/-- Whether one of the reads ends where a line is cut. -/
def ChunkedRequest.refuses (r : ChunkedRequest) (n : Nat) (ps : List Bytes) : Bool :=
  ps.inits.any fun ps => r.cutInLine (n + ps.flatten.length)

private theorem refuses_cons (n : Nat) (p : Bytes) (ps : List Bytes) :
    r.refuses n (p :: ps) = (r.cutInLine n || r.refuses (n + p.length) ps) := by
  rw [ChunkedRequest.refuses, List.inits_cons, List.any_cons, List.any_map]
  congr 1
  rw [ChunkedRequest.refuses]
  congr 1
  funext qs
  rw [Function.comp_apply, List.flatten_cons, List.length_append, Nat.add_assoc]

private theorem refuses_now {n : Nat} (h : r.cutInLine n = true) : r.refuses n ps = true := by
  cases ps with
  | nil => simpa [ChunkedRequest.refuses] using h
  | cons p ps => rw [refuses_cons, h, Bool.true_or]

private theorem refuses_end (hps : ps.flatten = []) : r.refuses r.bytes.length ps = false := by
  have hlast : r.cutInLine r.bytes.length = false := by
    rw [ChunkedRequest.cutInLine, ChunkedRequest.bytes, List.length_append, Nat.add_sub_cancel_left,
      cutInLine_all, Bool.and_false]
  induction ps with
  | nil => simpa [ChunkedRequest.refuses] using hlast
  | cons p ps ih =>
    obtain ⟨rfl, hps⟩ := List.append_eq_nil_iff.mp (List.flatten_cons ▸ hps)
    rw [refuses_cons, hlast, Bool.false_or]
    exact ih hps

/-- From a connection that waits within a request. -/
private theorem readAll_from (answered : Nat → Bool) (free : c.isResp = false)
    (kept : c.isClosing = false)
    (same : c.recv ++ ps.flatten = r.bytes) (short : c.recv.length < r.bytes.length)
    (fine : r.cutInLine c.recv.length = false) :
    messages (readAll answered c ps).2 = (if r.refuses c.recv.length ps then [] else [r.content]) ∧
      (readAll answered c ps).1.isClosing = r.refuses c.recv.length ps ∧
      (refusal ∈ (readAll answered c ps).2 ↔ r.refuses c.recv.length ps = true) ∧
      messages (httpCb answered .close (readAll answered c ps).1).2 = [] := by
  induction ps generalizing c with
  | nil =>
    rw [List.flatten_nil, List.append_nil] at same
    rw [same] at short
    exact absurd short (Nat.lt_irrefl _)
  | cons p ps ih =>
    rw [List.flatten_cons, ← List.append_assoc] at same
    have hlen : (c.recv ++ p).length = c.recv.length + p.length := List.length_append
    have hle := congrArg List.length same
    rw [List.length_append] at hle
    rw [refuses_cons, fine, Bool.false_or, ← hlen, readAll, if_neg (by rw [kept]; decide)]
    dsimp only
    rcases Nat.lt_or_ge (c.recv ++ p).length r.bytes.length with hpart | hwhole
    · have hprefix : c.recv ++ p <+: r.bytes := same ▸ List.prefix_append _ _
      obtain ⟨es, hcb, hes, hrefusal⟩ :=
        httpCb_part (c := { c with recv := c.recv ++ p }) answered
          (Ev.noConfusion : Ev.read ≠ .poll) free hprefix hpart
      dsimp only at hcb hrefusal
      rw [hcb, kept, Bool.false_or]
      dsimp only
      rw [messages_append, hes, List.nil_append, List.mem_append, hrefusal]
      cases hcut : r.cutInLine (c.recv ++ p).length with
      | false =>
        rw [or_iff_right Bool.false_ne_true]
        exact ih (c := { c with recv := c.recv ++ p, isClosing := false }) free rfl same hpart hcut
      | true =>
        obtain ⟨es', hclose, hes', -⟩ :=
          httpCb_part (c := { c with recv := c.recv ++ p, isClosing := true }) answered
            (Ev.noConfusion : Ev.close ≠ .poll) free hprefix hpart
        rw [readAll_closing rfl, refuses_now hcut, hclose]
        exact ⟨rfl, rfl, iff_of_true (Or.inl rfl) rfl, hes'⟩
    · have hall : c.recv ++ p = r.bytes ∧ ps.flatten = [] := by
        have hnil : ps.flatten = [] := List.eq_nil_of_length_eq_zero (by omega)
        rw [hnil, List.append_nil] at same
        exact ⟨same, hnil⟩
      obtain ⟨hmessages, hnone, hconn⟩ :=
        httpCb_whole (c := { c with recv := c.recv ++ p }) answered free hall.1
      have hidle : readAll answered (httpCb answered .read { c with recv := c.recv ++ p }).1 ps =
          ((httpCb answered .read { c with recv := c.recv ++ p }).1, []) :=
        readAll_idle (by rw [hconn]) hall.2
      rw [hidle, hall.1, refuses_end hall.2, ← hall.1, List.append_nil, hmessages, hconn]
      refine ⟨rfl, kept, iff_of_false hnone Bool.false_ne_true, ?_⟩
      rw [httpCb_empty rfl]
      rfl

theorem sixteen_carried : Carried [List.replicate 16 120] := by
  intro b hb
  rw [List.mem_singleton.mp hb]
  decide

/-- `POST /` with one chunk of sixteen bytes. -/
def postChunk : ChunkedRequest where
  front := ascii "POST / HTTP/1.1\r\nTransfer-Encoding: chunked\r\n\r\n"
  head := ⟨47, ascii "POST", ascii "/", [], ascii "HTTP/1.1",
    [(ascii "Transfer-Encoding", ascii "chunked")], SIZE_MAX⟩
  chunks := [List.replicate 16 120]
  parsed := by decide +kernel
  whole := by decide +kernel
  transfer := by decide +kernel
  keepsAlive := by decide +kernel
  carried := sixteen_carried

end Reads

end Cyctron.Http.Transfer
