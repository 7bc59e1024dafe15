/- Cyctron/Http/Lengths
   digest: Heads without a usable length: bodies that leave the buffer, answers repeated, requests repeated. -/

import Cyctron.Http.Conversation

set_option autoImplicit false
set_option relaxedAutoImplicit false

namespace Cyctron.Http.Lengths

open Cyctron.Base.CString Cyctron.Base.Number Cyctron.Http.Parse Cyctron.Http.Stream
open Cyctron.Http.Chunked (Chunk skipChunk findEnd join)
open Cyctron.Http.Conversation (Action Talk talk talkStep talkStep_cases)
open Cyctron.Machine.Framing (loop)
open Cyctron.Mongoose.Iobuf (deleted)
open Cyctron.Mongoose.Query

/-- A request that should have a length and has none. -/
structure Lengthless (h : Head) : Prop where
  transfer : header h "Transfer-Encoding" = none
  length : header h "Content-length" = none
  counted : (lengthMissing h).2 = true

instance (h : Head) : Decidable (Lengthless h) :=
  decidable_of_iff (header h "Transfer-Encoding" = none ∧ header h "Content-length" = none ∧
    (lengthMissing h).2 = true)
    ⟨fun h => ⟨h.1, h.2.1, h.2.2⟩, fun h => ⟨h.transfer, h.length, h.counted⟩⟩

section Joining

variable {s : Bytes} {o pl dl : Nat}

/-- A chunk lies in the buffer with its last line. -/
private theorem skipChunk_fits (h : skipChunk s = .chunk pl dl) : pl + dl + 2 ≤ s.length := by
  rw [skipChunk] at h
  split at h
  · cases h
  split at h
  · cases h
  split at h
  · cases h
  split at h
  · cases h
  split at h
  · cases h
  split at h
  · cases h
  split at h
  · cases h
  next hmore =>
  split at h
  · cases h
  · obtain ⟨rfl, rfl⟩ := Chunk.chunk.inj h
    omega

/-- The joined data lies in the buffer, which keeps its length. -/
theorem join_fits (fuel : Nat) {s : Bytes} {o n : Nat} (ho : o ≤ s.length) (hb : n ≤ o) :
    (join fuel s o n).1.length = s.length ∧ (join fuel s o n).2.2 ≤ s.length := by
  induction fuel generalizing s o n with
  | zero => exact ⟨rfl, Nat.le_trans hb ho⟩
  | succ fuel ih =>
    rw [join]
    cases hc : skipChunk (s.drop o) with
    | error => exact ⟨rfl, Nat.le_trans hb ho⟩
    | more => exact ⟨rfl, Nat.le_trans hb ho⟩
    | chunk pl dl =>
      have hfits := skipChunk_fits hc
      rw [List.length_drop] at hfits
      have hlen : (s.take n ++ (s.drop (o + pl)).take dl ++ s.drop (n + dl)).length =
          s.length := by
        simp only [List.length_append, List.length_take, List.length_drop]
        omega
      dsimp only
      split
      · exact ⟨hlen, by dsimp only; omega⟩
      · obtain ⟨h1, h2⟩ := ih (s := s.take n ++ (s.drop (o + pl)).take dl ++ s.drop (n + dl))
          (o := o + (pl + dl + 2)) (n := n + dl) (by omega) (by omega)
        exact ⟨h1.trans hlen, by omega⟩

end Joining

section Endless

variable {s : Bytes} {h : Head}

private theorem sameName_length {a b : Bytes} (h : sameName a b = true) : a.length = b.length := by
  have := congrArg List.length (of_decide_eq_true h)
  rwa [List.length_map, List.length_map] at this

private theorem parse_bodyLen (parsed : mgHttpParse s = .ok h) :
    ∃ cl : Option Nat, bodyLength h.len (httpPrefix h.method) h.method h.uri cl = some h.bodyLen ∧
      (mgHttpGetHeaderIn h.headers "Content-Length" = none → cl = none) := by
  rw [mgHttpParse] at parsed
  dsimp only at parsed
  split at parsed
  · cases parsed
  split at parsed
  · cases parsed
  split at parsed
  · cases parsed
  split at parsed
  · cases parsed
  split at parsed
  · cases parsed
  split at parsed
  · cases parsed
  split at parsed
  · cases parsed
  next len hlen =>
  obtain rfl := Except.ok.inj parsed
  exact ⟨_, hlen, fun hnone => by dsimp only at hnone; rw [hnone]; rfl⟩

private theorem contentLength_name (h : Head) :
    header h "Content-length" = mgHttpGetHeaderIn h.headers "Content-Length" := by
  have hname : (ascii "Content-length").map mgTolc = (ascii "Content-Length").map mgTolc := by
    decide +kernel
  simp only [header, mgHttpGetHeaderIn, sameName, hname]

/-- A request without a length has a body without end. -/
theorem Lengthless.bodyLen (hl : Lengthless h) (parsed : mgHttpParse s = .ok h) :
    h.bodyLen = SIZE_MAX := by
  obtain ⟨cl, hcl, hnone⟩ := parse_bodyLen parsed
  rw [← contentLength_name] at hnone
  obtain rfl := hnone hl.length
  have hcounted := hl.counted
  rw [lengthMissing] at hcounted
  dsimp only at hcounted
  split at hcounted
  · next hpost =>
    have hshort : h.method.length ≤ 5 := by
      rcases hpost.2 with hp | hp
      · exact Nat.le_trans (Nat.le_of_eq (sameName_length hp)) (by decide +kernel)
      · exact Nat.le_trans (Nat.le_of_eq (sameName_length hp)) (by decide +kernel)
    have hprefix : httpPrefix h.method = false := by
      rw [httpPrefix, decide_eq_false (Nat.not_lt.mpr hshort), Bool.false_and]
    rw [bodyLength, hprefix, if_neg, if_neg (fun h => Bool.noConfusion h.2.1)] at hcl
    · split at hcl
      · cases hcl
      · exact (Option.some.inj hcl).symm
    · rintro ⟨-, -, hput, hpost'⟩
      rcases hpost.2 with hp | hp
      · exact absurd (hp.symm.trans hpost') (by decide)
      · exact absurd (hp.symm.trans hput) (by decide)
  · split at hcounted
    · cases hcounted
    · cases hcounted

end Endless

section Overruns

variable {answered : Nat → Bool} {ev : Ev} {s t : Parsing} {c : HttpConn} {h : Head} {m : Delivered}
  {es : List Effect}

/-- The body leaves the buffer just when a request without a length is handed over before the end of
the connection; it then has the greatest size, and one byte less than the head stands behind it. -/
structure Judged (ev : Ev) (m : Delivered) : Prop where
  when : m.buffered.length < m.bodyLen ↔ ev ≠ .close ∧ Lengthless m.head
  how : m.buffered.length < m.bodyLen → m.bodyLen = SIZE_MAX ∧ m.buffered.length + 1 = m.head.len

private theorem judged_within (hle : m.bodyLen ≤ m.buffered.length)
    (hl : ev ≠ .close → ¬ Lengthless m.head) :
    Judged ev m :=
  ⟨⟨fun h => absurd h (Nat.not_lt.mpr hle), fun h => absurd h.2 (hl h.1)⟩,
    fun h => absurd h (Nat.not_lt.mpr hle)⟩

private theorem not_error {text : String} (m : Delivered) : Effect.msg m ∉ [Effect.error text] := by
  intro h
  cases List.mem_singleton.mp h

/-- What a round may do to the length of the buffer and hand over. -/
structure Rounded (ev : Ev) (s t : Parsing) (es : List Effect) : Prop where
  shorter : t.conn.recv.length ≤ s.conn.recv.length
  judged : ∀ m, Effect.msg m ∈ es → Judged ev m

private theorem rounded_quiet (hlen : t.conn.recv.length ≤ s.conn.recv.length)
    (hes : ∀ m, Effect.msg m ∉ es) : Rounded ev s t es :=
  ⟨hlen, fun m hm => absurd hm (hes m)⟩

variable (answered s) in
private theorem deliver_rounded (hm : Judged ev m) (ofs : Nat) :
    Rounded ev s (deliver answered s m ofs).1 (deliver answered s m ofs).2 := by
  refine ⟨Nat.le_refl _, fun m' hm' => ?_⟩
  rw [deliver] at hm'
  dsimp only at hm'
  rcases List.mem_cons.mp hm' with heq | hmem
  · rwa [Effect.msg.inj heq]
  · split at hmem
    · cases List.mem_singleton.mp hmem
    · cases hmem

private theorem chunkedData_rounded (inside : s.ofs + h.len ≤ s.conn.recv.length)
    (transfer : header h "Transfer-Encoding" ≠ none) :
    Rounded ev s (chunkedData answered s h (s.conn.recv.drop (s.ofs + h.len))).1
      (chunkedData answered s h (s.conn.recv.drop (s.ofs + h.len))).2 := by
  rw [chunkedData]
  split
  · exact rounded_quiet (Nat.le_refl _) fun m => List.not_mem_nil
  · exact rounded_quiet (Nat.le_refl _) fun m => not_error m
  · obtain ⟨hlen, hbody⟩ := join_fits ((s.conn.recv.drop (s.ofs + h.len)).length + 1)
      (Nat.zero_le (s.conn.recv.drop (s.ofs + h.len)).length) (Nat.le_refl 0)
    have hj : Judged ev ⟨h, (join ((s.conn.recv.drop (s.ofs + h.len)).length + 1)
        (s.conn.recv.drop (s.ofs + h.len)) 0 0).2.2, (join ((s.conn.recv.drop (s.ofs + h.len)).length + 1)
        (s.conn.recv.drop (s.ofs + h.len)) 0 0).1⟩ :=
      judged_within (by dsimp only; omega) fun _ hl => transfer hl.transfer
    have hr := deliver_rounded answered
      { s with conn := { s.conn with recv := s.conn.recv.take (s.ofs + h.len) ++
        (join ((s.conn.recv.drop (s.ofs + h.len)).length + 1)
          (s.conn.recv.drop (s.ofs + h.len)) 0 0).1 } } hj
      (s.ofs + h.len + (join ((s.conn.recv.drop (s.ofs + h.len)).length + 1)
        (s.conn.recv.drop (s.ofs + h.len)) 0 0).2.1)
    refine ⟨Nat.le_trans hr.shorter ?_, hr.judged⟩
    dsimp only
    rw [List.length_append, hlen, List.length_take, List.length_drop]
    omega

variable (answered s h) in
private theorem plainData_cases (bodyLen : Nat) (rest : Bytes) :
    plainData answered s h bodyLen rest = ({ s with left := true }, []) ∨
      (bodyLen ≤ (2 ^ 64 + s.conn.recv.length - s.ofs - h.len) % 2 ^ 64 ∧
        plainData answered s h bodyLen rest =
          deliver answered s ⟨h, bodyLen, rest⟩ ((s.ofs + h.len + bodyLen) % 2 ^ 64)) := by
  rw [plainData]
  split
  · exact Or.inl rfl
  · next hlong => exact Or.inr ⟨Nat.not_lt.mp hlong, rfl⟩

private theorem plainData_rounded {bodyLen : Nat} {rest : Bytes}
    (hj : bodyLen ≤ (2 ^ 64 + s.conn.recv.length - s.ofs - h.len) % 2 ^ 64 →
      Judged ev ⟨h, bodyLen, rest⟩) :
    Rounded ev s (plainData answered s h bodyLen rest).1 (plainData answered s h bodyLen rest).2 := by
  obtain heq | ⟨hlong, heq⟩ := plainData_cases answered s h bodyLen rest
  · rw [heq]
    exact rounded_quiet (Nat.le_refl _) fun m => List.not_mem_nil
  · rw [heq]
    exact deliver_rounded answered s (hj hlong) _

/-- Behind a head that has a length, or needs none, the difference of the lengths is what is there. -/
private theorem judged_sized {bodyLen : Nat} (inside : s.ofs + h.len ≤ s.conn.recv.length)
    (small : s.conn.recv.length < 2 ^ 63) (hl : ev ≠ .close → ¬ Lengthless h)
    (hlong : bodyLen ≤ (2 ^ 64 + s.conn.recv.length - s.ofs - h.len) % 2 ^ 64) :
    Judged ev ⟨h, bodyLen, s.conn.recv.drop (s.ofs + h.len)⟩ := by
  refine judged_within ?_ hl
  dsimp only
  rw [List.length_drop]
  omega

/-- A head that has been counted already is subtracted twice: the difference may wrap around to the
greatest size. -/
private theorem judged_counted (inside : s.ofs + h.len ≤ s.conn.recv.length)
    (small : s.conn.recv.length < 2 ^ 63) (hl : Lengthless h) (hpos : 0 < h.len) (hev : ev ≠ .close)
    (hlong : SIZE_MAX ≤ (2 ^ 64 + s.conn.recv.length - (s.ofs + h.len) - h.len) % 2 ^ 64) :
    Judged ev ⟨h, SIZE_MAX, s.conn.recv.drop (s.ofs + h.len)⟩ := by
  have hmax : SIZE_MAX = 2 ^ 64 - 1 := rfl
  have hbehind : (s.conn.recv.drop (s.ofs + h.len)).length + 1 = h.len := by
    rw [List.length_drop]
    omega
  refine ⟨⟨fun _ => ⟨hev, hl⟩, fun _ => ?_⟩, fun _ => ⟨rfl, hbehind⟩⟩
  dsimp only
  omega

variable (answered ev) in
private theorem serve_rounded (parsed : mgHttpParse (s.conn.recv.drop s.ofs) = .ok h)
    (small : s.conn.recv.length < 2 ^ 63) :
    Rounded ev s (serve answered ev s h).1 (serve answered ev s h).2 := by
  obtain ⟨hpos, hle⟩ := parse_len parsed
  rw [List.length_drop] at hle
  have inside : s.ofs + h.len ≤ s.conn.recv.length := by omega
  rw [serve]
  dsimp only
  split
  · next te hte =>
    split
    · exact chunkedData_rounded inside (by rw [hte]; exact Option.some_ne_none te)
    · exact rounded_quiet (Nat.le_refl _) fun m => not_error m
  · next hte =>
    split
    · next hcl =>
      exact plainData_rounded (judged_sized inside small fun _ hl => by rw [hl.length] at hcl; cases hcl)
    · next hcl =>
      have hquiet : ∀ m, Effect.msg m ∉ (if (lengthMissing h).1 then [Effect.lengthRequired] else []) := by
        intro m hm
        split at hm
        · cases List.mem_singleton.mp hm
        · cases hm
      suffices hr : Rounded ev s
          (plainData answered (if (lengthMissing h).2 then { s with ofs := s.ofs + h.len } else s) h
            (if ev = .close then (s.conn.recv.drop (s.ofs + h.len)).length else h.bodyLen)
            (s.conn.recv.drop (s.ofs + h.len))).1
          (plainData answered (if (lengthMissing h).2 then { s with ofs := s.ofs + h.len } else s) h
            (if ev = .close then (s.conn.recv.drop (s.ofs + h.len)).length else h.bodyLen)
            (s.conn.recv.drop (s.ofs + h.len))).2 from
        ⟨hr.shorter, fun m hm =>
          (List.mem_append.mp hm).elim (fun h => absurd h (hquiet m)) (hr.judged m)⟩
      cases hcounted : (lengthMissing h).2 with
      | false =>
        rw [if_neg (by decide)]
        exact plainData_rounded (judged_sized inside small fun _ hl => by
          rw [hl.counted] at hcounted
          cases hcounted)
      | true =>
        have hnone : header h "Content-length" = none := by
          cases hh : header h "Content-length" with
          | none => rfl
          | some v => exact absurd (by rw [hh]; rfl) hcl
        have hl : Lengthless h := ⟨hte, hnone, hcounted⟩
        have hr : Rounded ev { s with ofs := s.ofs + h.len }
            (plainData answered { s with ofs := s.ofs + h.len } h
              (if ev = .close then (s.conn.recv.drop (s.ofs + h.len)).length else h.bodyLen)
              (s.conn.recv.drop (s.ofs + h.len))).1
            (plainData answered { s with ofs := s.ofs + h.len } h
              (if ev = .close then (s.conn.recv.drop (s.ofs + h.len)).length else h.bodyLen)
              (s.conn.recv.drop (s.ofs + h.len))).2 := by
          refine plainData_rounded fun hlong => ?_
          by_cases hev : ev = .close
          · rw [if_pos hev]
            exact judged_within (Nat.le_refl _) fun h => absurd hev h
          · rw [if_neg hev, hl.bodyLen parsed] at hlong ⊢
            exact judged_counted inside small hl hpos hev hlong
        exact ⟨hr.shorter, hr.judged⟩

private theorem httpRound_rounded (step : httpRound answered ev s = some (t, es))
    (small : s.conn.recv.length < 2 ^ 63) : Rounded ev s t es := by
  rw [httpRound] at step
  split at step
  · cases step
  split at step
  · split at step
    · obtain ⟨rfl, rfl⟩ := Prod.mk.inj (Option.some.inj step)
      exact rounded_quiet (Nat.zero_le _) fun m => List.not_mem_nil
    · obtain ⟨rfl, rfl⟩ := Prod.mk.inj (Option.some.inj step)
      exact rounded_quiet (Nat.le_refl _) fun m => List.not_mem_nil
  · next hparsed =>
    obtain ⟨rfl, rfl⟩ := Prod.mk.inj (Option.some.inj step)
    have hr := serve_rounded answered ev hparsed small
    refine ⟨hr.shorter, fun m hm => ?_⟩
    rcases List.mem_cons.mp hm with heq | hmem
    · cases heq
    · exact hr.judged m hmem

variable (answered ev) in
private theorem loop_rounded (n : Nat) (s : Parsing) (small : s.conn.recv.length < 2 ^ 63) :
    Rounded ev s (loop (httpRound answered ev) n s).1 (loop (httpRound answered ev) n s).2 := by
  induction n generalizing s with
  | zero => exact rounded_quiet (Nat.le_refl _) fun m => List.not_mem_nil
  | succ n ih =>
    rw [loop]
    cases hstep : httpRound answered ev s with
    | none => exact rounded_quiet (Nat.le_refl _) fun m => List.not_mem_nil
    | some r =>
      have hround := httpRound_rounded hstep small
      have hrest := ih r.1 (Nat.lt_of_le_of_lt hround.shorter small)
      refine ⟨Nat.le_trans hrest.shorter hround.shorter, fun m hm => ?_⟩
      exact (List.mem_append.mp hm).elim (hround.judged m) (hrest.judged m)

/-- Whatever the buffer holds, the body that the handler gets leaves the buffer in one case only: the
head is that of a POST or a PUT without a length, and the connection is not being closed. The body then
has `SIZE_MAX` bytes, and the number of bytes behind the head has been one less than those of the head. -/
theorem overrun_iff (small : c.recv.length < 2 ^ 63) (got : Effect.msg m ∈ (httpCb answered ev c).2) :
    (m.buffered.length < m.bodyLen ↔ ev ≠ .close ∧ Lengthless m.head) ∧
      (m.buffered.length < m.bodyLen →
        m.bodyLen = SIZE_MAX ∧ m.buffered.length + 1 = m.head.len) := by
  have hloop := loop_rounded answered ev (c.recv.length + 2) ⟨c, 0, false, false⟩
    small
  have hj : Judged ev m := by
    refine hloop.judged m ?_
    rw [httpCb] at got
    split at got
    · cases got
    · dsimp only at got
      split at got
      · exact got
      · exact got
  exact ⟨hj.when, hj.how⟩

/-- A head of 19 bytes with 18 bytes behind it. -/
def shortPost : HttpConn :=
  ⟨ascii "POST / HTTP/1.1\r\n\r\n" ++ List.replicate 18 120, false, false, false, 0⟩

theorem overrun_iff_sample : ∃ m, Effect.msg m ∈ (httpCb (fun _ => true) .read shortPost).2 ∧
    m.buffered.length = 18 ∧ m.bodyLen = SIZE_MAX ∧ Lengthless m.head := by
  have got : Effect.msg ⟨⟨19, ascii "POST", ascii "/", [], ascii "HTTP/1.1", [], SIZE_MAX⟩, SIZE_MAX,
      List.replicate 18 120⟩ ∈ (httpCb (fun _ => true) .read shortPost).2 := by decide +kernel
  have h := overrun_iff (by decide +kernel) got
  have hover := h.1.mpr ⟨by decide, by decide +kernel⟩
  exact ⟨_, got, Nat.succ.inj (h.2 hover).2, (h.2 hover).1, (h.1.mp hover).2⟩

end Overruns

section Repeats

variable {answered : Nat → Bool} {ev : Ev} {s t : Talk} {h : Head} {tr : List Effect} {as : List Action}

/-- A response with a status that needs a length, and without a length. -/
structure Endless (h : Head) : Prop where
  transfer : header h "Transfer-Encoding" = none
  length : header h "Content-length" = none
  missing : lengthMissing h = (true, false)
  bodyLen : h.bodyLen = SIZE_MAX

/-- The input of the connection begins with such a response. -/
structure Stuck (h : Head) (c : HttpConn) : Prop where
  parsed : mgHttpParse c.recv = .ok h
  free : c.isResp = false
  steady : c.isDraining = false
  small : c.recv.length < 2 ^ 64

private theorem httpCb_endless {c : HttpConn} (he : Endless h) (hs : Stuck h c) (hev : ev ≠ .close) :
    httpCb answered ev c = (c, [.hdrs h, .lengthRequired]) := by
  obtain ⟨hpos, hle⟩ := parse_len hs.parsed
  have hne : c.recv ≠ [] := List.ne_nil_of_length_pos (by omega)
  have hmax : SIZE_MAX = 2 ^ 64 - 1 := rfl
  have hsmall := hs.small
  have hopen : Parsing.Open ⟨c, 0, false, false⟩ := ⟨rfl, rfl, hs.free⟩
  have hserve : serve answered ev ⟨c, 0, false, false⟩ h =
      (⟨c, 0, true, false⟩, [.lengthRequired]) := by
    rw [serve, he.transfer, he.length, he.missing, he.bodyLen]
    dsimp only
    rw [if_neg (by decide), if_neg hev, if_neg (by decide), if_pos rfl, plainData, if_pos]
    · rfl
    · dsimp only
      omega
  rw [httpCb, if_neg]
  · rw [loop, httpRound_parsed answered ev hopen hs.parsed, hserve]
    dsimp only
    rw [loop_stops (httpRound_left (Or.inl rfl)), if_pos (Or.inr rfl)]
    rfl
  · rintro ⟨-, hdrain | hnil⟩
    · rw [hs.steady] at hdrain
      cases hdrain
    · exact hne hnil

/-- One event: the head stays where it is. -/
private theorem event_endless (he : Endless h) (hs : Stuck h s.conn) (hev : ev ≠ .close) :
    s.event answered ev = (⟨s.conn, s.unsent, ev = .close⟩, [.hdrs h, .lengthRequired]) := by
  rw [Talk.event, httpCb_endless he hs hev]

/-- A response without a length that stands at the front is answered with 411 at every event, however
many there are, and stays at the front; nothing behind it is ever handed over. -/
theorem endless_repeats (stream : Bytes) (he : Endless h) (hs : Stuck h s.conn)
    (events : ∀ a ∈ as, a ≠ .close ∧ a ≠ .finish)
    (exec : (talk answered stream).exec s as = some (t, tr)) :
    tr = as.flatMap (fun _ => [.hdrs h, .lengthRequired]) ∧ Stuck h t.conn := by
  induction as generalizing s tr with
  | nil =>
    obtain ⟨rfl, rfl⟩ := Prod.mk.inj (Option.some.inj exec)
    exact ⟨rfl, hs⟩
  | cons a as ih =>
    obtain ⟨u, es, tr', step, exec', rfl⟩ := Machine.Labelled.System.exec_cons_some exec
    obtain ⟨hclose, hfinish⟩ := events a List.mem_cons_self
    have hmore := fun hu : Stuck h u.conn =>
      ih hu (fun b hb => events b (List.mem_cons_of_mem a hb)) exec'
    obtain ⟨n, -, hsmall, heq⟩ | ⟨-, heq⟩ | ⟨rfl, -⟩ | ⟨rfl, -⟩ := talkStep_cases step
    · have hs' : Stuck h (s.arrived n).conn := by
        refine ⟨parse_append hs.parsed _, hs.free, hs.steady, ?_⟩
        change (s.conn.recv ++ s.unsent.take n).length < _
        rw [List.length_append, List.length_take]
        omega
      rw [event_endless he hs' (by decide)] at heq
      obtain ⟨rfl, rfl⟩ := Prod.mk.inj heq
      obtain ⟨htr, ht⟩ := hmore hs'
      exact ⟨by rw [htr, List.flatMap_cons], ht⟩
    · rw [event_endless he hs (by decide)] at heq
      obtain ⟨rfl, rfl⟩ := Prod.mk.inj heq
      obtain ⟨htr, ht⟩ := hmore hs
      exact ⟨by rw [htr, List.flatMap_cons], ht⟩
    · exact absurd rfl hclose
    · exact absurd rfl hfinish

/-- `HTTP/1.1 200 OK` without headers. -/
def bareHead : Head := ⟨19, ascii "HTTP/1.1", ascii "200", [], ascii "OK", [], SIZE_MAX⟩

def bareTalk : Talk := ⟨⟨ascii "HTTP/1.1 200 OK\r\n\r\n", false, false, false, 0⟩, [120, 121], false⟩

theorem endless_repeats_sample : ∃ (t : Talk) (tr : List Effect),
    (talk (fun _ => true) []).exec bareTalk [.poll, .read 2, .poll] = some (t, tr) ∧
      tr.count .lengthRequired = 3 := by
  have he : Endless bareHead := ⟨by decide +kernel, by decide +kernel, by decide +kernel, rfl⟩
  have hs : Stuck bareHead bareTalk.conn := ⟨by decide +kernel, rfl, rfl, by decide +kernel⟩
  obtain ⟨⟨t, tr⟩, exec⟩ : ∃ r, (talk (fun _ => true) []).exec bareTalk [.poll, .read 2, .poll] =
      some r := Option.isSome_iff_exists.mp (by decide +kernel)
  refine ⟨t, tr, exec, ?_⟩
  rw [(endless_repeats [] he hs (by decide) exec).1]
  decide +kernel

end Repeats

section Again

variable {answered : Nat → Bool} {ev : Ev} {s : Parsing} {c : HttpConn} {h : Head} {rs : List Request}
  {r : Request} {later : List Request} {q x : Bytes} {te : Bytes}

/-- So many more messages. -/
def after (c : HttpConn) (n : Nat) : HttpConn := { c with messages := c.messages + n }

private theorem after_after (c : HttpConn) (m n : Nat) : after (after c m) n = after c (m + n) := by
  rw [after, after, after, Nat.add_assoc]

variable (answered) in
/-- After requests that are all answered at once the loop stands behind them. -/
private theorem loop_answered (fuel : Nat) (ho : s.Open) (hev : ev ≠ .close)
    (small : s.conn.recv.length < 2 ^ 64)
    (at_ : s.conn.recv.drop s.ofs = rs.flatMap Request.bytes ++ q)
    (ready : ∀ k < rs.length, answered (s.conn.messages + k) = true) :
    ∃ es, messages es = rs.map Request.content ∧
      loop (httpRound answered ev) (fuel + rs.length) s =
        ((loop (httpRound answered ev) fuel ⟨after s.conn rs.length,
          s.ofs + (rs.flatMap Request.bytes).length, false, false⟩).1,
        es ++ (loop (httpRound answered ev) fuel ⟨after s.conn rs.length,
          s.ofs + (rs.flatMap Request.bytes).length, false, false⟩).2) := by
  induction rs generalizing s with
  | nil =>
    obtain ⟨c, ofs, left, gone⟩ := s
    obtain ⟨hleft, hgone, hresp⟩ := ho
    dsimp only at hleft hgone
    subst hleft hgone
    exact ⟨[], rfl, rfl⟩
  | cons r rs ih =>
    rw [List.flatMap_cons, List.append_assoc] at at_
    obtain ⟨es, hround, hes⟩ := httpRound_request answered ho hev small at_
    have hfirst : answered s.conn.messages = true := ready 0 (Nat.succ_pos _)
    have hserved : s.conn.served answered = after s.conn 1 := by
      rw [HttpConn.served, hfirst, Bool.not_true, ← ho.ready]
      rfl
    have hbehind : s.conn.recv.drop (s.ofs + r.bytes.length) = rs.flatMap Request.bytes ++ q := by
      rw [← List.drop_drop, at_, List.drop_left]
    obtain ⟨fs, hfs, hloop⟩ := ih
      (s := ⟨after s.conn 1, s.ofs + r.bytes.length, false, false⟩)
      ⟨rfl, rfl, ho.ready⟩ small hbehind (fun k hk => by
        have := ready (k + 1) (Nat.succ_lt_succ hk)
        rwa [Nat.add_comm k 1, ← Nat.add_assoc] at this)
    refine ⟨es ++ fs, ?_, ?_⟩
    · rw [messages_append, hes, hfs]
      rfl
    · rw [after_after, Nat.add_comm 1, Nat.add_assoc] at hloop
      rw [List.length_cons, List.flatMap_cons, List.length_append, ← Nat.add_assoc, loop, hround, hserved]
      dsimp only
      rw [hloop, List.append_assoc]

private theorem length_le_bytes (rs : List Request) :
    rs.length ≤ (rs.flatMap Request.bytes).length := by
  induction rs with
  | nil => exact Nat.le_refl 0
  | cons r rs ih =>
    have := r.bytes_pos
    rw [List.flatMap_cons, List.length_append, List.length_cons]
    omega

/-- A head whose transfer encoding is refused. -/
structure Refused (h : Head) (te : Bytes) : Prop where
  transfer : header h "Transfer-Encoding" = some te
  other : isText "chunked" te = false

variable (answered) in
/-- The refusal leaves the requests before it in the buffer. -/
private theorem httpCb_refused (free : c.isResp = false) (small : c.recv.length < 2 ^ 64)
    (hrecv : c.recv = rs.flatMap Request.bytes ++ x) (parsed : mgHttpParse x = .ok h)
    (refused : Refused h te) (ready : ∀ k < rs.length, answered (c.messages + k) = true) :
    messages (httpCb answered .read c).2 = rs.map Request.content ∧
      (httpCb answered .read c).1 = { after c rs.length with isClosing := true } := by
  have hle : rs.length ≤ c.recv.length := by
    have := length_le_bytes rs
    rw [hrecv, List.length_append]
    omega
  obtain ⟨fuel, hfuel⟩ : ∃ n, c.recv.length + 2 = n + 2 + rs.length := ⟨c.recv.length - rs.length, by omega⟩
  obtain ⟨es, hes, hloop⟩ := loop_answered answered (fuel + 2) (s := ⟨c, 0, false, false⟩)
    ⟨rfl, rfl, free⟩ (show Ev.read ≠ .close by decide) small hrecv ready
  have hparsed : mgHttpParse (c.recv.drop (0 + (rs.flatMap Request.bytes).length)) = .ok h := by
    rw [hrecv, Nat.zero_add, List.drop_left]
    exact parsed
  have hserve : serve answered .read ⟨after c rs.length,
      0 + (rs.flatMap Request.bytes).length, false, false⟩ h =
        (⟨{ after c rs.length with isClosing := true },
          0 + (rs.flatMap Request.bytes).length, false, true⟩, [.error "Invalid Transfer-Encoding"]) := by
    rw [serve, refused.transfer]
    dsimp only
    rw [refused.other, if_neg (by decide)]
  have hround : httpRound answered .read ⟨after c rs.length, 0 + (rs.flatMap Request.bytes).length,
      false, false⟩ = some (⟨{ after c rs.length with isClosing := true },
        0 + (rs.flatMap Request.bytes).length, false, true⟩,
          [.hdrs h, .error "Invalid Transfer-Encoding"]) := by
    rw [httpRound_parsed answered .read ⟨rfl, rfl, free⟩ hparsed, hserve]
  rw [httpCb, if_neg (fun h => Ev.noConfusion h.1), hfuel, hloop, loop, hround]
  dsimp only
  rw [loop_stops (httpRound_left (Or.inr (Or.inl rfl))), if_pos (Or.inl rfl)]
  refine ⟨?_, rfl⟩
  rw [messages_append, hes]
  exact List.append_nil _

/-- A head with a transfer encoding other than chunked closes the connection. The requests before it
have been handed over then, but they are still in the buffer, and the first of them is handed over once
more when the connection is closed, with everything behind its head as its body. -/
theorem refused_repeats (free : c.isResp = false) (small : c.recv.length < 2 ^ 64)
    (hrecv : c.recv = (r :: later).flatMap Request.bytes ++ x) (parsed : mgHttpParse x = .ok h)
    (refused : Refused h te) (ready : ∀ k ≤ later.length, answered (c.messages + k) = true) :
    messages (httpCb answered .read c).2 = (r :: later).map Request.content ∧
      (httpCb answered .read c).1.isClosing = true ∧
      messages (httpCb answered .close (httpCb answered .read c).1).2 =
        [(r.head, c.recv.drop r.head.len)] := by
  obtain ⟨hmessages, hconn⟩ := httpCb_refused answered free small hrecv parsed refused
    (fun k hk => ready k (Nat.le_of_lt_succ hk))
  refine ⟨hmessages, congrArg HttpConn.isClosing hconn, ?_⟩
  have hsame : c.recv ++ [] = r.bytes ++ (later.flatMap Request.bytes ++ x) := by
    rw [List.append_nil, hrecv, List.flatMap_cons, List.append_assoc]
  have hhead : r.head.len ≤ c.recv.length := by
    have := (parse_len r.parsed).2
    rw [hrecv, List.flatMap_cons, List.length_append, List.length_append]
    omega
  rw [hconn]
  exact (Conversation.httpCb_close (c := { after c (r :: later).length with isClosing := true }) free small
    hsame).trans (if_pos hhead)

/-- `GET /a` and behind it a head with an encoding that is refused. -/
def gzipConn : HttpConn :=
  ⟨[Conversation.getA].flatMap Request.bytes ++ ascii "GET / HTTP/1.1\r\nTransfer-Encoding: gzip\r\n\r\n",
    false, false, false, 0⟩

theorem refused_repeats_sample :
    messages (httpCb (fun _ => true) .close (httpCb (fun _ => true) .read gzipConn).1).2 =
      [(Conversation.getA.head, gzipConn.recv.drop 19)] := by
  have parsed : mgHttpParse (ascii "GET / HTTP/1.1\r\nTransfer-Encoding: gzip\r\n\r\n") =
      .ok ⟨43, ascii "GET", ascii "/", [], ascii "HTTP/1.1",
        [(ascii "Transfer-Encoding", ascii "gzip")], 0⟩ := by decide +kernel
  have refused : Refused ⟨43, ascii "GET", ascii "/", [], ascii "HTTP/1.1",
      [(ascii "Transfer-Encoding", ascii "gzip")], 0⟩ (ascii "gzip") :=
    ⟨by decide +kernel, by decide +kernel⟩
  have small : gzipConn.recv.length < 2 ^ 64 := by decide +kernel
  exact (refused_repeats rfl small rfl parsed refused fun _ _ => rfl).2.2

end Again

end Cyctron.Http.Lengths
