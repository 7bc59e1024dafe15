/- Cyctron/Http/Conversation
   digest: Runs of a connection that http_cb serves: order, completeness, one response at a time, the end. -/

import Cyctron.Http.Stream

set_option autoImplicit false
set_option relaxedAutoImplicit false

namespace Cyctron.Http.Conversation

open Cyctron.Base.CString Cyctron.Http.Parse Cyctron.Http.Stream
open Cyctron.Machine.Framing (loop)
open Cyctron.Machine.Labelled (System Path Run anyStep)
open Cyctron.Mongoose.Iobuf (deleted deleted_front)

/-- What can happen on a connection: bytes arrive, the manager polls, the handler completes the
response it has kept open, the connection is closed. -/
inductive Action
  | read (n : Nat)
  | poll
  | finish
  | close
  deriving DecidableEq

/-- A connection with what its peer will still send. -/
structure Talk where
  conn : HttpConn
  unsent : Bytes
  closed : Bool
  deriving DecidableEq

/-- An event of the manager on the connection. -/
def Talk.event (answered : Nat → Bool) (s : Talk) (ev : Ev) : Talk × List Effect :=
  let r := httpCb answered ev s.conn
  (⟨r.1, s.unsent, ev = .close⟩, r.2)

/-- So many bytes have been appended to the input. -/
def Talk.arrived (s : Talk) (n : Nat) : Talk :=
  ⟨{ s.conn with recv := s.conn.recv ++ s.unsent.take n }, s.unsent.drop n, s.closed⟩

def talkStep (answered : Nat → Bool) (s : Talk) (a : Action) : Option (Talk × List Effect) :=
  if s.closed then none
  else match a with
    | .read n =>
      if s.conn.recv.length + n < 2 ^ 64 then some ((s.arrived n).event answered .read) else none
    | .poll => some (s.event answered .poll)
    | .close => some (s.event answered .close)
    | .finish =>
      if s.conn.isResp then some ({ s with conn := { s.conn with isResp := false } }, [.answered])
      else none

/-- The connection from its acceptance on. -/
def talk (answered : Nat → Bool) (stream : Bytes) : System Talk Action Effect :=
  ⟨⟨.fresh, stream, false⟩, talkStep answered⟩

/-- The runs before the connection is closed. -/
def open_ : Talk → Action → Prop := fun _ a => a ≠ .close

instance (s : Talk) (a : Action) : Decidable (open_ s a) := inferInstanceAs (Decidable (a ≠ .close))

/-- Whether a response is pending; none where the handler is called while it is, or where a response
ends that has not begun. -/
def pending : Bool → List Effect → Option Bool
  | b, [] => some b
  | b, .hdrs _ :: es => if b then none else pending false es
  | b, .lengthRequired :: es => if b then none else pending false es
  | b, .msg _ :: es => if b then none else pending true es
  | b, .answered :: es => if b then pending false es else none
  | b, .error _ :: es => pending b es

section Steps

variable {answered : Nat → Bool} {s t : Talk} {a : Action} {es : List Effect}

/-- What a step can do. -/
theorem talkStep_cases (step : talkStep answered s a = some (t, es)) :
    (∃ n, a = .read n ∧ s.conn.recv.length + n < 2 ^ 64 ∧ (s.arrived n).event answered .read = (t, es)) ∨
    (a = .poll ∧ s.event answered .poll = (t, es)) ∨
    (a = .close ∧ s.event answered .close = (t, es)) ∨
    (a = .finish ∧ s.conn.isResp = true ∧ t = { s with conn := { s.conn with isResp := false } } ∧
      es = [.answered]) := by
  unfold talkStep at step
  split at step
  · cases step
  cases a with
  | read n =>
    obtain ⟨hsmall, heq⟩ := Option.ite_none_right_eq_some.mp step
    exact Or.inl ⟨n, rfl, hsmall, Option.some.inj heq⟩
  | poll => exact Or.inr (Or.inl ⟨rfl, Option.some.inj step⟩)
  | close => exact Or.inr (Or.inr (Or.inl ⟨rfl, Option.some.inj step⟩))
  | finish =>
    obtain ⟨hresp, heq⟩ := Option.ite_none_right_eq_some.mp step
    obtain ⟨rfl, rfl⟩ := Prod.mk.inj (Option.some.inj heq)
    exact Or.inr (Or.inr (Or.inr ⟨rfl, hresp, rfl, rfl⟩))

end Steps

section Turns

variable {answered : Nat → Bool} {ev : Ev} {s t : Parsing} {c : HttpConn} {h : Head} {es fs : List Effect}

private theorem pending_append {a b : Bool} (h : pending a es = some b) :
    pending a (es ++ fs) = pending b fs := by
  induction es generalizing a with
  | nil => rw [Option.some.inj h, List.nil_append]
  | cons e es ih =>
    rw [List.cons_append]
    cases e with
    | hdrs _ | lengthRequired | msg _ =>
      rw [pending] at h ⊢
      split at h
      · cases h
      · next hb => rw [if_neg hb, ih h]
    | answered =>
      rw [pending] at h ⊢
      split at h
      · next hb => rw [if_pos hb, ih h]
      · cases h
    | error _ =>
      rw [pending] at h ⊢
      exact ih h

private theorem deliver_pending (m : Delivered) (ofs : Nat) :
    pending false (deliver answered s m ofs).2 = some (deliver answered s m ofs).1.conn.isResp := by
  rw [deliver]
  cases answered s.conn.messages <;> rfl

private theorem plainData_pending (free : s.conn.isResp = false) (bodyLen : Nat) (rest : Bytes) :
    pending false (plainData answered s h bodyLen rest).2 =
      some (plainData answered s h bodyLen rest).1.conn.isResp := by
  rw [plainData]
  split
  · exact congrArg some free.symm
  · exact deliver_pending _ _

private theorem chunkedData_pending (free : s.conn.isResp = false) (rest : Bytes) :
    pending false (chunkedData answered s h rest).2 =
      some (chunkedData answered s h rest).1.conn.isResp := by
  rw [chunkedData]
  split
  · exact congrArg some free.symm
  · exact congrArg some free.symm
  · exact deliver_pending _ _

private theorem serve_pending (free : s.conn.isResp = false) :
    pending false (serve answered ev s h).2 = some (serve answered ev s h).1.conn.isResp := by
  rw [serve]
  dsimp only
  split
  · split
    · exact chunkedData_pending free _
    · exact congrArg some free.symm
  · split
    · exact plainData_pending free _ _
    · dsimp only
      have hfree : (if (lengthMissing h).2 then { s with ofs := s.ofs + h.len } else s).conn.isResp =
          false := by
        split
        · exact free
        · exact free
      rw [pending_append (b := false)]
      · exact plainData_pending hfree _ _
      · split
        · rfl
        · rfl

private theorem httpRound_pending (step : httpRound answered ev s = some (t, es)) :
    pending s.conn.isResp es = some t.conn.isResp := by
  rw [httpRound] at step
  split at step
  · cases step
  next hopen =>
  have free : s.conn.isResp = false := by
    cases h : s.conn.isResp with
    | false => rfl
    | true => exact absurd (Or.inr (Or.inr (Or.inl h))) hopen
  split at step
  · split at step
    · obtain ⟨rfl, rfl⟩ := Prod.mk.inj (Option.some.inj step)
      rfl
    · obtain ⟨rfl, rfl⟩ := Prod.mk.inj (Option.some.inj step)
      rfl
  · obtain ⟨rfl, rfl⟩ := Prod.mk.inj (Option.some.inj step)
    rw [free, pending]
    exact serve_pending free

variable (answered ev) in
private theorem loop_pending (n : Nat) (s : Parsing) :
    pending s.conn.isResp (loop (httpRound answered ev) n s).2 =
      some (loop (httpRound answered ev) n s).1.conn.isResp := by
  induction n generalizing s with
  | zero => rfl
  | succ n ih =>
    rw [loop]
    cases hstep : httpRound answered ev s with
    | none => rfl
    | some r =>
      dsimp only
      rw [pending_append (httpRound_pending hstep)]
      exact ih r.1

private theorem httpCb_pending (c : HttpConn) :
    pending c.isResp (httpCb answered ev c).2 = some (httpCb answered ev c).1.isResp := by
  have hloop := loop_pending answered ev (c.recv.length + 2) ⟨c, 0, false, false⟩
  rw [httpCb]
  split
  · rfl
  · dsimp only
    split
    · exact hloop
    · exact hloop

/-- Whatever arrives, and whenever the connection is closed: the handler gets no request, and no
response 411 goes out, while a response is pending, and no response is completed twice. -/
theorem one_at_a_time {stream : Bytes} {tr : List Effect} {s : Talk}
    (run : Run (talk answered stream) anyStep tr s) : pending false tr = some s.conn.isResp := by
  refine run.invariant (fun tr s => pending false tr = some s.conn.isResp) rfl ?_
  intro tr s a t es hpending _ step
  rw [pending_append hpending]
  obtain ⟨n, _, _, heq⟩ | ⟨_, heq⟩ | ⟨_, heq⟩ | ⟨_, hresp, rfl, rfl⟩ := talkStep_cases step
  · obtain ⟨rfl, rfl⟩ := Prod.mk.inj heq
    exact httpCb_pending (s.arrived n).conn
  · obtain ⟨rfl, rfl⟩ := Prod.mk.inj heq
    exact httpCb_pending s.conn
  · obtain ⟨rfl, rfl⟩ := Prod.mk.inj heq
    exact httpCb_pending s.conn
  · rw [hresp]
    rfl

/-- A request that is kept open, one behind it, and a close before the response. -/
theorem one_at_a_time_sample : ∃ (tr : List Effect) (s : Talk),
    pending false tr = some s.conn.isResp ∧ (messages tr).length = 1 ∧ s.closed = true := by
  obtain ⟨tr, s, run, hcount, hclosed⟩ := System.exec_reaches
    (talk (fun _ => false) (ascii "GET /a HTTP/1.1\r\n\r\nGET /b HTTP/1.1\r\n\r\n")) anyStep
    [.read 30, .poll, .read 20, .close]
    (fun tr s => (messages tr).length = 1 ∧ s.closed = true) (by decide +kernel)
  exact ⟨tr, s, one_at_a_time run, hcount, hclosed⟩

end Turns

section Order

variable {answered : Nat → Bool} {ev : Ev} {s t : Parsing} {c : HttpConn} {p rest : Bytes}
  {todo rs : List Request}

/-- The loop has passed some requests, and stands behind them. -/
structure Passed (s t : Parsing) (es : List Effect) (done : List Request) : Prop where
  gone : t.gone = false
  ofs : t.ofs = s.ofs + (done.flatMap Request.bytes).length
  conn : t.conn = { s.conn with isResp := t.conn.isResp, messages := t.conn.messages }
  handed : messages es = done.map Request.content

/-- The rest is the front of the next request, if there is one. -/
def Short (p : Bytes) (todo : List Request) : Prop := ∀ r ∈ todo.head?, p.length < r.bytes.length

private theorem short_nil (todo : List Request) : Short [] todo := fun r _ => r.bytes_pos

private theorem passed_nil (ho : s.gone = false) (left : Bool) {es : List Effect}
    (hes : messages es = []) :
    Passed s { s with left := left } es [] :=
  ⟨ho, (Nat.add_zero _).symm, rfl, hes⟩

/-- The requests at the offset are handed over one after the other, until one is not answered at once
or what is left is the front of a request. -/
private theorem loop_requests {fuel : Nat} (ho : s.Open) (hev : ev ≠ .close)
    (small : s.conn.recv.length < 2 ^ 64)
    (at_ : s.conn.recv.drop s.ofs = p) (same : p ++ rest = todo.flatMap Request.bytes)
    (enough : p.length + 1 < fuel) :
    ∃ done later part t es, todo = done ++ later ∧ p = done.flatMap Request.bytes ++ part ∧
      loop (httpRound answered ev) fuel s = (t, es) ∧ Passed s t es done ∧
      (t.conn.isResp = true ∨ Short part later) := by
  induction todo generalizing s p fuel with
  | nil =>
    obtain ⟨rfl, rfl⟩ := List.append_eq_nil_iff.mp same
    have hstop : httpRound answered ev s = none :=
      httpRound_left (Or.inr (Or.inr (Or.inr (List.drop_eq_nil_iff.mp at_))))
    exact ⟨[], [], [], s, [], rfl, rfl, loop_stops hstop, passed_nil ho.gone s.left rfl,
      Or.inr (short_nil [])⟩
  | cons r todo ih =>
    rw [List.flatMap_cons] at same
    obtain ⟨fuel, rfl⟩ : ∃ n, fuel = n + 1 := ⟨fuel - 1, by omega⟩
    rcases Nat.lt_or_ge p.length r.bytes.length with hshort | hwhole
    · refine ⟨[], r :: todo, p, ?_⟩
      have hpart : Short p (r :: todo) := fun r' hr => Option.some.inj hr ▸ hshort
      rcases eq_or_ne p [] with rfl | hne
      · have hstop : httpRound answered ev s = none :=
          httpRound_left (Or.inr (Or.inr (Or.inr (List.drop_eq_nil_iff.mp at_))))
        exact ⟨s, [], rfl, rfl, loop_stops hstop, passed_nil ho.gone s.left rfl, Or.inr hpart⟩
      · have hfront : p <+: r.bytes :=
          List.prefix_of_prefix_length_le (same ▸ List.prefix_append p rest)
            (List.prefix_append r.bytes _) (Nat.le_of_lt hshort)
        obtain ⟨es, hround, hes⟩ :=
          httpRound_part answered ho hev small at_ hne hfront hshort
        refine ⟨{ s with left := true }, es ++ [], rfl, rfl, ?_, ?_, Or.inr hpart⟩
        · rw [loop, hround]
          dsimp only
          rw [loop_stops (httpRound_left (Or.inl rfl))]
        · rw [List.append_nil]
          exact passed_nil ho.gone true hes
    · obtain ⟨p, rfl⟩ : r.bytes <+: p :=
        List.prefix_of_prefix_length_le (List.prefix_append r.bytes _)
          (same ▸ List.prefix_append p rest) hwhole
      rw [List.append_assoc] at same
      rw [List.length_append] at enough
      obtain ⟨es, hround, hes⟩ := httpRound_request answered ho hev small at_
      have hpos := r.bytes_pos
      have hfuel : p.length + 1 + 1 < fuel + 1 := by omega
      have hbehind : s.conn.recv.drop (s.ofs + r.bytes.length) = p := by
        rw [← List.drop_drop, at_, List.drop_left]
      by_cases hready : answered s.conn.messages = true
      · -- the response is complete, and the loop goes on behind the request
        have hopen : Parsing.Open ⟨s.conn.served answered, s.ofs + r.bytes.length, false, false⟩ :=
          ⟨rfl, rfl, congrArg (!·) hready⟩
        obtain ⟨done, later, part, t, fs, rfl, rfl, hloop, hpassed, hlast⟩ :=
          ih hopen small hbehind (List.append_cancel_left same) (Nat.lt_of_add_lt_add_right hfuel)
        refine ⟨r :: done, later, part, t, es ++ fs, rfl, ?_, ?_, ?_, hlast⟩
        · rw [List.flatMap_cons, List.append_assoc]
        · rw [loop, hround]
          dsimp only
          rw [hloop]
        · refine ⟨hpassed.gone, ?_, hpassed.conn, ?_⟩
          · rw [hpassed.ofs, List.flatMap_cons, List.length_append, Nat.add_assoc]
          · rw [messages_append, hes, hpassed.handed]
            rfl
      · have hresp : (s.conn.served answered).isResp = true := by
          rw [HttpConn.served, Bool.not_eq_true _ |>.mp hready]
          rfl
        refine ⟨[r], todo, p, ⟨s.conn.served answered, s.ofs + r.bytes.length, false, false⟩, es ++ [],
          rfl, ?_, ?_, ?_, Or.inl hresp⟩
        · rw [List.flatMap_singleton]
        · rw [loop, hround]
          dsimp only
          rw [loop_stops (httpRound_left (Or.inr (Or.inr (Or.inl hresp))))]
        · refine ⟨rfl, ?_, rfl, ?_⟩
          · rw [List.flatMap_singleton]
          · rw [List.append_nil, hes]
            rfl

/-- What is in the buffer and what will still be sent are the requests that are left. -/
structure Ahead (c : HttpConn) (unsent : Bytes) (todo : List Request) : Prop where
  same : c.recv ++ unsent = todo.flatMap Request.bytes
  steady : c.isDraining = false
  kept : c.isClosing = false

variable (answered) in
/-- One event hands over some of the requests that are left. Unless a response is pending then, what
it leaves in the buffer is the front of a request. -/
private theorem httpCb_requests (ha : Ahead c rest todo) (hev : ev ≠ .close)
    (small : c.recv.length < 2 ^ 64) :
    ∃ done later, todo = done ++ later ∧ messages (httpCb answered ev c).2 = done.map Request.content ∧
      Ahead (httpCb answered ev c).1 rest later ∧
      ((httpCb answered ev c).1.isResp = true ∨ Short (httpCb answered ev c).1.recv later) := by
  rw [httpCb]
  split
  · next hidle =>
    have hnil : c.recv = [] := hidle.2.resolve_left (by rw [ha.steady]; decide)
    refine ⟨[], todo, rfl, rfl, ha, Or.inr ?_⟩
    rw [hnil]
    exact short_nil todo
  · obtain ⟨done, later, part, t, es, rfl, hp, hloop, hpassed, hlast⟩ :
        ∃ done later part t es, todo = done ++ later ∧ c.recv = done.flatMap Request.bytes ++ part ∧
          loop (httpRound answered ev) (c.recv.length + 2) ⟨c, 0, false, false⟩ = (t, es) ∧
          Passed ⟨c, 0, false, false⟩ t es done ∧ (t.conn.isResp = true ∨ Short part later) := by
      cases hresp : c.isResp with
      | true =>
        have hstop : httpRound answered ev ⟨c, 0, false, false⟩ = none :=
          httpRound_left (Or.inr (Or.inr (Or.inl hresp)))
        exact ⟨[], todo, c.recv, ⟨c, 0, false, false⟩, [], rfl, rfl, loop_stops hstop,
          passed_nil rfl false rfl, Or.inl hresp⟩
      | false =>
        exact loop_requests ⟨rfl, rfl, hresp⟩ hev small rfl ha.same (Nat.lt_succ_self _)
    have hofs : t.ofs = (done.flatMap Request.bytes).length := by
      rw [hpassed.ofs]
      exact Nat.zero_add _
    have hrecv : t.conn.recv = c.recv := by rw [hpassed.conn]
    have hsteady : t.conn.isDraining = false := by rw [hpassed.conn]; exact ha.steady
    have hkept : t.conn.isClosing = false := by rw [hpassed.conn]; exact ha.kept
    have hbehind : part ++ rest = later.flatMap Request.bytes := by
      have hsame := ha.same
      rw [hp, List.flatMap_append, List.append_assoc] at hsame
      exact List.append_cancel_left hsame
    have hdrop : c.recv.drop t.ofs = part := by rw [hp, hofs, List.drop_left]
    dsimp only
    rw [hloop]
    dsimp only
    split
    · -- nothing has been passed
      next hzero =>
      have hofs0 : t.ofs = 0 := hzero.resolve_left (by rw [hpassed.gone]; decide)
      have hpart : t.conn.recv = part := by rw [hrecv, ← hdrop, hofs0, List.drop_zero]
      refine ⟨done, later, rfl, hpassed.handed, ⟨?_, hsteady, hkept⟩, ?_⟩
      · rw [hpart, hbehind]
      · rw [hpart]
        exact hlast
    · have hle : t.ofs ≤ t.conn.recv.length := by
        rw [hrecv, hofs, hp, List.length_append]
        exact Nat.le_add_right _ _
      have hpart : deleted t.conn.recv 0 t.ofs = part := by rw [deleted_front _ hle, hrecv, hdrop]
      refine ⟨done, later, rfl, hpassed.handed, ⟨?_, hsteady, hkept⟩, ?_⟩
      · dsimp only
        rw [hpart, hbehind]
      · dsimp only
        rw [hpart]
        exact hlast

private theorem httpCb_shrinks (hev : ev ≠ .close) (ha : Ahead c rest todo)
    (small : c.recv.length < 2 ^ 64) :
    (httpCb answered ev c).1.recv.length < 2 ^ 64 := by
  obtain ⟨done, later, rfl, -, hahead, -⟩ := httpCb_requests answered ha hev small
  have h := congrArg List.length ha.same
  have h' := congrArg List.length hahead.same
  rw [List.flatMap_append, List.length_append, List.length_append] at h
  rw [List.length_append] at h'
  omega

end Order

section Delivery

variable {answered : Nat → Bool} {s t : Talk} {a : Action} {tr es : List Effect}
  {rs done todo later : List Request} {r : Request}

/-- Of the requests of a stream some have been handed over, each once and in order, and nothing of the
others is lost. -/
structure Progress (rs done todo : List Request) (tr : List Effect) (s : Talk) : Prop where
  split : rs = done ++ todo
  handed : messages tr = done.map Request.content
  ahead : Ahead s.conn s.unsent todo
  small : s.conn.recv.length < 2 ^ 64

theorem Progress.arrived (h : Progress rs done todo tr s) {n : Nat}
    (small : s.conn.recv.length + n < 2 ^ 64) : Progress rs done todo tr (s.arrived n) := by
  refine ⟨h.split, h.handed, ⟨?_, h.ahead.steady, h.ahead.kept⟩, ?_⟩
  · rw [← h.ahead.same]
    change s.conn.recv ++ s.unsent.take n ++ s.unsent.drop n = _
    rw [List.append_assoc, List.take_append_drop]
  · change (s.conn.recv ++ s.unsent.take n).length < _
    rw [List.length_append, List.length_take]
    omega

theorem Progress.event (h : Progress rs done todo tr s) {ev : Ev} (hev : ev ≠ .close)
    (heq : s.event answered ev = (t, es)) :
    ∃ done' todo', Progress rs done' todo' (tr ++ es) t ∧
      (t.conn.isResp = true ∨ Short t.conn.recv todo') := by
  obtain ⟨rfl, rfl⟩ := Prod.mk.inj heq
  obtain ⟨more, later, rfl, hmore, hahead, hlast⟩ :=
    httpCb_requests answered h.ahead hev h.small
  refine ⟨done ++ more, later, ⟨?_, ?_, hahead, httpCb_shrinks hev h.ahead h.small⟩, hlast⟩
  · rw [h.split, List.append_assoc]
  · rw [messages_append, h.handed, hmore, List.map_append]

/-- One step. -/
theorem Progress.step (h : Progress rs done todo tr s) (ha : a ≠ .close)
    (step : talkStep answered s a = some (t, es)) :
    ∃ done' todo', Progress rs done' todo' (tr ++ es) t ∧
      (a ≠ .finish → t.conn.isResp = true ∨ Short t.conn.recv todo') := by
  obtain ⟨n, rfl, hsmall, heq⟩ | ⟨rfl, heq⟩ | ⟨rfl, _⟩ | ⟨rfl, _, rfl, rfl⟩ := talkStep_cases step
  · obtain ⟨done', todo', hp, hlast⟩ := (h.arrived hsmall).event (by decide) heq
    exact ⟨done', todo', hp, fun _ => hlast⟩
  · obtain ⟨done', todo', hp, hlast⟩ := h.event (by decide) heq
    exact ⟨done', todo', hp, fun _ => hlast⟩
  · exact absurd rfl ha
  · refine ⟨done, todo, ⟨h.split, ?_, ⟨h.ahead.same, h.ahead.steady, h.ahead.kept⟩, h.small⟩, ?_⟩
    · rw [messages_append, h.handed]
      exact List.append_nil _
    · exact fun hfinish => absurd rfl hfinish

/-- `GET /a` -/
def getA : Request where
  bytes := ascii "GET /a HTTP/1.1\r\n\r\n"
  head := ⟨19, ascii "GET", ascii "/a", [], ascii "HTTP/1.1", [], 0⟩
  parsed := by decide +kernel
  whole := by decide +kernel
  sized := by decide +kernel
  keepsAlive := by decide +kernel

/-- `POST /b` with a body of two bytes. -/
def postB : Request where
  bytes := ascii "POST /b HTTP/1.1\r\nContent-Length: 2\r\n\r\nhi"
  head := ⟨39, ascii "POST", ascii "/b", [], ascii "HTTP/1.1", [(ascii "Content-Length", ascii "2")], 2⟩
  parsed := by decide +kernel
  whole := by decide +kernel
  sized := by decide +kernel
  keepsAlive := by decide +kernel

private theorem progress_run (run : Run (talk answered (rs.flatMap Request.bytes)) open_ tr s) :
    ∃ done todo, Progress rs done todo tr s := by
  refine run.invariant (fun tr s => ∃ done todo, Progress rs done todo tr s) ?_ ?_
  · exact ⟨[], rs, rfl, rfl, ⟨rfl, rfl, rfl⟩, Nat.two_pow_pos 64⟩
  · rintro tr s a t es ⟨done, todo, h⟩ ha step
    obtain ⟨done', todo', h', -⟩ := h.step ha step
    exact ⟨done', todo', h'⟩

/-- However the stream of requests is cut, and whenever the handler completes its responses: what the
handler has got is a front of the requests, each once, in order and whole, and the connection holds
exactly the rest. -/
theorem requests_in_order (run : Run (talk answered (rs.flatMap Request.bytes)) open_ tr s) :
    ∃ done todo, rs = done ++ todo ∧ messages tr = done.map Request.content ∧
      s.conn.recv ++ s.unsent = todo.flatMap Request.bytes ∧ s.conn.isDraining = false ∧
      s.conn.isClosing = false := by
  obtain ⟨done, todo, h⟩ := progress_run run
  exact ⟨done, todo, h.split, h.handed, h.ahead.same, h.ahead.steady, h.ahead.kept⟩

theorem requests_in_order_sample : ∃ (tr : List Effect) (s : Talk),
    (∃ done todo, [getA, postB] = done ++ todo ∧ messages tr = done.map Request.content ∧
      s.conn.recv ++ s.unsent = todo.flatMap Request.bytes ∧ s.conn.isDraining = false ∧
      s.conn.isClosing = false) ∧
    messages tr = [getA.content] ∧ s.conn.recv.length = 11 := by
  obtain ⟨tr, s, run, hseen⟩ := System.exec_reaches
    (talk (fun _ => true) ([getA, postB].flatMap Request.bytes)) open_ [.read 10, .poll, .read 20]
    (fun tr s => messages tr = [getA.content] ∧ s.conn.recv.length = 11) (by decide +kernel)
  exact ⟨tr, s, requests_in_order run, hseen⟩

/-- Where the last bytes have been read and no response is pending, every request has been handed
over; no further input is needed for the ones that were sent ahead. -/
theorem requests_delivered (run : Run (talk answered (rs.flatMap Request.bytes)) open_ tr s)
    (ha : a ≠ .close ∧ a ≠ .finish) (step : talkStep answered s a = some (t, es))
    (sent : t.unsent = []) (free : t.conn.isResp = false) :
    messages (tr ++ es) = rs.map Request.content ∧ t.conn.recv = [] := by
  obtain ⟨done, todo, h⟩ := progress_run run
  obtain ⟨done', todo', h', hlast⟩ := h.step ha.1 step
  have hsame := h'.ahead.same
  rw [sent, List.append_nil] at hsame
  have hshort := (hlast ha.2).resolve_left (by rw [free]; decide)
  cases todo' with
  | nil => exact ⟨by rw [h'.handed, h'.split, List.append_nil], hsame⟩
  | cons r later =>
    have := hshort r rfl
    rw [hsame, List.flatMap_cons, List.length_append] at this
    omega

theorem requests_delivered_sample : ∃ (tr es : List Effect) (t : Talk), messages (tr ++ es) = [getA, postB].map Request.content ∧
    t.conn.recv = [] ∧ talkStep (fun n => n = 1) ⟨⟨postB.bytes, false, false, false, 1⟩, [], false⟩ .poll =
      some (t, es) := by
  obtain ⟨tr, s, run, rfl⟩ := System.exec_reaches
    (talk (fun n => n = 1) ([getA, postB].flatMap Request.bytes)) open_ [.read 60, .finish]
    (fun _ s => s = ⟨⟨postB.bytes, false, false, false, 1⟩, [], false⟩) (by decide +kernel)
  obtain ⟨es, step⟩ : ∃ es, talkStep (fun n => decide (n = 1))
      ⟨⟨postB.bytes, false, false, false, 1⟩, [], false⟩ .poll =
        some (⟨⟨[], false, false, false, 2⟩, [], false⟩, es) :=
    ⟨[.hdrs postB.head, .msg ⟨postB.head, 2, postB.body⟩, .answered], by decide +kernel⟩
  have h := requests_delivered run (by decide) step rfl rfl
  exact ⟨tr, es, _, h.1, h.2, step⟩

/-- Of a stream that begins with a request the parser sees the head of the request, once it is there. -/
private theorem parse_front {q x y : Bytes} (same : q ++ x = r.bytes ++ y) :
    mgHttpParse q = if q.length < r.head.len then .error 0 else .ok r.head := by
  rcases Nat.lt_or_ge q.length r.bytes.length with hshort | hwhole
  · exact parse_prefix r.parsed (List.prefix_of_prefix_length_le (same ▸ List.prefix_append q x)
      (List.prefix_append r.bytes y) (Nat.le_of_lt hshort))
  · obtain ⟨z, rfl⟩ : r.bytes <+: q :=
      List.prefix_of_prefix_length_le (List.prefix_append r.bytes y)
        (same ▸ List.prefix_append q x) hwhole
    have hlen := (parse_len r.parsed).2
    rw [List.length_append, if_neg (by omega)]
    exact parse_append r.parsed z

theorem httpCb_close {c : HttpConn} {x y : Bytes} (free : c.isResp = false)
    (small : c.recv.length < 2 ^ 64) (same : c.recv ++ x = r.bytes ++ y) :
    messages (httpCb answered .close c).2 =
      if r.head.len ≤ c.recv.length then [(r.head, c.recv.drop r.head.len)] else [] := by
  have hparse := parse_front same
  have hreports : (httpCb answered .close c).2 =
      (loop (httpRound answered .close) (c.recv.length + 2) ⟨c, 0, false, false⟩).2 := by
    rw [httpCb, if_neg (fun h => Ev.noConfusion h.1)]
    dsimp only
    split
    · rfl
    · rfl
  rw [hreports]
  have hopen : Parsing.Open ⟨c, 0, false, false⟩ := ⟨rfl, rfl, free⟩
  split
  · next hhead =>
    rw [if_neg (Nat.not_lt.mpr hhead)] at hparse
    have hserve : serve answered .close ⟨c, 0, false, false⟩ r.head =
        (⟨c.served answered, c.recv.length, false, false⟩,
          .msg ⟨r.head, c.recv.length - r.head.len, c.recv.drop r.head.len⟩ ::
            if answered c.messages then [.answered] else []) := by
      rw [serve_sized r.sized, if_pos rfl, plainData_there, deliver_keepsAlive r.keepsAlive]
      · dsimp only
        rw [Nat.zero_add, List.length_drop, Nat.add_sub_cancel' hhead]
      · dsimp only
        rw [List.length_drop]
        omega
      · exact small
    rw [loop, httpRound_parsed answered .close hopen hparse, hserve]
    dsimp only
    rw [loop_stops (httpRound_left (Or.inr (Or.inr (Or.inr (Nat.le_refl _))))), List.append_nil]
    change messages (.msg _ :: _) = _
    rw [messages_delivered, Delivered.body, ← List.length_drop, List.take_length]
  · next hhead =>
    rw [if_pos (Nat.not_le.mp hhead)] at hparse
    rcases eq_or_ne c.recv [] with hnil | hne
    · rw [loop_stops (httpRound_left (Or.inr (Or.inr (Or.inr (by rw [hnil]; exact Nat.zero_le _)))))]
      rfl
    · rw [loop, httpRound_waits hopen hne hparse]
      dsimp only
      rw [loop_stops (httpRound_left (Or.inl rfl))]
      rfl

/-- On the closing of the connection the request that is next gets all that has arrived behind its head,
less than its body or more: it is handed over if its head is there. -/
theorem close_takes_rest
    (run : Run (talk answered ((done ++ r :: later).flatMap Request.bytes)) open_ tr s)
    (handed : messages tr = done.map Request.content) (free : s.conn.isResp = false)
    (step : talkStep answered s .close = some (t, es)) :
    messages es =
      if r.head.len ≤ s.conn.recv.length then [(r.head, s.conn.recv.drop r.head.len)] else [] := by
  obtain ⟨done', todo', h⟩ := progress_run run
  obtain ⟨rfl, rfl⟩ : done = done' ∧ r :: later = todo' := by
    refine List.append_inj h.split ?_
    have := congrArg List.length (handed.symm.trans h.handed)
    rwa [List.length_map, List.length_map] at this
  have hsame := h.ahead.same
  rw [List.flatMap_cons] at hsame
  obtain ⟨_, ha, _⟩ | ⟨ha, _⟩ | ⟨_, heq⟩ | ⟨ha, _⟩ := talkStep_cases step
  · cases ha
  · cases ha
  · obtain ⟨rfl, rfl⟩ := Prod.mk.inj heq
    exact httpCb_close free h.small hsame
  · cases ha

theorem close_takes_rest_sample : ∃ es : List Effect,
    messages es = [(postB.head, postB.body.take 1)] ∧
    (talkStep (fun _ => true) ⟨⟨postB.bytes.take 40, false, false, false, 1⟩, [105], false⟩ .close).map
      Prod.snd = some es := by
  obtain ⟨tr, s, run, handed, rfl⟩ := System.exec_reaches
    (talk (fun _ => true) (([getA] ++ [postB]).flatMap Request.bytes)) open_ [.read 59]
    (fun tr s => messages tr = [getA].map Request.content ∧
      s = ⟨⟨postB.bytes.take 40, false, false, false, 1⟩, [105], false⟩) (by decide +kernel)
  obtain ⟨t, es, step⟩ : ∃ t es, talkStep (fun _ => true)
      ⟨⟨postB.bytes.take 40, false, false, false, 1⟩, [105], false⟩ .close = some (t, es) :=
    ⟨_, _, rfl⟩
  have h := close_takes_rest run handed rfl step
  refine ⟨es, h.trans (by decide +kernel), ?_⟩
  rw [step]
  rfl

end Delivery

end Cyctron.Http.Conversation
