/- Cyctron/Http/Serving
   digest: static_cb over whole runs: the bytes of a file on their way into the socket. -/

import Cyctron.Http.Ranges
import Cyctron.Machine.Labelled
import Cyctron.Mongoose.Iobuf

set_option autoImplicit false
set_option relaxedAutoImplicit false

namespace Cyctron.Http.Serving

open Cyctron.Base.CString Cyctron.Http.Heads Cyctron.Http.Message Cyctron.Http.Parse
open Cyctron.Http.Ranges Cyctron.Http.Reply Cyctron.Mongoose.Iobuf Cyctron.Mongoose.Query
open Cyctron.Machine.Labelled (System Path Run anyStep)
open Cyctron.Machine.Storage (Fault)

/-- A connection whose handler may be `static_cb`: the send buffer, the bytes still to be sent from
`c->data`, the open file with its position, and whether the handler is `static_cb`. -/
structure FileConn where
  send : MgIobuf
  cl : Nat
  file : Bytes
  pos : Nat
  serving : Bool
  deriving DecidableEq

/-- The send buffer is made large enough once. -/
def enlarged (mem : Bool) (send : MgIobuf) : Except Fault MgIobuf :=
  if send.size < MG_IO_SIZE then (mgIobufResize mem send MG_IO_SIZE).map Prod.fst else .ok send

/-- `static_cb` on `MG_EV_WRITE` and `MG_EV_POLL`; the file is read into the free part of the send
buffer, and `http_cb` is restored where nothing is read. -/
def staticCb (mem : Bool) (c : FileConn) : Except Fault FileConn :=
  (enlarged mem c.send).bind fun send =>
    if send.size ≤ send.len then .ok { c with send := send }
    else
      let got := (c.file.drop c.pos).take (min (send.size - send.len) c.cl)
      (memmove send.buf send.len got).map fun buf =>
        { c with
          send := { send with buf := buf, len := send.len + got.length }
          cl := c.cl - got.length
          pos := c.pos + got.length
          serving := decide (got ≠ []) }

/-- The manager polls, the socket takes bytes, somebody writes to the file. -/
inductive Turn
  | poll (mem : Bool)
  | write (n : Nat) (mem : Bool)
  | edit (file : Bytes)
  deriving DecidableEq

/-- The bytes that the socket has taken, and the end of the response. -/
inductive Sent
  | bytes (b : Bytes)
  | ended
  deriving DecidableEq

/-- The call of the handler while it is `static_cb`. -/
def called (mem : Bool) (c : FileConn) : Except Fault (FileConn × List Sent) :=
  if c.serving then (staticCb mem c).map fun d => (d, if d.serving then [] else [.ended])
  else .ok (c, [])

def turn (c : FileConn) : Turn → Except Fault (FileConn × List Sent)
  | .poll mem => called mem c
  | .write n mem => (mgIobufDel c.send 0 n).bind fun r =>
    (called mem { c with send := r.1 }).map fun q => (q.1, .bytes (c.send.content.take n) :: q.2)
  | .edit file => .ok ({ c with file := file }, [])

/-- A connection from the moment on where `mg_http_serve_file` returns. -/
def serving (c : FileConn) : System FileConn Turn Sent := ⟨c, fun c a => (turn c a).toOption⟩

/-- The socket takes no more than there is. -/
def taking (c : FileConn) : Turn → Prop
  | .write n _ => n ≤ c.send.len
  | _ => True

/-- The file keeps at least so many bytes. -/
def lasting (n : Nat) (c : FileConn) : Turn → Prop
  | .write n _ => n ≤ c.send.len
  | .edit file => n ≤ file.length
  | _ => True

/-- Nobody writes to the file. -/
def untouched (c : FileConn) : Turn → Prop
  | .write n _ => n ≤ c.send.len
  | .edit _ => False
  | _ => True

instance (c : FileConn) (a : Turn) : Decidable (taking c a) :=
  match a with
  | .poll _ => inferInstanceAs (Decidable True)
  | .write n _ => inferInstanceAs (Decidable (n ≤ c.send.len))
  | .edit _ => inferInstanceAs (Decidable True)

instance (n : Nat) (c : FileConn) (a : Turn) : Decidable (lasting n c a) :=
  match a with
  | .poll _ => inferInstanceAs (Decidable True)
  | .write k _ => inferInstanceAs (Decidable (k ≤ c.send.len))
  | .edit file => inferInstanceAs (Decidable (n ≤ file.length))

instance (c : FileConn) (a : Turn) : Decidable (untouched c a) :=
  match a with
  | .poll _ => inferInstanceAs (Decidable True)
  | .write n _ => inferInstanceAs (Decidable (n ≤ c.send.len))
  | .edit _ => inferInstanceAs (Decidable False)

def taken (tr : List Sent) : Bytes :=
  tr.flatMap fun e => match e with
    | .bytes b => b
    | .ended => []

section Calls

variable {c : FileConn} {mem : Bool}

/-- What one call reads from the file, and where it goes. -/
structure Fed (c d : FileConn) (got : Bytes) : Prop where
  tidy : Tidy d.send
  align : d.send.align = c.send.align
  size : d.send.size ≤ max c.send.size (roundup MG_IO_SIZE c.send.align)
  content : d.send.content = c.send.content ++ got
  read : got = (c.file.drop c.pos).take got.length
  cl : d.cl + got.length = c.cl
  pos : d.pos = c.pos + got.length
  file : d.file = c.file
  ends : c.serving = true → d.serving = false → got = [] ∧ (c.cl = 0 ∨ c.file.length ≤ c.pos)

private theorem enlarged_tidy (h : Tidy c.send) (mem : Bool) :
    ∃ t, enlarged mem c.send = .ok t ∧ Tidy t ∧
    t.align = c.send.align ∧ t.content = c.send.content ∧ c.send.size ≤ t.size ∧
    t.size ≤ max c.send.size (roundup MG_IO_SIZE c.send.align) ∧ (mem = true → MG_IO_SIZE ≤ t.size) := by
  rw [enlarged]
  split
  · next hsmall =>
    have hgranule := h.sized.granule
    have hio : MG_IO_SIZE = 16384 := rfl
    have hround : MG_IO_SIZE ≤ roundup MG_IO_SIZE c.send.align := le_roundup (by omega)
    obtain ⟨t, ok, ht, htidy, halign, hmem, hres⟩ :=
      mgIobufResize_tidy h mem (sized_roundup (n := MG_IO_SIZE) (by omega) hgranule)
    refine ⟨t, by rw [ht]; rfl, htidy, halign, ?_⟩
    cases ok with
    | false =>
      rw [hres.1]
      refine ⟨rfl, Nat.le_refl _, Nat.le_max_left _ _, fun h => ?_⟩
      cases hmem h
    | true =>
      obtain ⟨hcontent, hsize⟩ := hres
      have hfits : c.send.content.length ≤ roundup MG_IO_SIZE c.send.align := by
        rw [h.content_length]
        have := h.fits
        omega
      rw [hsize, hcontent, List.take_of_length_le hfits]
      exact ⟨rfl, by omega, Nat.le_max_right _ _, fun _ => hround⟩
  · next hbig =>
    exact ⟨c.send, rfl, h, rfl, rfl, Nat.le_refl _, Nat.le_max_left _ _, fun _ => Nat.not_lt.mp hbig⟩

/-- Bytes that fit are put behind the content. -/
private theorem put_tidy {io : MgIobuf} (h : Tidy io) (got : Bytes)
    (fits : io.len + got.length ≤ io.size) :
    ∃ buf, memmove io.buf io.len got = .ok buf ∧
      Tidy { io with buf := buf, len := io.len + got.length } ∧ buf.length = io.size ∧
      (⟨buf, io.len + got.length, io.align⟩ : MgIobuf).content = io.content ++ got := by
  obtain ⟨c, k, align, rfl, sized⟩ := h.form
  have hsize : (⟨c ++ zeros k, c.length, align⟩ : MgIobuf).size = c.length + k := size_mk
  rw [hsize] at fits
  dsimp only at fits
  obtain ⟨m, hm⟩ : ∃ m, k = got.length + m := ⟨k - got.length, by omega⟩
  have hmove := memmove_middle (d := got) c (zeros got.length) (zeros m) (by rw [zeros_length])
  rw [List.append_assoc, ← zeros_add, ← hm] at hmove
  refine ⟨c ++ got ++ zeros m, hmove, ?_, ?_, ?_⟩
  · rw [← List.length_append]
    refine tidy_mk ?_
    rw [List.length_append, Nat.add_assoc, ← hm]
    exact sized
  · rw [hsize, List.length_append, List.length_append, zeros_length]
    omega
  · dsimp only
    rw [← List.length_append, content_mk, content_mk]

/-- A call of `static_cb` does not fault and puts the next part of the file behind what is queued. -/
private theorem staticCb_fed (h : Tidy c.send) (mem : Bool) :
    ∃ d got, staticCb mem c = .ok d ∧ Fed c d got ∧
      (mem = true → c.send.len < MG_IO_SIZE → d.serving = decide (got ≠ []) ∧
        got.length = min (min (d.send.size - c.send.len) c.cl) (c.file.length - c.pos) ∧
        c.send.len < d.send.size) := by
  obtain ⟨t, ht, htidy, halign, hcontent, hgrow, hsize, hmem⟩ := enlarged_tidy h mem
  have hlen : t.len = c.send.len := by
    rw [← htidy.content_length, hcontent, h.content_length]
  rw [staticCb, ht, Except.bind]
  split
  · next hfull =>
    refine ⟨{ c with send := t }, [], rfl, ⟨htidy, halign, hsize, ?_, rfl, rfl, rfl, rfl, ?_⟩, ?_⟩
    · rw [List.append_nil]
      exact hcontent
    · intro hs hd
      exact absurd (hs.symm.trans hd) (by decide)
    · intro hm hroom
      have := hmem hm
      omega
  · next hroom =>
    generalize hgot : (c.file.drop c.pos).take (min (t.size - t.len) c.cl) = got
    have hcount : got.length = min (min (t.size - t.len) c.cl) (c.file.length - c.pos) := by
      rw [← hgot, List.length_take, List.length_drop]
    obtain ⟨buf, hbuf, hput, hlength, hcont⟩ := put_tidy htidy got (by omega)
    have hnew : (⟨buf, t.len + got.length, t.align⟩ : MgIobuf).size = t.size := hlength
    refine ⟨⟨⟨buf, t.len + got.length, t.align⟩, c.cl - got.length, c.file, c.pos + got.length,
      decide (got ≠ [])⟩, got, ?_, ⟨hput, halign, ?_, ?_, ?_, ?_, rfl, rfl, ?_⟩, ?_⟩
    · dsimp only
      rw [hbuf]
      rfl
    · dsimp only
      rw [hnew]
      exact hsize
    · dsimp only
      rw [hcont, hcontent]
    · rw [← hgot, List.length_take]
      exact List.take_eq_take_min
    · dsimp only
      omega
    · intro _ hd
      have hnil : got = [] := not_not.mp (of_decide_eq_false hd)
      rw [hnil, List.length_nil] at hcount
      refine ⟨hnil, ?_⟩
      omega
    · intro _ _
      refine ⟨rfl, ?_, ?_⟩
      · dsimp only
        rw [hnew, hcount, hlen]
      · dsimp only
        rw [hnew]
        omega

end Calls

section Turns

variable {c d : FileConn} {a : Turn} {es : List Sent} {tr : List Sent}

private theorem taken_append (tr es : List Sent) : taken (tr ++ es) = taken tr ++ taken es :=
  List.flatMap_append

/-- The file after a turn. -/
def Turn.written (a : Turn) (file : Bytes) : Bytes :=
  match a with
  | .edit f => f
  | _ => file

/-- What one turn does. -/
structure Moves (c : FileConn) (a : Turn) (d : FileConn) (es : List Sent) (got : Bytes) : Prop where
  tidy : Tidy d.send
  align : d.send.align = c.send.align
  size : d.send.size ≤ max c.send.size (roundup MG_IO_SIZE c.send.align)
  account : taken es ++ d.send.content = c.send.content ++ got
  read : got = (c.file.drop c.pos).take got.length
  cl : d.cl + got.length = c.cl
  pos : d.pos = c.pos + got.length
  file : d.file = a.written c.file
  ended : .ended ∈ es ↔ c.serving = true ∧ d.serving = false
  ends : c.serving = true → d.serving = false → got = [] ∧ (c.cl = 0 ∨ c.file.length ≤ c.pos)
  after : c.serving = false → d.serving = false

private theorem fed_self (h : Tidy c.send) (stay : c.serving = false) : Fed c c [] :=
  ⟨h, rfl, Nat.le_max_left _ _, (List.append_nil _).symm, rfl, rfl, rfl, rfl,
    fun hs => absurd (hs.symm.trans stay) (by decide)⟩

private theorem called_fed (h : Tidy c.send) (mem : Bool) : ∃ d es got, called mem c = .ok (d, es) ∧
    Fed c d got ∧ taken es = [] ∧ (.ended ∈ es ↔ c.serving = true ∧ d.serving = false) ∧
      (c.serving = false → d.serving = false) := by
  rw [called]
  cases hs : c.serving with
  | false => exact ⟨c, [], [], rfl, fed_self h hs, rfl, by simp, fun _ => hs⟩
  | true =>
    obtain ⟨d, got, hd, hfed, -⟩ := staticCb_fed h mem
    refine ⟨d, if d.serving then [] else [.ended], got, ?_, hfed, ?_, ?_, fun h => by cases h⟩
    · rw [if_pos rfl, hd]
      rfl
    · cases d.serving <;> rfl
    · cases d.serving <;> simp

/-- What the socket has taken is deleted. -/
private theorem deleted_tidy {io : MgIobuf} (h : Tidy io) {n : Nat} (hn : n ≤ io.len) :
    ∃ t k, mgIobufDel io 0 n = .ok (t, k) ∧ Tidy t ∧ t.align = io.align ∧ t.size = io.size ∧
      t.content = deleted io.content 0 n := by
  have hfits := h.fits
  have hsmall := h.sized.small
  exact mgIobufDel_tidy h (by omega)

/-- A turn does not fault while the socket takes no more than there is. -/
private theorem turn_moves (h : Tidy c.send) (ht : taking c a) :
    ∃ d es got, turn c a = .ok (d, es) ∧ Moves c a d es got := by
  cases a with
  | poll mem =>
    obtain ⟨d, es, got, hd, hfed, htaken, hended, hafter⟩ := called_fed h mem
    refine ⟨d, es, got, hd, hfed.tidy, hfed.align, hfed.size, ?_, hfed.read, hfed.cl, hfed.pos, hfed.file,
      hended, hfed.ends, hafter⟩
    rw [htaken, List.nil_append, hfed.content]
  | write n mem =>
    have hn : n ≤ c.send.content.length := by
      rw [h.content_length]
      exact ht
    obtain ⟨t, k, hdel, htidy, halign, hsize, hcontent⟩ := deleted_tidy h (show n ≤ c.send.len from ht)
    rw [deleted_front _ hn] at hcontent
    obtain ⟨d, es, got, hd, hfed, htaken, hended, hafter⟩ :=
      called_fed (c := { c with send := t }) htidy mem
    have hbound := hfed.size
    rw [halign, hsize] at hbound
    refine ⟨d, .bytes (c.send.content.take n) :: es, got, ?_, hfed.tidy, hfed.align.trans halign, hbound, ?_,
      hfed.read, hfed.cl, hfed.pos, hfed.file, ?_, hfed.ends, hafter⟩
    · rw [turn, hdel]
      change (called mem { c with send := t }).map _ = _
      rw [hd]
      rfl
    · change c.send.content.take n ++ taken es ++ _ = _
      rw [htaken, List.append_nil, hfed.content, hcontent, ← List.append_assoc, List.take_append_drop]
    · rw [List.mem_cons]
      exact ⟨fun hm => hended.mp (hm.resolve_left Sent.noConfusion), fun hm => Or.inr (hended.mpr hm)⟩
  | edit file =>
    refine ⟨{ c with file := file }, [], [], rfl, h, rfl, Nat.le_max_left _ _, (List.append_nil _).symm, rfl,
      rfl, rfl, rfl, ?_, ?_, id⟩
    · refine ⟨fun hm => absurd hm List.not_mem_nil, fun hm => ?_⟩
      exact absurd (hm.1.symm.trans hm.2) (by decide)
    · intro hs hd
      exact absurd (hs.symm.trans hd) (by decide)

private theorem step_moves {c₀ : FileConn} (h : Tidy c.send) (ht : taking c a)
    (step : (serving c₀).step c a = some (d, es)) : ∃ got, Moves c a d es got := by
  obtain ⟨d', es', got, hok, hmoves⟩ := turn_moves h ht
  have hsome : (serving c₀).step c a = some (d', es') := congrArg Except.toOption hok
  obtain ⟨rfl, rfl⟩ := Prod.mk.inj (Option.some.inj (hsome.symm.trans step))
  exact ⟨got, hmoves⟩

end Turns

section Runs

variable {c₀ c : FileConn} {tr : List Sent}

/-- How far a response has come: so much of its body has been read from the file. -/
structure Sofar (c₀ : FileConn) (tr : List Sent) (c : FileConn) (body : Bytes) : Prop where
  tidy : Tidy c.send
  align : c.send.align = c₀.send.align
  size : c.send.size ≤ max c₀.send.size (roundup MG_IO_SIZE c₀.send.align)
  account : taken tr ++ c.send.content = c₀.send.content ++ body
  cl : c.cl + body.length = c₀.cl
  pos : c.pos = c₀.pos + body.length
  ended : .ended ∈ tr ↔ c.serving = false

theorem Sofar.start (h : Tidy c₀.send) (hs : c₀.serving = true) : Sofar c₀ [] c₀ [] :=
  ⟨h, rfl, Nat.le_max_left _ _, (List.append_nil _).symm, rfl, rfl,
    ⟨fun hm => absurd hm List.not_mem_nil, fun hf => absurd (hs.symm.trans hf) (by decide)⟩⟩

theorem Sofar.moves {a : Turn} {d : FileConn} {es : List Sent} {body got : Bytes}
    (h : Sofar c₀ tr c body) (hm : Moves c a d es got) : Sofar c₀ (tr ++ es) d (body ++ got) := by
  have hcl := hm.cl
  have hcl' := h.cl
  have hsize := hm.size
  have hsize' := h.size
  rw [h.align] at hsize
  refine ⟨hm.tidy, hm.align.trans h.align, by omega, ?_, ?_, ?_, ?_⟩
  · rw [taken_append, List.append_assoc, hm.account, ← List.append_assoc, h.account, List.append_assoc]
  · rw [List.length_append]
    omega
  · rw [hm.pos, h.pos, List.length_append, Nat.add_assoc]
  · rw [List.mem_append, h.ended, hm.ended]
    constructor
    · rintro (hs | ⟨-, hs⟩)
      · exact hm.after hs
      · exact hs
    · intro hd
      cases hs : c.serving with
      | false => exact Or.inl rfl
      | true => exact Or.inr ⟨rfl, hd⟩

variable (c₀) in
/-- Whatever happens to the file, no write leaves the storage of the send buffer, which stays bounded,
and no more is sent than was announced. -/
theorem sofar_run (h : Tidy c₀.send) (hs : c₀.serving = true) (run : Run (serving c₀) taking tr c) :
    ∃ body, Sofar c₀ tr c body := by
  refine run.invariant (fun tr c => ∃ body, Sofar c₀ tr c body) ⟨[], Sofar.start h hs⟩ ?_
  rintro tr c a d es ⟨body, hsofar⟩ ht hstep
  obtain ⟨got, hmoves⟩ := step_moves hsofar.tidy ht hstep
  exact ⟨body ++ got, hsofar.moves hmoves⟩

theorem tidy_exact {b : Bytes} (small : b.length < 2 ^ 64) : Tidy ⟨b, b.length, 0⟩ := by
  have h : Tidy ⟨b ++ zeros 0, b.length, 0⟩ := tidy_mk ⟨rfl, small, by decide⟩
  rwa [show zeros 0 = [] from rfl, List.append_nil] at h

private theorem lasting_taking {n : Nat} {a : Turn} (h : lasting n c a) : taking c a := by
  cases a with
  | poll mem => trivial
  | write k mem => exact h
  | edit file => trivial

private theorem untouched_taking {a : Turn} (h : untouched c a) : taking c a := by
  cases a with
  | poll mem => trivial
  | write k mem => exact h
  | edit file => trivial

/-- The announced part of the file is there; then only its end ends the response. -/
structure Whole (c₀ : FileConn) (tr : List Sent) (c : FileConn) (body : Bytes) : Prop where
  sofar : Sofar c₀ tr c body
  there : c₀.pos + c₀.cl ≤ c.file.length
  complete : c.serving = false → c.cl = 0

theorem Whole.moves {a : Turn} {d : FileConn} {es : List Sent} {body got : Bytes}
    (h : Whole c₀ tr c body) (hm : Moves c a d es got) (there : c₀.pos + c₀.cl ≤ d.file.length) :
    Whole c₀ (tr ++ es) d (body ++ got) := by
  refine ⟨h.sofar.moves hm, there, fun hd => ?_⟩
  have hcl := hm.cl
  have hcl' := h.sofar.cl
  have hpos := h.sofar.pos
  have hthere := h.there
  cases hs : c.serving with
  | false =>
    have := h.complete hs
    omega
  | true =>
    obtain ⟨rfl, hend⟩ := hm.ends hs hd
    rw [List.length_nil] at hcl
    omega

variable (c₀) in
/-- A file that keeps the announced part is sent in full. -/
theorem whole_run (h : Tidy c₀.send) (hs : c₀.serving = true) (there : c₀.pos + c₀.cl ≤ c₀.file.length)
    (run : Run (serving c₀) (lasting (c₀.pos + c₀.cl)) tr c) : ∃ body, Whole c₀ tr c body := by
  refine run.invariant (fun tr c => ∃ body, Whole c₀ tr c body) ⟨[], Sofar.start h hs, there, ?_⟩ ?_
  · exact fun hf => absurd (hs.symm.trans hf) (by decide)
  · rintro tr c a d es ⟨body, hwhole⟩ hlast hstep
    obtain ⟨got, hmoves⟩ := step_moves hwhole.sofar.tidy (lasting_taking hlast) hstep
    refine ⟨body ++ got, hwhole.moves hmoves ?_⟩
    rw [hmoves.file]
    cases a with
    | poll mem => exact hwhole.there
    | write k mem => exact hwhole.there
    | edit file => exact hlast

variable (c₀) in
/-- A file that nobody writes to is sent as it is. -/
private theorem untouched_run (h : Tidy c₀.send) (hs : c₀.serving = true)
    (there : c₀.pos + c₀.cl ≤ c₀.file.length) (run : Run (serving c₀) untouched tr c) :
    c.file = c₀.file ∧ ∃ body, Whole c₀ tr c body ∧ body = (c₀.file.drop c₀.pos).take body.length := by
  refine run.invariant (fun tr c => c.file = c₀.file ∧ ∃ body, Whole c₀ tr c body ∧
    body = (c₀.file.drop c₀.pos).take body.length) ⟨rfl, [], ⟨Sofar.start h hs, there, ?_⟩, rfl⟩ ?_
  · exact fun hf => absurd (hs.symm.trans hf) (by decide)
  · rintro tr c a d es ⟨hfile, body, hwhole, hbody⟩ hstay hstep
    obtain ⟨got, hmoves⟩ := step_moves hwhole.sofar.tidy (untouched_taking hstay) hstep
    have hsame : d.file = c.file := by
      rw [hmoves.file]
      cases a with
      | poll mem => rfl
      | write k mem => rfl
      | edit file => exact hstay.elim
    refine ⟨hsame.trans hfile, body ++ got, hwhole.moves hmoves (hsame ▸ hwhole.there), ?_⟩
    have hgot := hmoves.read
    rw [hfile, hwhole.sofar.pos, ← List.drop_drop] at hgot
    rw [List.length_append, List.take_add, ← hbody, ← hgot]

variable (c₀) in
/-- At the end the whole part of the file has been put behind what was queued before. -/
theorem untouched_ended (h : Tidy c₀.send) (hs : c₀.serving = true)
    (there : c₀.pos + c₀.cl ≤ c₀.file.length) (run : Run (serving c₀) untouched tr c)
    (ended : .ended ∈ tr) :
    taken tr ++ c.send.content = c₀.send.content ++ (c₀.file.drop c₀.pos).take c₀.cl := by
  obtain ⟨-, body, hwhole, hbody⟩ := untouched_run c₀ h hs there run
  have hcl := hwhole.sofar.cl
  rw [hwhole.complete (hwhole.sofar.ended.mp ended), Nat.zero_add] at hcl
  rw [hwhole.sofar.account, hbody, hcl]

/-- The socket takes everything, and the next part of the file comes behind it. -/
private theorem write_all (h : Tidy c.send) (hs : c.serving = true) : ∃ d es got,
    turn c (.write c.send.len true) = .ok (d, es) ∧ Tidy d.send ∧ d.send.content = got ∧
      d.cl + got.length = c.cl ∧ d.serving = decide (got ≠ []) := by
  have hn : c.send.len ≤ c.send.content.length := Nat.le_of_eq h.content_length.symm
  obtain ⟨t, k, hdel, htidy, halign, hsize, hcontent⟩ := deleted_tidy h (Nat.le_refl c.send.len)
  rw [deleted_front _ hn, List.drop_of_length_le (Nat.le_of_eq h.content_length)] at hcontent
  have hempty : t.len = 0 := by
    rw [← htidy.content_length, hcontent, List.length_nil]
  obtain ⟨d, got, hd, hfed, hroom⟩ := staticCb_fed (c := { c with send := t }) htidy true
  obtain ⟨hserving, -, -⟩ := hroom rfl (by dsimp only; rw [hempty]; decide)
  refine ⟨d, .bytes (c.send.content.take c.send.len) :: if d.serving then [] else [.ended], got, ?_,
    hfed.tidy, ?_, hfed.cl, hserving⟩
  · rw [turn, hdel]
    change (called true { c with send := t }).map _ = _
    rw [called, if_pos hs, hd]
    rfl
  · rw [hfed.content, hcontent, List.nil_append]

private theorem drains (c₀ : FileConn) (h : Tidy c.send) : ∃ tr' c',
    Path (serving c₀) untouched c tr' c' ∧ c'.serving = false ∧ c'.send.content = [] := by
  induction hn : c.cl using Nat.strongRecOn generalizing c with
  | ind n ih =>
    have hall : untouched c (.write c.send.len true) := Nat.le_refl c.send.len
    cases hs : c.serving with
    | true =>
      obtain ⟨d, es, got, hturn, htidy, hcontent, hcl, hserving⟩ := write_all h hs
      have hstep : (serving c₀).step c (.write c.send.len true) = some (d, es) :=
        congrArg Except.toOption hturn
      have hpath : Path (serving c₀) untouched c es d := Path.single hall hstep
      by_cases hgot : got = []
      · exact ⟨es, d, hpath, hserving.trans (decide_eq_false (not_not.mpr hgot)), hcontent.trans hgot⟩
      · have hpos := List.length_pos_of_ne_nil hgot
        obtain ⟨tr', c', hrest, hdone⟩ := ih d.cl (by omega) htidy rfl
        exact ⟨es ++ tr', c', hpath.trans hrest, hdone⟩
    | false =>
      have hle : c.send.len ≤ c.send.content.length := Nat.le_of_eq h.content_length.symm
      obtain ⟨t, k, hdel, htidy, halign, hsize, hcontent⟩ := deleted_tidy h (Nat.le_refl c.send.len)
      rw [deleted_front _ hle, List.drop_of_length_le (Nat.le_of_eq h.content_length)] at hcontent
      have hturn : turn c (.write c.send.len true) =
          .ok ({ c with send := t }, [.bytes (c.send.content.take c.send.len)]) := by
        rw [turn, hdel]
        change (called true { c with send := t }).map _ = _
        rw [called, if_neg (by rw [hs]; decide)]
        rfl
      have hstep : (serving c₀).step c (.write c.send.len true) =
          some ({ c with send := t }, [.bytes (c.send.content.take c.send.len)]) :=
        congrArg Except.toOption hturn
      exact ⟨_, _, Path.single hall hstep, hs, hcontent⟩

variable (c₀) in
/-- Whatever happens to the file, no write leaves the storage of the send buffer, the storage does not
grow with the file, and no more is sent than was announced. -/
theorem serving_bounded (h : Tidy c₀.send) (hs : c₀.serving = true)
    (run : Run (serving c₀) taking tr c) :
    Tidy c.send ∧ c.send.size ≤ max c₀.send.size (roundup MG_IO_SIZE c₀.send.align) ∧
      (∃ body, taken tr ++ c.send.content = c₀.send.content ++ body ∧ body.length ≤ c₀.cl) ∧
      ∀ a, taking c a → (serving c₀).Enabled c a := by
  obtain ⟨body, hsofar⟩ := sofar_run c₀ h hs run
  have hcl := hsofar.cl
  refine ⟨hsofar.tidy, hsofar.size, ⟨body, hsofar.account, by omega⟩, fun a ha => ?_⟩
  obtain ⟨d, es, got, hturn, -⟩ := turn_moves hsofar.tidy ha
  have hsome : (serving c₀).step c a = some (d, es) := congrArg Except.toOption hturn
  rw [System.Enabled, hsome]
  rfl

/-- Two bytes are queued, and the file has four of which three are to be sent. -/
def twoQueued : FileConn := ⟨⟨[72, 73], 2, 0⟩, 3, [97, 98, 99, 100], 0, true⟩

theorem serving_bounded_sample : ∃ (tr : List Sent) (c : FileConn), taken tr = [72, 73, 97, 98] ∧
    c.file = [97] ∧ Tidy c.send ∧ c.send.size ≤ max 2 (roundup MG_IO_SIZE 0) ∧
    (∃ body, taken tr ++ c.send.content = [72, 73] ++ body ∧ body.length ≤ 3) ∧
    ∀ a, taking c a → (serving twoQueued).Enabled c a := by
  obtain ⟨tr, c, run, htaken, hfile⟩ := System.exec_reaches (serving twoQueued) taking
    [.write 2 false, .edit [97], .write 2 false]
    (fun tr c => taken tr = [72, 73, 97, 98] ∧ c.file = [97]) (by decide +kernel)
  exact ⟨tr, c, htaken, hfile, serving_bounded twoQueued (tidy_exact (by decide)) rfl run⟩

variable (c₀) in
/-- From every state of a response there is a way to its end, with all of it sent. -/
theorem response_ends (h : Tidy c₀.send) (hs : c₀.serving = true)
    (there : c₀.pos + c₀.cl ≤ c₀.file.length) (run : Run (serving c₀) untouched tr c) :
    ∃ tr' c', Run (serving c₀) untouched (tr ++ tr') c' ∧ c'.serving = false ∧
      taken (tr ++ tr') = c₀.send.content ++ (c₀.file.drop c₀.pos).take c₀.cl := by
  obtain ⟨-, body, hwhole, -⟩ := untouched_run c₀ h hs there run
  obtain ⟨tr', c', hrest, hdone, hempty⟩ := drains c₀ hwhole.sofar.tidy
  have hall := run.trans hrest
  obtain ⟨-, body', hwhole', -⟩ := untouched_run c₀ h hs there hall
  have hsent := untouched_ended c₀ h hs there hall (hwhole'.sofar.ended.mpr hdone)
  rw [hempty, List.append_nil] at hsent
  exact ⟨tr', c', hall, hdone, hsent⟩

theorem response_ends_sample : ∃ (tr tr' : List Sent) (c' : FileConn), taken tr = [72, 73] ∧
    Run (serving twoQueued) untouched (tr ++ tr') c' ∧ c'.serving = false ∧
    taken (tr ++ tr') = [72, 73] ++ [97, 98, 99] := by
  obtain ⟨tr, c, run, htaken⟩ := System.exec_reaches (serving twoQueued) untouched [.write 2 false]
    (fun tr c => taken tr = [72, 73]) (by decide +kernel)
  obtain ⟨tr', c', hrun, hdone, hsent⟩ :=
    response_ends twoQueued (tidy_exact (by decide)) rfl (by decide) run
  exact ⟨tr, tr', c', htaken, hrun, hdone, hsent⟩

end Runs

end Cyctron.Http.Serving
