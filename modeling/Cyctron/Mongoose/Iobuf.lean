/- Cyctron/Mongoose/Iobuf
   digest: The growing buffers of iobuf.c: no write leaves the storage, and the content is a list. -/

import Cyctron.Base.CString
import Cyctron.Machine.Labelled
import Cyctron.Machine.Storage

set_option autoImplicit false
set_option relaxedAutoImplicit false

namespace Cyctron.Mongoose.Iobuf

open Cyctron.Base.CString
open Cyctron.Machine.Labelled (System Path Run)
open Cyctron.Machine.Storage (Fault)

abbrev MG_IO_SIZE : Nat := 16384

/-- `struct mg_iobuf`; the storage has `io->size` bytes and is empty where there is none. -/
structure MgIobuf where
  buf : Bytes
  len : Nat
  align : Nat
  deriving DecidableEq

def MgIobuf.size (io : MgIobuf) : Nat := io.buf.length

def MgIobuf.content (io : MgIobuf) : Bytes := io.buf.take io.len

/-- What the arithmetic of `size_t` makes of a number. -/
def sizeT (n : Nat) : Nat := n % 2 ^ 64

def roundup (size align : Nat) : Nat :=
  if align = 0 then size else sizeT (size + align - 1) / align * align

/-- `memmove` into the storage. -/
def memmove (m : Bytes) (i : Nat) (src : Bytes) : Except Fault Bytes :=
  if i + src.length ≤ m.length then .ok (m.take i ++ src ++ m.drop (i + src.length))
  else .error .outside

/-- The bytes that a `memmove` reads from the storage. -/
def fetch (m : Bytes) (ofs n : Nat) : Except Fault Bytes :=
  if ofs + n ≤ m.length then .ok ((m.drop ofs).take n) else .error .outside

/-- `memmove` within the storage. -/
def moved (m : Bytes) (dst ofs n : Nat) : Except Fault Bytes := (fetch m ofs n).bind (memmove m dst)

def zeros (n : Nat) : Bytes := List.replicate n 0

/-- `mg_bzero` on the `n` bytes in front of an offset. -/
def mgBzero (m : Bytes) (ofs n : Nat) : Except Fault Bytes :=
  if n ≤ ofs then memmove m (ofs - n) (zeros n) else .error .outside

/-- `mg_iobuf_resize`; `mem` says whether `mg_calloc` has the memory. -/
def mgIobufResize (mem : Bool) (io : MgIobuf) (newSize : Nat) : Except Fault (MgIobuf × Bool) :=
  let newSize := roundup newSize io.align
  if newSize = 0 then .ok ({ io with buf := [], len := 0 }, true)
  else if newSize ≠ io.size then
    if mem then
      let len := if newSize < io.len then newSize else io.len
      (fetch io.buf 0 len).bind fun b => (memmove (zeros newSize) 0 b).map fun p =>
        ({ io with buf := p, len := len }, true)
    else .ok (io, false)
  else .ok (io, true)

/-- What `mg_iobuf_add` inserts: some bytes, or with a null pointer only room. -/
inductive Source
  | bytes (b : Bytes)
  | room (len : Nat)
  deriving DecidableEq

def Source.length : Source → Nat
  | .bytes b => b.length
  | .room len => len

/-- The first `memmove` of `mg_iobuf_add`: what stands behind the offset moves up. -/
def moveUp (io : MgIobuf) (ofs len : Nat) : Except Fault Bytes :=
  if ofs < io.len then moved io.buf (ofs + len) ofs (io.len - ofs) else .ok io.buf

/-- The second one, unless the pointer is null. -/
def putSource (buf : Bytes) (ofs len : Nat) : Source → Except Fault Bytes
  | .bytes b => memmove buf ofs (b.take len)
  | .room _ => .ok buf

/-- `mg_iobuf_add` -/
def mgIobufAdd (mem : Bool) (io : MgIobuf) (ofs : Nat) (src : Source) :
    Except Fault (MgIobuf × Nat) :=
  let newSize := roundup (sizeT (io.len + src.length)) io.align
  (mgIobufResize mem io newSize).bind fun r =>
    let io := r.1
    let len := if newSize ≠ io.size then 0 else src.length
    (moveUp io ofs len).bind fun buf => (putSource buf ofs len src).map fun buf =>
      ({ io with buf := buf, len := sizeT ((if io.len < ofs then ofs else io.len) + len) }, len)

/-- `mg_iobuf_del`; a sum of offset and length that does not fit into `size_t` escapes its test. -/
def mgIobufDel (io : MgIobuf) (ofs len : Nat) : Except Fault (MgIobuf × Nat) :=
  let ofs := if io.len < ofs then io.len else ofs
  let len := if io.len < sizeT (ofs + len) then io.len - ofs else len
  (if io.buf = [] then .ok []
    else (moved io.buf ofs (ofs + len) (sizeT (io.len + 2 ^ 64 - ofs - len))).bind fun buf =>
      mgBzero buf io.len len).map fun buf =>
    ({ io with buf := buf, len := sizeT (io.len + 2 ^ 64 - len) }, len)

/-- `mg_iobuf_init` -/
def mgIobufInit (mem : Bool) (size align : Nat) : Except Fault (MgIobuf × Bool) :=
  mgIobufResize mem ⟨[], 0, align⟩ size

/-- A list without the elements of an interval, as far as it has them. -/
def deleted (b : Bytes) (ofs len : Nat) : Bytes :=
  let ofs := if b.length < ofs then b.length else ofs
  let len := if b.length < ofs + len then b.length - ofs else len
  b.take ofs ++ b.drop (ofs + len)

def inserted (b : Bytes) (ofs : Nat) (src : Bytes) : Bytes := b.take ofs ++ src ++ b.drop ofs

/-- The storage with other content, and zeros behind it. -/
def refill (io : MgIobuf) (c : Bytes) : MgIobuf := ⟨c ++ zeros (io.size - c.length), c.length, io.align⟩

/-- A size that is a multiple of the granularity, both far below the end of `size_t`. -/
structure Sized (size align : Nat) : Prop where
  aligned : roundup size align = size
  small : size + align < 2 ^ 64
  granule : align ≤ 2 ^ 62

/-- The content lies in the storage, and behind it all bytes are zero. -/
structure Tidy (io : MgIobuf) : Prop where
  fits : io.len ≤ io.size
  clean : io.buf.drop io.len = zeros (io.size - io.len)
  sized : Sized io.size io.align

section Storage

variable {m b c d : Bytes} {k n ofs len dst align : Nat}

@[simp] theorem zeros_length (n : Nat) : (zeros n).length = n := List.length_replicate

theorem zeros_add (m n : Nat) : zeros (m + n) = zeros m ++ zeros n := List.replicate_add ..

theorem sizeT_self (h : n < 2 ^ 64) : sizeT n = n := Nat.mod_eq_of_lt h

/-- A difference comes out right although it is taken modulo `2 ^ 64`. -/
private theorem sizeT_sub (h : n ≤ k) (small : k < 2 ^ 64) : sizeT (k + 2 ^ 64 - n) = k - n := by
  rw [sizeT, show k + 2 ^ 64 - n = k - n + 2 ^ 64 by omega, Nat.add_mod_right,
    Nat.mod_eq_of_lt (by omega)]

theorem roundup_exact (hpos : align ≠ 0) (h : n + align ≤ 2 ^ 64) :
    roundup n align = (n + align - 1) / align * align := by
  rw [roundup, if_neg hpos, sizeT_self (by omega)]

theorem le_roundup (h : n + align ≤ 2 ^ 64) : n ≤ roundup n align := by
  by_cases hzero : align = 0
  · rw [roundup, if_pos hzero]
  · have hdiv := Nat.div_add_mod (n + align - 1) align
    have hmod := Nat.mod_lt (n + align - 1) (Nat.pos_of_ne_zero hzero)
    rw [Nat.mul_comm] at hdiv
    rw [roundup_exact hzero h]
    omega

private theorem roundup_le (h : n + align ≤ 2 ^ 64) : roundup n align ≤ n + align := by
  by_cases hzero : align = 0
  · rw [roundup, if_pos hzero]
    exact Nat.le_add_right _ _
  · have hdiv := Nat.div_mul_le_self (n + align - 1) align
    rw [roundup_exact hzero h]
    omega

/-- Rounding is stable where the rounded number does not reach the end of `size_t`. -/
private theorem roundup_roundup (h : n + 2 * align < 2 ^ 64) :
    roundup (roundup n align) align = roundup n align := by
  by_cases hzero : align = 0
  · rw [roundup, if_pos hzero]
  · have hle : roundup n align ≤ n + align := roundup_le (by omega)
    have hexact := roundup_exact hzero (show n + align ≤ 2 ^ 64 by omega)
    rw [hexact] at hle ⊢
    rw [roundup_exact hzero (by omega)]
    have hpos := Nat.pos_of_ne_zero hzero
    have hq : ∀ q, (q * align + align - 1) / align = q := by
      intro q
      rw [Nat.add_sub_assoc hpos, Nat.mul_comm, Nat.mul_add_div hpos,
        Nat.div_eq_of_lt (Nat.sub_lt hpos Nat.one_pos), Nat.add_zero]
    rw [hq]

theorem sized_roundup (h : n + 2 * align < 2 ^ 64) (granule : align ≤ 2 ^ 62) :
    Sized (roundup n align) align := by
  have hle : roundup n align ≤ n + align := roundup_le (by omega)
  exact ⟨roundup_roundup h, by omega, granule⟩

theorem deleted_middle (a b c : Bytes) : deleted (a ++ b ++ c) a.length b.length = a ++ c := by
  rw [deleted]
  simp only [List.length_append]
  rw [if_neg (by omega), if_neg (by omega), List.append_assoc, List.take_left, ← List.append_assoc,
    ← List.length_append, List.drop_left]

theorem deleted_front (b : Bytes) {n : Nat} (h : n ≤ b.length) : deleted b 0 n = b.drop n := by
  have hdel := deleted_middle [] (b.take n) (b.drop n)
  rwa [List.nil_append, List.take_append_drop, List.length_take_of_le h, List.nil_append] at hdel

/-- A move that fits replaces as many bytes as it brings. -/
theorem memmove_middle (a b rest : Bytes) (h : d.length = b.length) :
    memmove (a ++ b ++ rest) a.length d = .ok (a ++ d ++ rest) := by
  rw [memmove, if_pos (by simp only [List.length_append]; omega), List.append_assoc a b,
    List.take_left, ← List.append_assoc a b, h, ← List.length_append, List.drop_left]

private theorem fetch_eq (h : ofs + n ≤ m.length) :
    fetch m ofs n = .ok ((m.drop ofs).take n) := if_pos h

private theorem moved_eq (h : ofs + n ≤ m.length) :
    moved m dst ofs n = memmove m dst ((m.drop ofs).take n) := by
  rw [moved, fetch_eq h]
  rfl

private theorem mgBzero_eq (h : n ≤ ofs) : mgBzero m ofs n = memmove m (ofs - n) (zeros n) := if_pos h

/-- A tidy buffer is its content and zeros behind it. -/
theorem tidy_mk (sized : Sized (c.length + k) align) : Tidy ⟨c ++ zeros k, c.length, align⟩ := by
  refine ⟨?_, ?_, ?_⟩
  · simp [MgIobuf.size]
  · simp [MgIobuf.size]
  · simpa [MgIobuf.size] using sized

theorem Tidy.content_length {io : MgIobuf} (h : Tidy io) : io.content.length = io.len := by
  rw [MgIobuf.content, List.length_take]
  exact Nat.min_eq_left h.fits

/-- Every tidy buffer has this form. -/
theorem Tidy.form {io : MgIobuf} (h : Tidy io) : ∃ c k align, io = ⟨c ++ zeros k, c.length, align⟩ ∧
    Sized (c.length + k) align := by
  have hfits := h.fits
  have hsized := h.sized
  have hbuf : io.content ++ zeros (io.size - io.len) = io.buf := by
    rw [← h.clean, MgIobuf.content, List.take_append_drop]
  refine ⟨io.content, io.size - io.len, io.align, ?_, ?_⟩
  · rw [hbuf, h.content_length]
  · rw [h.content_length, Nat.add_sub_cancel' hfits]
    exact hsized

@[simp] theorem content_mk : (⟨c ++ zeros k, c.length, align⟩ : MgIobuf).content = c := by
  rw [MgIobuf.content, List.take_left]

@[simp] theorem size_mk : (⟨c ++ zeros k, n, align⟩ : MgIobuf).size = c.length + k := by
  rw [MgIobuf.size, List.length_append, zeros_length]

theorem deleted_length (b : Bytes) (ofs len : Nat) : (deleted b ofs len).length ≤ b.length := by
  rw [deleted]
  split <;> split <;> simp only [List.length_append, List.length_take, List.length_drop] <;> omega

@[simp] theorem refill_content (io : MgIobuf) (c : Bytes) : (refill io c).content = c := content_mk

private theorem refill_size {io : MgIobuf} (h : c.length ≤ io.size) :
    (refill io c).size = io.size := by
  rw [refill, size_mk, Nat.add_sub_cancel' h]

theorem refill_self {io : MgIobuf} (h : Tidy io) : refill io io.content = io := by
  obtain ⟨c, k, align, rfl, -⟩ := h.form
  rw [content_mk, refill, size_mk, Nat.add_sub_cancel_left]

theorem refill_refill {io : MgIobuf} (h : c.length ≤ io.size) :
    refill (refill io c) d = refill io d := by
  rw [refill, refill_size h]
  rfl

/-- Other content that fits leaves a tidy buffer tidy. -/
theorem refill_tidy {io : MgIobuf} (h : Tidy io) (fits : c.length ≤ io.size) : Tidy (refill io c) := by
  refine tidy_mk ?_
  rw [Nat.add_sub_cancel' fits]
  exact h.sized

end Storage

section Operations

variable {io : MgIobuf} {mem : Bool}

/-- What fits of the content is copied into fresh storage. -/
private theorem resize_copies (h : Tidy io) (n : Nat) : ∃ k, (io.content.take n).length + k = n ∧
    (if n < io.len then n else io.len) = (io.content.take n).length ∧
    fetch io.buf 0 (io.content.take n).length = .ok (io.content.take n) ∧
    memmove (zeros n) 0 (io.content.take n) = .ok (io.content.take n ++ zeros k) := by
  have hfits : io.len ≤ io.buf.length := h.fits
  have hlen : (io.content.take n).length = min n (min io.len io.buf.length) := by
    rw [MgIobuf.content, List.length_take, List.length_take]
  have htake : io.buf.take (io.content.take n).length = io.content.take n := by
    rw [hlen, MgIobuf.content, List.take_take]
    congr 1
    omega
  obtain ⟨k, hk⟩ := Nat.exists_eq_add_of_le (show (io.content.take n).length ≤ n by omega)
  have hmove := memmove_middle (d := io.content.take n) [] (zeros (io.content.take n).length)
    (zeros k) (by rw [zeros_length])
  rw [List.nil_append, List.nil_append, ← zeros_add, ← hk] at hmove
  refine ⟨k, hk.symm, ?_, ?_, hmove⟩
  · split <;> omega
  · rw [fetch_eq (by omega), List.drop_zero, htake]

/-- Resizing keeps what fits, and leaves the buffer alone where there is no memory. -/
theorem mgIobufResize_tidy (h : Tidy io) (mem : Bool) {n : Nat}
    (sized : Sized (roundup n io.align) io.align) :
    ∃ t ok, mgIobufResize mem io n = .ok (t, ok) ∧ Tidy t ∧ t.align = io.align ∧
      (mem = true → ok = true) ∧
      (if ok then t.content = io.content.take (roundup n io.align) ∧ t.size = roundup n io.align
        else t = io ∧ io.size ≠ roundup n io.align) := by
  rw [mgIobufResize]
  split
  · next hz =>
    rw [hz] at sized
    refine ⟨_, _, rfl, ?_, rfl, fun _ => rfl, ?_⟩
    · exact tidy_mk (c := []) (k := 0) sized
    · rw [if_pos rfl, hz]
      exact ⟨rfl, rfl⟩
  · split
    · next hne =>
      cases mem with
      | false => exact ⟨io, false, rfl, h, rfl, id, rfl, fun heq => hne heq.symm⟩
      | true =>
        obtain ⟨k, hk, hmin, hread, hmove⟩ := resize_copies h (roundup n io.align)
        refine ⟨⟨io.content.take (roundup n io.align) ++ zeros k,
          (io.content.take (roundup n io.align)).length, io.align⟩, true, ?_, ?_, rfl, fun _ => rfl, ?_⟩
        · rw [if_pos rfl]
          dsimp only
          rw [hmin, hread, Except.bind, hmove]
          rfl
        · refine tidy_mk ?_
          rw [hk]
          exact sized
        · rw [if_pos rfl, content_mk, size_mk]
          exact ⟨rfl, hk⟩
    · next heq =>
      refine ⟨io, true, rfl, h, rfl, fun _ => rfl, ?_⟩
      rw [if_pos rfl, not_not.mp heq]
      refine ⟨?_, rfl⟩
      rw [List.take_of_length_le]
      rw [MgIobuf.content, List.length_take]
      exact Nat.le_trans (Nat.min_le_left _ _) h.fits

/-- Room in the middle: what stands behind it moves up, and the room holds old bytes. -/
private theorem moveUp_eq (a rest : Bytes) (n k align : Nat) :
    moveUp ⟨a ++ rest ++ zeros (n + k), (a ++ rest).length, align⟩ a.length n =
      .ok (a ++ (rest ++ zeros n).take n ++ rest ++ zeros k) := by
  have hroom : ((rest ++ zeros n).take n).length = n := by
    rw [List.length_take, List.length_append, zeros_length]
    omega
  rw [moveUp]
  split
  · have hsrc : ((a ++ rest ++ zeros (n + k)).drop a.length).take ((a ++ rest).length - a.length) =
        rest := by
      rw [List.append_assoc, List.drop_left, List.length_append, Nat.add_sub_cancel_left,
        List.take_left]
    have hin : a.length + ((a ++ rest).length - a.length) ≤ (a ++ rest ++ zeros (n + k)).length := by
      simp only [List.length_append]
      omega
    have hstore : a ++ rest ++ zeros (n + k) =
        (a ++ (rest ++ zeros n).take n) ++ (rest ++ zeros n).drop n ++ zeros k := by
      rw [List.append_assoc a ((rest ++ zeros n).take n), List.take_append_drop, zeros_add]
      simp only [List.append_assoc]
    have hmove := memmove_middle (d := rest) (a ++ (rest ++ zeros n).take n)
      ((rest ++ zeros n).drop n) (zeros k)
      (by rw [List.length_drop, List.length_append, zeros_length, Nat.add_sub_cancel])
    rw [moved_eq hin, hsrc, hstore]
    rw [List.length_append, hroom] at hmove
    exact hmove
  · next h =>
    have hnil : rest = [] := by
      dsimp only at h
      rw [List.length_append] at h
      exact List.length_eq_zero_iff.mp (by omega)
    subst hnil
    rw [List.append_nil, List.append_nil, List.nil_append,
      List.take_of_length_le (zeros_length n).le, zeros_add, List.append_assoc]

/-- Both moves of `mg_iobuf_add`, where there are this many free bytes. -/
private theorem add_moves (a rest : Bytes) (n k align : Nat) (src : Source) (h : n ≤ src.length) :
    ∃ b buf, b.length = n ∧ (∀ d, src = .bytes d → b = d.take n) ∧
      moveUp ⟨a ++ rest ++ zeros (n + k), (a ++ rest).length, align⟩ a.length n = .ok buf ∧
      putSource buf a.length n src = .ok (a ++ b ++ rest ++ zeros k) := by
  have hroom : ((rest ++ zeros n).take n).length = n := by
    rw [List.length_take, List.length_append, zeros_length]
    omega
  have hup := moveUp_eq a rest n k align
  cases src with
  | room len => exact ⟨(rest ++ zeros n).take n, _, hroom, fun d hd => Source.noConfusion hd, hup, rfl⟩
  | bytes d =>
    have hd : (d.take n).length = n := by
      rw [List.length_take]
      exact Nat.min_eq_left h
    refine ⟨d.take n, _, hd, ?_, hup, ?_⟩
    · intro d' hd'
      rw [Source.bytes.inj hd']
    · have hmove := memmove_middle (d := d.take n) a ((rest ++ zeros n).take n) (rest ++ zeros k)
        (by rw [hd, hroom])
      rw [List.append_assoc (a ++ _) rest, List.append_assoc (a ++ _) rest]
      exact hmove

/-- An insertion within the content goes through as a whole or not at all. -/
private theorem mgIobufAdd_tidy (h : Tidy io) (mem : Bool) {ofs : Nat} (src : Source)
    (within : ofs ≤ io.len)
    (small : io.len + src.length + 2 * io.align < 2 ^ 64) :
    ∃ t n, mgIobufAdd mem io ofs src = .ok (t, n) ∧ Tidy t ∧ t.align = io.align ∧
      ((n = src.length ∧ ∃ b, b.length = n ∧ (∀ d, src = .bytes d → b = d) ∧
        t.content = inserted io.content ofs b) ∨ (n = 0 ∧ t = io)) := by
  have hsum : sizeT (io.len + src.length) = io.len + src.length := sizeT_self (by omega)
  have hsized := sized_roundup small h.sized.granule
  obtain ⟨r, ok, hr, htidy, halign, -, hres⟩ :=
    mgIobufResize_tidy (n := roundup (io.len + src.length) io.align) h mem (by rwa [hsized.aligned])
  rw [hsized.aligned] at hres
  have hclen := h.content_length
  have hroom : io.len + src.length ≤ roundup (io.len + src.length) io.align := le_roundup (by omega)
  -- how much is inserted, and the buffer it is inserted into
  obtain ⟨n, hn, hrc, hfree, hcase⟩ : ∃ n, (if roundup (io.len + src.length) io.align ≠ r.size
      then 0 else src.length) = n ∧ r.content = io.content ∧ r.len + n ≤ r.size ∧
        (n = src.length ∨ n = 0 ∧ r = io) := by
    cases ok with
    | false =>
      obtain ⟨rfl, hsize⟩ := hres
      exact ⟨0, if_pos hsize.symm, rfl, h.fits, Or.inr ⟨rfl, rfl⟩⟩
    | true =>
      obtain ⟨hcontent, hsize⟩ := hres
      rw [List.take_of_length_le (by omega)] at hcontent
      refine ⟨src.length, if_neg (fun hne => hne hsize.symm), hcontent, ?_, Or.inl rfl⟩
      have hlen := congrArg List.length hcontent
      rw [htidy.content_length, hclen] at hlen
      omega
  have hle : n ≤ src.length := by
    rcases hcase with rfl | ⟨rfl, -⟩
    · exact Nat.le_refl _
    · exact Nat.zero_le _
  obtain ⟨c, k, align, rfl, sized⟩ := htidy.form
  rw [content_mk] at hrc
  subst hrc
  have hfit : n ≤ k := by
    rw [size_mk] at hfree
    dsimp only at hfree
    omega
  obtain ⟨k, rfl⟩ := Nat.exists_eq_add_of_le hfit
  have hofs : (io.content.take ofs).length = ofs := by
    rw [List.length_take]
    omega
  obtain ⟨b, buf, hb, hbytes, hup, hdown⟩ :=
    add_moves (io.content.take ofs) (io.content.drop ofs) n k align src hle
  rw [List.take_append_drop, hofs] at hup
  rw [hofs] at hdown
  have hput : (io.content.take ofs ++ b ++ io.content.drop ofs).length = io.content.length + n := by
    simp only [List.length_append, List.length_take, List.length_drop, hb]
    omega
  refine ⟨⟨(io.content.take ofs ++ b ++ io.content.drop ofs) ++ zeros k,
    (io.content.take ofs ++ b ++ io.content.drop ofs).length, align⟩, n, ?_, ?_, halign, ?_⟩
  · have hnew : sizeT (io.content.length + n) = io.content.length + n :=
      sizeT_self (by have := sized.small; omega)
    rw [mgIobufAdd, hsum, hr, Except.bind]
    dsimp only
    rw [hn, if_neg (by omega), hput, hup, Except.bind]
    rw [hdown, hnew]
    rfl
  · refine tidy_mk ?_
    rw [hput, show io.content.length + n + k = io.content.length + (n + k) by omega]
    exact sized
  · rcases hcase with rfl | ⟨rfl, hio⟩
    · refine Or.inl ⟨rfl, b, hb, ?_, content_mk⟩
      rintro d rfl
      rw [hbytes d rfl, Source.length, List.take_length]
    · refine Or.inr ⟨rfl, ?_⟩
      obtain rfl := List.length_eq_zero_iff.mp hb
      rw [List.append_nil, List.take_append_drop, Nat.zero_add] at *
      exact hio

/-- Both moves of `mg_iobuf_del`: what stands behind the interval moves down, and zeros follow it. -/
private theorem del_moves (c : Bytes) (k : Nat) {o l : Nat} (hfit : o + l ≤ c.length) :
    ∃ buf, moved (c ++ zeros k) o (o + l) (c.length - o - l) = .ok buf ∧
      mgBzero buf c.length l = .ok (c.take o ++ c.drop (o + l) ++ zeros l ++ zeros k) := by
  have hc : c = c.take o ++ (c.drop o).take l ++ c.drop (o + l) := by
    rw [List.append_assoc, ← List.drop_drop, List.take_append_drop, List.take_append_drop]
  have h1 : (c.take o).length = o := by
    rw [List.length_take]
    omega
  have h2 : ((c.drop o).take l).length = l := by
    rw [List.length_take, List.length_drop]
    omega
  have h3 : (c.drop (o + l)).length = c.length - o - l := by
    rw [List.length_drop]
    omega
  have hin : o + l + (c.length - o - l) ≤ (c ++ zeros k).length := by
    rw [List.length_append]
    omega
  have hsrc : ((c ++ zeros k).drop (o + l)).take (c.length - o - l) = c.drop (o + l) := by
    rw [List.drop_append_of_le_length hfit, List.take_append_of_le_length h3.ge,
      List.take_of_length_le h3.le]
  -- the interval and what stands behind it, cut after as many bytes as move down
  have hmove := memmove_middle (d := c.drop (o + l)) (c.take o)
    (((c.drop o).take l ++ c.drop (o + l)).take (c.length - o - l))
    (((c.drop o).take l ++ c.drop (o + l)).drop (c.length - o - l) ++ zeros k)
    (by rw [h3, List.length_take, List.length_append, h2, h3]; omega)
  rw [h1, List.append_assoc, ← List.append_assoc (List.take _ _) (List.drop _ _), List.take_append_drop,
    ← List.append_assoc, ← List.append_assoc, ← hc] at hmove
  have hzero := memmove_middle (d := zeros l) (c.take o ++ c.drop (o + l))
    (((c.drop o).take l ++ c.drop (o + l)).drop (c.length - o - l)) (zeros k)
    (by rw [zeros_length, List.length_drop, List.length_append, h2, h3]; omega)
  rw [List.length_append, h1, h3, show o + (c.length - o - l) = c.length - l by omega] at hzero
  rw [← List.append_assoc] at hmove
  have hdown := (moved_eq hin).trans ((congrArg _ hsrc).trans hmove)
  exact ⟨_, hdown, (mgBzero_eq (by omega)).trans hzero⟩

/-- A deletion leaves the storage with the content that the list would have. -/
theorem mgIobufDel_refill (h : Tidy io) {ofs len : Nat} (small : min ofs io.len + len < 2 ^ 64) :
    ∃ n, mgIobufDel io ofs len = .ok (refill io (deleted io.content ofs len), n) := by
  obtain ⟨c, k, align, rfl, sized⟩ := h.form
  have hsize := sized.small
  rw [mgIobufDel, content_mk, deleted]
  dsimp only at small ⊢
  generalize hofs : (if c.length < ofs then c.length else ofs) = o
  have ho : o = min ofs c.length := by
    rw [← hofs]
    split <;> omega
  have hsum : sizeT (o + len) = o + len := sizeT_self (by omega)
  rw [hsum]
  generalize hlen : (if c.length < o + len then c.length - o else len) = l
  have hfit : o + l ≤ c.length := by
    rw [← hlen]
    split <;> omega
  have hcount : sizeT (c.length + 2 ^ 64 - o - l) = c.length - o - l := by
    rw [Nat.sub_sub, sizeT_sub hfit (by omega), Nat.sub_sub]
  have hleft : sizeT (c.length + 2 ^ 64 - l) = c.length - l := sizeT_sub (by omega) (by omega)
  have hkept : (c.take o ++ c.drop (o + l)).length = c.length - l := by
    rw [List.length_append, List.length_take, List.length_drop]
    omega
  have hafter : refill ⟨c ++ zeros k, c.length, align⟩ (c.take o ++ c.drop (o + l)) =
      ⟨c.take o ++ c.drop (o + l) ++ zeros l ++ zeros k, c.length - l, align⟩ := by
    rw [refill, size_mk, hkept, List.append_assoc _ (zeros l), ← zeros_add]
    rw [show c.length + k - (c.length - l) = l + k by omega]
  refine ⟨l, ?_⟩
  rw [hafter, hcount, hleft]
  by_cases hnull : c ++ zeros k = []
  · -- a null pointer has neither content nor storage
    obtain ⟨rfl, hk⟩ := List.append_eq_nil_iff.mp hnull
    rw [List.length_nil] at hfit
    obtain ⟨rfl, rfl⟩ : o = 0 ∧ l = 0 := by omega
    rw [if_pos hnull, hk]
    rfl
  · obtain ⟨buf, hmoved, hzero⟩ := del_moves c k hfit
    rw [if_neg hnull, hmoved, Except.bind, hzero]
    rfl

/-- A deletion is the one of the list, and leaves zeros behind. -/
theorem mgIobufDel_tidy (h : Tidy io) {ofs len : Nat} (small : min ofs io.len + len < 2 ^ 64) :
    ∃ t n, mgIobufDel io ofs len = .ok (t, n) ∧ Tidy t ∧ t.align = io.align ∧ t.size = io.size ∧
      t.content = deleted io.content ofs len := by
  obtain ⟨n, hdel⟩ := mgIobufDel_refill h small
  have hfits : (deleted io.content ofs len).length ≤ io.size := by
    have hlen := h.content_length
    have hfit := h.fits
    have hdeleted := deleted_length io.content ofs len
    omega
  exact ⟨_, n, hdel, refill_tidy h hfits, rfl, refill_size hfits, refill_content _ _⟩

end Operations

section Runs

/-- One call, with the answer of the allocator where it asks. -/
inductive Call
  | resize (mem : Bool) (n : Nat)
  | add (mem : Bool) (ofs : Nat) (src : Source)
  | del (ofs len : Nat)

/-- What a call has done to the content. -/
inductive Edit
  | cut (n : Nat)
  | insert (ofs : Nat) (b : Bytes)
  | delete (ofs len : Nat)
  deriving DecidableEq

def Edit.apply (c : Bytes) : Edit → Bytes
  | .cut n => c.take n
  | .insert ofs b => inserted c ofs b
  | .delete ofs len => deleted c ofs len

/-- The bytes that an insertion has brought: the caller's, or whatever was in the room. -/
def Source.brought (src : Source) (t : MgIobuf) (ofs : Nat) : Bytes :=
  match src with
  | .bytes b => b
  | .room len => (t.content.drop ofs).take len

def run (io : MgIobuf) : Call → Except Fault (MgIobuf × List Edit)
  | .resize mem n => (mgIobufResize mem io n).map fun r =>
    (r.1, if r.2 then [.cut (roundup n io.align)] else [])
  | .add mem ofs src => (mgIobufAdd mem io ofs src).map fun r =>
    (r.1, if r.2 = 0 then [] else [.insert ofs (src.brought r.1 ofs)])
  | .del ofs len => (mgIobufDel io ofs len).map fun r => (r.1, [.delete ofs len])

/-- The calls on one buffer; a call that faults is none. -/
def iobuf (io : MgIobuf) : System MgIobuf Call Edit := ⟨io, fun io c => (run io c).toOption⟩

/-- Insertions are made within the content or at its end, and no sum of lengths comes to the end of
`size_t`. -/
def within (io : MgIobuf) : Call → Prop
  | .resize _ n => n + 2 * io.align < 2 ^ 64
  | .add _ ofs src => ofs ≤ io.len ∧ io.len + src.length + 2 * io.align < 2 ^ 64
  | .del ofs len => min ofs io.len + len < 2 ^ 64

variable {io io₀ : MgIobuf}

private theorem inserted_brought {c b : Bytes} {ofs : Nat} (h : ofs ≤ c.length) :
    ((inserted c ofs b).drop ofs).take b.length = b := by
  have hofs : (c.take ofs).length = ofs := by
    rw [List.length_take]
    exact Nat.min_eq_left h
  have hdrop : (c.take ofs ++ (b ++ c.drop ofs)).drop ofs = b ++ c.drop ofs :=
    List.drop_left' hofs
  rw [inserted, List.append_assoc, hdrop, List.take_left]

/-- A call on a tidy buffer does not fault, leaves it tidy, and does to the content what it reports. -/
private theorem run_tidy (h : Tidy io) (c : Call) (hc : within io c) :
    ∃ t es, run io c = .ok (t, es) ∧ Tidy t ∧ t.align = io.align ∧
      t.content = es.foldl Edit.apply io.content := by
  cases c with
  | resize mem n =>
    obtain ⟨t, ok, ht, htidy, halign, -, hres⟩ :=
      mgIobufResize_tidy h mem (sized_roundup hc h.sized.granule)
    refine ⟨t, if ok then [.cut (roundup n io.align)] else [], ?_, htidy, halign, ?_⟩
    · rw [run, ht]
      rfl
    · cases ok with
      | false => rw [hres.1]; rfl
      | true => exact hres.1
  | add mem ofs src =>
    obtain ⟨t, n, ht, htidy, halign, hres⟩ := mgIobufAdd_tidy h mem src hc.1 hc.2
    refine ⟨t, if n = 0 then [] else [.insert ofs (src.brought t ofs)], ?_, htidy, halign, ?_⟩
    · rw [run, ht]
      rfl
    · have hofs : ofs ≤ io.content.length := by
        rw [h.content_length]
        exact hc.1
      rcases hres with ⟨hn, b, hb, hbytes, hcontent⟩ | ⟨rfl, rfl⟩
      · have hbrought : src.brought t ofs = b := by
          cases src with
          | bytes d => exact (hbytes d rfl).symm
          | room len =>
            have hlen : len = b.length := by rw [hb, hn]; rfl
            rw [Source.brought, hcontent, hlen, inserted_brought hofs]
        split
        · next hz =>
          obtain rfl : b = [] := List.length_eq_zero_iff.mp (by rw [hb, hz])
          rw [hcontent, inserted, List.append_nil, List.take_append_drop]
          rfl
        · rw [hcontent, hbrought]
          rfl
      · rw [if_pos rfl]
        rfl
  | del ofs len =>
    obtain ⟨t, n, ht, htidy, halign, hsize, hcontent⟩ := mgIobufDel_tidy h hc
    refine ⟨t, [.delete ofs len], ?_, htidy, halign, hcontent⟩
    rw [run, ht]
    rfl

/-- A new buffer is tidy and empty. -/
private theorem mgIobufInit_tidy (mem : Bool) {size align : Nat} (small : size + 2 * align < 2 ^ 64)
    (granule : align ≤ 2 ^ 62) :
    ∃ io ok, mgIobufInit mem size align = .ok (io, ok) ∧ Tidy io ∧ io.content = [] := by
  have hempty : Tidy ⟨[], 0, align⟩ := by
    have hzero : roundup 0 align = 0 := by
      rw [roundup]
      split
      · rfl
      · next hne =>
        rw [Nat.zero_add, sizeT_self (by omega),
          Nat.div_eq_of_lt (Nat.sub_lt (Nat.pos_of_ne_zero hne) Nat.one_pos), Nat.zero_mul]
    exact tidy_mk (c := []) (k := 0) ⟨hzero, by simp only [List.length_nil]; omega, granule⟩
  obtain ⟨t, ok, ht, htidy, -, -, hres⟩ := mgIobufResize_tidy hempty mem (sized_roundup small granule)
  refine ⟨t, ok, ht, htidy, ?_⟩
  cases ok with
  | false => rw [hres.1]; rfl
  | true =>
    rw [hres.1]
    exact List.take_nil

private theorem run_content (htidy : Tidy io₀) (hempty : io₀.content = []) {tr : List Edit}
    (h : Run (iobuf io₀) within tr io) : Tidy io ∧ io.content = tr.foldl Edit.apply [] := by
  refine h.invariant (fun tr io => Tidy io ∧ io.content = tr.foldl Edit.apply []) ⟨htidy, hempty⟩ ?_
  rintro tr io c io' es ⟨htidy, hcontent⟩ hc hstep
  obtain ⟨t, es', ht, htidy', -, hcontent'⟩ := run_tidy htidy c hc
  have hsome : (iobuf io₀).step io c = some (t, es') := congrArg Except.toOption ht
  obtain ⟨rfl, rfl⟩ := Prod.mk.inj (Option.some.inj (hsome.symm.trans hstep))
  refine ⟨htidy', ?_⟩
  rw [hcontent', List.foldl_append, hcontent]

/-- A buffer of eight bytes grows when ten are put into it, and loses the first three of them. -/
private theorem ten_run : Run (iobuf ⟨zeros 8, 0, 4⟩) within
    [.insert 0 (ascii "0123456789"), .delete 0 3] ⟨ascii "3456789" ++ zeros 5, 7, 4⟩ := by
  have hadd : within ⟨zeros 8, 0, 4⟩ (.add true 0 (.bytes (ascii "0123456789"))) :=
    ⟨Nat.le_refl 0, by decide⟩
  have hdel : within ⟨ascii "0123456789" ++ zeros 2, 10, 4⟩ (.del 0 3) :=
    show min 0 10 + 3 < 2 ^ 64 by decide
  have hten : Path (iobuf ⟨zeros 8, 0, 4⟩) within ⟨zeros 8, 0, 4⟩ [.insert 0 (ascii "0123456789")]
      ⟨ascii "0123456789" ++ zeros 2, 10, 4⟩ := Path.single hadd rfl
  exact hten.trans (Path.single hdel rfl)

end Runs

end Cyctron.Mongoose.Iobuf
