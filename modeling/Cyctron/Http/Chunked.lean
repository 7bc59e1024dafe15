/- Cyctron/Http/Chunked
   digest: Chunked bodies as mongoose.c writes them, finds their end, and joins their chunks in place. -/

import Cyctron.Base.CString
import Mathlib.Data.List.GetD

set_option autoImplicit false
set_option relaxedAutoImplicit false

namespace Cyctron.Http.Chunked

open Cyctron.Base.CString

def isHexDigit (c : UInt8) : Bool :=
  (48 ≤ c && c ≤ 57) || (97 ≤ c && c ≤ 102) || (65 ≤ c && c ≤ 70)

def hexDigit (c : UInt8) : Nat :=
  if 48 ≤ c && c ≤ 57 then c.toNat - 48
  else if 65 ≤ c && c ≤ 70 then c.toNat - 55
  else c.toNat - 87

/-- The loop of `mg_str_to_num` for base 16 and a result of four bytes. -/
def hexLoop : Nat → Bytes → Option Nat
  | result, [] => some result
  | result, c :: s =>
    if isHexDigit c = false then none
    else if 0xFFFFFFFF / 16 < result then none
    else if 0xFFFFFFFF - hexDigit c < result * 16 then none
    else hexLoop (result * 16 + hexDigit c) s

def mgStrToNum (s : Bytes) : Option Nat := if s = [] then none else hexLoop 0 s

/-- What `skip_chunk` finds: no chunk, the front of one, or one with the length of its first line and
of its data. -/
inductive Chunk
  | error
  | more
  | chunk (pl dl : Nat)
  deriving DecidableEq

/-- `skip_chunk`; behind the bytes that are there a buffer holds zeros. -/
def skipChunk (buf : Bytes) : Chunk :=
  let i := (buf.takeWhile isHexDigit).length
  if buf.length < 3 then .more
  else if i = 0 then .error
  else if 8 < i then .error
  else if buf.length < i + 1 ∨ buf.getD i 0 ≠ 13 ∨ buf.getD (i + 1) 0 ≠ 10 then .error
  else
    match mgStrToNum (buf.take i) with
    | none => .error
    | some n =>
      if 2 ^ 31 ≤ n then .error
      else if buf.length < n + i + 4 then .more
      else if buf.getD (i + n + 2) 0 ≠ 13 ∨ buf.getD (i + n + 3) 0 ≠ 10 then .error
      else .chunk (i + 2) n

/-- The first pass of `http_cb` over the chunks from an offset on, up to an empty one. -/
def findEnd (s : Bytes) : Nat → Nat → Chunk
  | 0, _ => .more
  | fuel + 1, o =>
    match skipChunk (s.drop o) with
    | .chunk pl dl => if dl = 0 then .chunk pl dl else findEnd s fuel (o + (pl + dl + 2))
    | r => r

/-- The second pass: the data of each chunk is moved to the end of what has been joined. It gives the
buffer, the offset behind the last chunk and the length of the body. -/
def join : Nat → Bytes → Nat → Nat → Bytes × Nat × Nat
  | 0, s, o, bodyLen => (s, o, bodyLen)
  | fuel + 1, s, o, bodyLen =>
    match skipChunk (s.drop o) with
    | .chunk pl dl =>
      let s := s.take bodyLen ++ (s.drop (o + pl)).take dl ++ s.drop (bodyLen + dl)
      if dl = 0 then (s, o + (pl + dl + 2), bodyLen + dl)
      else join fuel s (o + (pl + dl + 2)) (bodyLen + dl)
    | _ => (s, o, bodyLen)

/-- The conversion `%lx`. -/
def hex (n : Nat) : Bytes := (Nat.toDigits 16 n).map fun c => UInt8.ofNat c.toNat

def crlf : Bytes := [13, 10]

/-- `mg_http_write_chunk` -/
def mgHttpWriteChunk (buf : Bytes) : Bytes := hex buf.length ++ crlf ++ (buf ++ crlf)

/-- A body in chunks, with the empty chunk that ends it. -/
def chunked (chunks : List Bytes) : Bytes :=
  chunks.flatMap mgHttpWriteChunk ++ mgHttpWriteChunk []

section Numerals

private theorem digit_byte : ∀ d < 16, isHexDigit (UInt8.ofNat d.digitChar.toNat) = true ∧
    hexDigit (UInt8.ofNat d.digitChar.toNat) = d := by decide

private theorem hex_small {n : Nat} (h : n < 16) : hex n = [UInt8.ofNat n.digitChar.toNat] := by
  rw [hex, Nat.toDigits_of_lt_base h]
  rfl

private theorem hex_large {n : Nat} (h : 16 ≤ n) :
    hex n = hex (n / 16) ++ [UInt8.ofNat (n % 16).digitChar.toNat] := by
  rw [hex, Nat.toDigits_of_base_le (by decide) h, List.map_append]
  rfl

private theorem hex_digits (n : Nat) : ∀ c ∈ hex n, isHexDigit c = true := by
  induction n using Nat.strongRecOn with
  | ind n ih =>
    intro c hc
    by_cases h : n < 16
    · rw [hex_small h, List.mem_singleton] at hc
      rw [hc]
      exact (digit_byte n h).1
    · rw [hex_large (Nat.le_of_not_lt h), List.mem_append, List.mem_singleton] at hc
      rcases hc with hc | rfl
      · exact ih (n / 16) (by omega) c hc
      · exact (digit_byte (n % 16) (by omega)).1

private theorem hex_ne_nil (n : Nat) : hex n ≠ [] := by
  rw [hex, ne_eq, List.map_eq_nil_iff]
  exact Nat.toDigits_ne_nil

private theorem hex_length_le {n : Nat} (h : n < 2 ^ 31) : (hex n).length ≤ 8 := by
  rw [hex, List.length_map]
  exact (Nat.length_toDigits_le_iff (by decide) (by decide)).mpr (by omega)

/-- What the digits are worth. -/
def hexValue (r : Nat) (s : Bytes) : Nat := s.foldl (fun r c => r * 16 + hexDigit c) r

private theorem le_hexValue (r : Nat) (s : Bytes) : r ≤ hexValue r s := by
  induction s generalizing r with
  | nil => exact Nat.le_refl r
  | cons c s ih =>
    have := ih (r * 16 + hexDigit c)
    rw [hexValue, List.foldl_cons]
    exact Nat.le_trans (by omega) this

private theorem hexValue_hex (n : Nat) : hexValue 0 (hex n) = n := by
  induction n using Nat.strongRecOn with
  | ind n ih =>
    by_cases h : n < 16
    · rw [hex_small h, hexValue, List.foldl_cons, List.foldl_nil, (digit_byte n h).2]
      omega
    · have hrest := ih (n / 16) (by omega)
      rw [hexValue] at hrest
      rw [hex_large (Nat.le_of_not_lt h), hexValue, List.foldl_append, hrest, List.foldl_cons,
        List.foldl_nil, (digit_byte (n % 16) (by omega)).2]
      omega

/-- The checks for overflow stop no number that fits. -/
private theorem hexLoop_value {s : Bytes} {r : Nat} (digits : ∀ c ∈ s, isHexDigit c = true)
    (fits : hexValue r s ≤ 0xFFFFFFFF) : hexLoop r s = some (hexValue r s) := by
  induction s generalizing r with
  | nil => rfl
  | cons c s ih =>
    have hc := digits c List.mem_cons_self
    rw [hexValue, List.foldl_cons] at fits
    have hle := le_hexValue (r * 16 + hexDigit c) s
    rw [hexValue] at hle
    rw [hexLoop, hc, if_neg (by decide), if_neg (by omega), if_neg (by omega),
      ih (fun d hd => digits d (List.mem_cons_of_mem c hd)) fits]
    rfl

private theorem mgStrToNum_hex {n : Nat} (h : n < 2 ^ 31) : mgStrToNum (hex n) = some n := by
  have hvalue := hexValue_hex n
  rw [mgStrToNum, if_neg (hex_ne_nil n), hexLoop_value (hex_digits n) (by omega), hvalue]

end Numerals

section Chunks

variable {b rest q : Bytes}

/-- The digits at the front are the ones of the length. -/
private theorem takeWhile_hex (n : Nat) {rest : Bytes} (h : ∀ c ∈ rest.head?, isHexDigit c = false) :
    (hex n ++ rest).takeWhile isHexDigit = hex n := by
  rw [List.takeWhile_append_of_pos (hex_digits n)]
  cases rest with
  | nil => rw [List.takeWhile_nil, List.append_nil]
  | cons c rest => rw [List.takeWhile_cons_of_neg (by rw [h c rfl]; decide), List.append_nil]

theorem writeChunk_length (b : Bytes) :
    (mgHttpWriteChunk b).length = (hex b.length).length + 2 + b.length + 2 := by
  simp only [mgHttpWriteChunk, crlf, List.length_append, List.length_cons, List.length_nil]
  omega

/-- The front of a chunk, once its first line is there. -/
private theorem line_there {n : Nat} (hn : n < 2 ^ 31) (rest : Bytes) :
    skipChunk (hex n ++ crlf ++ rest) =
      if rest.length < n + 2 then .more
      else if rest.getD n 0 ≠ 13 ∨ rest.getD (n + 1) 0 ≠ 10 then .error
      else .chunk ((hex n).length + 2) n := by
  have hpos : 0 < (hex n).length := List.length_pos_of_ne_nil (hex_ne_nil n)
  have height := hex_length_le hn
  have hdigits : (hex n ++ crlf ++ rest).takeWhile isHexDigit = hex n := by
    rw [List.append_assoc]
    refine takeWhile_hex n fun c hc => ?_
    obtain rfl := Option.some.inj hc
    decide
  have hlen : (hex n ++ crlf ++ rest).length = (hex n).length + 2 + rest.length := by
    simp only [crlf, List.length_append, List.length_cons, List.length_nil]
  have hget : ∀ j, (hex n ++ crlf ++ rest).getD ((hex n).length + j) 0 = (crlf ++ rest).getD j 0 := by
    intro j
    rw [List.append_assoc, List.getD_append_right _ _ _ _ (Nat.le_add_right _ _),
      Nat.add_sub_cancel_left]
  have hcr := hget 0
  have hlf := hget 1
  have hend := hget (n + 2)
  have hend' := hget (n + 3)
  rw [skipChunk]
  simp only [hdigits]
  rw [hlen, if_neg (by omega), if_neg (by omega), if_neg (by omega), List.append_assoc,
    List.take_left, mgStrToNum_hex hn, ← List.append_assoc]
  rw [Nat.add_zero] at hcr
  rw [hcr, hlf, if_neg]
  · dsimp only
    rw [if_neg (by omega), show (hex n).length + n + 2 = (hex n).length + (n + 2) by omega,
      show (hex n).length + n + 3 = (hex n).length + (n + 3) by omega, hend, hend']
    by_cases hmore : rest.length < n + 2
    · rw [if_pos hmore, if_pos (by omega)]
    · rw [if_neg hmore, if_neg (by omega)]
      rfl
  · rintro (h | h | h)
    · omega
    · exact h rfl
    · exact h rfl

/-- A chunk that is there is found with its data. -/
private theorem skipChunk_written (hb : b.length < 2 ^ 31) (rest : Bytes) :
    skipChunk (mgHttpWriteChunk b ++ rest) = .chunk ((hex b.length).length + 2) b.length := by
  have hget : ∀ j, ((b ++ crlf) ++ rest).getD (b.length + j) 0 = (crlf ++ rest).getD j 0 := by
    intro j
    rw [List.append_assoc, List.getD_append_right _ _ _ _ (Nat.le_add_right _ _),
      Nat.add_sub_cancel_left]
  have hcr := hget 0
  have hlf := hget 1
  rw [Nat.add_zero] at hcr
  rw [mgHttpWriteChunk, List.append_assoc, line_there hb, if_neg, if_neg]
  · rw [hcr, hlf]
    rintro (h | h)
    · exact h rfl
    · exact h rfl
  · simp only [crlf, List.length_append, List.length_cons, List.length_nil]
    omega

/-- Of a chunk that ends within its first line, three bytes are too many. -/
private theorem skipChunk_cut (hb : b.length < 2 ^ 31) (hq : q <+: mgHttpWriteChunk b)
    (hshort : q.length < (mgHttpWriteChunk b).length) :
    skipChunk q = if 3 ≤ q.length ∧ q.length < (hex b.length).length + 2 then .error else .more := by
  have height := hex_length_le hb
  have hline : hex b.length ++ crlf <+: mgHttpWriteChunk b := List.prefix_append _ _
  have hlinelen : (hex b.length ++ crlf).length = (hex b.length).length + 2 := List.length_append
  by_cases hlong : (hex b.length).length + 2 ≤ q.length
  · -- the first line is there, and the data is not
    obtain ⟨rest, rfl⟩ := List.prefix_of_prefix_length_le hline hq (by omega)
    rw [List.length_append, hlinelen] at hshort hlong
    rw [writeChunk_length] at hshort
    rw [line_there hb, if_pos (by omega), if_neg]
    rw [List.length_append, hlinelen]
    omega
  · by_cases hthree : q.length < 3
    · rw [skipChunk, if_pos hthree, if_neg (by omega)]
    · rw [if_pos ⟨by omega, by omega⟩]
      have hqline : q <+: hex b.length ++ crlf :=
        List.prefix_of_prefix_length_le hq hline (by omega)
      rw [skipChunk, if_neg hthree]
      by_cases hdigits : q.length ≤ (hex b.length).length
      · have hqhex : q <+: hex b.length :=
          List.prefix_of_prefix_length_le hqline (List.prefix_append _ _) hdigits
        have hall : q.takeWhile isHexDigit = q :=
          List.takeWhile_eq_self_iff.mpr fun c hc => hex_digits _ c (hqhex.subset hc)
        rw [hall, if_neg (by omega), if_neg (by omega), if_pos (Or.inl (Nat.lt_succ_self _))]
      · -- all but the last byte of the line
        have hqeq : q = hex b.length ++ [13] := by
          have htake := List.prefix_iff_eq_take.mp hqline
          rw [htake, show q.length = (hex b.length).length + 1 by omega, List.take_length_add_append]
          rfl
        have hwhile : q.takeWhile isHexDigit = hex b.length := by
          rw [hqeq]
          refine takeWhile_hex _ fun c hc => ?_
          obtain rfl := Option.some.inj hc
          decide
        have hpos : 0 < (hex b.length).length := List.length_pos_of_ne_nil (hex_ne_nil _)
        have hbeyond : q.getD ((hex b.length).length + 1) 0 = 0 := by
          rw [List.getD_eq_default _ _ (by omega)]
        rw [hwhile, if_neg (by omega), if_neg (by omega), if_pos]
        rw [hbeyond]
        exact Or.inr (Or.inr (by decide))

end Chunks

section Bodies

/-- The chunks that carry data. -/
def Carried (chunks : List Bytes) : Prop := ∀ b ∈ chunks, b ≠ [] ∧ b.length < 2 ^ 31

/-- Whether a body of which this many bytes are there ends within the first line of a chunk, with
at least three bytes of it. -/
def cutInLine : List Bytes → Nat → Bool
  | [], _ => false
  | b :: bs, n =>
    if (mgHttpWriteChunk b).length ≤ n then cutInLine bs (n - (mgHttpWriteChunk b).length)
    else 3 ≤ n && n < (hex b.length).length + 2

variable {s rest : Bytes} {chunks : List Bytes} {o : Nat}

/-- The search passes a chunk with data. -/
private theorem findEnd_step {b tail : Bytes} (hb : b ≠ []) (hlen : b.length < 2 ^ 31)
    (at_ : s.drop o = mgHttpWriteChunk b ++ tail) (fuel : Nat) :
    findEnd s (fuel + 1) o = findEnd s fuel (o + (mgHttpWriteChunk b).length) := by
  have hne : b.length ≠ 0 := fun h => hb (List.length_eq_zero_iff.mp h)
  rw [findEnd, at_, skipChunk_written hlen]
  dsimp only
  rw [if_neg hne, writeChunk_length]

/-- Behind chunks that are there the search goes on. -/
private theorem drop_chunk {b tail : Bytes} (at_ : s.drop o = mgHttpWriteChunk b ++ tail) :
    s.drop (o + (mgHttpWriteChunk b).length) = tail := by
  rw [← List.drop_drop, at_, List.drop_left]

/-- The end of a body that is there is found. -/
theorem findEnd_there (carried : Carried chunks) (at_ : s.drop o = chunked chunks ++ rest) (k : Nat) :
    findEnd s (chunks.length + 1 + k) o = .chunk 3 0 := by
  induction chunks generalizing o with
  | nil =>
    have hwritten := skipChunk_written (b := []) (by decide) rest
    rw [show ([] : List Bytes).length + 1 + k = k + 1 by rw [List.length_nil]; omega, findEnd, at_]
    change (match skipChunk (mgHttpWriteChunk [] ++ rest) with | .chunk pl dl => _ | r => r) = _
    rw [hwritten]
    rfl
  | cons b chunks ih =>
    obtain ⟨hb, hlen⟩ := carried b List.mem_cons_self
    rw [chunked, List.flatMap_cons, List.append_assoc, List.append_assoc] at at_
    rw [List.length_cons, show chunks.length + 1 + 1 + k = chunks.length + 1 + k + 1 by omega,
      findEnd_step hb hlen at_]
    refine ih (fun c hc => carried c (List.mem_cons_of_mem b hc)) ?_
    rw [drop_chunk at_, chunked, List.append_assoc]

/-- Of a body that is not there to its end, the search waits for more, but refuses it where it ends
within the first line of a chunk with at least three bytes of the line. -/
theorem findEnd_cut (carried : Carried chunks) {p : Bytes} (at_ : s.drop o = p)
    (hp : p <+: chunked chunks) (short : p.length < (chunked chunks).length) {fuel : Nat}
    (enough : p.length < fuel) :
    findEnd s fuel o = if cutInLine chunks p.length then .error else .more := by
  induction chunks generalizing o p fuel with
  | nil =>
    obtain ⟨k, rfl⟩ : ∃ k, fuel = k + 1 := ⟨fuel - 1, by omega⟩
    have hcut := skipChunk_cut (b := []) (by decide) hp short
    have hone : (hex ([] : Bytes).length).length = 1 := by decide
    rw [hone, if_neg (by omega)] at hcut
    rw [findEnd, at_, hcut]
    rfl
  | cons b chunks ih =>
    obtain ⟨hb, hlen⟩ := carried b List.mem_cons_self
    obtain ⟨k, rfl⟩ : ∃ k, fuel = k + 1 := ⟨fuel - 1, by omega⟩
    have htotal := writeChunk_length b
    have hsplit : chunked (b :: chunks) = mgHttpWriteChunk b ++ chunked chunks := by
      rw [chunked, List.flatMap_cons, List.append_assoc]
      rfl
    rw [hsplit] at hp
    rw [hsplit, List.length_append] at short
    rw [cutInLine]
    by_cases hwhole : (mgHttpWriteChunk b).length ≤ p.length
    · obtain ⟨tail, rfl⟩ := List.prefix_of_prefix_length_le (List.prefix_append _ _) hp hwhole
      rw [List.length_append] at short enough
      rw [if_pos hwhole, findEnd_step hb hlen at_, List.length_append, Nat.add_sub_cancel_left]
      exact ih (fun c hc => carried c (List.mem_cons_of_mem b hc)) (drop_chunk at_)
        ((List.prefix_append_right_inj _).mp hp) (by omega) (by omega)
    · have hpb : p <+: mgHttpWriteChunk b :=
        List.prefix_of_prefix_length_le hp (List.prefix_append _ _) (by omega)
      rw [if_neg hwhole, findEnd, at_, skipChunk_cut hlen hpb (by omega)]
      by_cases hline : 3 ≤ p.length ∧ p.length < (hex b.length).length + 2
      · rw [if_pos hline, if_pos (by simpa using hline)]
      · rw [if_neg hline, if_neg (by simpa using hline)]

/-- The chunks are joined in place: the data of all chunks stands at the front, and the buffer behind
it is as it was. -/
theorem join_there (carried : Carried chunks) {front : Bytes} (hfront : s.take front.length = front)
    (hle : front.length ≤ o) (at_ : s.drop o = chunked chunks ++ rest) (k : Nat) :
    join (chunks.length + 1 + k) s o front.length =
      (front ++ chunks.flatten ++ s.drop (front.length + chunks.flatten.length),
        o + (chunked chunks).length, front.length + chunks.flatten.length) := by
  induction chunks generalizing s o front with
  | nil =>
    have hwritten := skipChunk_written (b := []) (by decide) rest
    have hchunked : chunked [] = mgHttpWriteChunk [] := rfl
    rw [hchunked] at at_
    rw [show ([] : List Bytes).length + 1 + k = k + 1 by rw [List.length_nil]; omega, join, at_,
      hwritten, hchunked]
    dsimp only [List.flatten_nil, List.length_nil]
    rw [if_pos rfl, List.take_zero, hfront, writeChunk_length]
    rfl
  | cons b chunks ih =>
    obtain ⟨hb, hlen⟩ := carried b List.mem_cons_self
    have hne : b.length ≠ 0 := fun h => hb (List.length_eq_zero_iff.mp h)
    have hsplit : chunked (b :: chunks) = mgHttpWriteChunk b ++ chunked chunks := by
      rw [chunked, List.flatMap_cons, List.append_assoc]
      rfl
    rw [hsplit, List.append_assoc] at at_
    have hdata : (s.drop (o + ((hex b.length).length + 2))).take b.length = b := by
      have hline : ((hex b.length).length + 2) = (hex b.length ++ crlf).length := by
        rw [List.length_append]
        rfl
      rw [← List.drop_drop, at_, mgHttpWriteChunk, List.append_assoc, hline, List.drop_left,
        List.append_assoc, List.take_left]
    have hlong : o + (mgHttpWriteChunk b).length ≤ s.length := by
      have := congrArg List.length at_
      rw [List.length_drop, List.length_append, List.length_append] at this
      have hpos := writeChunk_length b
      omega
    -- behind the data that has been moved nothing changes
    have hdrop : ∀ n, front.length + b.length ≤ n →
        (front ++ b ++ s.drop (front.length + b.length)).drop n = s.drop n := by
      intro n hn
      obtain ⟨m, rfl⟩ := Nat.exists_eq_add_of_le hn
      rw [← List.length_append, ← List.drop_drop, List.drop_left, List.drop_drop]
    have htotal := writeChunk_length b
    have hmoved : (front ++ b ++ s.drop (front.length + b.length)).take (front ++ b).length =
        front ++ b := List.take_left
    have hnext := ih (o := o + (mgHttpWriteChunk b).length)
      (fun c hc => carried c (List.mem_cons_of_mem b hc)) hmoved
      (by rw [List.length_append]; omega)
      (by rw [hdrop _ (by omega), drop_chunk at_])
    rw [List.length_append] at hnext
    rw [List.length_cons, show chunks.length + 1 + 1 + k = chunks.length + 1 + k + 1 by omega, join, at_,
      skipChunk_written hlen]
    dsimp only
    rw [if_neg hne, hfront, hdata, show (hex b.length).length + 2 + b.length + 2 =
      (mgHttpWriteChunk b).length by omega, hnext, hdrop _ (by omega), hsplit]
    simp only [List.flatten_cons, List.length_append, List.append_assoc, Nat.add_assoc]

end Bodies

end Cyctron.Http.Chunked
