/- Cyctron/Text/Utf8
   digest: The decoder of UTF-8 that replaces what it cannot read, over a stream cut into chunks. -/

import Cyctron.Json.Text

set_option autoImplicit false
set_option relaxedAutoImplicit false

namespace Cyctron.Text.Utf8

open Cyctron.Base.CString (Bytes)
open Cyctron.Json.Text (utf8)

/-- The bytes of a character that are still to come, its value so far, and the bounds of the next
byte. -/
structure Decoder where
  needed : Nat
  code : Nat
  lower : Nat
  upper : Nat
  deriving DecidableEq

/-- The decoder between two characters. -/
def between : Decoder := ⟨0, 0, 128, 191⟩

/-- What stands for bytes that are no character. -/
def replacement : Char := Char.ofNat 65533

/-- The first byte of a character. -/
def lead (b : Nat) : Decoder × List Char :=
  if b < 128 then (between, [Char.ofNat b])
  else if 194 ≤ b ∧ b ≤ 223 then (⟨1, b - 192, 128, 191⟩, [])
  else if 224 ≤ b ∧ b ≤ 239 then
    (⟨2, b - 224, if b = 224 then 160 else 128, if b = 237 then 159 else 191⟩, [])
  else if 240 ≤ b ∧ b ≤ 244 then
    (⟨3, b - 240, if b = 240 then 144 else 128, if b = 244 then 143 else 191⟩, [])
  else (between, [replacement])

/-- A byte that cannot go on with a character is looked at once more as the first of the next. -/
def step (s : Decoder) (b : Nat) : Decoder × List Char :=
  if s.needed = 0 then lead b
  else if b < s.lower ∨ s.upper < b then ((lead b).1, replacement :: (lead b).2)
  else
    let code := s.code * 64 + (b - 128)
    if s.needed = 1 then (between, [Char.ofNat code]) else (⟨s.needed - 1, code, 128, 191⟩, [])

def decode : Decoder → Bytes → Decoder × List Char
  | s, [] => (s, [])
  | s, b :: bs =>
    let r := step s b.toNat
    let q := decode r.1 bs
    (q.1, r.2 ++ q.2)

/-- What the end of the bytes, or a byte of ASCII, makes of an unfinished character. -/
def flush (s : Decoder) : List Char := if s.needed = 0 then [] else [replacement]

/-- The text of bytes on their own. -/
def text (bs : Bytes) : List Char :=
  let r := decode between bs
  r.2 ++ flush r.1

/-- The mark that is dropped at the start of a stream. -/
def byteOrderMark : Char := Char.ofNat 65279

/-- A decoder that is handed chunks, and whether it has given a character already. -/
structure TextDecoder where
  decoder : Decoder
  started : Bool
  deriving DecidableEq

def TextDecoder.fresh : TextDecoder := ⟨between, false⟩

/-- The characters of a chunk, without the mark when they are the first ones. -/
def TextDecoder.decode (d : TextDecoder) (chunk : Bytes) : TextDecoder × List Char :=
  let r := Utf8.decode d.decoder chunk
  (⟨r.1, d.started || !r.2.isEmpty⟩,
    if d.started = false ∧ r.2.head? = some byteOrderMark then r.2.drop 1 else r.2)

/-- The encoding of a text. -/
def encode (t : List Char) : Bytes := t.flatMap fun c => utf8 c.toNat

section Streams

variable {s : Decoder} {b n : Nat} {bs cs : Bytes} {t : List Char}

/-- The chunks in which bytes come do not matter. -/
theorem decode_append (s : Decoder) (bs cs : Bytes) : decode s (bs ++ cs) =
    ((decode (decode s bs).1 cs).1, (decode s bs).2 ++ (decode (decode s bs).1 cs).2) := by
  induction bs generalizing s with
  | nil => rfl
  | cons b bs ih =>
    rw [List.cons_append, decode, decode, ih]
    simp only [List.append_assoc]

/-- The least value that the character can have, and the first that is too much. -/
def Decoder.least (s : Decoder) : Nat := (s.code * 64 + (s.lower - 128)) * 64 ^ (s.needed - 1)

def Decoder.limit (s : Decoder) : Nat := (s.code * 64 + (s.upper - 128) + 1) * 64 ^ (s.needed - 1)

/-- What the decoder keeps: the character will be a scalar value beyond ASCII. -/
structure Sound (s : Decoder) : Prop where
  short : s.needed ≤ 3
  lower : 128 ≤ s.lower
  high : s.needed ≠ 0 → 128 ≤ s.least
  scalar : s.needed ≠ 0 → s.limit ≤ 55296 ∨ 57344 ≤ s.least ∧ s.limit ≤ 1114112

theorem sound_between : Sound between := by
  constructor <;> simp [between]

theorem sound_lead (b : Nat) : Sound (lead b).1 := by
  unfold lead
  split_ifs <;> constructor <;> simp only [between, Decoder.least, Decoder.limit] <;> omega

theorem Sound.step (h : Sound s) (b : Nat) : Sound (step s b).1 := by
  obtain ⟨hshort, hlower, hhigh, hscalar⟩ := h
  unfold Utf8.step
  split_ifs with hnone hbad hone
  · exact sound_lead b
  · exact sound_lead b
  · exact sound_between
  · have hlength : s.needed = 2 ∨ s.needed = 3 := by omega
    have hleast := hhigh hnone
    have hlimit := hscalar hnone
    simp only [Decoder.least, Decoder.limit] at hleast hlimit
    rcases hlength with hlength | hlength <;> rw [hlength] at hleast hlimit <;>
      constructor <;> simp only [hlength, Decoder.least, Decoder.limit] <;> omega

theorem sound_decode (h : Sound s) (bs : Bytes) : Sound (decode s bs).1 := by
  induction bs generalizing s with
  | nil => exact h
  | cons b bs ih => exact ih (h.step b.toNat)

/-- A byte of ASCII ends what is unfinished, and stands for itself. -/
theorem step_ascii (h : Sound s) (hb : b < 128) :
    step s b = (between, flush s ++ [Char.ofNat b]) := by
  have hlead : lead b = (between, [Char.ofNat b]) := if_pos hb
  unfold step flush
  by_cases hnone : s.needed = 0
  · rw [if_pos hnone, if_pos hnone, hlead]
    rfl
  · have hlow : b < s.lower := Nat.lt_of_lt_of_le hb h.lower
    rw [if_neg hnone, if_neg hnone, if_pos (Or.inl hlow), hlead]
    rfl

/-- What stands before a byte of ASCII is decoded as if it stood on its own. -/
theorem decode_ascii {c : UInt8} (hc : c.toNat < 128) (bs cs : Bytes) :
    decode between (bs ++ c :: cs) = ((decode between cs).1,
      text bs ++ Char.ofNat c.toNat :: (decode between cs).2) := by
  have hsound := sound_decode sound_between bs
  rw [decode_append, decode, step_ascii hsound hc]
  simp [text]

/-- Bytes of ASCII. -/
theorem decode_plain (h : ∀ c ∈ bs, c.toNat < 128) (cs : Bytes) :
    decode between (bs ++ cs) = ((decode between cs).1,
      bs.map (fun c => Char.ofNat c.toNat) ++ (decode between cs).2) := by
  induction bs with
  | nil => rfl
  | cons c bs ih =>
    have hstep : step between c.toNat = (between, [Char.ofNat c.toNat]) :=
      step_ascii sound_between (h c List.mem_cons_self)
    rw [List.cons_append, decode, hstep, ih fun c hc => h c (List.mem_cons_of_mem _ hc)]
    rfl

theorem text_plain (h : ∀ c ∈ bs, c.toNat < 128) : text bs = bs.map fun c => Char.ofNat c.toNat := by
  have hdecode := decode_plain h []
  rw [List.append_nil] at hdecode
  rw [text, hdecode]
  simp [decode, flush, between]

theorem toNat_ofNat (h : n.isValidChar) : (Char.ofNat n).toNat = n := by
  rw [Char.ofNat, dif_pos h]
  rfl

/-- A character of ASCII comes from the byte itself. -/
theorem step_low {c : Char} (h : Sound s) (hc : c ∈ (step s b).2) (hlow : c.toNat < 128) :
    c.toNat = b := by
  have hreplacement : c ≠ replacement := by
    rintro rfl
    exact absurd hlow (by decide)
  have hlead : ∀ {c : Char}, c ∈ (lead b).2 → c.toNat < 128 → c.toNat = b := by
    intro c hc hlow
    unfold lead at hc
    split at hc
    · obtain rfl := List.mem_singleton.mp hc
      exact toNat_ofNat (Or.inl (by omega))
    split at hc
    · cases hc
    split at hc
    · cases hc
    split at hc
    · cases hc
    · obtain rfl := List.mem_singleton.mp hc
      exact absurd hlow (by decide)
  unfold step at hc
  split_ifs at hc with hnone hbad hone
  · exact hlead hc hlow
  · rcases List.mem_cons.mp hc with hc | hc
    · exact absurd hc hreplacement
    · exact hlead hc hlow
  · simp only [List.mem_singleton] at hc
    have hleast := h.high hnone
    have hlimit := h.scalar hnone
    simp only [Decoder.least, Decoder.limit, hone] at hleast hlimit
    have hvalid : (s.code * 64 + (b - 128)).isValidChar := by
      unfold Nat.isValidChar
      omega
    rw [hc, toNat_ofNat hvalid] at hlow
    omega
  · cases hc

theorem decode_low {c : Char} (h : Sound s) (hc : c ∈ (decode s bs).2) (hlow : c.toNat < 128) :
    ∃ b ∈ bs, b.toNat = c.toNat := by
  induction bs generalizing s with
  | nil => cases hc
  | cons b bs ih =>
    rw [decode] at hc
    rcases List.mem_append.mp hc with hc | hc
    · exact ⟨b, List.mem_cons_self, (step_low h hc hlow).symm⟩
    · obtain ⟨b', hb', heq⟩ := ih (h.step b.toNat) hc
      exact ⟨b', List.mem_cons_of_mem b hb', heq⟩

theorem text_low {c : Char} (hc : c ∈ text bs) (hlow : c.toNat < 128) :
    ∃ b ∈ bs, b.toNat = c.toNat := by
  rw [text] at hc
  rcases List.mem_append.mp hc with hc | hc
  · exact decode_low sound_between hc hlow
  · unfold flush at hc
    split at hc
    · cases hc
    · obtain rfl := List.mem_singleton.mp hc
      exact absurd hlow (by decide)

/-- A byte of ASCII that is not there gives no character. -/
theorem text_notMem {c : UInt8} (hc : c.toNat < 128) (h : c ∉ bs) :
    Char.ofNat c.toNat ∉ text bs := by
  intro hmem
  have hcode : (Char.ofNat c.toNat).toNat = c.toNat :=
    toNat_ofNat (Or.inl (Nat.lt_trans hc (by decide)))
  obtain ⟨b, hb, heq⟩ := text_low hmem (hcode.symm ▸ hc)
  have hbyte : b = c := UInt8.toNat_inj.mp (heq.trans hcode)
  exact h (hbyte ▸ hb)

theorem step_between (b : Nat) : step between b = lead b := rfl

/-- A byte that goes on with a character. -/
theorem step_tail {x : Nat} (hneeded : s.needed ≠ 0) (hlower : s.lower ≤ 128 + x)
    (hupper : 128 + x ≤ s.upper) : step s (128 + x) =
      if s.needed = 1 then (between, [Char.ofNat (s.code * 64 + x)])
      else (⟨s.needed - 1, s.code * 64 + x, 128, 191⟩, []) := by
  have hinside : ¬(128 + x < s.lower ∨ s.upper < 128 + x) := by omega
  rw [step, if_neg hneeded, if_neg hinside, Nat.add_sub_cancel_left]

/-- A character is decoded from its encoding. -/
theorem decode_char (c : Char) (cs : Bytes) : decode between (utf8 c.toNat ++ cs) =
    ((decode between cs).1, c :: (decode between cs).2) := by
  have hvalid : c.toNat.isValidChar := c.valid
  have hchar : Char.ofNat c.toNat = c := Char.ofNat_toNat c
  generalize c.toNat = n at hvalid hchar
  have hbyte : ∀ k, k < 256 → (UInt8.ofNat k).toNat = k := by
    intro k hk
    simp [UInt8.toNat_ofNat', Nat.mod_eq_of_lt hk]
  have hmiddle : ∀ k m x v lower upper, lower ≤ 128 + x → 128 + x ≤ upper → m * 64 + x = v →
      step ⟨k + 2, m, lower, upper⟩ (128 + x) = (⟨k + 1, v, 128, 191⟩, []) := by
    rintro k m x v lower upper hlower hupper rfl
    rw [step_tail (Nat.succ_ne_zero _) hlower hupper, if_neg (by dsimp only; omega)]
    rfl
  have hlast : step ⟨1, n / 64, 128, 191⟩ (128 + n % 64) = (between, [c]) := by
    rw [step_tail Nat.one_ne_zero (by dsimp only; omega) (by dsimp only; omega), if_pos rfl,
      show n / 64 * 64 + n % 64 = n by omega, hchar]
  unfold Nat.isValidChar at hvalid
  unfold utf8
  split_ifs with h1 h2 h3
  · have hstep : step between n = (between, [c]) := by
      rw [step_ascii sound_between h1, hchar]
      rfl
    rw [List.singleton_append, decode, hbyte n (by omega), hstep]
    rfl
  · have hfirst : step between (192 + n / 64) = (⟨1, n / 64, 128, 191⟩, []) := by
      rw [step_between, lead, if_neg (by omega), if_pos (by omega), Nat.add_sub_cancel_left]
    simp only [List.cons_append, List.nil_append, decode]
    rw [hbyte _ (by omega), hbyte _ (by omega), hfirst, hlast]
    rfl
  · have hfirst : step between (224 + n / 4096) = (⟨2, n / 4096,
        if 224 + n / 4096 = 224 then 160 else 128,
        if 224 + n / 4096 = 237 then 159 else 191⟩, []) := by
      rw [step_between, lead, if_neg (by omega), if_neg (by omega), if_pos (by omega),
        Nat.add_sub_cancel_left]
    simp only [List.cons_append, List.nil_append, decode]
    rw [hbyte _ (by omega), hbyte _ (by omega), hbyte _ (by omega), hfirst,
      hmiddle 0 (n / 4096) (n / 64 % 64) (n / 64) _ _ (by split_ifs <;> omega)
        (by split_ifs <;> omega) (by omega), hlast]
    rfl
  · have hfirst : step between (240 + n / 262144) = (⟨3, n / 262144,
        if 240 + n / 262144 = 240 then 144 else 128,
        if 240 + n / 262144 = 244 then 143 else 191⟩, []) := by
      rw [step_between, lead, if_neg (by omega), if_neg (by omega), if_neg (by omega),
        if_pos (by omega), Nat.add_sub_cancel_left]
    simp only [List.cons_append, List.nil_append, decode]
    rw [hbyte _ (by omega), hbyte _ (by omega), hbyte _ (by omega), hbyte _ (by omega), hfirst,
      hmiddle 1 (n / 262144) (n / 4096 % 64) (n / 4096) _ _ (by split_ifs <;> omega)
        (by split_ifs <;> omega) (by omega),
      hmiddle 0 (n / 4096) (n / 64 % 64) (n / 64) _ _ (by omega) (by omega) (by omega), hlast]
    rfl

theorem text_encode (t : List Char) : text (encode t) = t := by
  have hdecode : decode between (encode t) = (between, t) := by
    induction t with
    | nil => rfl
    | cons c t ih =>
      change decode between (utf8 c.toNat ++ encode t) = _
      rw [decode_char, ih]
  rw [text, hdecode]
  simp [flush, between]

/-- Bytes of ASCII behind any others. -/
theorem text_append_plain (h : ∀ c ∈ cs, c.toNat < 128) :
    text (bs ++ cs) = text bs ++ cs.map fun c => Char.ofNat c.toNat := by
  cases cs with
  | nil => rw [List.append_nil, List.map_nil, List.append_nil]
  | cons c cs =>
    obtain ⟨hc, hcs⟩ := List.forall_mem_cons.mp h
    have hrest := text_plain hcs
    rw [text] at hrest
    rw [text, decode_ascii hc]
    dsimp only at hrest ⊢
    rw [List.append_assoc, List.cons_append, hrest, List.map_cons]

theorem step_quiet (h : (step s b).2 = []) : (step s b).1.needed ≠ 0 := by
  have hlead : (lead b).2 = [] → (lead b).1.needed ≠ 0 := by
    unfold lead
    split_ifs <;> simp
  unfold step at h ⊢
  split_ifs at h ⊢ with hnone hbad hone
  · exact hlead h
  · change s.needed - 1 ≠ 0
    omega

theorem text_ne_nil (h : bs ≠ []) : text bs ≠ [] := by
  obtain ⟨bs, b, rfl⟩ := List.eq_nil_or_concat bs |>.resolve_left h
  rw [List.concat_eq_append, text, decode_append]
  intro hnil
  obtain ⟨hout, hflush⟩ := List.append_eq_nil_iff.mp hnil
  have hlast : decode (decode between bs).1 [b] =
      ((step (decode between bs).1 b.toNat).1, (step (decode between bs).1 b.toNat).2 ++ []) := rfl
  rw [hlast, List.append_nil] at hout hflush
  have hneeded := step_quiet (List.append_eq_nil_iff.mp hout).2
  rw [flush, if_neg hneeded] at hflush
  cases hflush

/-- Behind the first byte of a character stand bytes beyond ASCII. -/
theorem utf8_tail (n : Nat) : utf8 n ≠ [] ∧ ∀ c ∈ (utf8 n).drop 1, 128 ≤ c.toNat := by
  have hbyte : ∀ k, 128 ≤ (UInt8.ofNat (128 + k % 64)).toNat := by
    intro k
    rw [UInt8.toNat_ofNat', Nat.mod_eq_of_lt (by omega)]
    omega
  unfold utf8
  split_ifs <;> refine ⟨List.cons_ne_nil _ _, ?_⟩ <;>
    simp only [List.drop_succ_cons, List.drop_zero, List.forall_mem_cons, hbyte, true_and] <;>
    intro c hc <;> cases hc

/-- An encoding is cut between two characters when ASCII follows. -/
theorem encode_split (h : encode t = bs ++ cs)
    (hcs : cs = [] ∨ ∃ c cs', cs = c :: cs' ∧ c.toNat < 128) :
    ∃ u v, t = u ++ v ∧ bs = encode u ∧ cs = encode v := by
  induction t generalizing bs with
  | nil =>
    obtain ⟨rfl, rfl⟩ := List.append_eq_nil_iff.mp h.symm
    exact ⟨[], [], rfl, rfl, rfl⟩
  | cons a t ih =>
    by_cases hnil : bs = []
    · subst hnil
      exact ⟨[], a :: t, rfl, rfl, h.symm⟩
    · have hshape : encode (a :: t) = utf8 a.toNat ++ encode t := rfl
      rw [hshape] at h
      obtain ⟨hne, htail⟩ := utf8_tail a.toNat
      have hwhole : utf8 a.toNat <+: bs := by
        have hstart : utf8 a.toNat <+: bs ++ cs := ⟨_, h⟩
        rcases List.prefix_or_prefix_of_prefix hstart (List.prefix_append bs cs) with
          hfront | ⟨r, hr⟩
        · exact hfront
        · rcases hcs with rfl | ⟨c, cs', rfl, hc⟩
          · rw [List.append_nil] at h
            exact ⟨_, h⟩
          · rw [← hr, List.append_assoc, List.append_cancel_left_eq] at h
            cases r with
            | nil =>
              rw [List.append_nil] at hr
              exact ⟨[], by rw [hr, List.append_nil]⟩
            | cons c' r =>
              obtain ⟨rfl, _⟩ := List.cons.inj h
              obtain ⟨b, bs, rfl⟩ := List.exists_cons_of_ne_nil hnil
              have hmem : c' ∈ (utf8 a.toNat).drop 1 := by
                rw [← hr]
                exact List.mem_append_right bs List.mem_cons_self
              exact absurd hc (Nat.not_lt.mpr (htail c' hmem))
      obtain ⟨bs, rfl⟩ := hwhole
      rw [List.append_assoc, List.append_cancel_left_eq] at h
      obtain ⟨u, v, rfl, rfl, hv⟩ := ih h
      exact ⟨a :: u, v, rfl, rfl, hv⟩

/-- The bytes are the encoding of some text. -/
def Valid (bs : Bytes) : Prop := ∃ t, bs = encode t

theorem valid_encode (t : List Char) : Valid (encode t) := ⟨t, rfl⟩

theorem encode_append (t u : List Char) : encode (t ++ u) = encode t ++ encode u :=
  List.flatMap_append

theorem Valid.append (h : Valid bs) (h' : Valid cs) : Valid (bs ++ cs) := by
  obtain ⟨t, rfl⟩ := h
  obtain ⟨u, rfl⟩ := h'
  exact ⟨t ++ u, (encode_append t u).symm⟩

theorem valid_plain (h : ∀ c ∈ bs, c.toNat < 128) : Valid bs := by
  induction bs with
  | nil => exact ⟨[], rfl⟩
  | cons c bs ih =>
    obtain ⟨hc, hbs⟩ := List.forall_mem_cons.mp h
    have hone : [c] = encode [Char.ofNat c.toNat] := by
      have hvalid : c.toNat.isValidChar := Or.inl (Nat.lt_of_lt_of_le hc (by decide))
      rw [encode, List.flatMap_singleton, toNat_ofNat hvalid, utf8, if_pos hc, UInt8.ofNat_toNat]
    have hfirst : Valid [c] := ⟨_, hone⟩
    exact hfirst.append (ih hbs)

theorem decode_encode (t : List Char) (cs : Bytes) : decode between (encode t ++ cs) =
    ((decode between cs).1, t ++ (decode between cs).2) := by
  induction t with
  | nil => rfl
  | cons c t ih =>
    have hcons : encode (c :: t) = utf8 c.toNat ++ encode t := rfl
    rw [hcons, List.append_assoc, decode_char, ih]
    rfl

/-- Behind whole characters, only the rest counts. -/
theorem valid_append_iff (h : Valid bs) : Valid (bs ++ cs) ↔ Valid cs := by
  refine ⟨fun hall => ?_, h.append⟩
  obtain ⟨u, rfl⟩ := h
  obtain ⟨t, ht⟩ := hall
  have htext : t = u ++ text cs := by
    rw [← text_encode t, ← ht, text, decode_encode, text]
    exact List.append_assoc _ _ _
  rw [htext, encode_append] at ht
  exact ⟨text cs, List.append_cancel_left ht⟩

theorem valid_iff_text : Valid bs ↔ encode (text bs) = bs := by
  constructor
  · rintro ⟨t, rfl⟩
    rw [text_encode]
  · intro h
    exact ⟨text bs, h.symm⟩

instance (bs : Bytes) : Decidable (Valid bs) := decidable_of_iff _ valid_iff_text.symm

/-- In front of ASCII, only whole characters can stand. -/
theorem valid_append_plain (h : ∀ c ∈ cs, c.toNat < 128) : Valid (bs ++ cs) ↔ Valid bs := by
  refine ⟨fun hall => ?_, fun hbs => hbs.append (valid_plain h)⟩
  obtain ⟨t, ht⟩ := hall
  have hcs : cs = [] ∨ ∃ c cs', cs = c :: cs' ∧ c.toNat < 128 := by
    cases cs with
    | nil => exact Or.inl rfl
    | cons c cs' => exact Or.inr ⟨c, cs', rfl, h c List.mem_cons_self⟩
  obtain ⟨u, v, -, hbs, -⟩ := encode_split ht.symm hcs
  exact ⟨u, hbs⟩

/-- Between two texts of ASCII, the bytes have to be valid on their own. -/
theorem valid_between {as : Bytes} (ha : ∀ c ∈ as, c.toNat < 128) (hc : ∀ c ∈ cs, c.toNat < 128) :
    Valid (as ++ (bs ++ cs)) ↔ Valid bs :=
  (valid_append_iff (valid_plain ha)).trans (valid_append_plain hc)

/-- The chunks do not matter to the mark either. -/
theorem TextDecoder.decode_append (d : TextDecoder) (bs cs : Bytes) : d.decode (bs ++ cs) =
    (((d.decode bs).1.decode cs).1, (d.decode bs).2 ++ ((d.decode bs).1.decode cs).2) := by
  unfold TextDecoder.decode
  dsimp only
  rw [Utf8.decode_append]
  dsimp only
  generalize Utf8.decode d.decoder bs = r
  generalize Utf8.decode r.1 cs = q
  obtain ⟨s, r⟩ := r
  cases d.started with
  | true => simp
  | false =>
    cases r with
    | nil => simp
    | cons c r =>
      by_cases hmark : c = byteOrderMark
      · simp [hmark]
      · simp [hmark]

/-- A stream that begins with no mark. -/
theorem TextDecoder.decode_fresh (h : (Utf8.decode between bs).2.head? ≠ some byteOrderMark) :
    (TextDecoder.fresh.decode bs).2 = (Utf8.decode between bs).2 := by
  unfold TextDecoder.decode TextDecoder.fresh
  dsimp only
  exact if_neg fun hmark => h hmark.2

end Streams

end Cyctron.Text.Utf8
