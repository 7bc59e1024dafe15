/- Cyctron/Mongoose/Strings
   digest: The reader decodes the strings whose escapes it knows, which are those that the escapers write. -/

import Cyctron.Json.Escape
import Cyctron.Mongoose.Object
import Mathlib.Data.List.TakeWhile

set_option autoImplicit false
set_option relaxedAutoImplicit false

namespace Cyctron.Mongoose.Strings

open Cyctron.Base.CString Cyctron.Json.Text Cyctron.Json.Build Cyctron.Json.Escape
open Cyctron.Mongoose.Json Cyctron.Mongoose.Object

variable {b h s : Bytes} {c x y : UInt8}

/-- The letters of the two-byte escapes that the reader knows: all but the slash. -/
def isKnown (c : UInt8) : Bool :=
  c = 34 || c = 92 || c = 98 || c = 102 || c = 110 || c = 114 || c = 116

/-- Contents of a string whose escapes stand for one byte that is not zero. -/
inductive Simple : Bytes → Prop
  | nil : Simple []
  | plain {c : UInt8} {b : Bytes} (printable : 32 ≤ c) (quote : c ≠ 34) (backslash : c ≠ 92)
      (rest : Simple b) : Simple (c :: b)
  | short {c : UInt8} {b : Bytes} (letter : isKnown c = true) (rest : Simple b) :
      Simple (92 :: c :: b)
  | unicode {x y : UInt8} {b : Bytes} (high : isHex x = true) (low : isHex y = true)
      (positive : 0 < hexNumber [x, y]) (ascii : hexNumber [x, y] < 128) (rest : Simple b) :
      Simple (92 :: 117 :: 48 :: 48 :: x :: y :: b)

private theorem unescape_skip : unescapeFrom b.length (b ++ s) = mgJsonUnescape s := by
  induction b with
  | nil => rfl
  | cons c b ih =>
    rw [List.length_cons, List.cons_append, unescapeFrom]
    exact ih

private theorem unescape_plain (hc : c ≠ 92) :
    mgJsonUnescape (c :: s) = (mgJsonUnescape s).map (c :: ·) := by
  rw [mgJsonUnescape, unescapeFrom, if_neg fun h => hc h.1, if_neg fun h => hc h.1]
  rfl

private theorem unescape_short (hc : c ≠ 117) (hne : jsonEsc c false ≠ 0) :
    mgJsonUnescape (92 :: c :: s) = (mgJsonUnescape s).map (jsonEsc c false :: ·) := by
  have hu : ¬((92 : UInt8) = 92 ∧ 5 ≤ (c :: s).length ∧ (c :: s).head? = some 117) := by
    rintro ⟨_, _, h⟩
    exact hc (Option.some.inj h)
  have hshort : (92 : UInt8) = 92 ∧ c :: s ≠ [] := ⟨rfl, List.cons_ne_nil c s⟩
  rw [mgJsonUnescape, unescapeFrom, if_neg hu, if_pos hshort, List.headD_cons, if_neg hne]
  rfl

private theorem unescape_hex (four : h.length = 4) : mgJsonUnescape (92 :: 117 :: (h ++ s)) =
    (hexByte 0 h).bind fun v => (mgJsonUnescape s).map (v :: ·) := by
  have hu : (92 : UInt8) = 92 ∧ 5 ≤ (117 :: (h ++ s)).length ∧ (117 :: (h ++ s)).head? = some 117 := by
    refine ⟨rfl, ?_, rfl⟩
    rw [List.length_cons, List.length_append]
    omega
  have htake : ((117 :: (h ++ s)).drop 1).take 4 = h := by
    rw [List.drop_one, List.tail_cons, ← four, List.take_left]
  have hskip : unescapeFrom 5 (117 :: (h ++ s)) = mgJsonUnescape s := by
    have hlength : 5 = (117 :: h).length := by rw [List.length_cons, four]
    rw [hlength]
    exact unescape_skip
  rw [mgJsonUnescape, unescapeFrom, if_pos hu, htake, hskip]
  cases hexByte 0 h with
  | none => rfl
  | some v => rfl

private theorem unescape_unicode {v : UInt8} (four : h.length = 4) (hv : hexByte 0 h = some v) :
    mgJsonUnescape (92 :: 117 :: (h ++ s)) = (mgJsonUnescape s).map (v :: ·) := by
  rw [unescape_hex four, hv, Option.bind_some]

theorem known_value (h : isKnown c = true) :
    isShort c = true ∧ c ≠ 117 ∧ jsonEsc c false = shortValue c ∧ shortValue c ≠ 0 := by
  simp only [isKnown, Bool.or_eq_true, decide_eq_true_eq] at h
  rcases h with (((((rfl | rfl) | rfl) | rfl) | rfl) | rfl) | rfl <;> decide

private theorem hexDigit_value (h : isHex c = true) :
    hexDigit c = some (hexValue c) ∧ hexValue c < 16 := by
  simp only [isHex, isDigit, Bool.or_eq_true, Bool.and_eq_true, decide_eq_true_eq,
    UInt8.le_iff_toNat_le, UInt8.reduceToNat] at h
  simp only [hexDigit, hexValue, isDigit, Bool.and_eq_true, decide_eq_true_eq,
    UInt8.le_iff_toNat_le, UInt8.reduceToNat]
  by_cases hdigit : 48 ≤ c.toNat ∧ c.toNat ≤ 57
  · rw [if_pos hdigit, if_pos hdigit]
    exact ⟨rfl, by omega⟩
  · rw [if_neg hdigit, if_neg hdigit]
    by_cases hupper : 65 ≤ c.toNat ∧ c.toNat ≤ 70
    · rw [if_pos hupper, if_pos hupper]
      exact ⟨rfl, by omega⟩
    · have hlower : 97 ≤ c.toNat ∧ c.toNat ≤ 102 := by omega
      rw [if_neg hupper, if_neg hupper, if_pos hlower]
      exact ⟨rfl, by omega⟩

private theorem hexByte_cons {n : Nat} (h : isHex c = true) (small : n < 16) :
    hexByte n (c :: s) = hexByte (n * 16 + hexValue c) s := by
  obtain ⟨hdigit, hlt⟩ := hexDigit_value h
  have hfits : ¬(255 / 16 < n ∨ 255 - hexValue c < n * 16) := by omega
  rw [hexByte, hdigit]
  dsimp only
  rw [if_neg hfits]

private theorem hexByte_pair (high : isHex x = true) (low : isHex y = true) :
    hexByte 0 [48, 48, x, y] = some (UInt8.ofNat (hexNumber [x, y])) := by
  have hzero : isHex 48 = true := by decide
  have hx := (hexDigit_value high).2
  have hvalue : hexValue 48 = 0 := by decide
  rw [hexByte_cons hzero (by decide), hvalue, hexByte_cons hzero (by decide), hvalue,
    hexByte_cons high (by decide), hexByte_cons low (by omega), hexByte]
  rfl

private theorem hexNumber_pair (high : isHex x = true) (low : isHex y = true) :
    hexNumber [x, y] < 256 := by
  have hx := (hexDigit_value high).2
  have hy := (hexDigit_value low).2
  change (0 * 16 + hexValue x) * 16 + hexValue y < 256
  omega

private theorem decode_pair (small : hexNumber [x, y] < 256) :
    decode (92 :: 117 :: 48 :: 48 :: x :: y :: b) = utf8 (hexNumber [x, y]) ++ decode b := by
  have hnumber : hexNumber [48, 48, x, y] = hexNumber [x, y] := rfl
  have hlow : ¬(55296 ≤ hexNumber [x, y] ∧ hexNumber [x, y] < 56320) := by omega
  have htake : ((117 :: 48 :: 48 :: x :: y :: b).drop 1).take 4 = [48, 48, x, y] := rfl
  rw [decode, decodeFrom, if_neg fun h => h rfl, if_neg fun h => h rfl, htake, hnumber]
  dsimp only
  rw [if_neg hlow]
  rfl

theorem decode_unicode (positive : hexNumber [x, y] < 128) :
    decode (92 :: 117 :: 48 :: 48 :: x :: y :: b) = UInt8.ofNat (hexNumber [x, y]) :: decode b := by
  have hutf : utf8 (hexNumber [x, y]) = [UInt8.ofNat (hexNumber [x, y])] := if_pos positive
  rw [decode_pair (Nat.lt_trans positive (by decide)), hutf]
  rfl

/-- The reader decodes such contents, and what it decodes is not cut short. -/
private theorem unescape_simple (h : Simple b) :
    mgJsonUnescape b = some (decode b) ∧ ∀ c ∈ decode b, c ≠ 0 := by
  induction h with
  | nil => exact ⟨rfl, fun c hc => absurd hc List.not_mem_nil⟩
  | @plain c b printable quote backslash rest ih =>
    have hc : c ≠ 0 := by
      rintro rfl
      exact absurd printable (by decide)
    rw [unescape_plain backslash, decode_plain backslash, ih.1]
    exact ⟨rfl, List.forall_mem_cons.mpr ⟨hc, ih.2⟩⟩
  | @short c b letter rest ih =>
    obtain ⟨_, hu, hvalue, hne⟩ := known_value letter
    rw [unescape_short hu (hvalue ▸ hne), decode_short hu, ih.1, hvalue]
    exact ⟨rfl, List.forall_mem_cons.mpr ⟨hne, ih.2⟩⟩
  | @unicode x y b high low positive ascii rest ih =>
    have hread : mgJsonUnescape (92 :: 117 :: ([48, 48, x, y] ++ b)) =
        (mgJsonUnescape b).map (UInt8.ofNat (hexNumber [x, y]) :: ·) :=
      unescape_unicode rfl (hexByte_pair high low)
    have hne : UInt8.ofNat (hexNumber [x, y]) ≠ 0 := by
      intro h
      have hnat := congrArg UInt8.toNat h
      rw [UInt8.toNat_ofNat'] at hnat
      have hmod : hexNumber [x, y] % 2 ^ 8 = hexNumber [x, y] := Nat.mod_eq_of_lt (by omega)
      rw [hmod] at hnat
      exact absurd hnat (Nat.ne_of_gt positive)
    rw [decode_unicode ascii]
    refine ⟨hread.trans ?_, List.forall_mem_cons.mpr ⟨hne, ih.2⟩⟩
    rw [ih.1]
    rfl

theorem body_simple (h : Simple b) : Body b := by
  induction h with
  | nil => exact .nil
  | plain printable quote backslash _ ih => exact .plain printable quote backslash ih
  | short letter _ ih => exact .short (known_value letter).1 ih
  | @unicode x y b high low _ _ _ ih =>
    have hzero : isHex 48 = true := by decide
    have hex : ∀ c ∈ [48, 48, x, y], isHex c = true := by
      simp only [List.forall_mem_cons]
      exact ⟨hzero, hzero, high, low, fun c hc => absurd hc List.not_mem_nil⟩
    exact Body.unicode (h := [48, 48, x, y]) rfl hex ih

/-- The reader and the grammar agree on a string with such contents. -/
theorem readString_quoted (h : Simple b) : readString (quoted b) = decodeString (quoted b) := by
  obtain ⟨hread, hne⟩ := unescape_simple h
  have hquoted : 1 < (quoted b).length ∧ (quoted b).head? = some 34 := by
    refine ⟨?_, rfl⟩
    simp [quoted]
  have hinner : ((quoted b).drop 1).take ((quoted b).length - 2) = b := by
    simp [quoted]
  have hstring : cString (decode b) = decode b := cString_plain fun hc => hne 0 hc rfl
  rw [readString, if_pos hquoted, hinner, hread, Option.map_some, hstring, decodeString_quoted]

section Exactly

/-- The reader's byte is the number of the four digits, and needs two of them only. -/
private theorem hexByte_four {v : UInt8} (four : h.length = 4) (hex : ∀ c ∈ h, isHex c = true)
    (hv : hexByte 0 h = some v) : ∃ x y, h = [48, 48, x, y] ∧ isHex x = true ∧ isHex y = true ∧
      v = UInt8.ofNat (hexNumber [x, y]) := by
  have hzero : ∀ {c : UInt8}, isHex c = true → hexValue c = 0 → c = 48 := by
    intro c hc hvalue
    simp only [isHex, isDigit, Bool.or_eq_true, Bool.and_eq_true, decide_eq_true_eq,
      UInt8.le_iff_toNat_le, UInt8.reduceToNat] at hc
    simp only [hexValue, isDigit, Bool.and_eq_true, decide_eq_true_eq, UInt8.le_iff_toNat_le,
      UInt8.reduceToNat] at hvalue
    split_ifs at hvalue
    · refine UInt8.toNat_inj.mp ?_
      change c.toNat = 48
      omega
    · omega
    · omega
  have hcons : ∀ {n : Nat} {c : UInt8} {s : Bytes}, isHex c = true → hexByte n (c :: s) = some v →
      n < 16 := by
    intro n c s hc hread
    rw [hexByte, (hexDigit_value hc).1] at hread
    dsimp only at hread
    split at hread
    · cases hread
    · rename_i hfits
      omega
  obtain ⟨a, b, x, y, rfl⟩ := List.length_eq_four.mp four
  simp only [List.forall_mem_cons] at hex
  obtain ⟨ha, hb, hx, hy, _⟩ := hex
  rw [hexByte_cons ha (by decide)] at hv
  have hfirst := hcons hb hv
  rw [hexByte_cons hb hfirst] at hv
  have hsecond := hcons hx hv
  rw [hexByte_cons hx hsecond] at hv
  have hthird := hcons hy hv
  obtain rfl : a = 48 := hzero ha (by omega)
  obtain rfl : b = 48 := hzero hb (by omega)
  have hvalue : hexValue 48 = 0 := by decide
  rw [hexByte_cons hy hthird, hexByte, hvalue] at hv
  exact ⟨x, y, rfl, hx, hy, (Option.some.inj hv).symm⟩

private theorem known_of_short (hc : isShort c = true) (hne : jsonEsc c false ≠ 0) :
    isKnown c = true := by
  simp only [isShort, Bool.or_eq_true, decide_eq_true_eq] at hc
  rcases hc with ((((((rfl | rfl) | rfl) | rfl) | rfl) | rfl) | rfl) | rfl
  · decide
  · decide
  · exact absurd rfl hne
  · decide
  · decide
  · decide
  · decide
  · decide

/-- What the reader decodes is no longer than what the contents stand for, and shorter, or cut by a zero
byte, where they have other escapes. -/
private theorem simple_of_read (hb : Body b) : ∀ s, mgJsonUnescape b = some s →
    s.length ≤ (decode b).length ∧ (s.length = (decode b).length → 0 ∉ s → Simple b) := by
  have hmap : ∀ {x : UInt8} {o : Option Bytes} {s : Bytes}, o.map (x :: ·) = some s →
      ∃ s', o = some s' ∧ s = x :: s' := by
    intro x o s h
    obtain ⟨s', hs, rfl⟩ := Option.map_eq_some_iff.mp h
    exact ⟨s', hs, rfl⟩
  induction hb with
  | nil =>
    rintro s h
    obtain rfl := Option.some.inj h
    exact ⟨Nat.le_refl _, fun _ _ => .nil⟩
  | @plain c b printable quote backslash rest ih =>
    intro s h
    rw [unescape_plain backslash] at h
    obtain ⟨s', hs, rfl⟩ := hmap h
    obtain ⟨hle, hsimple⟩ := ih s' hs
    rw [decode_plain backslash, List.length_cons, List.length_cons]
    refine ⟨Nat.succ_le_succ hle, fun heq hzero => .plain printable quote backslash ?_⟩
    exact hsimple (Nat.succ.inj heq) fun hin => hzero (List.mem_cons_of_mem c hin)
  | @short c b letter rest ih =>
    intro s h
    have hu : c ≠ 117 := by
      rintro rfl
      exact absurd letter (by decide)
    have hne : jsonEsc c false ≠ 0 := by
      intro hzero
      have hno : ¬((92 : UInt8) = 92 ∧ 5 ≤ (c :: b).length ∧ (c :: b).head? = some 117) := by
        rintro ⟨_, _, hhead⟩
        exact hu (Option.some.inj hhead)
      rw [mgJsonUnescape, unescapeFrom, if_neg hno, if_pos ⟨rfl, List.cons_ne_nil c b⟩,
        List.headD_cons, if_pos hzero] at h
      cases h
    rw [unescape_short hu hne] at h
    obtain ⟨s', hs, rfl⟩ := hmap h
    obtain ⟨hle, hsimple⟩ := ih s' hs
    rw [decode_short hu, List.length_cons, List.length_cons]
    refine ⟨Nat.succ_le_succ hle, fun heq hzero => .short (known_of_short letter hne) ?_⟩
    exact hsimple (Nat.succ.inj heq) fun hin => hzero (List.mem_cons_of_mem _ hin)
  | @unicode h b four hex rest ih =>
    intro s hread
    rw [unescape_hex four] at hread
    obtain ⟨v, hv, hrest⟩ := Option.bind_eq_some_iff.mp hread
    obtain ⟨x, y, rfl, hx, hy, rfl⟩ := hexByte_four four hex hv
    obtain ⟨s', hs, rfl⟩ := hmap hrest
    obtain ⟨hle, hsimple⟩ := ih s' hs
    have hsmall := hexNumber_pair hx hy
    have hdecode : decode (92 :: 117 :: ([48, 48, x, y] ++ b)) = utf8 (hexNumber [x, y]) ++ decode b :=
      decode_pair hsmall
    rw [hdecode, List.length_cons, List.length_append]
    by_cases hascii : hexNumber [x, y] < 128
    · have hutf : utf8 (hexNumber [x, y]) = [UInt8.ofNat (hexNumber [x, y])] := if_pos hascii
      rw [hutf, List.length_singleton]
      refine ⟨by omega, fun heq hzero => ?_⟩
      have hpos : 0 < hexNumber [x, y] := by
        refine Nat.pos_of_ne_zero fun hno => hzero ?_
        rw [hno]
        exact List.mem_cons_self
      exact .unicode hx hy hpos hascii (hsimple (by omega) fun hin =>
        hzero (List.mem_cons_of_mem _ hin))
    · have hutf : (utf8 (hexNumber [x, y])).length = 2 := by
        rw [utf8, if_neg hascii, if_pos (by omega)]
        rfl
      rw [hutf]
      exact ⟨by omega, fun heq => by omega⟩

/-- The reader gives what a string stands for exactly when it knows the escapes. -/
theorem readString_iff_simple (hb : Body b) :
    readString (quoted b) = some (decode b) ↔ Simple b := by
  constructor
  · intro hread
    have hquoted : 1 < (quoted b).length ∧ (quoted b).head? = some 34 := by
      refine ⟨?_, rfl⟩
      simp [quoted]
    have hinner : ((quoted b).drop 1).take ((quoted b).length - 2) = b := by simp [quoted]
    rw [readString, if_pos hquoted, hinner] at hread
    obtain ⟨s, hs, hcut⟩ := Option.map_eq_some_iff.mp hread
    obtain ⟨hle, hsimple⟩ := simple_of_read hb s hs
    have hprefix : cString s <+: s := List.takeWhile_prefix _
    have hwhole : cString s = s := hprefix.eq_of_length (by
      have hshort := hprefix.length_le
      rw [← hcut] at hle
      omega)
    refine hsimple (by rw [← hcut, hwhole]) fun hzero => ?_
    have hall := List.takeWhile_eq_self_iff.mp hwhole 0 hzero
    exact absurd rfl (of_decide_eq_true hall)
  · intro h
    rw [readString_quoted h, decodeString_quoted]

end Exactly

/-- What is no string is none for the reader. -/
theorem readString_other {v : Bytes} (h : v.head? ≠ some 34) :
    readString v = none ∧ decodeString v = none := by
  refine ⟨if_neg fun hv => h hv.2, if_neg fun hv => h hv.1⟩

section Escaped

private theorem simple_escapeByte (h : Simple b) :
    Simple (Cyctron.Call.Protocol.escapeByte c ++ b) := by
  unfold Cyctron.Call.Protocol.escapeByte
  split_ifs with hquote hback hlf hcr htab hlow
  · exact .short (by decide) h
  · exact .short (by decide) h
  · exact .short (by decide) h
  · exact .short (by decide) h
  · exact .short (by decide) h
  · exact h
  · exact .plain (UInt8.not_lt.mp hlow) hquote hback h

/-- What the escapers write is read back. -/
private theorem simple_escaped (s : Bytes) : Simple (escaped s) := by
  induction s with
  | nil => exact .nil
  | cons c s ih => exact simple_escapeByte ih

theorem simple_plain (h : Plain s) : Simple s := by
  induction s with
  | nil => exact .nil
  | cons c s ih =>
    obtain ⟨⟨printable, quote, backslash⟩, hs⟩ := List.forall_mem_cons.mp h
    exact .plain printable quote backslash (ih hs)

private theorem readString_escaped (s : Bytes) :
    readString (quoted (escaped s)) = some (stripped s) := by
  rw [readString_quoted (simple_escaped s), decodeString_escaped]

/-- The reader finds an escaped string under its name. -/
theorem getStr_escaped {json s : Bytes} {ms : List (Bytes × Bytes)} {d : Nat} {path : String}
    (key : Bytes) (h : Object (Number Readable) d ms json) (room : 1 + d ≤ MG_JSON_MAX_DEPTH)
    (short : json.length < 2 ^ 31) (hpath : ascii path = 36 :: 46 :: key)
    (hmember : lookup key ms = some (quoted (escaped s))) :
    mgJsonGetStr json path = some (stripped s) := by
  rw [mgJsonGetStr_object hpath h room short, hmember, Option.bind_some, readString_escaped]

end Escaped

end Cyctron.Mongoose.Strings
