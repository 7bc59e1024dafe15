/- Cyctron/Json/Escape
   digest: The two escapers write bodies of strings that stand for what they were given, less what they drop. -/

import Cyctron.Call.Protocol
import Cyctron.Event.Format
import Cyctron.Json.Build

set_option autoImplicit false
set_option relaxedAutoImplicit false

namespace Cyctron.Json.Escape

open Cyctron.Base.CString Cyctron.Json.Text Cyctron.Json.Build
open Cyctron.Call.Protocol (escapeByte jsonEscapeDup)
open Cyctron.Event.Format (rep escapeLoop eventEscapeJson eventEscapeAlloc)

variable {c : UInt8} {s b p : Bytes}

/-- The control characters that the escapers drop are those without a two-byte escape. -/
def kept (c : UInt8) : Bool := 32 ≤ c || c = 9 || c = 10 || c = 13

/-- A string less the control characters that the escapers drop. -/
def stripped (s : Bytes) : Bytes := s.filter kept

theorem stripped_self (h : ∀ c ∈ s, kept c = true) : stripped s = s := List.filter_eq_self.mpr h

theorem stripped_eq_iff : stripped s = s ↔ ∀ c ∈ s, kept c = true := List.filter_eq_self

section Bytes

/-- The three kinds of bytes. -/
theorem byte_cases (c : UInt8) :
    (∃ e, escapeByte c = [92, e] ∧ isShort e = true ∧ e ≠ 117 ∧ shortValue e = c ∧ kept c = true) ∨
    (escapeByte c = [c] ∧ 32 ≤ c ∧ c ≠ 34 ∧ c ≠ 92 ∧ kept c = true) ∨
    (escapeByte c = [] ∧ kept c = false) := by
  unfold escapeByte
  split_ifs with hquote hback hlf hcr htab hlow
  · subst hquote
    exact Or.inl ⟨34, rfl, by decide, by decide, by decide, by decide⟩
  · subst hback
    exact Or.inl ⟨92, rfl, by decide, by decide, by decide, by decide⟩
  · subst hlf
    exact Or.inl ⟨110, rfl, by decide, by decide, by decide, by decide⟩
  · subst hcr
    exact Or.inl ⟨114, rfl, by decide, by decide, by decide, by decide⟩
  · subst htab
    exact Or.inl ⟨116, rfl, by decide, by decide, by decide, by decide⟩
  · have hnot : ¬32 ≤ c := UInt8.not_le.mpr hlow
    exact Or.inr (Or.inr ⟨rfl, by simp [kept, hnot, hlf, hcr, htab]⟩)
  · have hle : 32 ≤ c := UInt8.not_lt.mp hlow
    exact Or.inr (Or.inl ⟨rfl, hle, hquote, hback, by simp [kept, hle]⟩)

theorem decode_plain (h : c ≠ 92) : decode (c :: b) = c :: decode b := by
  simp [decode, decodeFrom, h]

theorem decode_short (h : c ≠ 117) : decode (92 :: c :: b) = shortValue c :: decode b := by
  simp [decode, decodeFrom, h]

private theorem body_escapeByte (h : Body b) : Body (escapeByte c ++ b) := by
  rcases byte_cases c with ⟨e, he, short, _⟩ | ⟨he, printable, quote, backslash, _⟩ | ⟨he, _⟩
  · rw [he]
    exact .short short h
  · rw [he]
    exact .plain printable quote backslash h
  · rw [he]
    exact h

private theorem decode_escapeByte : decode (escapeByte c ++ b) = stripped [c] ++ decode b := by
  rcases byte_cases c with ⟨e, he, _, hne, hvalue, hkept⟩ | ⟨he, _, _, hne, hkept⟩ | ⟨he, hkept⟩
  · rw [he, List.cons_append, List.singleton_append, decode_short hne, hvalue]
    simp [stripped, hkept]
  · rw [he, List.singleton_append, decode_plain hne]
    simp [stripped, hkept]
  · rw [he]
    simp [stripped, hkept]

end Bytes

section Strings

/-- A string with its bytes escaped. -/
def escaped (s : Bytes) : Bytes := s.flatMap escapeByte

theorem jsonEscapeDup_some : jsonEscapeDup (some s) = escaped s := rfl

theorem body_escaped (s : Bytes) : Body (escaped s) := by
  induction s with
  | nil => exact .nil
  | cons c s ih => exact body_escapeByte ih

theorem decode_escaped (s : Bytes) : decode (escaped s) = stripped s := by
  induction s with
  | nil => rfl
  | cons c s ih =>
    have hcons : escaped (c :: s) = escapeByte c ++ escaped s := rfl
    rw [hcons, decode_escapeByte, ih, stripped, stripped, stripped, ← List.filter_append,
      List.singleton_append]

theorem decodeString_quoted (b : Bytes) : decodeString (quoted b) = some (decode b) := by
  simp [decodeString, quoted]

theorem decodeString_escaped (s : Bytes) : decodeString (quoted (escaped s)) = some (stripped s) := by
  rw [decodeString_quoted, decode_escaped]

/-- The replacement of a byte is the one of the other escaper. -/
theorem rep_eq : escapeByte c = (rep c).getD (if c < 32 then [] else [c]) := by
  unfold escapeByte rep
  split_ifs <;> rfl

/-- Escaping into a buffer escapes the front of the string. -/
private theorem escapeLoop_escaped (outSize o : Nat) (s : Bytes) :
    ∃ p, p <+: s ∧ escapeLoop outSize o s = escaped p := by
  induction s generalizing o with
  | nil => exact ⟨[], List.prefix_refl _, rfl⟩
  | cons c s ih =>
    have hstop : ∃ p, p <+: c :: s ∧ ([] : Bytes) = escaped p := ⟨[], List.nil_prefix, rfl⟩
    have hnext : ∀ {r t : Bytes}, escapeByte c = r → (∃ p, p <+: s ∧ t = escaped p) →
        ∃ p, p <+: c :: s ∧ r ++ t = escaped p := by
      rintro r t rfl ⟨p, hp, rfl⟩
      exact ⟨c :: p, List.cons_prefix_cons.mpr ⟨rfl, hp⟩, rfl⟩
    unfold escapeLoop
    cases hrep : rep c with
    | some r =>
      have hr : escapeByte c = r := by rw [rep_eq, hrep, Option.getD_some]
      dsimp only
      split
      · exact hstop
      · exact hnext hr (ih _)
    | none =>
      have hr : escapeByte c = if c < 32 then [] else [c] := by rw [rep_eq, hrep, Option.getD_none]
      dsimp only
      split
      · rename_i hlow
        rw [if_pos hlow] at hr
        exact hnext hr (ih _)
      · rename_i hlow
        rw [if_neg hlow] at hr
        split
        · exact hstop
        · exact hnext hr (ih _)

theorem eventEscapeJson_escaped (s : Bytes) (outSize : Nat) :
    ∃ p, p <+: s ∧ eventEscapeJson (some s) outSize = escaped p := escapeLoop_escaped outSize 0 s

/-- A buffer that holds every byte escaped gets the whole string. -/
theorem escapeLoop_whole {outSize o : Nat} (h : o + 2 * s.length < outSize) :
    escapeLoop outSize o s = escaped s := by
  induction s generalizing o with
  | nil => rfl
  | cons c s ih =>
    rw [List.length_cons] at h
    have hcons : escaped (c :: s) = escapeByte c ++ escaped s := rfl
    have hshort : ∀ r ∈ rep c, r.length = 2 := by
      unfold rep
      split_ifs <;> simp
    unfold escapeLoop
    rw [hcons, rep_eq]
    cases hrep : rep c with
    | some r =>
      have hr := hshort r hrep
      dsimp only
      rw [if_neg (by omega), ih (by omega), Option.getD_some]
    | none =>
      dsimp only
      rw [Option.getD_none]
      by_cases hlow : c < 32
      · rw [if_pos hlow, if_pos hlow, ih (by omega), List.nil_append]
      · rw [if_neg hlow, if_neg hlow, if_neg (by omega), ih (by omega)]
        rfl

theorem eventEscapeJson_whole (s : Bytes) :
    eventEscapeJson (some s) (s.length * 2 + 1) = escaped s :=
  escapeLoop_whole (by omega)

private theorem escapeLoop_length {outSize o : Nat} (h : o < outSize) :
    o + (escapeLoop outSize o s).length < outSize := by
  induction s generalizing o with
  | nil => simpa [escapeLoop] using h
  | cons c s ih =>
    unfold escapeLoop
    cases hrep : rep c with
    | some r =>
      dsimp only
      split
      · simpa using h
      · rename_i hroom
        have hrest := ih (o := o + r.length) (by omega)
        rw [List.length_append]
        omega
    | none =>
      dsimp only
      split
      · exact ih h
      · split
        · simpa using h
        · rename_i hroom
          have hrest := ih (o := o + 1) (by omega)
          rw [List.length_cons]
          omega

theorem eventEscapeJson_length {outSize : Nat} (h : 0 < outSize) :
    (eventEscapeJson (some s) outSize).length < outSize := by
  have hlen := escapeLoop_length (s := s) h
  rwa [Nat.zero_add] at hlen

end Strings

section Plain

/-- Bytes that need no escape. -/
def Plain (s : Bytes) : Prop := ∀ c ∈ s, 32 ≤ c ∧ c ≠ 34 ∧ c ≠ 92

instance (s : Bytes) : Decidable (Plain s) :=
  List.decidableBAll (fun c => 32 ≤ c ∧ c ≠ 34 ∧ c ≠ 92) s

theorem body_plain (h : Plain s) : Body s := by
  induction s with
  | nil => exact .nil
  | cons c s ih =>
    obtain ⟨⟨printable, quote, backslash⟩, hs⟩ := List.forall_mem_cons.mp h
    exact .plain printable quote backslash (ih hs)

theorem decode_of_plain (h : Plain s) : decode s = s := by
  induction s with
  | nil => rfl
  | cons c s ih =>
    obtain ⟨⟨_, _, backslash⟩, hs⟩ := List.forall_mem_cons.mp h
    rw [decode_plain backslash, ih hs]

theorem stripped_plain (h : Plain s) : stripped s = s :=
  stripped_self fun c hc => by simp [kept, (h c hc).1]

end Plain

end Cyctron.Json.Escape
