/- Cyctron/Json/Length
   digest: No text is shorter than its members without blanks, and no string than what it stands for. -/

import Cyctron.Json.Escape

set_option autoImplicit false
set_option relaxedAutoImplicit false

namespace Cyctron.Json.Length

open Cyctron.Base.CString Cyctron.Json.Text Cyctron.Json.Build Cyctron.Json.Escape

variable {num : Bytes → Prop} {d : Nat} {k : Kind} {t b v u : Bytes} {ms : List (Bytes × Bytes)}

section Texts

private theorem length_members (h : Derives num k d t) : ∀ ms, k = .members ms →
    (joined ms).length ≤ t.length := by
  induction h with
  | member left name before after h right =>
    intro ms hk
    obtain rfl := Kind.members.inj hk
    simp only [joined, memberText, List.length_append, List.length_cons]
    omega
  | @members d w n x y v w' m ms left name before after h right rest _ ih =>
    intro ms' hk
    obtain rfl := Kind.members.inj hk
    have hrest := ih ms rfl
    cases ms with
    | nil => cases rest
    | cons m' ms =>
      simp only [joined, memberText, List.length_append, List.length_cons] at hrest ⊢
      omega
  | _ =>
    intro ms hk
    cases hk

/-- An object has at least the bytes of its members, its commas and its braces. -/
theorem length_object (h : IsObject t ms) : (compact ms).length ≤ t.length := by
  obtain ⟨d, h⟩ := h
  cases h with
  | empty left inner right =>
    simp only [compact, joined, List.length_append, List.length_cons, List.length_nil]
    omega
  | full left h right =>
    have hmembers := length_members h ms rfl
    simp only [compact, List.length_append, List.length_cons, List.length_nil]
    omega

end Texts

section Strings

private theorem length_utf8 (n : Nat) : (utf8 n).length ≤ 4 := by
  unfold utf8
  split_ifs <;> simp

private theorem decodeFrom_drop (n : Nat) (b : Bytes) : decodeFrom n b = decode (b.drop n) := by
  induction n generalizing b with
  | zero => rfl
  | succ n ih =>
    cases b with
    | nil => rfl
    | cons c b => exact ih b

/-- The second half of a pair is an escape of its own. -/
private theorem body_lowHalf {l : Nat} (h : Body b) (hlow : lowHalf b = some l) : Body (b.drop 6) := by
  unfold lowHalf at hlow
  cases h with
  | nil => cases hlow
  | plain _ _ backslash _ =>
    rw [List.take_succ_cons, if_neg (fun heq => backslash (List.cons.inj heq).1)] at hlow
    cases hlow
  | @short c b letter _ =>
    have hne : ¬(92 :: c :: b).take 2 = [92, 117] := by
      intro heq
      obtain ⟨rfl, _⟩ := List.cons.inj (List.cons.inj heq).2
      exact absurd letter (by decide)
    rw [if_neg hne] at hlow
    cases hlow
  | unicode four _ rest =>
    rw [List.drop_succ_cons, List.drop_succ_cons, List.drop_left' four]
    exact rest

/-- An escape of six bytes stands for at most four, and takes another one with it when they are a
pair. -/
private theorem decode_escape {h : Bytes} (four : h.length = 4) (rest : Body b) :
    ∃ s b', decode (92 :: 117 :: (h ++ b)) = s ++ decode b' ∧ s.length ≤ 4 ∧ Body b' ∧
      b'.length ≤ b.length := by
  have hfive : (117 :: (h ++ b)).drop 5 = b := by
    rw [List.drop_succ_cons, List.drop_left' four]
  have hone : decodeFrom 5 (117 :: (h ++ b)) = decode b := by rw [decodeFrom_drop, hfive]
  have htwo : decodeFrom 11 (117 :: (h ++ b)) = decode (b.drop 6) := by
    rw [decodeFrom_drop, show 11 = 5 + 6 from rfl, ← List.drop_drop, hfive]
  rw [decode, decodeFrom, if_neg (fun hne => hne rfl), if_neg (fun hne => hne rfl)]
  dsimp only
  rw [hone, htwo, hfive]
  split
  · cases hlow : lowHalf b with
    | some l =>
      refine ⟨_, b.drop 6, rfl, length_utf8 _, body_lowHalf rest hlow, ?_⟩
      rw [List.length_drop]
      omega
    | none => exact ⟨_, b, rfl, length_utf8 _, rest, Nat.le_refl _⟩
  · exact ⟨_, b, rfl, length_utf8 _, rest, Nat.le_refl _⟩

/-- A string is not shorter than what it stands for, and longer when it has an escape. -/
theorem length_decode (h : Body b) : (decode b).length ≤ b.length ∧
    ((decode b).length = b.length → 92 ∉ b) := by
  obtain ⟨n, hn⟩ : ∃ n, n = b.length := ⟨_, rfl⟩
  induction n using Nat.strong_induction_on generalizing b with
  | _ n ih =>
    cases h with
    | nil => exact ⟨Nat.le_refl _, fun _ => List.not_mem_nil⟩
    | @plain c b _ _ backslash rest =>
      rw [List.length_cons] at hn
      obtain ⟨hle, heq⟩ := ih b.length (by omega) rest rfl
      rw [decode_plain backslash, List.length_cons, List.length_cons]
      refine ⟨by omega, fun hlength hmem => ?_⟩
      rcases List.mem_cons.mp hmem with hmem | hmem
      · exact backslash hmem.symm
      · exact heq (by omega) hmem
    | @short c b letter rest =>
      have hne : c ≠ 117 := by
        rintro rfl
        exact absurd letter (by decide)
      rw [List.length_cons, List.length_cons] at hn
      obtain ⟨hle, _⟩ := ih b.length (by omega) rest rfl
      rw [decode_short hne, List.length_cons, List.length_cons, List.length_cons]
      exact ⟨by omega, fun hlength => by omega⟩
    | @unicode h b four _ rest =>
      obtain ⟨s, b', hdecode, hs, hbody, hb'⟩ := decode_escape four rest
      rw [List.length_cons, List.length_cons, List.length_append, four] at hn
      obtain ⟨hle, _⟩ := ih b'.length (by omega) hbody rfl
      rw [hdecode, List.length_append, List.length_cons, List.length_cons, List.length_append, four]
      exact ⟨by omega, fun hlength => by omega⟩

/-- A string that is no longer than its quotes and what it stands for is written as it is. -/
theorem quoted_plain (h : Body b) (hlength : b.length ≤ (decode b).length) :
    decode b = b ∧ Plain b := by
  obtain ⟨hle, hnone⟩ := length_decode h
  have hback := hnone (Nat.le_antisymm hle hlength)
  have hplain : Plain b := by
    induction h with
    | nil => exact fun c hc => absurd hc List.not_mem_nil
    | @plain c b printable quote backslash rest ih =>
      rw [decode_plain backslash, List.length_cons, List.length_cons] at hlength
      obtain ⟨hle', hnone'⟩ := length_decode rest
      exact List.forall_mem_cons.mpr ⟨⟨printable, quote, backslash⟩,
        ih (by omega) hle' hnone' (List.not_mem_of_not_mem_cons hback)⟩
    | short _ _ _ => exact absurd List.mem_cons_self hback
    | unicode _ _ _ _ => exact absurd List.mem_cons_self hback
  exact ⟨decode_of_plain hplain, hplain⟩

end Strings

end Cyctron.Json.Length
