/- Cyctron/Call/Readback
   digest: The responses of a call are whole, and the reader finds in them what went in. -/

import Cyctron.Call.Response
import Cyctron.Mongoose.Strings

set_option autoImplicit false
set_option relaxedAutoImplicit false

namespace Cyctron.Call.Readback

open Cyctron.Base.CString Cyctron.Call.Protocol Cyctron.Json.Text Cyctron.Json.Build
open Cyctron.Json.Escape Cyctron.Call.Response
open Cyctron.Mongoose.Json Cyctron.Mongoose.Object Cyctron.Mongoose.Strings

/-- The value in the output of a plugin, which is null when there is no output. -/
def Gives (out : Option Bytes) (v : Bytes) : Prop :=
  ((out = none ∨ out = some []) ∧ v = ascii "null") ∨
    ∃ d ≤ 20, ∃ r, out = some r ∧ Padded (Number Readable) d r v

section Readback

variable {v : Bytes} {out : Option Bytes} {elapsed : Nat} {code now : Int}

private theorem Gives.padded (h : Gives out v) :
    ∃ d, 1 + d ≤ MG_JSON_MAX_DEPTH ∧ Padded (Number Readable) d (resultText out) v := by
  rcases h with ⟨hnone, rfl⟩ | ⟨d, hd, r, rfl, hpadded⟩
  · refine ⟨0, by decide, ?_⟩
    rcases hnone with rfl | rfl
    · exact padded_self .null
    · exact padded_self .null
  · refine ⟨d, Nat.le_trans (Nat.add_le_add_left hd 1) (by decide), ?_⟩
    cases r with
    | nil =>
      obtain ⟨w, w', _, _, hv, heq⟩ := hpadded
      have hempty := List.append_eq_nil_iff.mp heq.symm
      exact absurd (List.append_eq_nil_iff.mp hempty.2).1 (value_ne_nil hv)
    | cons c r => exact hpadded

/-- The responses hold the whole template, and the reader finds in them the strings less the dropped
control characters, and the result without the blanks around it. -/
theorem responses_read_back (id lib symbol message : Bytes) (mem : Bool) (helapsed : elapsed < 2 ^ 64) (hnow : now.natAbs ≤ 2 ^ 63)
    (hcode : code.natAbs ≤ 2 ^ 31) (hresult : Gives out v) :
    (∀ json, (wsCallBuildOk mem (some id) (some lib) (some symbol) elapsed out now).2.json = some json →
      json = compact (okMembers id lib symbol elapsed (resultText out) now) ∧
      (json.length < 2 ^ 31 → mgJsonGetStr json "$.id" = some (stripped id) ∧
        mgJsonGetStr json "$.lib" = some (stripped lib) ∧
        mgJsonGetStr json "$.symbol" = some (stripped symbol) ∧
        mgJsonGetTok json "$.result" = v)) ∧
    (∀ json, (wsCallBuildError mem (some id) code (some message) now).2.json = some json →
      json = compact (errorMembers id code message now) ∧
      (json.length < 2 ^ 31 → mgJsonGetStr json "$.id" = some (stripped id) ∧
        mgJsonGetStr json "$.error" = some (stripped message))) := by
  refine ⟨?_, ?_⟩
  · intro json h
    cases mem with
    | false => exact absurd h.symm (Option.some_ne_none json)
    | true =>
      rw [ok_text helapsed hnow] at h
      obtain rfl := Option.some.inj h
      refine ⟨rfl, fun short => ?_⟩
      obtain ⟨d, room, hpadded⟩ := hresult.padded
      have hobject : Object (Number Readable) d (okMembers id lib symbol elapsed v now)
          (compact (okMembers id lib symbol elapsed (resultText out) now)) :=
        object_compact (fills_ok hpadded)
      refine ⟨getStr_escaped (ascii "id") hobject room short (by decide) rfl,
        getStr_escaped (ascii "lib") hobject room short (by decide) rfl,
        getStr_escaped (ascii "symbol") hobject room short (by decide) rfl, ?_⟩
      have hpath : ascii "$.result" = 36 :: 46 :: ascii "result" := by decide
      rw [mgJsonGetTok_object hpath hobject room short]
      rfl
  · intro json h
    cases mem with
    | false => exact absurd h.symm (Option.some_ne_none json)
    | true =>
      rw [error_text hcode hnow] at h
      obtain rfl := Option.some.inj h
      refine ⟨rfl, fun short => ?_⟩
      have hobject : Object (Number Readable) 0 (errorMembers id code message now)
          (compact (errorMembers id code message now)) := object_compact fills_error
      have room : 1 + 0 ≤ MG_JSON_MAX_DEPTH := by decide
      exact ⟨getStr_escaped (ascii "id") hobject room short (by decide) rfl,
        getStr_escaped (ascii "error") hobject room short (by decide) rfl⟩

/-- An id with bytes that could be taken for the structure of the response. -/
def braceId : Bytes := ascii "a\"\x7d\n"

theorem sum_reads_back : ∃ json,
    (wsCallBuildOk true (some braceId) (some (ascii "math")) (some (ascii "add")) 3
      (some (ascii " 5\n")) 1700000000).2.json = some json ∧
    mgJsonGetStr json "$.id" = some braceId ∧ mgJsonGetTok json "$.result" = ascii "5" := by
  have hdigits : Digits (ascii "5") := ⟨by decide, List.all_eq_true.mp (by decide)⟩
  have hfive : Number Readable ([] ++ (ascii "5" ++ ([] ++ []))) :=
    .mk (Or.inl rfl) (Or.inr ⟨hdigits, by decide⟩) (Or.inl rfl) (Or.inl rfl)
  have hspace : Blank [32] := List.all_eq_true.mp (by decide)
  have hline : Blank [10] := List.all_eq_true.mp (by decide)
  have hgives : Gives (some (ascii " 5\n")) (ascii "5") :=
    Or.inr ⟨0, by decide, _, rfl, [32], [10], hspace, hline, .number hfive, by decide⟩
  have helapsed : 3 < 2 ^ 64 := by decide
  have hnow : (1700000000 : Int).natAbs ≤ 2 ^ 63 := by decide
  have htext : (wsCallBuildOk true (some braceId) (some (ascii "math")) (some (ascii "add")) 3
      (some (ascii " 5\n")) 1700000000).2.json = some (compact (okMembers braceId (ascii "math")
        (ascii "add") 3 (ascii " 5\n") 1700000000)) := by
    rw [ok_text helapsed hnow]
    rfl
  obtain ⟨_, hread⟩ := (responses_read_back braceId (ascii "math") (ascii "add") [] true helapsed hnow
    (by decide : (0 : Int).natAbs ≤ 2 ^ 31) hgives).1 _ htext
  obtain ⟨hid, _, _, hresult⟩ := hread (by decide +kernel)
  exact ⟨_, htext, hid, hresult⟩

private theorem escaped_replicate (n : Nat) : escaped (List.replicate n 97) = List.replicate n 97 := by
  induction n with
  | zero => rfl
  | succ n ih =>
    have hcons : escaped (97 :: List.replicate n 97) = 97 :: escaped (List.replicate n 97) := rfl
    rw [List.replicate_succ, hcons, ih]

private theorem error_length (id message : Bytes) (code now : Int) :
    (compact (errorMembers id code message now)).length =
      (escaped id).length + (compact (errorMembers [] code message now)).length := by
  have hempty : escaped [] = [] := rfl
  simp only [errorMembers, compact, joined, memberText, quoted, hempty, List.length_append,
    List.length_cons, List.length_nil]
  omega

private theorem long_error {id : Bytes} (plain : escaped id = id) (length : id.length = 2 ^ 31) :
    mgJsonGetStr (compact (errorMembers id 0 [] 0)) "$.id" = none := by
  have hlength := error_length id [] 0 0
  have hrest : (compact (errorMembers [] 0 [] 0)).length ≤ 100 := by decide
  rw [plain, length] at hlength
  have hget : mgJsonGet (compact (errorMembers id 0 [] 0)) "$.id" = .notFound :=
    mgJsonGet_long (by decide) (by omega) (by omega)
  rw [mgJsonGetStr, hget]

/-- A result with an exponent beyond the range of the numbers is found cut short, and in a response of
more than 2^31 bytes nothing is found. -/
theorem exponent_cut :
    (IsText (ascii "1e3080") ∧ ∃ json ∈ (wsCallBuildOk true (some (ascii "a")) (some (ascii "b"))
        (some (ascii "c")) 0 (some (ascii "1e3080")) 0).2.json,
      mgJsonGetTok json "$.result" = ascii "1e308") ∧
    ∃ id json, (wsCallBuildError true (some id) 0 (some []) 0).2.json = some json ∧
      mgJsonGetStr json "$.id" = none := by
  refine ⟨⟨?_, by decide +kernel⟩, ?_⟩
  · have hdigits : Digits (ascii "3080") := ⟨by decide, List.all_eq_true.mp (by decide)⟩
    have hone : Digits (ascii "1") := ⟨by decide, List.all_eq_true.mp (by decide)⟩
    have hnumber : AnyNumber ([] ++ (ascii "1" ++ ([] ++ 101 :: ([] ++ ascii "3080")))) :=
      .mk (Or.inl rfl) (Or.inr ⟨hone, by decide⟩) (Or.inl rfl)
        (Or.inr ⟨101, [], _, Or.inl rfl, Or.inl rfl, hdigits, trivial, rfl⟩)
    exact ⟨0, [], _, [], blank_nil, blank_nil, .number hnumber, by decide⟩
  · have hcode : (0 : Int).natAbs ≤ 2 ^ 31 := by decide
    have hnow : (0 : Int).natAbs ≤ 2 ^ 63 := by decide
    refine ⟨List.replicate (2 ^ 31) 97, _, congrArg (fun r => r.2.json) (error_text hcode hnow), ?_⟩
    exact long_error (escaped_replicate _) List.length_replicate

end Readback

end Cyctron.Call.Readback
