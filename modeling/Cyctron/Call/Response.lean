/- Cyctron/Call/Response
   digest: The responses of a call as JSON objects, the id that they carry, and the output of the plugin. -/

import Cyctron.Json.Braces
import Cyctron.Json.Escape
import Cyctron.WsWorker.Model

set_option autoImplicit false
set_option relaxedAutoImplicit false

namespace Cyctron.Call.Response

open Cyctron.Base.CString Cyctron.Call.Protocol Cyctron.Json.Text Cyctron.Json.Build
open Cyctron.Json.Braces Cyctron.Json.Escape
open Cyctron.WsWorker.Model (WsJob mappedCode errorText response)

/-- The member `id` of the object stands for this string. -/
def HasId (json i : Bytes) : Prop :=
  ∃ ms v, IsObject json ms ∧ lookup (ascii "id") ms = some v ∧ decodeString v = some i

section Ids

variable {json i : Bytes} {ms : List (Bytes × Bytes)}

/-- The text begins with the type of a call and this id. -/
def OpensWith (json i : Bytes) : Prop := callOpening ++ (escaped i ++ [34, 44]) <+: json

private theorem callOpening_eq (t : Bytes) : callOpening ++ t = 123 :: 34 :: (ascii "type" ++
    34 :: 58 :: 34 :: (ascii "call" ++ 34 :: 44 :: 34 :: (ascii "id" ++ 34 :: 58 :: 34 :: t))) := by
  have hopening : callOpening = 123 :: 34 :: (ascii "type" ++ 34 :: 58 :: 34 :: (ascii "call" ++
    34 :: 44 :: 34 :: (ascii "id" ++ [34, 58, 34]))) := by decide
  rw [hopening]
  simp

/-- The first two members of an object that opens so. -/
theorem OpensWith.members (h : OpensWith json i) (hobject : IsObject json ms) :
    ∃ ms', ms = (ascii "type", quoted (ascii "call")) :: (ascii "id", quoted (escaped i)) :: ms' := by
  obtain ⟨rest, rfl⟩ := h
  obtain ⟨d, hobject⟩ := hobject
  rw [List.append_assoc, callOpening_eq] at hobject
  obtain ⟨m, u, heq, hm⟩ := object_members hobject
  have htype : Body (ascii "type") := body_plain (by decide)
  have hcall : Body (ascii "call") := body_plain (by decide)
  have hname : Body (ascii "id") := body_plain (by decide)
  obtain ⟨ms', m', rfl, hm', heq'⟩ := members_head htype hcall hm heq
  have hid : escaped i ++ [34, 44] ++ rest = escaped i ++ 34 :: 44 :: rest := by simp
  rw [hid] at heq'
  obtain ⟨ms'', _, rfl, _, _⟩ := members_head hname (body_escaped i) hm' heq'
  exact ⟨ms'', rfl⟩

/-- Whoever reads such an object finds the id less the dropped control characters. -/
theorem OpensWith.reads (h : OpensWith json i) (hobject : IsObject json ms) :
    ∃ v, lookup (ascii "id") ms = some v ∧ decodeString v = some (stripped i) := by
  obtain ⟨ms', rfl⟩ := h.members hobject
  exact ⟨quoted (escaped i), rfl, decodeString_escaped i⟩

theorem OpensWith.hasId (h : OpensWith json i) (hobject : IsObject json ms) :
    HasId json (stripped i) := by
  obtain ⟨v, hfind, hdecode⟩ := h.reads hobject
  exact ⟨ms, v, hobject, hfind, hdecode⟩

theorem OpensWith.unique {i' : Bytes} (h : OpensWith json i) (hid : HasId json i') :
    i' = stripped i := by
  obtain ⟨ms, v, hobject, hfind, hdecode⟩ := hid
  obtain ⟨v', hfind', hdecode'⟩ := h.reads hobject
  obtain rfl := Option.some.inj (hfind.symm.trans hfind')
  exact Option.some.inj (hdecode.symm.trans hdecode')

end Ids

section Builders

variable {id lib symbol result message out json : Bytes} {elapsed : Nat} {code now : Int}

def okMembers (id lib symbol : Bytes) (elapsed : Nat) (result : Bytes) (now : Int) :
    List (Bytes × Bytes) :=
  [(ascii "type", quoted (ascii "call")), (ascii "id", quoted (escaped id)),
    (ascii "ok", ascii "true"), (ascii "code", decimalInt 0), (ascii "lib", quoted (escaped lib)),
    (ascii "symbol", quoted (escaped symbol)), (ascii "elapsed_ms", decimal elapsed),
    (ascii "result", result), (ascii "timestamp", decimalInt now)]

def errorMembers (id : Bytes) (code : Int) (message : Bytes) (now : Int) : List (Bytes × Bytes) :=
  [(ascii "type", quoted (ascii "call")), (ascii "id", quoted (escaped id)),
    (ascii "ok", ascii "false"), (ascii "code", decimalInt code),
    (ascii "error", quoted (escaped message)), (ascii "timestamp", decimalInt now)]

/-- What is written for the result: the output of the plugin, or null for an empty one. -/
def resultText (out : Option Bytes) : Bytes :=
  match out with
  | some (c :: r) => c :: r
  | _ => ascii "null"

theorem ok_text {out : Option Bytes} (helapsed : elapsed < 2 ^ 64) (hnow : now.natAbs ≤ 2 ^ 63) :
    wsCallBuildOk true (some id) (some lib) (some symbol) elapsed out now =
      (0, ⟨some (compact (okMembers id lib symbol elapsed (resultText out) now)), WS_CALL_OK⟩) := by
  have hdigits : (decimal elapsed).length ≤ 20 := decimal_length (by omega) (by decide)
  have hstamp : (decimalInt now).length ≤ 20 := decimalInt_length (e := 19) (by omega) (by decide)
  have hwords : ascii "\",\"ok\":true,\"code\":0,\"lib\":\"" = ascii "\",\"ok\":" ++ (ascii "true" ++
    (ascii ",\"code\":" ++ (decimalInt 0 ++ ascii ",\"lib\":\""))) := by decide +kernel
  have hok : ascii "\",\"ok\":" = 34 :: 44 :: 34 :: (ascii "ok" ++ [34, 58]) := by decide
  have hcode : ascii ",\"code\":" = 44 :: 34 :: (ascii "code" ++ [34, 58]) := by decide
  have hlib : ascii ",\"lib\":\"" = 44 :: 34 :: (ascii "lib" ++ [34, 58, 34]) := by decide
  have hsymbol : ascii "\",\"symbol\":\"" = 34 :: 44 :: 34 :: (ascii "symbol" ++ [34, 58, 34]) := by
    decide
  have helapsedMs : ascii "\",\"elapsed_ms\":" = 34 :: 44 :: 34 :: (ascii "elapsed_ms" ++ [34, 58]) := by
    decide
  have hresult : ascii ",\"result\":" = 44 :: 34 :: (ascii "result" ++ [34, 58]) := by decide
  have hlens : callOpening.length = 21 ∧
      (ascii "\",\"ok\":true,\"code\":0,\"lib\":\"").length = 28 ∧
      (ascii "\",\"symbol\":\"").length = 12 ∧ (ascii "\",\"elapsed_ms\":").length = 15 ∧
      (ascii ",\"result\":").length = 10 ∧ (ascii ",\"timestamp\":").length = 13 ∧
      (ascii "\x7d").length = 1 := by decide
  have hbuild : wsCallBuildOk true (some id) (some lib) (some symbol) elapsed out now =
      (0, ⟨some (snprintf ((escaped id).length + (escaped lib).length + (escaped symbol).length +
        (resultText out).length + 256) (callOpening ++ (escaped id ++
          ascii "\",\"ok\":true,\"code\":0,\"lib\":\"" ++ escaped lib ++ ascii "\",\"symbol\":\"" ++
          escaped symbol ++ ascii "\",\"elapsed_ms\":" ++ decimal elapsed ++ ascii ",\"result\":" ++
          resultText out ++ ascii ",\"timestamp\":" ++ decimalInt now ++ ascii "\x7d"))),
        WS_CALL_OK⟩) := rfl
  rw [hbuild, snprintf_fits]
  · simp [callOpening_eq, okMembers, compact, joined, memberText, quoted, hwords, hok, hcode, hlib,
      hsymbol, helapsedMs, hresult, stamp_text, close_text]
  · simp only [List.length_append, hlens]
    omega

theorem error_text (hcode : code.natAbs ≤ 2 ^ 31) (hnow : now.natAbs ≤ 2 ^ 63) :
    wsCallBuildError true (some id) code (some message) now =
      (0, ⟨some (compact (errorMembers id code message now)), code⟩) := by
  have hdigits : (decimalInt code).length ≤ 11 := decimalInt_length (e := 10) (by omega) (by decide)
  have hstamp : (decimalInt now).length ≤ 20 := decimalInt_length (e := 19) (by omega) (by decide)
  have hok : ascii "\",\"ok\":false,\"code\":" = 34 :: 44 :: 34 :: (ascii "ok" ++ 34 :: 58 ::
    (ascii "false" ++ 44 :: 34 :: (ascii "code" ++ [34, 58]))) := by decide
  have herror : ascii ",\"error\":\"" = 44 :: 34 :: (ascii "error" ++ [34, 58, 34]) := by decide
  have htimestamp : ascii "\",\"timestamp\":" = 34 :: 44 :: 34 :: (ascii "timestamp" ++ [34, 58]) := by
    decide
  have hlens : callOpening.length = 21 ∧ (ascii "\",\"ok\":false,\"code\":").length = 20 ∧
      (ascii ",\"error\":\"").length = 10 ∧ (ascii "\",\"timestamp\":").length = 14 ∧
      (ascii "\x7d").length = 1 := by decide
  simp only [wsCallBuildError, if_true, jsonEscapeDup_some]
  rw [snprintf_fits]
  · simp [callOpening_eq, errorMembers, compact, joined, memberText, quoted, hok, herror, htimestamp,
      close_text]
  · simp only [List.length_append, hlens]
    omega

theorem fills_ok {exponent : Bytes → Prop} {d : Nat} {v : Bytes}
    (h : Padded (Number exponent) d result v) :
    Fills (Number exponent) d (okMembers id lib symbol elapsed result now)
      (okMembers id lib symbol elapsed v now) :=
  .cons (body_plain (by decide)) (padded_quoted (body_plain (by decide))) <|
  .cons (body_plain (by decide)) (padded_quoted (body_escaped id)) <|
  .cons (body_plain (by decide)) (padded_self .true) <|
  .cons (body_plain (by decide)) (padded_self (.number (number_decimalInt 0))) <|
  .cons (body_plain (by decide)) (padded_quoted (body_escaped lib)) <|
  .cons (body_plain (by decide)) (padded_quoted (body_escaped symbol)) <|
  .cons (body_plain (by decide)) (padded_self (.number (number_decimal elapsed))) <|
  .cons (body_plain (by decide)) h <|
  .one (body_plain (by decide)) (padded_self (.number (number_decimalInt now)))

theorem fills_error {exponent : Bytes → Prop} : Fills (Number exponent) 0 (errorMembers id code message now)
    (errorMembers id code message now) :=
  .cons (body_plain (by decide)) (padded_quoted (body_plain (by decide))) <|
  .cons (body_plain (by decide)) (padded_quoted (body_escaped id)) <|
  .cons (body_plain (by decide)) (padded_self .false) <|
  .cons (body_plain (by decide)) (padded_self (.number (number_decimalInt code))) <|
  .cons (body_plain (by decide)) (padded_quoted (body_escaped message)) <|
  .one (body_plain (by decide)) (padded_self (.number (number_decimalInt now)))

/-- Whatever is written behind it, the id stands in its place. -/
theorem opens_of_prefix {flag : Bytes}
    (h : callOpening ++ (escaped id ++ (34 :: 44 :: flag)) <+: json) : OpensWith json id := by
  refine List.IsPrefix.trans ⟨flag, ?_⟩ h
  simp

/-- The id and a flag stand in front when the buffer has room for them. -/
private theorem flag_leads {size : Nat} {flag rest : Bytes}
    (room : (escaped id).length + flag.length + 23 < size) :
    callOpening ++ (escaped id ++ (34 :: 44 :: flag)) <+:
      snprintf size (callOpening ++ (escaped id ++ (34 :: 44 :: (flag ++ rest)))) := by
  have hopening : callOpening.length = 21 := by decide
  have hsplit : callOpening ++ (escaped id ++ (34 :: 44 :: (flag ++ rest))) =
      callOpening ++ (escaped id ++ (34 :: 44 :: flag)) ++ rest := by simp
  rw [hsplit]
  refine prefix_snprintf ?_
  rw [List.length_append, List.length_append, List.length_cons, List.length_cons, hopening]
  omega

private theorem ok_leads {mem : Bool} {out : Option Bytes}
    (h : (wsCallBuildOk mem (some id) (some lib) (some symbol) elapsed out now).2.json = some json) :
    callOpening ++ (escaped id ++ (34 :: 44 :: ascii "\"ok\":t")) <+: json := by
  cases mem with
  | false => exact absurd h.symm (Option.some_ne_none json)
  | true =>
    obtain rfl := Option.some.inj h
    have hflag : ascii "\",\"ok\":true,\"code\":0,\"lib\":\"" =
      34 :: 44 :: ascii "\"ok\":t" ++ ascii "rue,\"code\":0,\"lib\":\"" := by decide
    have hlength : (ascii "\"ok\":t").length = 6 := by decide
    simp only [jsonEscapeDup_some, hflag, List.append_assoc, List.cons_append]
    refine flag_leads ?_
    omega

theorem error_leads {mem : Bool}
    (h : (wsCallBuildError mem (some id) code (some message) now).2.json = some json) :
    callOpening ++ (escaped id ++ (34 :: 44 :: ascii "\"ok\":f")) <+: json := by
  cases mem with
  | false => exact absurd h.symm (Option.some_ne_none json)
  | true =>
    obtain rfl := Option.some.inj h
    have hflag : ascii "\",\"ok\":false,\"code\":" =
      34 :: 44 :: ascii "\"ok\":f" ++ ascii "alse,\"code\":" := by decide
    have hlength : (ascii "\"ok\":f").length = 6 := by decide
    simp only [jsonEscapeDup_some, hflag, List.append_assoc, List.cons_append]
    refine flag_leads ?_
    omega

/-- A successful response is no error response. -/
private theorem ok_ne_error {mem mem' : Bool} {out : Option Bytes} {now' : Int}
    (h : (wsCallBuildOk mem (some id) (some lib) (some symbol) elapsed out now).2.json = some json) :
    (wsCallBuildError mem' (some id) code (some message) now').2.json ≠ some json := by
  intro h'
  have hlength : (callOpening ++ (escaped id ++ (34 :: 44 :: ascii "\"ok\":t"))).length =
      (callOpening ++ (escaped id ++ (34 :: 44 :: ascii "\"ok\":f"))).length := by
    simp [ascii]
  have heq := List.IsPrefix.eq_of_length
    (List.prefix_of_prefix_length_le (ok_leads h) (error_leads h') (Nat.le_of_eq hlength)) hlength
  have hflag := List.append_cancel_left (List.append_cancel_left heq)
  exact absurd hflag (by decide)

end Builders

section Responses

variable {mem timedOut : Bool} {job : WsJob} {elapsed : Nat} {rc now : Int} {out : Option Bytes}
  {json : Bytes}

theorem mappedCode_ok : mappedCode timedOut rc = WS_CALL_OK ↔ timedOut = false ∧ rc = 0 := by
  unfold mappedCode wsCallMapRc
  cases timedOut
  · split_ifs <;> simp_all [WS_CALL_OK, WS_CALL_ERR_PARAM, WS_CALL_ERR_LIB, WS_CALL_ERR_SYMBOL,
      WS_CALL_ERR_INVOKE]
  · simp [WS_CALL_OK]

theorem mappedCode_natAbs : (mappedCode timedOut rc).natAbs ≤ 2 ^ 31 := by
  unfold mappedCode wsCallMapRc
  split_ifs <;> decide

theorem response_opens (h : (response mem job elapsed timedOut rc out now).json = some json) :
    OpensWith json job.id := by
  unfold response at h
  split at h
  · exact opens_of_prefix (ok_leads h)
  · exact opens_of_prefix (error_leads h)

theorem response_mem (h : (response mem job elapsed timedOut rc out now).json = some json) :
    mem = true := by
  cases mem with
  | true => rfl
  | false =>
    unfold response at h
    split at h
    · exact absurd h.symm (Option.some_ne_none json)
    · exact absurd h.symm (Option.some_ne_none json)

/-- The response is an object unless the call succeeds with an output that is no JSON text. -/
private theorem response_object (helapsed : elapsed < 2 ^ 64) (hnow : now.natAbs ≤ 2 ^ 63)
    (hout : timedOut = false → rc = 0 → ∀ o, out = some o → o = [] ∨ IsText o)
    (h : (response mem job elapsed timedOut rc out now).json = some json) :
    ∃ ms, IsObject json ms := by
  obtain rfl := response_mem h
  unfold response at h
  split at h
  · rename_i hok
    obtain ⟨hlate, hrc⟩ := mappedCode_ok.mp hok
    rw [ok_text helapsed hnow] at h
    obtain rfl := Option.some.inj h
    obtain ⟨d, v, hv⟩ : ∃ d v, Padded AnyNumber d (resultText out) v := by
      have hnull : Padded AnyNumber 0 (ascii "null") (ascii "null") := padded_self .null
      cases out with
      | none => exact ⟨_, _, hnull⟩
      | some o =>
        cases o with
        | nil => exact ⟨_, _, hnull⟩
        | cons c r =>
          obtain ⟨d, w, v, w', hw, hw', hv, heq⟩ :=
            (hout hlate hrc _ rfl).resolve_left (List.cons_ne_nil c r)
          exact ⟨d, v, w, w', hw, hw', hv, heq⟩
    exact ⟨_, d, object_compact (fills_ok hv)⟩
  · rw [error_text mappedCode_natAbs hnow] at h
    obtain rfl := Option.some.inj h
    exact ⟨_, 0, object_compact fills_error⟩

/-- With an output that is no JSON text, the response is the one with the result null, or an error
response. -/
def NeverRaw (job : WsJob) (elapsed : Nat) (timedOut : Bool) (rc : Int) (out : Option Bytes)
    (now : Int) (json : Bytes) : Prop :=
  timedOut = false → rc = 0 → (∀ o, out = some o → ¬IsText o) →
    (response true job elapsed timedOut rc none now).json = some json ∨
    ∃ code message now', (wsCallBuildError true (some job.id) code (some message) now').2.json = some json

/-- The response is an object with the id of the request, and never holds an output that is no JSON
text, exactly when the id has no control character that is dropped, and the output of a successful
call is empty or a JSON text. -/
theorem response_valid_iff (helapsed : elapsed < 2 ^ 64) (hnow : now.natAbs ≤ 2 ^ 63)
    (h : (response mem job elapsed timedOut rc out now).json = some json) :
    (HasId json job.id ∧ NeverRaw job elapsed timedOut rc out now json) ↔
      (∀ c ∈ job.id, kept c = true) ∧
        (timedOut = false → rc = 0 → ∀ o, out = some o → o = [] ∨ IsText o) := by
  have hopens := response_opens h
  constructor
  · rintro ⟨hid, hraw⟩
    refine ⟨stripped_eq_iff.mp (hopens.unique hid).symm, fun hlate hrc o ho => ?_⟩
    by_contra hbad
    obtain ⟨hne, htext⟩ := not_or.mp hbad
    have hok := mappedCode_ok.mpr ⟨hlate, hrc⟩
    obtain rfl := response_mem h
    rw [response, if_pos hok] at h
    have hnot : ∀ o', out = some o' → ¬IsText o' := by
      rintro o' ho'
      obtain rfl := Option.some.inj (ho.symm.trans ho')
      exact htext
    rcases hraw hlate hrc hnot with hnull | ⟨code, message, now', herror⟩
    · rw [response, if_pos hok, ok_text helapsed hnow] at hnull
      rw [ok_text helapsed hnow] at h
      have htexts := Option.some.inj (hnull.trans h.symm)
      have hresult : ascii "null" = resultText out := by
        simpa [okMembers, compact, joined, memberText, resultText] using htexts
      obtain ⟨c, r, rfl⟩ := List.exists_cons_of_ne_nil hne
      rw [ho] at hresult
      refine htext ⟨0, [], ascii "null", [], blank_nil, blank_nil, .null, ?_⟩
      rw [List.nil_append, List.append_nil]
      exact hresult.symm
    · exact ok_ne_error h herror
  · rintro ⟨hkept, hout⟩
    obtain ⟨ms, hobject⟩ := response_object helapsed hnow hout h
    refine ⟨?_, fun hlate hrc hnot => Or.inl ?_⟩
    · have hid := hopens.hasId hobject
      rwa [stripped_self hkept] at hid
    · obtain rfl := response_mem h
      rw [← h]
      cases out with
      | none => rfl
      | some o =>
        obtain rfl := (hout hlate hrc o rfl).resolve_right (hnot o rfl)
        rfl

/-- A call that is answered after 3 ms. -/
def addJob : WsJob := ⟨5, ascii "1", ascii "math", ascii "add", ascii "\x7b\x7d", 0, 0, 0⟩

theorem true_output_valid : ∃ json,
    (response true addJob 3 false 0 (some (ascii "true")) 1700000000).json = some json ∧
      HasId json (ascii "1") ∧ NeverRaw addJob 3 false 0 (some (ascii "true")) 1700000000 json := by
  have hsome : ((response true addJob 3 false 0 (some (ascii "true")) 1700000000).json).isSome = true := by
    decide +kernel
  obtain ⟨json, hjson⟩ := Option.isSome_iff_exists.mp hsome
  have htext : IsText (ascii "true") :=
    ⟨0, [], ascii "true", [], blank_nil, blank_nil, .true, by simp⟩
  have hout : ∀ o, some (ascii "true") = some o → o = [] ∨ IsText o := by
    intro o ho
    obtain rfl := Option.some.inj ho
    exact Or.inr htext
  have hkept : ∀ c ∈ addJob.id, kept c = true := stripped_eq_iff.mp (by decide)
  have helapsed : 3 < 2 ^ 64 := by decide
  have hnow : (1700000000 : Int).natAbs ≤ 2 ^ 63 := by decide
  have hvalid := (response_valid_iff helapsed hnow hjson).mpr ⟨hkept, fun _ _ => hout⟩
  exact ⟨json, hjson, hvalid⟩

/-- The response to a call whose output is cut short is no object. -/
theorem cut_output_torn : ∃ json,
    (response true addJob 3 false 0 (some (ascii "\x7b\"a\":1")) 1700000000).json = some json ∧
      ¬∃ ms, IsObject json ms := by
  have hscan : ∃ json ∈ (response true addJob 3 false 0 (some (ascii "\x7b\"a\":1"))
      1700000000).json, 92 ∉ json ∧ scan (some (false, 0)) json = some (false, 1) := by
    decide +kernel
  obtain ⟨json, hjson, hplain, hopen⟩ := hscan
  refine ⟨json, hjson, ?_⟩
  rintro ⟨ms, d, h⟩
  exact absurd (hopen.symm.trans (scan_object h hplain)) (by decide)

end Responses

end Cyctron.Call.Response
