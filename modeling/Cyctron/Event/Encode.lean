/- Cyctron/Event/Encode
   digest: The formatters write their templates in full, and the strings are read back from them. -/

import Cyctron.Mongoose.Strings
import Cyctron.Ws.Replies
import Mathlib.Algebra.Group.Int.Defs

set_option autoImplicit false
set_option relaxedAutoImplicit false

namespace Cyctron.Event.Encode

open Cyctron.Base.CString Cyctron.Event.Format Cyctron.Json.Text Cyctron.Json.Build
open Cyctron.Json.Escape
open Cyctron.Mongoose.Json Cyctron.Mongoose.Object Cyctron.Mongoose.Strings
open Cyctron.Ws.Replies (eventMembers fills_event withType_text jsonString_text now_length)

/-- The templates of the formatters, with their strings escaped. -/
def withTypeText (type data : Bytes) (now : Int) : Bytes :=
  ascii "\x7b\"type\":\"" ++ escaped type ++ ascii "\",\"data\":" ++ data ++
    ascii ",\"timestamp\":" ++ decimalInt now ++ ascii "\x7d"

def messageText (msg : Bytes) (now : Int) : Bytes :=
  ascii "\x7b\"type\":\"message\",\"message\":\"" ++ escaped msg ++ ascii "\",\"timestamp\":" ++
    decimalInt now ++ ascii "\x7d"

def jsonStringText (type str : Bytes) (now : Int) : Bytes :=
  withTypeText type (quoted (escaped str)) now

def messageMembers (msg : Bytes) (now : Int) : List (Bytes × Bytes) :=
  [(ascii "type", quoted (ascii "message")), (ascii "message", quoted (escaped msg)),
    (ascii "timestamp", decimalInt now)]

/-- The formatter gives the whole text, or fails and gives nothing. -/
structure Gives (r : Int × Option Bytes) (text : Bytes) : Prop where
  code : r.1 = 0 ∨ r.1 = -1
  whole : r.1 = 0 → r.2 = some text
  nothing : r.1 = -1 → r.2 = none

section Formatters

variable {env : FormatEnv} {type data msg str : Bytes} {now : Int}

private theorem gives_text {r : Int × Option Bytes} {text : Bytes} (h : r = (0, some text)) :
    Gives r text := by
  have hcode : (0 : Int) ≠ -1 := by decide
  rw [h]
  exact ⟨Or.inl rfl, fun _ => rfl, fun hr => absurd hr hcode⟩

private theorem gives_nothing {r : Int × Option Bytes} {text : Bytes} (h : r = (-1, none)) :
    Gives r text := by
  have hcode : (-1 : Int) ≠ 0 := by decide
  rw [h]
  exact ⟨Or.inr rfl, fun hr => absurd hr hcode, fun _ => rfl⟩

theorem withTypeText_compact :
    withTypeText type data now = compact (eventMembers (escaped type) data now) := by
  simp [withTypeText, eventMembers, compact, joined, memberText, quoted, type_text, data_text,
    stamp_text, close_text]

private theorem messageText_compact : messageText msg now = compact (messageMembers msg now) := by
  have hmessage : ascii "\x7b\"type\":\"message\",\"message\":\"" = 123 :: 34 :: (ascii "type" ++
    34 :: 58 :: (quoted (ascii "message") ++ 44 :: 34 :: (ascii "message" ++ [34, 58, 34]))) := by
    decide
  have hstamp : ascii "\",\"timestamp\":" = 34 :: 44 :: 34 :: (ascii "timestamp" ++ [34, 58]) := by
    decide
  simp [messageText, messageMembers, compact, joined, memberText, quoted, hmessage, hstamp,
    close_text]

theorem withType_gives (hnow : env.now.natAbs ≤ 2 ^ 63) (type data : Bytes) :
    Gives (eventFormatWithType env (some type) (some data)) (withTypeText type data env.now) := by
  cases hmem : env.mem with
  | false =>
    refine gives_nothing ?_
    simp [eventFormatWithType, eventEscapeAlloc, hmem]
  | true =>
    refine gives_text ?_
    rw [withType_text hnow hmem, eventEscapeJson_whole, withTypeText_compact]

private theorem jsonString_gives (hnow : env.now.natAbs ≤ 2 ^ 63) (type str : Bytes) :
    Gives (eventFormatJsonString env (some type) (some str)) (jsonStringText type str env.now) := by
  cases hmem : env.mem with
  | false =>
    refine gives_nothing ?_
    simp [eventFormatJsonString, eventEscapeAlloc, hmem]
  | true =>
    refine gives_text ?_
    rw [jsonString_text hnow hmem, eventEscapeJson_whole, eventEscapeJson_whole, jsonStringText,
      withTypeText_compact]

/-- A time that is not negative has at most 19 digits, which is what the buffer has room for. -/
private theorem message_gives (hnow : 0 ≤ env.now) (hsize : env.now < 2 ^ 63) (msg : Bytes) :
    Gives (eventFormatMessage env (some msg)) (messageText msg env.now) := by
  cases hmem : env.mem with
  | false =>
    refine gives_nothing ?_
    simp [eventFormatMessage, eventEscapeAlloc, hmem]
  | true =>
    refine gives_text ?_
    have hdigits : (decimalInt env.now).length ≤ 19 := by
      rw [← Int.toNat_of_nonneg hnow]
      exact decimal_length (by omega) (by decide)
    have hlens : (ascii "\x7b\"type\":\"message\",\"message\":\"").length = 29 ∧
        (ascii "\",\"timestamp\":").length = 14 ∧ (ascii "\x7d").length = 1 := by decide
    simp only [eventFormatMessage, eventEscapeAlloc, hmem, if_true, Option.getD_some,
      eventEscapeJson_whole]
    rw [snprintf_fits]
    · rfl
    · simp only [List.length_append, hlens]
      omega

end Formatters

section Readback

variable {type data msg str v : Bytes} {now : Int} {d : Nat}

/-- The strings for which the members of an object stand. -/
def Strings (ms l : List (Bytes × Bytes)) : Prop :=
  ∀ m ∈ l, (lookup m.1 ms).bind decodeString = some m.2

/-- The reader finds the strings at their paths in a text that is not too long for it. -/
def Found (text : Bytes) (l : List (String × Bytes)) : Prop :=
  text.length < 2 ^ 31 → ∀ m ∈ l, mgJsonGetStr text m.1 = some m.2

private theorem object_withType {exponent : Bytes → Prop} (type : Bytes) (now : Int)
    (h : Padded (Number exponent) d data v) :
    Object (Number exponent) d (eventMembers (escaped type) v now) (withTypeText type data now) := by
  rw [withTypeText_compact]
  exact object_compact (fills_event (body_escaped type) h now)

private theorem object_jsonString {exponent : Bytes → Prop} : Object (Number exponent) 0
    (eventMembers (escaped type) (quoted (escaped str)) now) (jsonStringText type str now) :=
  object_withType _ _ (padded_quoted (body_escaped str))

private theorem fills_message {exponent : Bytes → Prop} :
    Fills (Number exponent) 0 (messageMembers msg now) (messageMembers msg now) :=
  .cons (body_plain (by decide)) (padded_quoted (body_plain (by decide))) <|
  .cons (body_plain (by decide)) (padded_quoted (body_escaped msg)) <|
  .one (body_plain (by decide)) (padded_self (.number (number_decimalInt now)))

private theorem object_message {exponent : Bytes → Prop} (msg : Bytes) (now : Int) :
    Object (Number exponent) 0 (messageMembers msg now) (messageText msg now) := by
  rw [messageText_compact]
  exact object_compact fills_message

/-- The value of a text, without the blanks around it. -/
def RawValue (data v : Bytes) : Prop := ∃ w w', Blank w ∧ Blank w' ∧ data = w ++ (v ++ w')

/-- The strings and the data of an event with raw data. -/
theorem withType_reads (type : Bytes) (now : Int) (h : IsText data) : ∃ ms v,
    IsObject (withTypeText type data now) ms ∧ Strings ms [(ascii "type", stripped type)] ∧
      lookup (ascii "data") ms = some v ∧ RawValue data v := by
  obtain ⟨d, w, v, w', hw, hw', hv, heq⟩ := h
  have hobject := object_withType type now ⟨w, w', hw, hw', hv, heq⟩
  refine ⟨_, v, ⟨d, hobject⟩, ?_, rfl, w, w', hw, hw', heq⟩
  intro m hm
  obtain rfl := List.mem_singleton.mp hm
  exact decodeString_escaped type

private theorem message_reads (msg : Bytes) (now : Int) : ∃ ms, IsObject (messageText msg now) ms ∧
    Strings ms [(ascii "type", ascii "message"), (ascii "message", stripped msg)] := by
  refine ⟨_, ⟨0, object_message _ _⟩, ?_⟩
  intro m hm
  simp only [List.mem_cons, List.not_mem_nil, or_false] at hm
  rcases hm with rfl | rfl
  · change decodeString (quoted (ascii "message")) = some (ascii "message")
    decide
  · exact decodeString_escaped msg

private theorem jsonString_reads (type str : Bytes) (now : Int) : ∃ ms,
    IsObject (jsonStringText type str now) ms ∧
    Strings ms [(ascii "type", stripped type), (ascii "data", stripped str)] := by
  refine ⟨_, ⟨0, object_jsonString⟩, ?_⟩
  intro m hm
  simp only [List.mem_cons, List.not_mem_nil, or_false] at hm
  rcases hm with rfl | rfl
  · exact decodeString_escaped type
  · exact decodeString_escaped str

/-- The reader finds escaped strings at the paths of their members. -/
private theorem found_members {text : Bytes} {ms : List (Bytes × Bytes)} {l : List (String × Bytes)}
    (h : Object (Number Readable) d ms text) (room : 1 + d ≤ MG_JSON_MAX_DEPTH)
    (hl : ∀ m ∈ l, ∃ key, ascii m.1 = 36 :: 46 :: key ∧
      lookup key ms = some (quoted (escaped m.2))) :
    Found text (l.map fun m => (m.1, stripped m.2)) := by
  intro short m hm
  obtain ⟨m, hmem, rfl⟩ := List.mem_map.mp hm
  obtain ⟨key, hpath, hlookup⟩ := hl m hmem
  exact getStr_escaped key h room short hpath hlookup

private theorem path_type : ascii "$.type" = 36 :: 46 :: ascii "type" := by decide

private theorem path_data : ascii "$.data" = 36 :: 46 :: ascii "data" := by decide

private theorem path_message : ascii "$.message" = 36 :: 46 :: ascii "message" := by decide

private theorem withType_found (type : Bytes) (now : Int) (room : 1 + d ≤ MG_JSON_MAX_DEPTH)
    (h : Padded (Number Readable) d data v) :
    Found (withTypeText type data now) [("$.type", stripped type)] ∧
      ((withTypeText type data now).length < 2 ^ 31 →
        mgJsonGetTok (withTypeText type data now) "$.data" = v) := by
  have hobject := object_withType type now h
  refine ⟨found_members (l := [("$.type", type)]) hobject room ?_, fun short => ?_⟩
  · rw [List.forall_mem_singleton]
    exact ⟨_, path_type, rfl⟩
  · rw [mgJsonGetTok_object path_data hobject room short]
    rfl

private theorem message_found (msg : Bytes) (now : Int) : Found (messageText msg now)
    [("$.type", ascii "message"), ("$.message", stripped msg)] := by
  have hplain : stripped (ascii "message") = ascii "message" ∧
    escaped (ascii "message") = ascii "message" := by decide
  have hfound := found_members (l := [("$.type", ascii "message"), ("$.message", msg)])
    (object_message msg now) (by decide) ?_
  · rw [List.map_cons, List.map_cons, hplain.1] at hfound
    exact hfound
  · simp only [List.forall_mem_cons, List.not_mem_nil, false_implies, implies_true, and_true]
    refine ⟨⟨_, path_type, ?_⟩, ⟨_, path_message, rfl⟩⟩
    rw [hplain.2]
    rfl

private theorem jsonString_found (type str : Bytes) (now : Int) : Found (jsonStringText type str now)
    [("$.type", stripped type), ("$.data", stripped str)] := by
  refine found_members (l := [("$.type", type), ("$.data", str)]) object_jsonString (by decide) ?_
  simp only [List.forall_mem_cons, List.not_mem_nil, false_implies, implies_true, and_true]
  exact ⟨⟨_, path_type, rfl⟩, ⟨_, path_data, rfl⟩⟩

/-- The formatters write their templates in full or give nothing, and what they write are objects
that stand for their strings less the dropped control characters and for their data. -/
theorem events_encoded {env : FormatEnv} (hnow : 0 ≤ env.now) (hsize : env.now < 2 ^ 63)
    (type data msg str : Bytes) :
    (Gives (eventFormatWithType env (some type) (some data)) (withTypeText type data env.now) ∧
      (IsText data → ∃ ms v, IsObject (withTypeText type data env.now) ms ∧
        Strings ms [(ascii "type", stripped type)] ∧ lookup (ascii "data") ms = some v ∧
        RawValue data v) ∧
      ∀ d v, 1 + d ≤ MG_JSON_MAX_DEPTH → Padded (Number Readable) d data v →
        Found (withTypeText type data env.now) [("$.type", stripped type)] ∧
        ((withTypeText type data env.now).length < 2 ^ 31 →
          mgJsonGetTok (withTypeText type data env.now) "$.data" = v)) ∧
    (Gives (eventFormatMessage env (some msg)) (messageText msg env.now) ∧
      (∃ ms, IsObject (messageText msg env.now) ms ∧
        Strings ms [(ascii "type", ascii "message"), (ascii "message", stripped msg)]) ∧
      Found (messageText msg env.now) [("$.type", ascii "message"), ("$.message", stripped msg)]) ∧
    (Gives (eventFormatJsonString env (some type) (some str)) (jsonStringText type str env.now) ∧
      (∃ ms, IsObject (jsonStringText type str env.now) ms ∧
        Strings ms [(ascii "type", stripped type), (ascii "data", stripped str)]) ∧
      Found (jsonStringText type str env.now)
        [("$.type", stripped type), ("$.data", stripped str)]) := by
  have hword : env.now.natAbs ≤ 2 ^ 63 := by omega
  exact ⟨⟨withType_gives hword type data, withType_reads type env.now,
      fun d v room h => withType_found type env.now room h⟩,
    ⟨message_gives hnow hsize msg, message_reads msg env.now, message_found msg env.now⟩,
    ⟨jsonString_gives hword type str, jsonString_reads type str env.now,
      jsonString_found type str env.now⟩⟩

/-- The last second that the clock can show. -/
def lastSecond : FormatEnv := ⟨true, 9223372036854775807⟩

/-- A string that needs escapes. -/
def broken : Bytes := ascii "a\"b\n"

def listed : Bytes := ascii "[true]"

private theorem padded_listed : Padded (Number Readable) 1 listed listed :=
  padded_self (.array (.element blank_nil .true blank_nil))

/-- The three formatters in the last second, with that string in every place. -/
theorem last_second_encoded :
    ((eventFormatWithType lastSecond (some broken) (some listed)).2 =
        some (withTypeText broken listed lastSecond.now) ∧
      Found (withTypeText broken listed lastSecond.now) [("$.type", broken)] ∧
      mgJsonGetTok (withTypeText broken listed lastSecond.now) "$.data" = listed) ∧
    ((eventFormatMessage lastSecond (some broken)).2 = some (messageText broken lastSecond.now) ∧
      Found (messageText broken lastSecond.now)
        [("$.type", ascii "message"), ("$.message", broken)]) ∧
    ((eventFormatJsonString lastSecond (some broken) (some broken)).2 =
        some (jsonStringText broken broken lastSecond.now) ∧
      Found (jsonStringText broken broken lastSecond.now)
        [("$.type", broken), ("$.data", broken)]) := by
  have hnow : 0 ≤ lastSecond.now := by decide
  have hsize : lastSecond.now < 2 ^ 63 := by decide
  have hsame : stripped broken = broken := by decide
  have hshort : (withTypeText broken listed lastSecond.now).length < 2 ^ 31 := by decide
  obtain ⟨⟨htype, _, htypeFound⟩, ⟨hmessage, _, hmessageFound⟩, hstring, _, hstringFound⟩ :=
    events_encoded hnow hsize broken listed broken broken
  obtain ⟨hfound, hdata⟩ := htypeFound 1 listed (by decide) padded_listed
  rw [hsame] at hfound hmessageFound hstringFound
  exact ⟨⟨htype.whole rfl, hfound, hdata hshort⟩, ⟨hmessage.whole rfl, hmessageFound⟩,
    hstring.whole rfl, hstringFound⟩

end Readback

end Cyctron.Event.Encode
