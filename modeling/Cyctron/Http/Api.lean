/- Cyctron/Http/Api
   digest: The endpoints of the API in handler.c: their replies, and the frames that they push. -/

import Cyctron.Http.Routing
import Cyctron.Json.Members
import Cyctron.Ws.Replies

set_option autoImplicit false
set_option relaxedAutoImplicit false

namespace Cyctron.Http.Api

open Cyctron.Base.CString Cyctron.Event.Format Cyctron.Http.Message Cyctron.Http.Routing
open Cyctron.Json.Text Cyctron.Json.Build Cyctron.Json.Escape Cyctron.Json.Members
open Cyctron.Plugin.Path (FileSystem)

/-- The pusher and its connection when the request comes, the allocations and the clock. -/
structure Pusher where
  initialized : Bool
  hasConnection : Bool
  pushCount : Nat
  format : FormatEnv
  count_word : pushCount < 2 ^ 64
  now_word : format.now.natAbs ≤ 2 ^ 63

/-- A reply of `reply_json`, and the frames for the WebSocket client. -/
structure Answer where
  code : Nat
  json : Bytes
  frames : List Bytes
  deriving DecidableEq

/-- What `event_push` sends to the WebSocket client. -/
def eventPush (s : Pusher) (data : Bytes) : List Bytes :=
  if s.initialized && s.hasConnection then [data] else []

def eventPushWithType (s : Pusher) (type data : Bytes) : List Bytes :=
  let r := eventFormatWithType s.format (some type) (some data)
  if r.1 = 0 then r.2.elim [] (eventPush s) else []

/-- The C string in a buffer of the given size, which holds a default that a body is copied over. -/
def copyBody (size : Nat) (dflt body : Bytes) : Bytes :=
  if 0 < body.length then cString (body.take (size - 1)) else dflt

def httpApi : Bytes := ascii "http_api"
def iceoryxType : Bytes := ascii "iceoryx"
def logType : Bytes := ascii "log"

def helloMessage : Bytes := ascii "\x7b\"message\":\"Hello from HTTP API\"\x7d"
def logMessage : Bytes := ascii "\x7b\"level\":\"info\",\"message\":\"Log message\"\x7d"

def apiPush (s : Pusher) (hm : HttpMessage) : Answer :=
  ⟨200, ascii "\x7b\"success\":true,\"message\":\"Pushed to WebSocket\"\x7d",
    eventPushWithType s httpApi (copyBody 1024 helloMessage hm.body)⟩

def apiStatus (s : Pusher) : Answer :=
  ⟨200, snprintf 256 (ascii "\x7b\"websocket\":" ++
    ascii (if s.hasConnection then "connected" else "disconnected") ++ ascii ",\"push_count\":" ++
    decimal s.pushCount ++ ascii ",\"status\":\"running\"\x7d"), []⟩

def apiIceoryx (s : Pusher) (hm : HttpMessage) : Answer :=
  if 0 < hm.body.length then
    ⟨200, snprintf 64 (ascii "\x7b\"success\":true,\"size\":" ++ decimal hm.body.length ++
        ascii "\x7d"),
      eventPushWithType s iceoryxType (copyBody 2048 [] hm.body)⟩
  else ⟨400, ascii "\x7b\"error\":\"empty body\"\x7d", []⟩

def apiLog (s : Pusher) (hm : HttpMessage) : Answer :=
  ⟨200, ascii "\x7b\"success\":true\x7d",
    eventPushWithType s logType (copyBody 1024 logMessage hm.body)⟩

/-- What `ev_handler` does at an endpoint of the API. -/
def apiAnswer (s : Pusher) (hm : HttpMessage) : Endpoint → Option Answer
  | .push => some (apiPush s hm)
  | .status => some (apiStatus s)
  | .iceoryx => some (apiIceoryx s hm)
  | .log => some (apiLog s hm)
  | _ => none

/-- The reply and the frames are JSON objects. -/
def WellFormed (a : Answer) : Prop :=
  (∃ ms, IsObject a.json ms) ∧ ∀ f ∈ a.frames, ∃ ms, IsObject f ms

/-- The size of the buffer for the body. -/
def bodySize : Endpoint → Nat
  | .iceoryx => 2048
  | _ => 1024

/-- A frame is pushed: the client is connected, and there is memory for the text. -/
def Pushes (s : Pusher) : Prop :=
  s.initialized = true ∧ s.hasConnection = true ∧ s.format.mem = true

section Frames

variable {s : Pusher} {type data : Bytes} {hm : HttpMessage}

/-- A pushed frame is an object exactly when its data is a value, perhaps with members behind it. -/
private theorem frames_iff (htype : Body type)
    (hescape : eventEscapeJson (some type) (type.length * 2 + 1) = type) :
    (∀ f ∈ eventPushWithType s type data, ∃ ms, IsObject f ms) ↔
      (Pushes s → Spliced AnyNumber data) := by
  cases hmem : s.format.mem with
  | false =>
    have hnone : eventPushWithType s type data = [] := by
      simp [eventPushWithType, eventFormatWithType, eventEscapeAlloc, hmem]
    rw [hnone]
    refine iff_of_true (fun f hf => absurd hf List.not_mem_nil) fun h => ?_
    exact absurd (hmem.symm.trans h.2.2) Bool.false_ne_true
  | true =>
    have hframe : eventFormatWithType s.format (some type) (some data) =
        (0, some (compact (Ws.Replies.eventMembers _ data s.format.now))) :=
      Ws.Replies.withType_text s.now_word hmem
    rw [hescape] at hframe
    have hpushed : eventPushWithType s type data =
        eventPush s (compact (Ws.Replies.eventMembers type data s.format.now)) := by
      rw [eventPushWithType, hframe]
      rfl
    have hspliced : (∃ ms, IsObject (compact (Ws.Replies.eventMembers type data s.format.now)) ms) ↔
        Spliced AnyNumber data := by
      simp only [IsObject]
      rw [exists_comm]
      exact object_spliced_iff (body_plain (by decide)) htype (body_plain (by decide))
        (body_plain (by decide)) (number_decimalInt _) (tail_decimalInt (by decide) (by decide) _)
    rw [hpushed, eventPush, Pushes, hmem]
    split
    · rename_i hup
      rw [List.forall_mem_singleton, hspliced]
      rw [Bool.and_eq_true] at hup
      exact ⟨fun h _ => h, fun h => h ⟨hup.1, hup.2, rfl⟩⟩
    · rename_i hdown
      refine iff_of_true (fun f hf => absurd hf List.not_mem_nil) fun h => ?_
      exact absurd (Bool.and_eq_true_iff.mpr ⟨h.1, h.2.1⟩) hdown

end Frames

section Replies

variable {s : Pusher} {hm : HttpMessage} {c : UInt8} {d : Nat} {t : Bytes}

private theorem value_not_letter (hc : c = 99 ∨ c = 100) : ¬Derives AnyNumber .value d (c :: t) := by
  intro h
  generalize heq : c :: t = v at h
  have hother : ∀ {c' : UInt8} {t' : Bytes}, c' ≠ 99 → c' ≠ 100 → c :: t ≠ c' :: t' := by
    intro c' t' h1 h2 heq
    obtain ⟨rfl, _⟩ := List.cons.inj heq
    exact hc.elim h1 h2
  cases h with
  | null => exact absurd heq (hother (by decide) (by decide))
  | true => exact absurd heq (hother (by decide) (by decide))
  | false => exact absurd heq (hother (by decide) (by decide))
  | number h =>
    obtain ⟨c', t', rfl, hc'⟩ := number_head h
    refine absurd heq (hother ?_ ?_) <;>
      · rintro rfl
        exact absurd hc' (by decide)
  | string _ => exact absurd heq (hother (by decide) (by decide))
  | emptyArray _ => exact absurd heq (hother (by decide) (by decide))
  | array _ => exact absurd heq (hother (by decide) (by decide))
  | emptyObject _ => exact absurd heq (hother (by decide) (by decide))
  | object _ => exact absurd heq (hother (by decide) (by decide))

/-- The reply of the status never is an object: the state of the connection has no quotes. -/
private theorem status_not_object (ms : List (Bytes × Bytes)) : ¬IsObject (apiStatus s).json ms := by
  rintro ⟨d, h⟩
  have hletter : ∃ c u, (c = 99 ∨ c = 100) ∧ (apiStatus s).json =
      123 :: 34 :: (ascii "websocket" ++ 34 :: 58 :: c :: u) := by
    have hlead : ∀ (word : Bytes) (c : UInt8) (u : Bytes), word = c :: u → (c = 99 ∨ c = 100) →
        word.length ≤ 20 → ∀ rest, ∃ c u, (c = 99 ∨ c = 100) ∧
          snprintf 256 (ascii "\x7b\"websocket\":" ++ word ++ rest) =
            123 :: 34 :: (ascii "websocket" ++ 34 :: 58 :: c :: u) := by
      rintro word c u rfl hc hlength rest
      have hopen : ascii "\x7b\"websocket\":" = 123 :: 34 :: (ascii "websocket" ++ [34, 58]) := by
        decide
      have hshort : (ascii "\x7b\"websocket\":" ++ c :: u).length < 256 := by
        have h : (ascii "\x7b\"websocket\":").length = 13 := by decide
        rw [List.length_append, h]
        omega
      obtain ⟨r, hr⟩ := @prefix_snprintf 256 _ rest hshort
      exact ⟨c, u ++ r, hc, by rw [← hr, hopen]; simp⟩
    unfold apiStatus
    dsimp only
    simp only [List.append_assoc]
    simp only [← List.append_assoc (ascii "\x7b\"websocket\":")]
    cases s.hasConnection with
    | true => exact hlead (ascii "connected") 99 _ rfl (Or.inl rfl) (by decide) _
    | false => exact hlead (ascii "disconnected") 100 _ rfl (Or.inr rfl) (by decide) _
  obtain ⟨c, u, hc, hjson⟩ := hletter
  rw [hjson] at h
  have hws : isWs c = false := by
    rcases hc with rfl | rfl <;> decide
  obtain ⟨v, hv⟩ := object_value (body_plain (by decide)) hws h
  exact value_not_letter hc hv

/-- A text that is written member by member. -/
private theorem written_object {text : Bytes} {ms ms' : List (Bytes × Bytes)}
    (h : Fills AnyNumber 0 ms ms')
    (htext : text = compact ms) : ∃ ms, IsObject text ms :=
  ⟨ms', 0, htext ▸ object_compact h⟩

private theorem push_object : ∃ ms, IsObject (apiPush s hm).json ms := by
  have htext : ascii "\x7b\"success\":true,\"message\":\"Pushed to WebSocket\"\x7d" =
      compact [(ascii "success", ascii "true"),
        (ascii "message", quoted (ascii "Pushed to WebSocket"))] := by decide
  exact written_object (.cons (body_plain (by decide)) (padded_self .true)
    (.one (body_plain (by decide)) (padded_quoted (body_plain (by decide))))) htext

private theorem log_object : ∃ ms, IsObject (apiLog s hm).json ms := by
  have htext : ascii "\x7b\"success\":true\x7d" = compact [(ascii "success", ascii "true")] := by
    decide
  exact written_object (.one (body_plain (by decide)) (padded_self .true)) htext

private theorem iceoryx_object : ∃ ms, IsObject (apiIceoryx s hm).json ms := by
  unfold apiIceoryx
  split
  · have hlength : (decimal hm.body.length).length ≤ 20 :=
      decimal_length (Nat.lt_trans hm.body_size (by decide)) (by decide)
    have hopen : ascii "\x7b\"success\":true,\"size\":" = 123 :: 34 :: (ascii "success" ++
      34 :: 58 :: (ascii "true" ++ 44 :: 34 :: (ascii "size" ++ [34, 58]))) := by decide
    have hlens : (ascii "\x7b\"success\":true,\"size\":").length = 23 := by decide
    have htext : snprintf 64 (ascii "\x7b\"success\":true,\"size\":" ++ decimal hm.body.length ++
        ascii "\x7d") =
        compact [(ascii "success", ascii "true"), (ascii "size", decimal hm.body.length)] := by
      rw [snprintf_fits]
      · rw [hopen, close_text]
        simp [compact, joined, memberText]
      · rw [close_text]
        simp only [List.length_append, hlens, List.length_cons, List.length_nil]
        omega
    exact written_object (.cons (body_plain (by decide)) (padded_self .true)
      (.one (body_plain (by decide)) (padded_self (.number (number_decimal hm.body.length))))) htext
  · have htext : ascii "\x7b\"error\":\"empty body\"\x7d" =
        compact [(ascii "error", quoted (ascii "empty body"))] := by decide
    exact written_object (.one (body_plain (by decide)) (padded_quoted (body_plain (by decide))))
      htext

end Replies

section Answers

variable {s : Pusher} {hm : HttpMessage} {e : Endpoint} {a : Answer}

/-- The default of a body is an object. -/
private theorem spliced_object {text : Bytes} {ms ms' : List (Bytes × Bytes)}
    (h : Fills AnyNumber 0 ms ms')
    (htext : text = compact ms) : Spliced AnyNumber text :=
  ⟨1, compact ms, text, htext ▸ padded_compact h, Or.inl rfl⟩

private theorem hello_spliced : Spliced AnyNumber helloMessage := by
  have htext : helloMessage =
      compact [(ascii "message", quoted (ascii "Hello from HTTP API"))] := by decide
  exact spliced_object (.one (body_plain (by decide)) (padded_quoted (body_plain (by decide))))
    htext

private theorem log_spliced : Spliced AnyNumber logMessage := by
  have htext : logMessage = compact [(ascii "level", quoted (ascii "info")),
      (ascii "message", quoted (ascii "Log message"))] := by decide
  exact spliced_object (.cons (body_plain (by decide)) (padded_quoted (body_plain (by decide)))
    (.one (body_plain (by decide)) (padded_quoted (body_plain (by decide))))) htext

/-- A body that is copied over a good default. -/
private theorem copyBody_iff {size : Nat} {dflt body : Bytes} (h : Spliced AnyNumber dflt) :
    Spliced AnyNumber (copyBody size dflt body) ↔
      body = [] ∨ Spliced AnyNumber (cString (body.take (size - 1))) := by
  unfold copyBody
  split
  · rename_i hbody
    rw [or_iff_right (List.ne_nil_of_length_pos hbody)]
  · rename_i hbody
    exact iff_of_true h (Or.inl (List.eq_nil_of_length_eq_zero (by omega)))

/-- The body is empty, or what is copied of it is a JSON text, perhaps with members behind it. -/
def GoodBody (e : Endpoint) (body : Bytes) : Prop :=
  body = [] ∨ Spliced AnyNumber (cString (body.take (bodySize e - 1)))

/-- The reply and the frames of an endpoint of the API are JSON objects exactly when it is not the
status, and the body is good or no frame is pushed. -/
theorem api_well_formed_iff (fs : Plugin.Path.FileSystem) (s : Pusher) (hm : HttpMessage)
    (answer : apiAnswer s hm (evHandler fs hm) = some a) :
    WellFormed a ↔ evHandler fs hm ≠ .status ∧ (Pushes s → GoodBody (evHandler fs hm) hm.body) := by
  generalize evHandler fs hm = e at answer
  cases e with
  | push =>
    obtain rfl := Option.some.inj answer
    rw [WellFormed, and_iff_right push_object, and_iff_right (by decide), GoodBody]
    refine (frames_iff (body_plain (by decide)) (by decide)).trans ?_
    exact imp_congr_right fun _ => copyBody_iff hello_spliced
  | log =>
    obtain rfl := Option.some.inj answer
    rw [WellFormed, and_iff_right log_object, and_iff_right (by decide), GoodBody]
    refine (frames_iff (body_plain (by decide)) (by decide)).trans ?_
    exact imp_congr_right fun _ => copyBody_iff log_spliced
  | status =>
    obtain rfl := Option.some.inj answer
    refine iff_of_false ?_ fun h => h.1 rfl
    rintro ⟨⟨ms, hms⟩, _⟩
    exact status_not_object ms hms
  | iceoryx =>
    obtain rfl := Option.some.inj answer
    rw [WellFormed, and_iff_right iceoryx_object, and_iff_right (by decide), GoodBody]
    by_cases hbody : 0 < hm.body.length
    · rw [apiIceoryx, if_pos hbody]
      refine (frames_iff (body_plain (by decide)) (by decide)).trans (imp_congr_right fun _ => ?_)
      rw [copyBody, if_pos hbody, or_iff_right (List.ne_nil_of_length_pos hbody)]
      rfl
    · rw [apiIceoryx, if_neg hbody]
      refine iff_of_true (fun f hf => absurd hf List.not_mem_nil) fun _ => Or.inl ?_
      exact List.eq_nil_of_length_eq_zero (Nat.eq_zero_of_not_pos hbody)
  | _ => cases answer

/-- A pusher with a client, and a request without a query and headers. -/
def upPusher : Pusher := ⟨true, true, 12, ⟨true, 1700000000⟩, by decide, by decide⟩

def temperature : HttpMessage :=
  ⟨POST, iceoryxUri, [], [], ascii "\x7b\"temperature\":23.5\x7d", post_plain, by decide,
    plain_nil, headers_nil, by decide⟩

def statusRequest : HttpMessage :=
  ⟨GET, statusUri, [], [], [], get_plain, by decide, plain_nil, headers_nil, size_nil⟩

private theorem spliced_temperature : Spliced AnyNumber (ascii "\x7b\"temperature\":23.5\x7d") := by
  have hnumber : AnyNumber (ascii "23.5") := by
    have h : AnyNumber ([] ++ (ascii "23" ++ (46 :: [53] ++ []))) :=
      .mk (Or.inl rfl) (Or.inr ⟨⟨by decide, List.all_eq_true.mp (by decide)⟩, by decide⟩)
        (Or.inr ⟨[53], ⟨by decide, List.all_eq_true.mp (by decide)⟩, rfl⟩) (Or.inl rfl)
    exact h
  have htext : ascii "\x7b\"temperature\":23.5\x7d" =
      compact [(ascii "temperature", ascii "23.5")] := by decide
  exact spliced_object (.one (body_plain (by decide)) (padded_self (.number hnumber))) htext

/-- The example of the documentation is answered and pushed as it should be. -/
theorem temperature_well_formed :
    WellFormed (apiIceoryx upPusher temperature) := by
  refine (api_well_formed_iff Routing.noPlugins upPusher temperature ?_).mpr
    ⟨?_, fun _ => Or.inr ?_⟩
  · decide +kernel
  · decide +kernel
  · exact spliced_temperature

/-- The reply of the status is no JSON text. -/
theorem status_torn : apiAnswer upPusher statusRequest (evHandler Routing.noPlugins statusRequest) =
    some (apiStatus upPusher) ∧ ¬WellFormed (apiStatus upPusher) := by
  refine ⟨by decide +kernel, ?_⟩
  rintro ⟨⟨ms, hms⟩, _⟩
  exact status_not_object ms hms

end Answers

end Cyctron.Http.Api
