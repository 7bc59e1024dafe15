/- Cyctron/Http/Forward
   digest: The bodies that the API forwards to its listeners, and how much of them arrives. -/

import Cyctron.Event.Encode
import Cyctron.Http.Api

set_option autoImplicit false
set_option relaxedAutoImplicit false

namespace Cyctron.Http.Forward

open Cyctron.Base.CString Cyctron.Event.Encode Cyctron.Event.Format Cyctron.Http.Api
open Cyctron.Http.Message Cyctron.Http.Routing Cyctron.Json.Build Cyctron.Json.Escape
open Cyctron.Json.Text
open Cyctron.Plugin.Path (FileSystem)

variable {s : Pusher} {up : Bool} {e : Endpoint} {hm : HttpMessage} {type data body f : Bytes}
  {fs : FileSystem} {now : Int}

/-- What `nng_push_internal` publishes: `up` says whether the socket is open and the message is
allocated and sent. -/
def nngPushInternal (up : Bool) (data : Bytes) : List Bytes := if up then [data] else []

/-- What `event_push_with_type` publishes beside the frame of the WebSocket client. -/
def publishWithType (s : Pusher) (up : Bool) (type data : Bytes) : List Bytes :=
  let r := eventFormatWithType s.format (some type) (some data)
  if r.1 = 0 then
    r.2.elim [] fun text => if s.initialized then nngPushInternal up text else []
  else []

/-- The publications at an endpoint of the API. -/
def apiPublished (s : Pusher) (up : Bool) (hm : HttpMessage) : Endpoint → List Bytes
  | .push => publishWithType s up httpApi (copyBody 1024 helloMessage hm.body)
  | .iceoryx =>
    if 0 < hm.body.length then publishWithType s up iceoryxType (copyBody 2048 [] hm.body) else []
  | .log => publishWithType s up logType (copyBody 1024 logMessage hm.body)
  | _ => []

/-- All that is pushed for a request: to the WebSocket client and to NNG. -/
def pushed (s : Pusher) (up : Bool) (hm : HttpMessage) (e : Endpoint) (a : Answer) : List Bytes :=
  a.frames ++ apiPublished s up hm e

/-- An endpoint that forwards the body of a request. -/
def Forwards (e : Endpoint) : Prop := e = .push ∨ e = .iceoryx ∨ e = .log

instance (e : Endpoint) : Decidable (Forwards e) := inferInstanceAs (Decidable (_ ∨ _))

def eventType : Endpoint → Bytes
  | .push => httpApi
  | .iceoryx => iceoryxType
  | _ => logType

/-- The event has the body, byte for byte, as its data member. -/
structure Carries (type body : Bytes) (now : Int) (f : Bytes) : Prop where
  whole : f = withTypeText type body now
  data : ∃ ms v, IsObject f ms ∧ lookup (ascii "data") ms = some v ∧ RawValue body v

/-- A reply of success is true of all that is pushed, and what is not forwarded in full is refused. -/
structure Complete (s : Pusher) (up : Bool) (hm : HttpMessage) (e : Endpoint) (a : Answer) : Prop where
  whole : a.code = 200 → ∀ f ∈ pushed s up hm e a, Carries (eventType e) hm.body s.format.now f
  refused : a.code ≠ 200 → pushed s up hm e a = []

/-- Whoever listens, the request is forwarded in full or refused. -/
def ForwardedInFull (fs : FileSystem) (hm : HttpMessage) : Prop :=
  ∀ (s : Pusher) (up : Bool) (a : Answer), apiAnswer s hm (evHandler fs hm) = some a →
    Complete s up hm (evHandler fs hm) a

section Events

/-- What is pushed of a text is its event. -/
private theorem mem_pushed (hf : f ∈ eventPushWithType s type data ++ publishWithType s up type data) :
    f = withTypeText type data s.format.now := by
  obtain ⟨hcode, hwhole, _⟩ := withType_gives s.now_word type data
  have helim : ∀ {l : Bytes → List Bytes},
      f ∈ (if (eventFormatWithType s.format (some type) (some data)).1 = 0 then
        (eventFormatWithType s.format (some type) (some data)).2.elim [] l else []) →
      f ∈ l (withTypeText type data s.format.now) := by
    intro l hmem
    split at hmem
    · rename_i hzero
      rw [hwhole hzero] at hmem
      exact hmem
    · exact absurd hmem List.not_mem_nil
  rcases List.mem_append.mp hf with hf | hf
  · have hsent := helim hf
    unfold eventPush at hsent
    split at hsent
    · exact List.mem_singleton.mp hsent
    · exact absurd hsent List.not_mem_nil
  · have hsent := helim hf
    unfold nngPushInternal at hsent
    split at hsent
    · split at hsent
      · exact List.mem_singleton.mp hsent
      · exact absurd hsent List.not_mem_nil
    · exact absurd hsent List.not_mem_nil

private theorem mem_frames (type data : Bytes) (h : Pushes s) :
    withTypeText type data s.format.now ∈ eventPushWithType s type data := by
  have htext : eventFormatWithType s.format (some type) (some data) =
      (0, some (withTypeText type data s.format.now)) := by
    rw [Ws.Replies.withType_text s.now_word h.2.2, eventEscapeJson_whole, withTypeText_compact]
  unfold eventPushWithType
  dsimp only
  rw [htext, if_pos rfl, Option.elim_some, eventPush, h.1, h.2.1]
  exact List.mem_singleton_self _

private theorem length_withTypeText (type : Bytes) (now : Int) : ∃ n, ∀ data : Bytes,
    (withTypeText type data now).length = n + data.length := by
  refine ⟨(withTypeText type [] now).length, fun data => ?_⟩
  simp only [withTypeText, List.length_append, List.length_nil]
  omega

/-- Events of one type and time are the same only when their data is. -/
private theorem withTypeText_length {data' : Bytes}
    (h : withTypeText type data now = withTypeText type data' now) : data.length = data'.length := by
  obtain ⟨n, hn⟩ := length_withTypeText type now
  have hlength := congrArg List.length h
  rw [hn, hn] at hlength
  omega

end Events

section Answers

/-- A body is copied into the buffer of its endpoint, and is answered with success. -/
private theorem answer_eq (s : Pusher) (up : Bool) (forwards : Forwards e) (hne : hm.body ≠ [])
    (plain : 0 ∉ hm.body) :
    ∃ json, apiAnswer s hm e =
        some ⟨200, json, eventPushWithType s (eventType e) (hm.body.take (bodySize e - 1))⟩ ∧
      apiPublished s up hm e =
        publishWithType s up (eventType e) (hm.body.take (bodySize e - 1)) := by
  have hpos : 0 < hm.body.length := List.length_pos_of_ne_nil hne
  have hcopy : ∀ (size : Nat) (dflt : Bytes),
      copyBody size dflt hm.body = hm.body.take (size - 1) := by
    intro size dflt
    rw [copyBody, if_pos hpos]
    exact cString_plain fun hmem => plain (List.take_subset _ _ hmem)
  rcases forwards with rfl | rfl | rfl
  · exact ⟨_, by rw [apiAnswer, apiPush, hcopy]; rfl, by rw [apiPublished, hcopy]; rfl⟩
  · refine ⟨(apiIceoryx s hm).json, ?_, ?_⟩
    · rw [apiAnswer, apiIceoryx, if_pos hpos, hcopy]
      rfl
    · rw [apiPublished, if_pos hpos, hcopy]
      rfl
  · exact ⟨_, by rw [apiAnswer, apiLog, hcopy]; rfl, by rw [apiPublished, hcopy]; rfl⟩

theorem text_ne_nil (h : IsText body) : body ≠ [] := by
  obtain ⟨d, w, v, w', _, _, hv, rfl⟩ := h
  intro hnil
  exact value_ne_nil hv (List.append_eq_nil_iff.mp (List.append_eq_nil_iff.mp hnil).2).1

/-- A body that does not fit into the buffer is cut, and yet answered with success. -/
private theorem cut_not_forwarded (forwards : Forwards (evHandler fs hm)) (hne : hm.body ≠ [])
    (plain : 0 ∉ hm.body) (long : bodySize (evHandler fs hm) ≤ hm.body.length) :
    ¬ForwardedInFull fs hm := by
  intro h
  obtain ⟨json, hanswer, hpublished⟩ := answer_eq upPusher false forwards hne plain
  have hcomplete := h upPusher false _ hanswer
  have hframe := @mem_frames upPusher (eventType (evHandler fs hm))
    (hm.body.take (bodySize (evHandler fs hm) - 1)) ⟨rfl, rfl, rfl⟩
  have hcarries := hcomplete.whole rfl _ (List.mem_append_left _ hframe)
  have hlength := withTypeText_length hcarries.whole
  have hsize : 0 < bodySize (evHandler fs hm) := by
    rcases forwards with h | h | h <;>
      · rw [h]
        decide
  rw [List.length_take] at hlength
  omega

/-- A body that fits is pushed in full to every listener. -/
private theorem whole_forwarded (forwards : Forwards (evHandler fs hm)) (text : IsText hm.body)
    (plain : 0 ∉ hm.body) (short : hm.body.length < bodySize (evHandler fs hm)) :
    ForwardedInFull fs hm := by
  intro s up a ha
  obtain ⟨json, hanswer, hpublished⟩ := answer_eq s up forwards (text_ne_nil text) plain
  rw [List.take_of_length_le (by omega)] at hanswer hpublished
  obtain rfl := Option.some.inj (hanswer.symm.trans ha)
  refine ⟨fun _ f hf => ?_, fun hcode => absurd rfl hcode⟩
  rw [pushed, hpublished] at hf
  obtain rfl := mem_pushed hf
  obtain ⟨ms, v, hobject, _, hdata, hraw⟩ := withType_reads (eventType _) s.format.now text
  exact ⟨rfl, ms, v, hobject, hdata, hraw⟩

/-- A request with a JSON text as its body is forwarded in full or refused exactly when the body is
shorter than the buffer of its endpoint. -/
theorem forwarded_iff (fs : FileSystem) (hm : HttpMessage) (forwards : Forwards (evHandler fs hm))
    (text : IsText hm.body) (plain : 0 ∉ hm.body) :
    ForwardedInFull fs hm ↔ hm.body.length < bodySize (evHandler fs hm) := by
  constructor
  · intro h
    by_contra hlong
    exact cut_not_forwarded forwards (text_ne_nil text) plain (Nat.le_of_not_lt hlong) h
  · exact whole_forwarded forwards text plain

private theorem length_string (n : Nat) : (quoted (List.replicate n 97)).length = n + 2 := by
  rw [quoted, List.length_cons, List.length_append, List.length_replicate, List.length_singleton]

theorem string_size {n : Nat} (h : n + 2 < 2 ^ 64) :
    (quoted (List.replicate n 97)).length < 2 ^ 64 := by
  rw [length_string]
  exact h

theorem iceoryx_plain : 0 ∉ iceoryxUri ∧ 63 ∉ iceoryxUri := by decide

/-- A request with a string of this many letters. -/
def stringRequest (n : Nat) (size : n + 2 < 2 ^ 64) : HttpMessage :=
  ⟨POST, iceoryxUri, [], [], quoted (List.replicate n 97), post_plain, iceoryx_plain, plain_nil,
    headers_nil, string_size size⟩

private theorem string_text (n : Nat) : IsText (quoted (List.replicate n 97)) ∧
    0 ∉ quoted (List.replicate n 97) := by
  have hletter : ∀ c ∈ List.replicate n (97 : UInt8), c = 97 := fun c hc => List.eq_of_mem_replicate hc
  have hbody : Body (List.replicate n 97) := by
    apply body_plain
    intro c hc
    rw [hletter c hc]
    decide
  refine ⟨⟨0, [], _, [], blank_nil, blank_nil, .string hbody, by simp [quoted]⟩, ?_⟩
  intro hmem
  rcases List.mem_cons.mp hmem with h | h
  · exact absurd h (by decide)
  · rcases List.mem_append.mp h with h | h
    · exact absurd (hletter 0 h) (by decide)
    · exact absurd (List.mem_singleton.mp h) (by decide)

/-- The longest body that is forwarded. -/
theorem string_forwarded : ForwardedInFull noPlugins
    (stringRequest 2045 (by decide)) :=
  (forwarded_iff noPlugins _ (by decide +kernel) (string_text 2045).1 (string_text 2045).2).mpr
    (by decide +kernel)

/-- A body of the documented length loses its last byte. -/
theorem string_cut : ∃ (hm : HttpMessage), hm.body.length = 2048 ∧ IsText hm.body ∧ 0 ∉ hm.body ∧
    evHandler noPlugins hm = .iceoryx ∧
    (apiIceoryx upPusher hm).json = ascii "\x7b\"success\":true,\"size\":2048\x7d" ∧
    ¬ForwardedInFull noPlugins hm := by
  have hlength := length_string 2046
  refine ⟨stringRequest 2046 (by decide), hlength, (string_text 2046).1,
    (string_text 2046).2, by decide +kernel, by decide +kernel, ?_⟩
  refine cut_not_forwarded (by decide +kernel) (text_ne_nil (string_text 2046).1)
    (string_text 2046).2 ?_
  exact le_of_eq (hlength.trans rfl).symm

end Answers

end Cyctron.Http.Forward
