/- Cyctron/Sse/Stream
   digest: What a client of the event-stream format reads of the outputs of a plugin. -/

import Cyctron.Call.Accept
import Cyctron.Sse.EventStream
import Cyctron.Sse.Table
import Mathlib.Data.List.Forall2

set_option autoImplicit false
set_option relaxedAutoImplicit false

namespace Cyctron.Sse.Stream

open Cyctron.Base.CString Cyctron.Json.Build Cyctron.Sse.EventStream Cyctron.Sse.Format
open Cyctron.Call.Accept (derives_nested nested)
open Cyctron.Json.Text (AnyNumber Blank Body Derives IsText Number quoted)
open Cyctron.Mongoose.Json (MG_JSON_MAX_DEPTH mgJsonGetStr mgJsonGetTok)
open Cyctron.Mongoose.Object (Readable)
open Cyctron.Mongoose.Strings (Simple)
open Cyctron.Sse.Model Cyctron.Sse.Table
open Cyctron.Text.Utf8 (TextDecoder between byteOrderMark encode text)

universe u

variable {κ : Type u}

/-- The call that an event of a client makes. -/
def pluginCall (env : Env) (cl : SseClient κ) : Int × Option Bytes :=
  if cl.custom then
    env.call (clientPath env.fs cl.lib) cl.symbol (if cl.args = [] then none else some cl.args)
  else
    env.call (clientPath env.fs (ascii "sse_demo")) (ascii "sse_next")
      (some (snprintf 64 (ascii "\x7b\"after_id\":" ++ decimalInt cl.lastId ++ ascii "\x7d")))

/-- The output of the plugin, when an event is sent for it. -/
def delivered (env : Env) (cl : SseClient κ) : List Bytes :=
  match (sseSendEvent env cl).2 with
  | none => []
  | some _ => [cString ((pluginCall env cl).2.getD [])]

def polledOutputs (env : Env) (cl : SseClient κ) : List Bytes :=
  if UInt64.ofInt cl.intervalMs ≤ env.now - cl.lastPollMs then
    delivered env { cl with lastPollMs := env.now } else []

/-- The bytes that polls send to a client, and the outputs for which they send events. -/
def polls : List Env → SseClient κ → Bytes
  | [], _ => []
  | env :: envs, cl => (pollClient env cl).2 ++ polls envs (pollClient env cl).1

def pollsOutputs : List Env → SseClient κ → List Bytes
  | [], _ => []
  | env :: envs, cl => polledOutputs env cl ++ pollsOutputs envs (pollClient env cl).1

/-- A stream: the event that is sent at once, and what the polls send. -/
def stream (env : Env) (envs : List Env) (cl : SseClient κ) : Bytes :=
  (sseSendEvent env cl).2.getD [] ++ polls envs (sseSendEvent env cl).1

def outputs (env : Env) (envs : List Env) (cl : SseClient κ) : List Bytes :=
  delivered env cl ++ pollsOutputs envs (sseSendEvent env cl).1

/-- What a client makes of a stream. -/
def clientOf (bytes : Bytes) : EventSource :=
  EventSource.initial.read (TextDecoder.fresh.decode bytes).2

/-- Texts of one JSON value, perhaps with different blanks around it. -/
def SameValue (t u : Bytes) : Prop := ∃ d v, Padded AnyNumber d t v ∧ Padded AnyNumber d u v

/-- The compact form that is documented for the default mode. -/
def documentedForm (n : Int) (b v : Bytes) : Bytes :=
  compact [(ascii "id", decimalInt n), (ascii "event", quoted b), (ascii "data", v)]

/-- A message has the value of an output, under the name that belongs to it; an event without a name
is one with the name `message`. -/
def Carries (custom : Bool) (symbol out : Bytes) (m : Message) : Prop :=
  if custom then m.type = text symbol ∧ SameValue (encode m.data) out
  else ∃ n b v, out = documentedForm n b v ∧ encode m.data = v ∧
    m.type = if b = [] then "message".toList else text (Json.Text.decode b)

/-- Bytes without the ends of lines. -/
def Unbroken (bs : Bytes) : Prop := 10 ∉ bs ∧ 13 ∉ bs

/-- A short JSON text with no end of a line before the end of its value. -/
structure Linear (out : Bytes) : Prop where
  short : out.length < SSE_DATA_MAX
  utf8 : ∃ t, out = encode t
  layout : ∃ d w v w', Blank w ∧ Blank w' ∧ Derives AnyNumber .value d v ∧
    out = w ++ (v ++ w') ∧ Unbroken (w ++ v)

/-- A short output in the documented form: the event is on one line and has only escapes that
mongoose knows, and mongoose can pass over the data. -/
structure Documented (out : Bytes) : Prop where
  short : out.length < SSE_DATA_MAX
  utf8 : ∃ t, out = encode t
  layout : ∃ n b d v, out = documentedForm n b v ∧ Simple b ∧ Unbroken (Json.Text.decode b) ∧
    Derives (Number Readable) .value d v ∧ 1 + d ≤ MG_JSON_MAX_DEPTH ∧ Unbroken v

/-- The plugin gives such outputs to any call. -/
def Proper (custom : Bool) (env : Env) : Prop :=
  ∀ path symbol input rc out, env.call path symbol input = (rc, some out) →
    if custom then Linear (cString out) else Documented (cString out)

section Pieces

variable {custom : Bool} {symbol name data extra a b bs cs : Bytes} {outs outs' : List Bytes}
  {s s' : EventSource}

/-- The client after the messages for some outputs. -/
structure Grows (custom : Bool) (symbol : Bytes) (outs : List Bytes) (s s' : EventSource) :
    Prop where
  ready : Ready s'
  seen : ∃ ms, s'.messages = s.messages ++ ms ∧ s'.fields = s.fields ++ ms.flatMap fieldsOf ∧
    List.Forall₂ (Carries custom symbol) outs ms

/-- Bytes that a client between two events reads as the messages for some outputs. -/
structure Reads (custom : Bool) (symbol : Bytes) (outs : List Bytes) (bs : Bytes) : Prop where
  grows : ∀ s, Ready s → ∃ s', Grows custom symbol outs s s' ∧
    ∀ cs, s.read (Text.Utf8.decode between (bs ++ cs)).2 =
      s'.read (Text.Utf8.decode between cs).2
  start : bs = [] ∨ ∃ c, (c = 'i' ∨ c = ':') ∧
    ∀ cs, (Text.Utf8.decode between (bs ++ cs)).2.head? = some c

theorem Grows.refl (hs : Ready s) : Grows custom symbol [] s s :=
  ⟨hs, [], (List.append_nil _).symm, (List.append_nil _).symm, .nil⟩

theorem Grows.trans {s'' : EventSource} (h : Grows custom symbol outs s s')
    (h' : Grows custom symbol outs' s' s'') : Grows custom symbol (outs ++ outs') s s'' := by
  obtain ⟨_, ms, hmessages, hfields, hall⟩ := h
  obtain ⟨hready, ms', hmessages', hfields', hall'⟩ := h'
  refine ⟨hready, ms ++ ms', ?_, ?_, List.rel_append hall hall'⟩
  · rw [hmessages', hmessages, List.append_assoc]
  · rw [hfields', hfields, List.flatMap_append, List.append_assoc]

private theorem reads_nil : Reads custom symbol [] [] :=
  ⟨fun s hs => ⟨s, .refl hs, fun _ => rfl⟩, Or.inl rfl⟩

theorem Reads.append (h : Reads custom symbol outs a) (h' : Reads custom symbol outs' b) :
    Reads custom symbol (outs ++ outs') (a ++ b) := by
  refine ⟨?_, ?_⟩
  · intro s hs
    obtain ⟨s', hgrows, hread⟩ := h.grows s hs
    obtain ⟨s'', hgrows', hread'⟩ := h'.grows s' hgrows.ready
    refine ⟨s'', hgrows.trans hgrows', fun cs => ?_⟩
    rw [List.append_assoc, hread, hread']
  · rcases h.start with rfl | ⟨c, hc, hstart⟩
    · rw [List.nil_append]
      exact h'.start
    · refine Or.inr ⟨c, hc, fun cs => ?_⟩
      rw [List.append_assoc, hstart]

private theorem reads_keepalive : Reads custom symbol [] keepalive := by
  refine ⟨fun s hs => ⟨s, .refl hs, fun cs => ?_⟩, Or.inr ⟨':', Or.inr rfl, fun cs => ?_⟩⟩
  · rw [decode_keepalive]
    exact read_comment ⟨by decide, by decide⟩ hs.afterReturn hs.line rfl _
  · rw [decode_keepalive]
    rfl

private theorem oneLine_text (h : Unbroken bs) : OneLine (text bs) := by
  refine ⟨?_, ?_⟩
  · exact Text.Utf8.text_notMem (c := 10) (by decide) h.1
  · exact Text.Utf8.text_notMem (c := 13) (by decide) h.2

/-- Blanks from the end of a line on. -/
def Tail (extra : Bytes) : Prop :=
  Blank extra ∧ (extra = [] ∨ ∃ c rest, extra = c :: rest ∧ (c = 10 ∨ c = 13))

private theorem blank_char {c : UInt8} (h : Json.Text.isWs c = true) :
    IsBlank (Char.ofNat c.toNat) := by
  simp only [Json.Text.isWs, Bool.or_eq_true, decide_eq_true_eq] at h
  rcases h with ((rfl | rfl) | rfl) | rfl
  · exact Or.inl rfl
  · exact Or.inr (Or.inl rfl)
  · exact Or.inr (Or.inr (Or.inl rfl))
  · exact Or.inr (Or.inr (Or.inr rfl))

private theorem blank_ascii {w : Bytes} (h : Blank w) : ∀ c ∈ w, c.toNat < 128 := by
  intro c hc
  have hws := h c hc
  simp only [Json.Text.isWs, Bool.or_eq_true, decide_eq_true_eq] at hws
  rcases hws with ((rfl | rfl) | rfl) | rfl <;> decide

private theorem trailing_tail (h : Tail extra) : Trailing (extra.map fun c => Char.ofNat c.toNat) := by
  obtain ⟨hblank, rfl | ⟨c, rest, rfl, hc⟩⟩ := h
  · exact Or.inl rfl
  · refine Or.inr ⟨Char.ofNat c.toNat, _, List.map_cons, ?_, ?_⟩
    · rcases hc with rfl | rfl
      · exact Or.inl rfl
      · exact Or.inr rfl
    · intro x hx
      obtain ⟨c', hc', rfl⟩ := List.mem_map.mp hx
      exact blank_char (hblank c' (List.mem_cons_of_mem c hc'))

/-- An event whose name and data are on one line, perhaps with blanks behind the data. -/
private theorem reads_event (id : Int) (hname : Unbroken (eventName (some name)))
    (hdata : Unbroken data) (hextra : Tail extra) {out : Bytes}
    (hcarries : Carries custom symbol out ⟨text (eventName (some name)), text data, digits id⟩) :
    Reads custom symbol [out] (eventText id (some name) (some (data ++ extra))) := by
  have hne : eventName (some name) ≠ [] := by
    cases name with
    | nil => exact List.cons_ne_nil _ _
    | cons c name => exact List.cons_ne_nil c name
  have hsplit : text (data ++ extra) = text data ++ extra.map fun c => Char.ofNat c.toNat :=
    Text.Utf8.text_append_plain (blank_ascii hextra.1)
  have hid : OneLine (digits id) :=
    ⟨digits_notMem id (c := 10) (by decide) (by decide) (by decide),
      digits_notMem id (c := 13) (by decide) (by decide) (by decide)⟩
  have hzero : Char.ofNat 0 ∉ digits id :=
    digits_notMem id (c := 0) (by decide) (by decide) (by decide)
  refine ⟨fun s hs => ⟨s.received ⟨text (eventName (some name)), text data, digits id⟩, ?_, ?_⟩,
    Or.inr ⟨'i', Or.inl rfl, fun cs => ?_⟩⟩
  · exact ⟨⟨hs.afterReturn, hs.line, hs.data, hs.type⟩, [_], rfl, rfl, .cons hcarries .nil⟩
  · intro cs
    have hbytes : eventData (some (data ++ extra)) = data ++ extra := rfl
    rw [decode_eventText, hbytes, hsplit, List.append_assoc]
    exact read_event hs hid hzero (oneLine_text hname) (Text.Utf8.text_ne_nil hne)
      (oneLine_text hdata) (trailing_tail hextra) _
  · rw [decode_eventText]
    rfl

end Pieces

section Outputs

variable {out v : Bytes} {d : Nat} {num : Bytes → Prop}

/-- The blanks behind a value up to the end of its line, and the others. -/
private theorem blank_cut {w : Bytes} (h : Blank w) :
    ∃ w₁ extra, w = w₁ ++ extra ∧ Blank w₁ ∧ Unbroken w₁ ∧ Tail extra := by
  induction w with
  | nil =>
    exact ⟨[], [], rfl, blank_nil, ⟨List.not_mem_nil, List.not_mem_nil⟩, blank_nil, Or.inl rfl⟩
  | cons c w ih =>
    obtain ⟨hc, hw⟩ := List.forall_mem_cons.mp h
    by_cases hend : c = 10 ∨ c = 13
    · exact ⟨[], c :: w, rfl, blank_nil, ⟨List.not_mem_nil, List.not_mem_nil⟩, h,
        Or.inr ⟨c, w, rfl, hend⟩⟩
    · obtain ⟨w₁, extra, rfl, hblank, hunbroken, htail⟩ := ih hw
      rw [not_or] at hend
      refine ⟨c :: w₁, extra, rfl, List.forall_mem_cons.mpr ⟨hc, hblank⟩, ⟨?_, ?_⟩, htail⟩
      · exact fun hmem => (List.mem_cons.mp hmem).elim (fun h => hend.1 h.symm) hunbroken.1
      · exact fun hmem => (List.mem_cons.mp hmem).elim (fun h => hend.2 h.symm) hunbroken.2

/-- What the client gets of a text is its value. -/
theorem Linear.event (h : Linear out) : ∃ data extra, out = data ++ extra ∧ Unbroken data ∧
    Tail extra ∧ SameValue (encode (text data)) out := by
  obtain ⟨t, hutf⟩ := h.utf8
  obtain ⟨d, w, v, w', hw, hw', hv, hout, hunbroken⟩ := h.layout
  obtain ⟨w₁, extra, rfl, hblank, hline, htail⟩ := blank_cut hw'
  have hshape : out = (w ++ (v ++ w₁)) ++ extra := by rw [hout]; simp only [List.append_assoc]
  refine ⟨w ++ (v ++ w₁), extra, hshape, ?_, htail, ?_⟩
  · rw [← List.append_assoc]
    refine ⟨?_, ?_⟩
    · exact fun hmem => (List.mem_append.mp hmem).elim hunbroken.1 hline.1
    · exact fun hmem => (List.mem_append.mp hmem).elim hunbroken.2 hline.2
  · have hascii : extra = [] ∨ ∃ c rest, extra = c :: rest ∧ c.toNat < 128 := by
      refine htail.2.imp_right ?_
      rintro ⟨c, rest, rfl, hc⟩
      exact ⟨c, rest, rfl, blank_ascii htail.1 c List.mem_cons_self⟩
    obtain ⟨u, _, _, hdata, _⟩ := Text.Utf8.encode_split (hutf.symm.trans hshape) hascii
    rw [hdata, Text.Utf8.text_encode, ← hdata]
    exact ⟨d, v, ⟨w, w₁, hw, hblank, hv, rfl⟩, ⟨w, w₁ ++ extra, hw, hw', hv, hout⟩⟩

private theorem value_ascii (h : Derives (Number num) .value d v) :
    ∃ c u, v = c :: u ∧ c.toNat < 128 := by
  cases h with
  | null => exact ⟨110, [117, 108, 108], by decide, by decide⟩
  | true => exact ⟨116, [114, 117, 101], by decide, by decide⟩
  | false => exact ⟨102, [97, 108, 115, 101], by decide, by decide⟩
  | number h =>
    obtain ⟨c, u, rfl, hc⟩ := number_head h
    refine ⟨c, u, rfl, ?_⟩
    rcases hc with rfl | hc
    · decide
    · simp only [Json.Text.isDigit, Bool.and_eq_true, decide_eq_true_eq, UInt8.le_iff_toNat_le,
        UInt8.reduceToNat] at hc
      omega
  | string _ => exact ⟨34, _, rfl, by decide⟩
  | emptyArray _ => exact ⟨91, _, rfl, by decide⟩
  | array _ => exact ⟨91, _, rfl, by decide⟩
  | emptyObject _ => exact ⟨123, _, rfl, by decide⟩
  | object _ => exact ⟨123, _, rfl, by decide⟩

private theorem decode_eq_nil {b : Bytes} (h : Simple b) : Json.Text.decode b = [] ↔ b = [] := by
  cases h with
  | nil => exact iff_of_true rfl rfl
  | plain _ _ backslash _ =>
    rw [Json.Escape.decode_plain backslash]
    exact iff_of_false (List.cons_ne_nil _ _) (List.cons_ne_nil _ _)
  | short letter _ =>
    rw [Json.Escape.decode_short (Mongoose.Strings.known_value letter).2.1]
    exact iff_of_false (List.cons_ne_nil _ _) (List.cons_ne_nil _ _)
  | unicode _ _ _ small _ =>
    rw [Mongoose.Strings.decode_unicode small]
    exact iff_of_false (List.cons_ne_nil _ _) (List.cons_ne_nil _ _)

private theorem object_documented {b : Bytes} (n : Int) (hb : Simple b)
    (hv : Derives (Number Readable) .value d v) :
    Json.Text.Object (Number Readable) d [(ascii "id", decimalInt n), (ascii "event", quoted b),
      (ascii "data", v)] (documentedForm n b v) := by
  apply object_compact
  have hid : Padded (Number Readable) d (decimalInt n) (decimalInt n) :=
    padded_self (.number (number_decimalInt n))
  have hevent : Padded (Number Readable) d (quoted b) (quoted b) :=
    padded_quoted (Mongoose.Strings.body_simple hb)
  exact .cons (Json.Escape.body_plain (by decide)) hid
    (.cons (Json.Escape.body_plain (by decide)) hevent
      (.one (Json.Escape.body_plain (by decide)) (padded_self hv)))

private theorem documentedForm_split (n : Int) (b v : Bytes) :
    ∃ front, documentedForm n b v = front ++ (v ++ [125]) := by
  refine ⟨123 :: (memberText (ascii "id", decimalInt n) ++ 44 ::
    (memberText (ascii "event", quoted b) ++ 44 :: 34 :: (ascii "data" ++ [34, 58]))), ?_⟩
  simp [documentedForm, compact, joined, memberText]

/-- Mongoose finds the event and the data of an output in the documented form. -/
theorem Documented.event (h : Documented out) : ∃ n b v, out = documentedForm n b v ∧
    mgJsonGetStr out "$.event" = some (Json.Text.decode b) ∧
    (mgJsonGetTok out "$.data").take (SSE_DATA_MAX - 1) = v ∧ v ≠ [] ∧
    Unbroken (Json.Text.decode b) ∧ Unbroken v ∧ encode (text v) = v ∧
    (Json.Text.decode b = [] ↔ b = []) := by
  obtain ⟨t, hutf⟩ := h.utf8
  obtain ⟨n, b, d, v, hout, hb, hname, hv, room, hdata⟩ := h.layout
  obtain ⟨front, hsplit⟩ := documentedForm_split n b v
  have hobject := object_documented n hb hv
  have hshort : (documentedForm n b v).length < 2 ^ 31 :=
    Nat.lt_trans (hout ▸ h.short) (by decide)
  have hlength : v.length ≤ SSE_DATA_MAX - 1 := by
    have hlt := h.short
    rw [hout, hsplit] at hlt
    simp only [List.length_append, List.length_singleton] at hlt
    omega
  refine ⟨n, b, v, hout, ?_, ?_, value_ne_nil hv, hname, hdata, ?_, decode_eq_nil hb⟩
  · have hpath : ascii "$.event" = 36 :: 46 :: ascii "event" := by decide
    rw [hout, Mongoose.Object.mgJsonGetStr_object hpath hobject room hshort]
    change Mongoose.Object.readString (quoted b) = _
    rw [Mongoose.Strings.readString_quoted hb, Json.Escape.decodeString_quoted]
  · have hpath : ascii "$.data" = 36 :: 46 :: ascii "data" := by decide
    rw [hout, Mongoose.Object.mgJsonGetTok_object hpath hobject room hshort]
    exact List.take_of_length_le hlength
  · obtain ⟨c, u, hcons, hc⟩ := value_ascii hv
    rw [hout, hsplit, ← List.append_assoc] at hutf
    obtain ⟨x, _, _, hfront, _⟩ :=
      Text.Utf8.encode_split hutf.symm (Or.inr ⟨125, [], rfl, by decide⟩)
    obtain ⟨_, y, _, _, hy⟩ := Text.Utf8.encode_split hfront.symm (Or.inr ⟨c, u, hcons, hc⟩)
    rw [hy, Text.Utf8.text_encode]

end Outputs

section Events

variable {env : Env} {cl : SseClient κ} {sent : Bytes}

private theorem sendCustom_some (h : (sseSendCustom env cl).2 = some sent) :
    ∃ out, env.call (clientPath env.fs cl.lib) cl.symbol
        (if cl.args = [] then none else some cl.args) = (0, some out) ∧
      sent = eventText (cl.seq + 1) (some cl.symbol)
        (some ((cString out).take (SSE_DATA_MAX - 1))) := by
  rcases sendCustom_spec env cl with ⟨heq, _⟩ | ⟨out, hcall, ⟨_, heq⟩ | heq⟩
  · rw [heq] at h
    cases h
  · rw [heq] at h
    cases h
  · rw [heq] at h
    exact ⟨out, hcall, (Option.some.inj h).symm⟩

private theorem sendNext_some (h : (sseSendNext env cl).2 = some sent) :
    ∃ out id, env.call (clientPath env.fs (ascii "sse_demo")) (ascii "sse_next")
        (some (snprintf 64 (ascii "\x7b\"after_id\":" ++ decimalInt cl.lastId ++ ascii "\x7d"))) =
          (0, some out) ∧
      sent = eventText id (some ((mgJsonGetStr (cString out) "$.event").getD (ascii "message")))
        (some (if (mgJsonGetTok (cString out) "$.data").take (SSE_DATA_MAX - 1) = [] then
          ascii "null" else (mgJsonGetTok (cString out) "$.data").take (SSE_DATA_MAX - 1))) := by
  rcases sendNext_spec env cl with heq | ⟨out, hcall, _, heq⟩
  · rw [heq] at h
    cases h
  · rw [heq] at h
    exact ⟨out, _, hcall, (Option.some.inj h).symm⟩

private theorem eventName_symbol {symbol : Bytes} (h : Name symbol) :
    eventName (some symbol) = symbol := by
  obtain ⟨c, s, rfl⟩ := List.exists_cons_of_ne_nil h.1
  rfl

private theorem unbroken_symbol {symbol : Bytes} (h : Name symbol) : Unbroken symbol := by
  refine ⟨fun hmem => ?_, fun hmem => ?_⟩
  · exact absurd (h.2 10 hmem) (by decide)
  · exact absurd (h.2 13 hmem) (by decide)

/-- The event of the generic mode is read as its message. -/
private theorem custom_reads (hname : Name cl.symbol) {out : Bytes} (h : Linear (cString out))
    (id : Int) :
    Reads true cl.symbol [cString out]
      (eventText id (some cl.symbol) (some ((cString out).take (SSE_DATA_MAX - 1)))) := by
  have hlength : (cString out).length ≤ SSE_DATA_MAX - 1 := Nat.le_sub_one_of_lt h.short
  obtain ⟨data, extra, hsplit, hline, htail, hvalue⟩ := h.event
  rw [List.take_of_length_le hlength]
  have hcarries : Carries true cl.symbol (cString out)
      ⟨text (eventName (some cl.symbol)), text data, digits id⟩ := by
    rw [eventName_symbol hname]
    exact ⟨rfl, hvalue⟩
  have hunbroken : Unbroken (eventName (some cl.symbol)) := by
    rw [eventName_symbol hname]
    exact unbroken_symbol hname
  have hreads := reads_event id hunbroken hline htail hcarries
  rwa [← hsplit] at hreads

/-- The event of the default mode is read as its message. -/
private theorem next_reads {symbol out : Bytes} (h : Documented (cString out)) (id : Int) :
    Reads false symbol [cString out]
      (eventText id (some ((mgJsonGetStr (cString out) "$.event").getD (ascii "message")))
        (some (if (mgJsonGetTok (cString out) "$.data").take (SSE_DATA_MAX - 1) = [] then
          ascii "null" else (mgJsonGetTok (cString out) "$.data").take (SSE_DATA_MAX - 1)))) := by
  obtain ⟨n, b, v, hout, hevent, htok, hne, hname, hline, hdata, hempty⟩ := h.event
  rw [hevent, htok, if_neg hne, Option.getD_some]
  have hshown : Unbroken (eventName (some (Json.Text.decode b))) ∧
      text (eventName (some (Json.Text.decode b))) =
        if b = [] then "message".toList else text (Json.Text.decode b) := by
    by_cases hb : b = []
    · rw [hempty.mpr hb, if_pos hb]
      exact ⟨⟨by decide, by decide⟩, by decide⟩
    · obtain ⟨c, s, hcons⟩ := List.exists_cons_of_ne_nil fun hnil => hb (hempty.mp hnil)
      have hself : eventName (some (Json.Text.decode b)) = Json.Text.decode b := by
        rw [hcons]
        rfl
      rw [hself, if_neg hb]
      exact ⟨hname, rfl⟩
  have hcarries : Carries false symbol (cString out)
      ⟨text (eventName (some (Json.Text.decode b))), text v, digits id⟩ :=
    ⟨n, b, v, hout, hdata, hshown.2⟩
  have hreads := reads_event id hshown.1 hline ⟨blank_nil, Or.inl rfl⟩ hcarries
  rwa [List.append_nil] at hreads

private theorem sendEvent_reads (hname : Name cl.symbol) (hproper : Proper cl.custom env) :
    Reads cl.custom cl.symbol (delivered env cl) ((sseSendEvent env cl).2.getD []) := by
  unfold delivered
  cases hsent : (sseSendEvent env cl).2 with
  | none => exact reads_nil
  | some sent =>
    dsimp only
    unfold sseSendEvent at hsent
    rw [Option.getD_some]
    split at hsent
    · cases hsent
    · cases hcustom : cl.custom with
      | true =>
        rw [hcustom, if_pos rfl] at hsent
        rw [hcustom] at hproper
        obtain ⟨out, hcall, rfl⟩ := sendCustom_some hsent
        have hplugin : pluginCall env cl = (0, some out) := by
          rw [pluginCall, hcustom, if_pos rfl, hcall]
        rw [hplugin]
        exact custom_reads hname (hproper _ _ _ _ _ hcall) _
      | false =>
        rw [hcustom, if_neg Bool.false_ne_true] at hsent
        rw [hcustom] at hproper
        obtain ⟨out, id, hcall, rfl⟩ := sendNext_some hsent
        have hplugin : pluginCall env cl = (0, some out) := by
          rw [pluginCall, hcustom, if_neg Bool.false_ne_true, hcall]
        rw [hplugin]
        exact next_reads (hproper _ _ _ _ _ hcall) id

/-- What a poll sends: perhaps an event, and perhaps a keepalive behind it. -/
private theorem pollClient_reads (hname : Name cl.symbol) (hproper : Proper cl.custom env) :
    Reads cl.custom cl.symbol (polledOutputs env cl) (pollClient env cl).2 := by
  have hevent : Reads cl.custom cl.symbol (polledOutputs env cl)
      ((if UInt64.ofInt cl.intervalMs ≤ env.now - cl.lastPollMs then
        sseSendEvent env { cl with lastPollMs := env.now } else (cl, none)).2.getD []) := by
    unfold polledOutputs
    split
    · exact @sendEvent_reads κ env { cl with lastPollMs := env.now } hname hproper
    · exact reads_nil
  unfold pollClient
  dsimp only
  generalize (if UInt64.ofInt cl.intervalMs ≤ env.now - cl.lastPollMs then
    sseSendEvent env { cl with lastPollMs := env.now } else (cl, none)) = r at hevent ⊢
  split
  · have hboth := hevent.append reads_keepalive
    rwa [List.append_nil] at hboth
  · exact hevent

private theorem polls_reads {envs : List Env} (hname : Name cl.symbol)
    (hproper : ∀ e ∈ envs, Proper cl.custom e) :
    Reads cl.custom cl.symbol (pollsOutputs envs cl) (polls envs cl) := by
  induction envs generalizing cl with
  | nil => exact reads_nil
  | cons env envs ih =>
    obtain ⟨hfirst, hrest⟩ := List.forall_mem_cons.mp hproper
    have hsame := pollClient_same env cl
    have hmore := @ih (pollClient env cl).1 (hsame.symbol ▸ hname) (hsame.custom ▸ hrest)
    rw [hsame.symbol, hsame.custom] at hmore
    exact (pollClient_reads hname hfirst).append hmore

/-- On streams of linear outputs, or of documented ones in the default mode, a client of the format
reads one message for each event, with the value of its output, and sees nothing else. -/
theorem stream_carries (cl : SseClient κ) (env : Env) (envs : List Env) (hname : Name cl.symbol)
    (hproper : ∀ e ∈ env :: envs, Proper cl.custom e) :
    List.Forall₂ (Carries cl.custom cl.symbol) (outputs env envs cl)
        (clientOf (stream env envs cl)).messages ∧
      (clientOf (stream env envs cl)).fields =
        (clientOf (stream env envs cl)).messages.flatMap fieldsOf ∧
      Ready (clientOf (stream env envs cl)) := by
  obtain ⟨hfirst, hrest⟩ := List.forall_mem_cons.mp hproper
  have hsame := sendEvent_same env cl
  have hmore := @polls_reads κ (sseSendEvent env cl).1 envs (hsame.symbol ▸ hname)
    (hsame.custom ▸ hrest)
  rw [hsame.symbol, hsame.custom] at hmore
  have hreads : Reads cl.custom cl.symbol (outputs env envs cl) (stream env envs cl) :=
    (sendEvent_reads hname hfirst).append hmore
  obtain ⟨s', ⟨hready, ms, hmessages, hfields, hall⟩, hread⟩ :=
    hreads.grows .initial ⟨rfl, rfl, rfl, rfl⟩
  have hmark : (Text.Utf8.decode between (stream env envs cl)).2.head? ≠ some byteOrderMark := by
    rcases hreads.start with hnil | ⟨c, hc, hstart⟩
    · rw [hnil]
      decide
    · have hhead := hstart []
      rw [List.append_nil] at hhead
      rw [hhead]
      rcases hc with rfl | rfl
      · decide
      · decide
  have hclient : clientOf (stream env envs cl) = s' := by
    have hall := hread []
    rw [List.append_nil] at hall
    rw [clientOf, TextDecoder.decode_fresh hmark, hall]
    rfl
  rw [hclient, hfields, hmessages]
  exact ⟨hall, rfl, hready⟩

end Events

section Samples

/-- A plugin that gives this output to any call, and the number that is read in it. -/
def answering (now : UInt64) (id : Int) (out : Bytes) : Env :=
  ⟨⟨fun _ => false, fun _ => none⟩, fun _ => true, now, fun _ _ _ => (0, some out), fun _ _ _ => id⟩

def sampleClient (custom : Bool) : SseClient Nat :=
  { c := some 1
    lastId := 0
    lastPollMs := 0
    lastPingMs := 0
    intervalMs := 200
    active := true
    custom := custom
    once := false
    done := false
    seq := 0
    lib := ascii "sse_demo"
    symbol := ascii "post_info"
    args := [] }

/-- An object with a blank and a line feed behind it. -/
def sampleOutput : Bytes := ascii "\x7b\"ok\":true\x7d \n"

private theorem linear_sampleOutput : Linear sampleOutput := by
  have hvalue : Derives AnyNumber .value 1 (compact [(ascii "ok", ascii "true")]) :=
    .object (Fills.one (Json.Escape.body_plain (by decide)) (padded_self .true)).derives
  exact ⟨by decide, ⟨"\x7b\"ok\":true\x7d \n".toList, by decide⟩, 1, [],
    compact [(ascii "ok", ascii "true")], [32, 10], blank_nil, List.all_eq_true.mp (by decide),
    hvalue, by decide, by decide, by decide⟩

/-- An event at once, and one more with a keepalive behind it. -/
theorem stream_carries_sample : ∃ ms, List.Forall₂ (Carries true (ascii "post_info"))
      [sampleOutput, sampleOutput] ms ∧
    (clientOf (stream (answering 1000 0 sampleOutput) [answering 16000 0 sampleOutput]
      (sampleClient true))).messages = ms := by
  have hproper : ∀ now, Proper true (answering now 0 sampleOutput) := by
    intro now path symbol input rc out h
    obtain rfl := Option.some.inj (congrArg Prod.snd h)
    have hstring : cString sampleOutput = sampleOutput := by decide
    rw [if_pos rfl, hstring]
    exact linear_sampleOutput
  obtain ⟨hall, _⟩ := stream_carries (sampleClient true) (answering 1000 0 sampleOutput)
    [answering 16000 0 sampleOutput] (name_iff.mp (by decide))
    (List.forall_mem_cons.mpr ⟨hproper _, List.forall_mem_singleton.mpr (hproper _)⟩)
  have houtputs : outputs (answering 1000 0 sampleOutput) [answering 16000 0 sampleOutput]
      (sampleClient true) = [sampleOutput, sampleOutput] := by decide +kernel
  rw [houtputs] at hall
  exact ⟨_, hall, rfl⟩

/-- An opening brace alone is no JSON text. -/
private theorem brace_not_text : ¬IsText [123] := by
  rintro ⟨d, w, v, w', hw, hw', hv, heq⟩
  obtain ⟨c, u, rfl, _⟩ := value_first hv
  cases w with
  | nil =>
    rw [List.nil_append, List.cons_append] at heq
    obtain ⟨rfl, hnil⟩ := List.cons.inj heq
    obtain ⟨rfl, _⟩ := List.append_eq_nil_iff.mp hnil.symm
    generalize hbrace : [(123 : UInt8)] = t at hv
    cases hv with
    | null => cases (by decide : [(123 : UInt8)] ≠ ascii "null") hbrace
    | true => cases (by decide : [(123 : UInt8)] ≠ ascii "true") hbrace
    | false => cases (by decide : [(123 : UInt8)] ≠ ascii "false") hbrace
    | number h =>
      obtain ⟨c, u, rfl, hc⟩ := number_head h
      obtain ⟨rfl, _⟩ := List.cons.inj hbrace
      exact absurd hc (by decide)
    | string _ => cases (List.cons.inj hbrace).1
    | emptyArray _ => cases (List.cons.inj hbrace).1
    | array _ => cases (List.cons.inj hbrace).1
    | emptyObject _ => simp at hbrace
    | object _ => simp at hbrace
  | cons c' w =>
    obtain ⟨rfl, hrest⟩ := List.cons.inj heq
    rw [List.cons_append] at hrest
    simp at hrest

/-- The messages that a client reads of one event. -/
def messagesOf (custom : Bool) (out : Bytes) : List Message :=
  (clientOf (stream (answering 0 1 out) [] (sampleClient custom))).messages

/-- A line feed in the output or in the name of an event, an escape that mongoose does not know, and
data that it cannot read to the end: each is read as another event. -/
theorem other_events_read :
    (IsText (ascii "\x7b\n\x7d") ∧ messagesOf true (ascii "\x7b\n\x7d") =
        [⟨"post_info".toList, "\x7b".toList, "1".toList⟩] ∧ ¬IsText (encode "\x7b".toList)) ∧
    (text (Json.Text.decode (ascii "a\\nb")) = "a\nb".toList ∧
      messagesOf false (documentedForm 1 (ascii "a\\nb") (ascii "1")) =
        [⟨"a".toList, "1".toList, "1".toList⟩]) ∧
    (text (Json.Text.decode (ascii "\\u00e9")) = ['é'] ∧
      messagesOf false (documentedForm 1 (ascii "\\u00e9") (ascii "1")) =
        [⟨[Text.Utf8.replacement], "1".toList, "1".toList⟩]) ∧
    (Derives AnyNumber .value 30 (nested 30) ∧
      messagesOf false (documentedForm 1 (ascii "a") (nested 30)) =
        [⟨"a".toList, "null".toList, "1".toList⟩]) ∧
    messagesOf false (documentedForm 1 (ascii "a") (ascii "1e3080")) =
        [⟨"a".toList, "1e308".toList, "1".toList⟩] := by
  refine ⟨⟨?_, by decide +kernel, ?_⟩, ⟨by decide, by decide +kernel⟩,
    ⟨by decide, by decide +kernel⟩, ⟨derives_nested 30, by decide +kernel⟩, by decide +kernel⟩
  · exact ⟨1, [], ascii "\x7b\n\x7d", [], blank_nil, blank_nil,
      .emptyObject (w := [10]) (List.all_eq_true.mp (by decide)), by decide⟩
  · have hbrace : encode "\x7b".toList = [123] := by decide
    rw [hbrace]
    exact brace_not_text

end Samples

end Cyctron.Sse.Stream
