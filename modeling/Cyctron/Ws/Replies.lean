/- Cyctron/Ws/Replies
   digest: Which replies to a message are JSON objects that carry the strings of the client. -/

import Cyctron.Json.Braces
import Cyctron.Json.Escape
import Cyctron.Mongoose.Json
import Cyctron.Ws.Bind

set_option autoImplicit false
set_option relaxedAutoImplicit false

namespace Cyctron.Ws.Replies

open Cyctron.Base.CString Cyctron.Event.Format Cyctron.Json.Text Cyctron.Json.Build
open Cyctron.Json.Escape Cyctron.Json.Braces Cyctron.Realtime.Model Cyctron.Realtime.Tasks
open Cyctron.Realtime.Refine
open Cyctron.Ws.Handler Cyctron.Ws.Bind
open Cyctron.Call.Protocol (MgJson)
open Cyctron.Mongoose.Json (mongoose)

/-- The value that the member names lead to, by the first member with each name. -/
inductive Leads : List Bytes → Bytes → Bytes → Prop
  | here {v : Bytes} : Leads [] v v
  | member {n t w v : Bytes} {ns : List Bytes} {ms : List (Bytes × Bytes)} (h : IsObject t ms)
      (find : lookup n ms = some w) (rest : Leads ns w v) : Leads (n :: ns) t v

/-- The text is an object, in which each string of the client stands for a front of the string less
the control characters that are dropped. -/
def WellFormed (f : Frame) : Prop :=
  (∃ ms, IsObject f.text ms) ∧
    ∀ c ∈ f.carries, ∃ v d, Leads c.1 f.text v ∧ decodeString v = some d ∧ d <+: stripped c.2

section Templates

variable {fmt : FormatEnv} {type data str x : Bytes} {carries : List (List Bytes × Bytes)} {f : Frame}
  {ms : List (Bytes × Bytes)}

/-- The members of an event. -/
def eventMembers (type data : Bytes) (now : Int) : List (Bytes × Bytes) :=
  [(ascii "type", quoted type), (ascii "data", data), (ascii "timestamp", decimalInt now)]

theorem fills_event {exponent : Bytes → Prop} {d : Nat} {v : Bytes} (htype : Body type)
    (hdata : Padded (Number exponent) d data v) (now : Int) :
    Fills (Number exponent) d (eventMembers type data now) (eventMembers type v now) :=
  .cons (body_plain (by decide)) (padded_quoted htype) (.cons (body_plain (by decide)) hdata
    (.one (body_plain (by decide)) (padded_self (.number (number_decimalInt now)))))

private theorem lookup_data (type data : Bytes) (now : Int) :
    lookup (ascii "data") (eventMembers type data now) = some data := rfl

/-- A clock value is a 64-bit number. -/
theorem now_length (h : fmt.now.natAbs ≤ 2 ^ 63) : (decimalInt fmt.now).length ≤ 20 :=
  decimalInt_length (e := 19) (by omega) (by decide)

theorem withType_text (hnow : fmt.now.natAbs ≤ 2 ^ 63) (hmem : fmt.mem = true) :
    eventFormatWithType fmt (some type) (some data) =
      (0, some (compact (eventMembers (eventEscapeJson (some type) (type.length * 2 + 1)) data
        fmt.now))) := by
  have hlength := now_length hnow
  have hlens : (ascii "type").length = 4 ∧ (ascii "data").length = 4 ∧
    (ascii "timestamp").length = 9 := by decide
  simp only [eventFormatWithType, eventEscapeAlloc, hmem, if_true, Option.getD_some]
  rw [snprintf_fits]
  · simp [eventMembers, compact, joined, memberText, quoted, type_text, data_text, stamp_text,
      close_text]
  · simp only [type_text, data_text, stamp_text, close_text, List.length_append, List.length_cons,
      List.length_nil, hlens]
    omega

theorem jsonString_text (hnow : fmt.now.natAbs ≤ 2 ^ 63) (hmem : fmt.mem = true) :
    eventFormatJsonString fmt (some type) (some str) =
      (0, some (compact (eventMembers (eventEscapeJson (some type) (type.length * 2 + 1))
        (quoted (eventEscapeJson (some str) (str.length * 2 + 1))) fmt.now))) := by
  have hlength := now_length hnow
  have hdata : ascii "\",\"data\":\"" = 34 :: 44 :: 34 :: (ascii "data" ++ [34, 58, 34]) := by decide
  have hstamp : ascii "\",\"timestamp\":" = 34 :: 44 :: 34 :: (ascii "timestamp" ++ [34, 58]) := by
    decide
  have hlens : (ascii "type").length = 4 ∧ (ascii "data").length = 4 ∧
    (ascii "timestamp").length = 9 := by decide
  simp only [eventFormatJsonString, eventEscapeAlloc, hmem, if_true, Option.getD_some]
  rw [snprintf_fits]
  · simp [eventMembers, compact, joined, memberText, quoted, type_text, hdata, hstamp, close_text]
  · simp only [type_text, hdata, hstamp, close_text, List.length_append, List.length_cons,
      List.length_nil, hlens]
    omega

private theorem isObject_compact {d : Nat} {ms' : List (Bytes × Bytes)}
    (h : Fills AnyNumber d ms ms') :
    IsObject (compact ms) ms' := ⟨d, object_compact h⟩

/-- An event whose data is a string is well formed. -/
private theorem jsonString_wellFormed (hnow : fmt.now.natAbs ≤ 2 ^ 63)
    (hcarries : ∀ c ∈ carries, c = ([ascii "data"], str))
    (hf : f ∈ eventPushJsonStringTo fmt type str carries) : WellFormed f := by
  cases hmem : fmt.mem with
  | false => simp [eventPushJsonStringTo, eventFormatJsonString, eventEscapeAlloc, hmem] at hf
  | true =>
    rw [eventPushJsonStringTo, jsonString_text hnow hmem] at hf
    obtain rfl : f = _ := List.mem_singleton.mp hf
    obtain ⟨p, _, hp⟩ := eventEscapeJson_escaped type (type.length * 2 + 1)
    obtain ⟨q, hq, hstr⟩ := eventEscapeJson_escaped str (str.length * 2 + 1)
    rw [hp, hstr]
    have hobject := isObject_compact (d := 0) (fills_event (body_escaped p)
      (padded_quoted (body_escaped q)) fmt.now)
    refine ⟨⟨_, hobject⟩, fun c hc => ?_⟩
    obtain rfl := hcarries c hc
    exact ⟨_, _, .member hobject (lookup_data _ _ _) .here, decodeString_escaped q, hq.filter kept⟩

/-- An event whose data is an object is well formed when the strings of the client are found in the
object. -/
private theorem withType_wellFormed {ms' : List (Bytes × Bytes)} (hnow : fmt.now.natAbs ≤ 2 ^ 63)
    (hdata : Fills AnyNumber 0 ms ms')
    (hcarries : ∀ c ∈ carries, ∃ n v d, c.1 = [ascii "data", n] ∧ lookup n ms' = some v ∧
      decodeString v = some d ∧ d <+: stripped c.2)
    (hf : f ∈ eventPushWithTypeTo fmt type (compact ms) carries) : WellFormed f := by
  cases hmem : fmt.mem with
  | false => simp [eventPushWithTypeTo, eventFormatWithType, eventEscapeAlloc, hmem] at hf
  | true =>
    rw [eventPushWithTypeTo, withType_text hnow hmem] at hf
    obtain rfl : f = _ := List.mem_singleton.mp hf
    obtain ⟨p, _, hp⟩ := eventEscapeJson_escaped type (type.length * 2 + 1)
    rw [hp]
    have hobject := isObject_compact (fills_event (body_escaped p) (padded_compact hdata) fmt.now)
    refine ⟨⟨_, hobject⟩, fun c hc => ?_⟩
    obtain ⟨n, v, d, hpath, hfind, hdecode, hfront⟩ := hcarries c hc
    rw [hpath]
    exact ⟨v, d, .member hobject (lookup_data _ _ _) (.member (isObject_compact hdata) hfind .here),
      hdecode, hfront⟩

end Templates

section Frames

variable {fmt : FormatEnv} {f : Frame} {s : WsState} {a st : String} {u : Bytes}

/-- The text of `send_event_to` before it is cut to its buffer. -/
def sendEventText (a : String) (u : Bytes) (st : String) : Bytes :=
  ascii "\x7b\"action\":\"" ++ ascii a ++ ascii "\",\"uuid\":\"" ++ u ++
    ascii "\",\"status\":\"" ++ ascii st ++ ascii "\"\x7d"

def sendEventMembers (a : String) (u : Bytes) (st : String) : List (Bytes × Bytes) :=
  [(ascii "action", quoted (ascii a)), (ascii "uuid", quoted u), (ascii "status", quoted (ascii st))]

theorem sendEventText_compact : sendEventText a u st = compact (sendEventMembers a u st) := by
  have haction : ascii "\x7b\"action\":\"" = 123 :: 34 :: (ascii "action" ++ [34, 58, 34]) := by
    decide
  have huuid : ascii "\",\"uuid\":\"" = 34 :: 44 :: 34 :: (ascii "uuid" ++ [34, 58, 34]) := by decide
  have hstatus : ascii "\",\"status\":\"" = 34 :: 44 :: 34 :: (ascii "status" ++ [34, 58, 34]) := by
    decide
  have hclose : ascii "\"\x7d" = [34, 125] := by decide
  simp [sendEventText, sendEventMembers, compact, joined, memberText, quoted, haction, huuid, hstatus,
    hclose]

theorem fills_sendEvent (ha : Plain (ascii a)) (hu : Body u) (hst : Plain (ascii st)) :
    Fills AnyNumber 0 (sendEventMembers a u st) (sendEventMembers a u st) :=
  .cons (body_plain (by decide)) (padded_quoted (body_plain ha))
    (.cons (body_plain (by decide)) (padded_quoted hu)
      (.one (body_plain (by decide)) (padded_quoted (body_plain hst))))

/-- A reply with a name that needs no escape is well formed when it fits its buffer. -/
private theorem sendEventTo_wellFormed (hnow : fmt.now.natAbs ≤ 2 ^ 63) (ha : Plain (ascii a))
    (hst : Plain (ascii st)) (hu : Plain u) (hfits : (sendEventText a u st).length < 256)
    (hf : f ∈ sendEventTo fmt a u st) : WellFormed f := by
  have htext : snprintf 256 (sendEventText a u st) = compact (sendEventMembers a u st) := by
    rw [snprintf_fits hfits, sendEventText_compact]
  have hf : f ∈ eventPushWithTypeTo fmt (ascii "realtime") (snprintf 256 (sendEventText a u st))
    [([ascii "data", ascii "uuid"], u)] := hf
  rw [htext] at hf
  refine withType_wellFormed hnow (fills_sendEvent ha (body_plain hu) hst) (fun c hc => ?_) hf
  obtain rfl := List.mem_singleton.mp hc
  refine ⟨ascii "uuid", quoted u, u, rfl, rfl, ?_, ?_⟩
  · rw [decodeString_quoted, decode_of_plain hu]
  · rw [stripped_plain hu]

private theorem echo_wellFormed {data : Bytes} (hnow : fmt.now.natAbs ≤ 2 ^ 63)
    (hlen : data.length ≤ WS_MAX_MESSAGE_BYTES) (hf : f ∈ echoFrames fmt data) : WellFormed f := by
  obtain ⟨p, hp, hesc⟩ := eventEscapeJson_escaped (cString data) 4096
  have hesclen := eventEscapeJson_length (s := cString data) (show 0 < 4096 by decide)
  have hdigits : (decimal data.length).length ≤ 7 := by
    refine decimal_length ?_ (by decide)
    have hlimit : WS_MAX_MESSAGE_BYTES < 10 ^ 7 := by decide
    exact Nat.lt_of_le_of_lt hlen hlimit
  have hmessage : ascii "\x7b\"message\":\"" = 123 :: 34 :: (ascii "message" ++ [34, 58, 34]) := by
    decide
  have hlenword : ascii "\",\"len\":" = 34 :: 44 :: 34 :: (ascii "len" ++ [34, 58]) := by decide
  have hlens : (ascii "message").length = 7 ∧ (ascii "len").length = 3 := by decide
  have htext : snprintf 4224 (ascii "\x7b\"message\":\"" ++ eventEscapeJson (some (cString data)) 4096 ++
      ascii "\",\"len\":" ++ decimal data.length ++ ascii "\x7d") =
      compact [(ascii "message", quoted (escaped p)), (ascii "len", decimal data.length)] := by
    rw [snprintf_fits]
    · simp [compact, joined, memberText, quoted, hmessage, hlenword, close_text, hesc]
    · simp only [hmessage, hlenword, close_text, List.length_append, List.length_cons,
        List.length_nil, hlens]
      omega
  unfold echoFrames at hf
  dsimp only at hf
  rw [htext] at hf
  have hfills : Fills AnyNumber 0
      [(ascii "message", quoted (escaped p)), (ascii "len", decimal data.length)] _ :=
    .cons (body_plain (by decide)) (padded_quoted (body_escaped p))
      (.one (body_plain (by decide)) (padded_self (.number (number_decimal data.length))))
  refine withType_wellFormed hnow hfills (fun c hc => ?_) hf
  obtain rfl := List.mem_singleton.mp hc
  exact ⟨ascii "message", _, _, rfl, rfl, decodeString_escaped p, hp.filter kept⟩

private theorem unknown_wellFormed {cmd : Bytes} (hnow : fmt.now.natAbs ≤ 2 ^ 63)
    (hf : f ∈ unknownFrames fmt cmd) : WellFormed f := by
  obtain ⟨p, hp, hesc⟩ := eventEscapeJson_escaped cmd 128
  have hesclen := eventEscapeJson_length (s := cmd) (show 0 < 128 by decide)
  have hcmd : ascii "\x7b\"cmd\":\"" = 123 :: 34 :: (ascii "cmd" ++ [34, 58, 34]) := by decide
  have hstatus : ascii "\",\"status\":\"unknown\"\x7d" =
    34 :: 44 :: 34 :: (ascii "status" ++ 34 :: 58 :: (quoted (ascii "unknown") ++ [125])) := by decide
  have hlens : (ascii "cmd").length = 3 ∧ (ascii "status").length = 6 ∧
    (quoted (ascii "unknown")).length = 9 := by decide
  have htext : snprintf 288 (ascii "\x7b\"cmd\":\"" ++ eventEscapeJson (some cmd) 128 ++
      ascii "\",\"status\":\"unknown\"\x7d") =
      compact [(ascii "cmd", quoted (escaped p)), (ascii "status", quoted (ascii "unknown"))] := by
    rw [snprintf_fits]
    · simp [compact, joined, memberText, quoted, hcmd, hstatus, hesc]
    · simp only [hcmd, hstatus, List.length_append, List.length_cons, List.length_nil, hlens]
      omega
  unfold unknownFrames at hf
  dsimp only at hf
  rw [htext] at hf
  have hfills : Fills AnyNumber 0
      [(ascii "cmd", quoted (escaped p)), (ascii "status", quoted (ascii "unknown"))] _ :=
    .cons (body_plain (by decide)) (padded_quoted (body_escaped p))
      (.one (body_plain (by decide)) (padded_quoted (body_plain (by decide))))
  refine withType_wellFormed hnow hfills (fun c hc => ?_) hf
  obtain rfl := List.mem_singleton.mp hc
  exact ⟨ascii "cmd", _, _, rfl, rfl, decodeString_escaped p, hp.filter kept⟩

private theorem status_wellFormed {env : MessageEnv} (hnow : env.push.now.natAbs ≤ 2 ^ 63)
    (hcount : s.sched.count.natAbs ≤ 2 ^ 31) (hf : f ∈ (handleStatus s env).frames) :
    WellFormed f := by
  obtain ⟨n, hn, hle⟩ : ∃ n, n = (if s.gRtManager then s.sched.count else 0) ∧ n.natAbs ≤ 2 ^ 31 := by
    refine ⟨_, rfl, ?_⟩
    split
    · exact hcount
    · decide
  have hdigits := decimalInt_length (i := n) (e := 10) (by omega) (by decide)
  have haction : ascii "\x7b\"action\":\"status\",\"count\":" = 123 :: 34 :: (ascii "action" ++
    34 :: 58 :: (quoted (ascii "status") ++ 44 :: 34 :: (ascii "count" ++ [34, 58]))) := by decide
  have hlens : (ascii "action").length = 6 ∧ (quoted (ascii "status")).length = 8 ∧
    (ascii "count").length = 5 := by decide
  have htext : snprintf 128 (ascii "\x7b\"action\":\"status\",\"count\":" ++ decimalInt n ++
      ascii "\x7d") =
      compact [(ascii "action", quoted (ascii "status")), (ascii "count", decimalInt n)] := by
    rw [snprintf_fits]
    · simp [compact, joined, memberText, haction, close_text]
    · simp only [haction, close_text, List.length_append, List.length_cons, List.length_nil, hlens]
      omega
  unfold handleStatus at hf
  dsimp only at hf
  rw [← hn, htext] at hf
  have hfills : Fills AnyNumber 0
      [(ascii "action", quoted (ascii "status")), (ascii "count", decimalInt n)] _ :=
    .cons (body_plain (by decide)) (padded_quoted (body_plain (by decide)))
      (.one (body_plain (by decide)) (padded_self (.number (number_decimalInt n))))
  exact withType_wellFormed hnow hfills (fun c hc => absurd hc List.not_mem_nil) hf

private theorem pong_wellFormed :
    WellFormed ⟨ascii "\x7b\"type\":\"pong\",\"timestamp\":\"now\"\x7d", []⟩ := by
  have hfills : Fills AnyNumber 0 [(ascii "type", quoted (ascii "pong")),
      (ascii "timestamp", quoted (ascii "now"))] _ :=
    .cons (body_plain (by decide)) (padded_quoted (body_plain (by decide)))
      (.one (body_plain (by decide)) (padded_quoted (body_plain (by decide))))
  exact ⟨⟨_, isObject_compact hfills⟩, fun c hc => absurd hc List.not_mem_nil⟩

private theorem running_wellFormed (hnow : fmt.now.natAbs ≤ 2 ^ 63)
    (hf : f ∈ eventPushWithTypeTo fmt (ascii "system") (ascii "\x7b\"status\":\"running\"\x7d") []) :
    WellFormed f := by
  have htext : ascii "\x7b\"status\":\"running\"\x7d" =
    compact [(ascii "status", quoted (ascii "running"))] := by decide
  rw [htext] at hf
  have hfills : Fills AnyNumber 0 [(ascii "status", quoted (ascii "running"))] _ :=
    .one (body_plain (by decide)) (padded_quoted (body_plain (by decide)))
  exact withType_wellFormed hnow hfills (fun c hc => absurd hc List.not_mem_nil) hf

end Frames

section Messages

variable {mg : MgJson} {s : WsState} {connId : Nat} {data u : Bytes} {env : MessageEnv} {f : Frame}
  {req : WsCommand} {a st : String} {fmt : FormatEnv}

/-- The message is taken as this command. -/
def Command (mg : MgJson) (data : Bytes) (req : WsCommand) : Prop :=
  cString data ≠ ascii "ping" ∧ cString data ≠ ascii "status" ∧ data.head? = some 123 ∧
    ∃ err, wsCommandParse mg (some data) errSize = (0, req, err)

/-- The reply that carries the name as it is: its action, its status, and the memory for it. -/
def namedReply (s : WsState) (req : WsCommand) (u : Bytes) (env : MessageEnv) :
    Option (String × String × FormatEnv) :=
  if req.cmd = some (ascii "bind") then
    if findNode (withManager s).sched u = none ∧ env.create.node ≠ none then
      some ("bind", if StartEnv.Succeeds env.start then "success" else "failed", env.push)
    else none
  else if req.cmd = some (ascii "remove") then
    some ("remove", if (findTask s u).isSome then "success" else "not_found", env.push)
  else if req.cmd = some (ascii "msg") then
    if (findTask s u).isSome then some ("msg", "sent", env.ack)
    else some ("msg", "not_found", env.push)
  else none

/-- The words of the replies that carry a name. -/
def replyWords : List (String × String) :=
  [("bind", "success"), ("bind", "failed"), ("remove", "success"), ("remove", "not_found"),
    ("msg", "sent"), ("msg", "not_found")]

private theorem namedReply_words (h : namedReply s req u env = some (a, st, fmt)) :
    (a, st) ∈ replyWords ∧ (fmt = env.push ∨ fmt = env.ack) := by
  unfold namedReply at h
  split_ifs at h <;> obtain ⟨rfl, rfl, rfl⟩ := by simpa only [Option.some.injEq, Prod.mk.injEq] using h
  all_goals exact ⟨by decide, by simp⟩

/-- The counters and clocks that C keeps in machine words. -/
structure WordSized (s : WsState) (env : MessageEnv) : Prop where
  count : s.sched.count.natAbs ≤ 2 ^ 31
  push : env.push.now.natAbs ≤ 2 ^ 63
  ack : env.ack.now.natAbs ≤ 2 ^ 63

/-- A message that is no command gets replies that are well formed. -/
private theorem uncommanded_wellFormed (words : WordSized s env)
    (hlen : data.length ≤ WS_MAX_MESSAGE_BYTES)
    (none_ : ∀ req, ¬Command mg data req) (hf : f ∈ (handleWsMessage mg s connId data env).frames) :
    WellFormed f := by
  unfold handleWsMessage at hf
  by_cases hping : cString data = ascii "ping"
  · rw [if_pos hping] at hf
    obtain rfl := List.mem_singleton.mp hf
    exact pong_wellFormed
  rw [if_neg hping] at hf
  by_cases hstatus : cString data = ascii "status"
  · rw [if_pos hstatus] at hf
    exact running_wellFormed words.push hf
  rw [if_neg hstatus] at hf
  by_cases hbrace : data.head? ≠ some 123
  · rw [if_pos hbrace] at hf
    exact echo_wellFormed words.push hlen hf
  rw [if_neg hbrace] at hf
  obtain ⟨⟨rc, req, err⟩, hparse⟩ : ∃ q, wsCommandParse mg (some data) errSize = q := ⟨_, rfl⟩
  rw [hparse] at hf
  by_cases hrc : rc = 0
  · subst hrc
    exact absurd ⟨hping, hstatus, not_not.mp hbrace, err, hparse⟩ (none_ req)
  · dsimp only at hf
    rw [if_pos hrc] at hf
    exact jsonString_wellFormed words.push (fun c hc => absurd hc List.not_mem_nil) hf

/-- What a message that is a command does. -/
theorem command_handled (command : Command mg data req) : handleWsMessage mg s connId data env =
    (let cmd := req.cmd.getD []
     if cmd = ascii "bind" then
       let q := handleBind s connId req env
       ⟨q.1, q.2.2, q.2.1.frames env.push (req.uuid.getD []), none⟩
     else if cmd = ascii "remove" then handleRemove s req env
     else if cmd = ascii "status" then handleStatus s env
     else if cmd = ascii "msg" then handleMsg s req env
     else if cmd = ascii "call" then ⟨s, [], [], some data⟩
     else ⟨s, [], unknownFrames env.push cmd, none⟩) := by
  obtain ⟨hping, hstatus, hbrace, err, hparse⟩ := command
  unfold handleWsMessage
  rw [if_neg hping, if_neg hstatus, if_neg (not_not.mpr hbrace), hparse]
  rfl

private theorem getD_word {o : Option Bytes} {w : Bytes} (hw : w ≠ []) :
    o.getD [] = w ↔ o = some w := by
  cases o with
  | none => simpa using hw.symm
  | some x => simp

private theorem bind_frames (h : Sound s.sched) (fits : MessageEnv.Fits env (withManager s).sched)
    (named : Names req u) : (handleBind s connId req env).2.1.frames env.push u =
      if findNode (withManager s).sched u = none ∧ env.create.node ≠ none then
        sendEventTo env.push "bind" u (if StartEnv.Succeeds env.start then "success" else "failed")
      else eventPushJsonStringTo env.push (ascii "error") (ascii "Failed to create task") [] := by
  obtain ⟨⟨t, res, es⟩, hcall⟩ : ∃ q, handleBind s connId req env = q := ⟨_, rfl⟩
  rw [hcall]
  rcases bind_cases h named fits hcall with ⟨rfl, _, hwhy⟩ | ⟨p, _, hnode, hnone, _, _, _, _, _, rfl⟩
  · have hnot : ¬(findNode (withManager s).sched u = none ∧ env.create.node ≠ none) := by
      rintro ⟨hfind, hmem⟩
      rcases hwhy with hwhy | hwhy
      · exact hwhy hfind
      · exact hmem hwhy
    rw [if_neg hnot]
    rfl
  · have hcreates : findNode (withManager s).sched u = none ∧ env.create.node ≠ none :=
      ⟨hnone, by rw [hnode]; simp⟩
    rw [if_pos hcreates]
    by_cases hsucceeds : StartEnv.Succeeds env.start
    · rw [if_pos hsucceeds, if_pos hsucceeds]
      rfl
    · rw [if_neg hsucceeds, if_neg hsucceeds]
      rfl

private theorem remove_frames (named : Names req u) : (handleRemove s req env).frames =
    sendEventTo env.push "remove" u (if (findTask s u).isSome then "success" else "not_found") := by
  obtain ⟨c, v, rfl⟩ := List.exists_cons_of_ne_nil named.2
  unfold handleRemove
  rw [named.1]
  dsimp only
  cases findTask s (c :: v) <;> rfl

private theorem msg_frames (named : Names req u) : (handleMsg s req env).frames =
    if (findTask s u).isSome then
      eventPushJsonStringTo env.push (ascii "msg") (req.data.getD [])
        [([ascii "data"], req.data.getD [])] ++ sendEventTo env.ack "msg" u "sent"
    else sendEventTo env.push "msg" u "not_found" := by
  obtain ⟨c, v, rfl⟩ := List.exists_cons_of_ne_nil named.2
  unfold handleMsg
  rw [named.1]
  dsimp only
  cases findTask s (c :: v) <;> rfl

/-- The replies to a command that names a task: the one that carries the name, if there is one, and
others that are well formed. -/
private theorem named_frames (connId : Nat) (h : Sound s.sched)
    (fits : MessageEnv.Fits env (withManager s).sched)
    (words : WordSized s env) (command : Command mg data req) (named : Names req u) :
    ∃ pre, (∀ f ∈ pre, WellFormed f) ∧ (handleWsMessage mg s connId data env).frames =
      pre ++ (namedReply s req u env).elim [] fun r => sendEventTo r.2.2 r.1 u r.2.1 := by
  have hu : req.uuid.getD [] = u := by rw [named.1, Option.getD_some]
  have hnil : ∀ f ∈ ([] : List Frame), WellFormed f := fun f hf => absurd hf List.not_mem_nil
  rw [command_handled command]
  unfold namedReply
  dsimp only
  by_cases hbind : req.cmd = some (ascii "bind")
  · rw [if_pos hbind, if_pos ((getD_word (by decide)).mpr hbind), hu, bind_frames h fits named]
    split
    · exact ⟨[], hnil, rfl⟩
    · refine ⟨_, fun f hf => ?_, (List.append_nil _).symm⟩
      exact jsonString_wellFormed words.push (fun c hc => absurd hc List.not_mem_nil) hf
  rw [if_neg hbind, if_neg (mt (getD_word (by decide)).mp hbind)]
  by_cases hremove : req.cmd = some (ascii "remove")
  · rw [if_pos hremove, if_pos ((getD_word (by decide)).mpr hremove), remove_frames named]
    exact ⟨[], hnil, rfl⟩
  rw [if_neg hremove, if_neg (mt (getD_word (by decide)).mp hremove)]
  by_cases hmsg : req.cmd = some (ascii "msg")
  · have hstatus : ¬req.cmd.getD [] = ascii "status" := by
      rw [(getD_word (by decide)).mpr hmsg]
      decide
    rw [if_pos hmsg, if_neg hstatus, if_pos ((getD_word (by decide)).mpr hmsg), msg_frames named]
    split
    · refine ⟨_, fun f hf => ?_, rfl⟩
      exact jsonString_wellFormed words.push (fun c hc => List.mem_singleton.mp hc) hf
    · exact ⟨[], hnil, rfl⟩
  rw [if_neg hmsg, if_neg (mt (getD_word (by decide)).mp hmsg)]
  refine ⟨_, fun f hf => ?_, (List.append_nil _).symm⟩
  split_ifs at hf
  · exact status_wellFormed words.push words.count hf
  · exact absurd hf List.not_mem_nil
  · exact unknown_wellFormed words.push hf

/-- The replies to a command that names no task are well formed. -/
private theorem unnamed_wellFormed (words : WordSized s env) (command : Command mg data req)
    (unnamed : req.uuid = none ∨ req.uuid = some [])
    (hf : f ∈ (handleWsMessage mg s connId data env).frames) : WellFormed f := by
  have hstring : ∀ {type str : Bytes}, f ∈ eventPushJsonStringTo env.push type str [] →
      WellFormed f :=
    fun hf => jsonString_wellFormed words.push (fun c hc => absurd hc List.not_mem_nil) hf
  rw [command_handled command] at hf
  dsimp only at hf
  split_ifs at hf
  · rw [bind_unnamed unnamed] at hf
    exact hstring hf
  · unfold handleRemove at hf
    rcases unnamed with hu | hu <;> rw [hu] at hf <;> exact hstring hf
  · exact status_wellFormed words.push words.count hf
  · unfold handleMsg at hf
    rcases unnamed with hu | hu <;> rw [hu] at hf <;> exact hstring hf
  · exact absurd hf List.not_mem_nil
  · exact unknown_wellFormed words.push hf

end Messages

section Torn

variable {a st : String} {u : Bytes} {now : Int} {ms : List (Bytes × Bytes)} {s : Option (Bool × Int)}

def opening (a : String) : Bytes :=
  ascii "\x7b\"action\":\"" ++ ascii a ++ ascii "\",\"uuid\":\""

def closing (st : String) : Bytes := ascii "\",\"status\":\"" ++ ascii st ++ ascii "\"\x7d"

private theorem sendEventText_eq : sendEventText a u st = opening a ++ (u ++ closing st) := by
  simp only [sendEventText, opening, closing, List.append_assoc]

/-- What stands before and behind the data of an event. -/
def eventHead : Bytes := ascii "\x7b\"type\":\"realtime\",\"data\":"

def eventTail (now : Int) : Bytes := ascii ",\"timestamp\":" ++ (decimalInt now ++ [125])

private theorem event_text (data : Bytes) : compact (eventMembers (ascii "realtime") data now) =
    eventHead ++ (data ++ eventTail now) := by
  have hhead : eventHead = 123 :: 34 :: (ascii "type" ++ 34 :: 58 :: (quoted (ascii "realtime") ++
    44 :: 34 :: (ascii "data" ++ [34, 58]))) := by decide
  simp [eventTail, eventMembers, compact, joined, memberText, hhead, stamp_text]

/-- The fixed parts of a reply that carries a name. -/
structure Parts (a st : String) : Prop where
  inside : scan (some (false, 0)) (eventHead ++ opening a) = some (true, 2)
  unescaped : 92 ∉ eventHead ++ opening a
  unescaped' : 92 ∉ closing st
  short : (opening a).length ≤ 30
  braceless : Braceless (closing st).dropLast

private theorem parts_words (h : (a, st) ∈ replyWords) : Parts a st := by
  have hall : ∀ w ∈ replyWords, scan (some (false, 0)) (eventHead ++ opening w.1) = some (true, 2) ∧
      92 ∉ eventHead ++ opening w.1 ∧ 92 ∉ closing w.2 ∧ (opening w.1).length ≤ 30 ∧
      Braceless (closing w.2).dropLast := by decide
  obtain ⟨inside, unescaped, unescaped', short, braceless⟩ := hall _ h
  exact ⟨inside, unescaped, unescaped', short, braceless⟩

private theorem decimalInt_bytes (now : Int) : ∀ c ∈ decimalInt now, 32 ≤ c ∧ c ≠ 34 ∧ c ≠ 92 := by
  intro c hc
  have hnumber : AnyNumber (decimalInt now) := number_decimalInt now
  have hbyte := number_bytes hnumber c hc
  refine ⟨?_, ?_, ?_⟩
  · rcases hbyte with h | rfl | rfl | rfl | rfl | rfl
    · exact isDigit_le h
    all_goals decide
  · rintro rfl
    exact absurd hbyte (by decide)
  · rintro rfl
    exact absurd hbyte (by decide)

private theorem eventTail_unescaped (now : Int) : 92 ∉ eventTail now := by
  unfold eventTail
  simp only [List.mem_append, not_or]
  exact ⟨by decide, fun h => (decimalInt_bytes now 92 h).2.2 rfl, by decide⟩

/-- Behind the data two braces are still open in a text that is cut short. -/
private theorem scan_tail (q : Bool) (now : Int) :
    scan (some (q, 2)) (eventTail now) ≠ some (false, 0) := by
  unfold eventTail
  rw [scan_append, scan_append]
  cases q with
  | true =>
    have hstamp : scan (some (true, 2)) (ascii ",\"timestamp\":") = some (true, 2) := by decide
    rw [hstamp, scan_inside fun c hc => ⟨(decimalInt_bytes now c hc).1, (decimalInt_bytes now c hc).2.1⟩]
    decide
  | false =>
    have hstamp : scan (some (false, 2)) (ascii ",\"timestamp\":") = some (false, 2) := by decide
    have hnumber : AnyNumber (decimalInt now) := number_decimalInt now
    rw [hstamp, scan_neutral (neutral_number hnumber)]
    decide

private theorem mem_dropLast_of_take {l : Bytes} {k : Nat} {c : UInt8} (hk : k < l.length)
    (hc : c ∈ l.take k) : c ∈ l.dropLast := by
  rw [List.dropLast_eq_take]
  have hle : k ≤ l.length - 1 := by omega
  exact (List.take_subset_take_left l hle) hc

/-- A reply is no object when it is cut short, or when its name holds a control character. -/
private theorem torn_reply (hwords : (a, st) ∈ replyWords) (hu : ∀ c ∈ u, c ≠ 34 ∧ c ≠ 92)
    (h : IsObject (compact (eventMembers (ascii "realtime") (snprintf 256 (sendEventText a u st)) now))
      ms) : Plain u ∧ (sendEventText a u st).length < 256 := by
  obtain ⟨d, h⟩ := h
  have parts := parts_words hwords
  have hquote : ∀ c ∈ u, c ≠ 34 := fun c hc => (hu c hc).1
  rw [event_text, snprintf, sendEventText_eq] at h
  have hunescaped : 92 ∉ eventHead ++ ((opening a ++ (u ++ closing st)).take 255 ++ eventTail now) := by
    have htake : ∀ {l : Bytes}, 92 ∉ l → 92 ∉ l.take 255 := fun hl hmem => hl (List.mem_of_mem_take hmem)
    have hopen := parts.unescaped
    simp only [List.mem_append, not_or] at hopen ⊢
    refine ⟨hopen.1, htake ?_, eventTail_unescaped now⟩
    simp only [List.mem_append, not_or]
    exact ⟨hopen.2, fun hmem => (hu 92 hmem).2 rfl, parts.unescaped'⟩
  have hscan := scan_object h hunescaped
  by_cases hfits : (opening a ++ (u ++ closing st)).length < 256
  · refine ⟨fun c hc => ⟨?_, hu c hc⟩, by rwa [sendEventText_eq]⟩
    by_contra hlow
    rw [List.take_of_length_le (by omega), List.append_assoc, ← List.append_assoc eventHead,
      scan_append, parts.inside, List.append_assoc, scan_append,
      scan_control hquote ⟨c, hc, UInt8.not_le.mp hlow⟩, scan_none] at hscan
    exact absurd hscan (by simp)
  · exfalso
    have hopen : (opening a).length ≤ 30 := parts.short
    have hpos : 0 < (closing st).length := by simp [closing, ascii]
    have hcut : 255 - (opening a).length - u.length < (closing st).length := by
      simp only [List.length_append] at hfits
      omega
    rw [List.take_append, List.take_of_length_le (Nat.le_trans parts.short (by decide)),
      List.append_assoc, ← List.append_assoc eventHead, scan_append, parts.inside, List.take_append,
      List.append_assoc, scan_append] at hscan
    have hname : scan (some (true, 2)) (u.take (255 - (opening a).length)) = none ∨
        scan (some (true, 2)) (u.take (255 - (opening a).length)) = some (true, 2) := by
      by_cases hlow : ∃ c ∈ u.take (255 - (opening a).length), c < 32
      · exact Or.inl (scan_control (fun c hc => hquote c (List.mem_of_mem_take hc)) hlow)
      · refine Or.inr (scan_inside fun c hc => ⟨?_, hquote c (List.mem_of_mem_take hc)⟩)
        by_contra hle
        exact hlow ⟨c, hc, UInt8.not_le.mp hle⟩
    rcases hname with hname | hname
    · rw [hname, scan_none] at hscan
      exact absurd hscan (by simp)
    · rw [hname, scan_append] at hscan
      have hbraceless : Braceless ((closing st).take (255 - (opening a).length - u.length)) :=
        fun c hc => parts.braceless c (mem_dropLast_of_take hcut hc)
      rcases scan_braceless (q := true) (n := 2) hbraceless with hend | ⟨q, hend⟩
      · rw [hend, scan_none] at hscan
        exact absurd hscan (by simp)
      · rw [hend] at hscan
        exact scan_tail q now hscan

end Torn

section Theorem

variable {mg : MgJson} {s : WsState} {connId : Nat} {data u : Bytes} {env : MessageEnv} {f : Frame}
  {req : WsCommand}

/-- When the reply carries a name as it is, the name needs no escape and the reply fits its buffer. -/
def NamesFit (mg : MgJson) (s : WsState) (data : Bytes) (env : MessageEnv) : Prop :=
  ∀ req u a st fmt, Command mg data req → Names req u → namedReply s req u env = some (a, st, fmt) →
    fmt.mem = true → Plain u ∧ (sendEventText a u st).length < 256

/-- The name of the command has no quotes and no backslashes. -/
def NamesQuoteless (mg : MgJson) (data : Bytes) : Prop :=
  ∀ req u, Command mg data req → Names req u → ∀ c ∈ u, c ≠ 34 ∧ c ≠ 92

private theorem namedReply_now {a st : String} {fmt : FormatEnv} (words : WordSized s env)
    (h : namedReply s req u env = some (a, st, fmt)) : fmt.now.natAbs ≤ 2 ^ 63 := by
  rcases (namedReply_words h).2 with rfl | rfl
  · exact words.push
  · exact words.ack

private theorem escape_realtime :
    eventEscapeJson (some (ascii "realtime")) ((ascii "realtime").length * 2 + 1) =
    ascii "realtime" := by decide

private theorem sendEventTo_text {a st : String} {fmt : FormatEnv} (hnow : fmt.now.natAbs ≤ 2 ^ 63)
    (hmem : fmt.mem = true) : sendEventTo fmt a u st = [⟨compact (eventMembers (ascii "realtime")
      (snprintf 256 (sendEventText a u st)) fmt.now), [([ascii "data", ascii "uuid"], u)]⟩] := by
  change eventPushWithTypeTo fmt (ascii "realtime") (snprintf 256 (sendEventText a u st)) _ = _
  rw [eventPushWithTypeTo, withType_text hnow hmem, escape_realtime]
  rfl

private theorem sendEventTo_starved {a st : String} {fmt : FormatEnv} (hmem : fmt.mem = false) :
    sendEventTo fmt a u st = [] := by
  simp [sendEventTo, eventPushWithTypeTo, eventFormatWithType, eventEscapeAlloc, hmem]

/-- All replies to a message are well formed when the names in them need no escape and fit; for names
without quotes and backslashes, only then. -/
theorem replies_well_formed (h : Sound s.sched) (fits : MessageEnv.Fits env (withManager s).sched)
    (words : WordSized s env) (hlen : data.length ≤ WS_MAX_MESSAGE_BYTES) :
    (NamesFit mg s data env → ∀ f ∈ (handleWsMessage mg s connId data env).frames, WellFormed f) ∧
    (NamesQuoteless mg data → (∀ f ∈ (handleWsMessage mg s connId data env).frames, WellFormed f) →
      NamesFit mg s data env) := by
  constructor
  · intro hfit f hf
    by_cases hcommand : ∃ req, Command mg data req
    · obtain ⟨req, command⟩ := hcommand
      rcases names_or req with unnamed | ⟨u, named⟩
      · exact unnamed_wellFormed words command unnamed hf
      · obtain ⟨pre, hpre, hframes⟩ := named_frames connId h fits words command named
        rw [hframes] at hf
        rcases List.mem_append.mp hf with hf | hf
        · exact hpre f hf
        · cases hreply : namedReply s req u env with
          | none =>
            rw [hreply] at hf
            exact absurd hf List.not_mem_nil
          | some r =>
            obtain ⟨a, st, fmt⟩ := r
            rw [hreply] at hf
            change f ∈ sendEventTo fmt a u st at hf
            have hplain : ∀ w ∈ replyWords, Plain (ascii w.1) ∧ Plain (ascii w.2) := by decide
            obtain ⟨ha, hst⟩ := hplain _ (namedReply_words hreply).1
            cases hmem : fmt.mem with
            | false =>
              rw [sendEventTo_starved hmem] at hf
              exact absurd hf List.not_mem_nil
            | true =>
              obtain ⟨hu, hroom⟩ := hfit req u a st fmt command named hreply hmem
              exact sendEventTo_wellFormed (namedReply_now words hreply) ha hst hu hroom hf
    · exact uncommanded_wellFormed words hlen (fun req command => hcommand ⟨req, command⟩) hf
  · intro quoteless hall req u a st fmt command named hreply hmem
    obtain ⟨pre, _, hframes⟩ := named_frames connId h fits words command named
    have hsent : ∀ f ∈ sendEventTo fmt a u st, WellFormed f := by
      intro f hf
      refine hall f ?_
      rw [hframes, hreply]
      exact List.mem_append_right pre hf
    rw [sendEventTo_text (namedReply_now words hreply) hmem] at hsent
    obtain ⟨⟨ms, hobject⟩, _⟩ := hsent _ (List.mem_singleton.mpr rfl)
    exact torn_reply (namedReply_words hreply).1 (quoteless req u command named) hobject

/-- A remove of a task that is not listed. -/
def removeA : Bytes := ascii "\x7b\"cmd\":\"remove\",\"uuid\":\"a\"\x7d"

theorem removeA_well_formed : ∃ f,
    (handleWsMessage (mongoose fun _ _ d => d) ⟨.initial, false⟩ 7 removeA deafEnv).frames = [f] ∧
      WellFormed f := by
  have hparse : wsCommandParse (mongoose fun _ _ d => d) (some removeA) errSize =
    (0, ⟨some (ascii "remove"), some (ascii "a"), none, none⟩, []) := by decide +kernel
  have hfit : NamesFit (mongoose fun _ _ d => d) ⟨.initial, false⟩ removeA deafEnv := by
    intro req u a st fmt command named hreply _
    obtain ⟨_, _, _, err, hcommand⟩ := command
    rw [hparse] at hcommand
    obtain ⟨_, hrest⟩ := Prod.mk.inj hcommand
    obtain ⟨rfl, _⟩ := Prod.mk.inj hrest
    obtain rfl := Option.some.inj named.1
    have hshort : ∀ w ∈ replyWords, (sendEventText w.1 (ascii "a") w.2).length < 256 := by
      decide +kernel
    have hroom := hshort (a, st) (namedReply_words hreply).1
    exact ⟨by decide, hroom⟩
  have hlen : removeA.length ≤ WS_MAX_MESSAGE_BYTES := by decide +kernel
  have hone : (handleWsMessage (mongoose fun _ _ d => d) ⟨.initial, false⟩ 7 removeA
    deafEnv).frames.length = 1 := by decide +kernel
  obtain ⟨f, hf⟩ := List.length_eq_one_iff.mp hone
  have hmem : f ∈ (handleWsMessage (mongoose fun _ _ d => d) ⟨.initial, false⟩ 7 removeA
      deafEnv).frames := by
    rw [hf]
    exact List.mem_singleton.mpr rfl
  exact ⟨f, hf, (replies_well_formed sound_initial (by decide) ⟨by decide, by decide, by decide⟩
    hlen).1 hfit f hmem⟩

/-- A remove whose name has a control character. -/
def removeControl : Bytes := ascii "\x7b\"cmd\":\"remove\",\"uuid\":\"a\\u0001\"\x7d"

/-- The reply holds the control character as it is, and is no object. -/
theorem control_name_torn :
    ∃ f ∈ (handleWsMessage (mongoose fun _ _ d => d) ⟨.initial, false⟩ 7 removeControl deafEnv).frames,
      ¬∃ ms, IsObject f.text ms := by
  have hcontrol : ∃ f ∈ (handleWsMessage (mongoose fun _ _ d => d) ⟨.initial, false⟩ 7 removeControl
    deafEnv).frames, 1 ∈ f.text := by decide +kernel
  obtain ⟨f, hf, hmem⟩ := hcontrol
  refine ⟨f, hf, ?_⟩
  rintro ⟨ms, d, h⟩
  exact absurd (legible_object h 1 hmem) (by decide)

end Theorem

end Cyctron.Ws.Replies
