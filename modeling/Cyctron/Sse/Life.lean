/- Cyctron/Sse/Life
   digest: What happens on a connection from its acceptance on: the calls of the plugin and the events. -/

import Cyctron.Sse.Table

set_option autoImplicit false
set_option relaxedAutoImplicit false

namespace Cyctron.Sse.Life

open Cyctron.Base.CString Cyctron.Http.Message Cyctron.Machine.Labelled Cyctron.Plugin.Path
open Cyctron.Sse.Format Cyctron.Sse.Model Cyctron.Sse.Table

universe u

/-- Where the input of a call comes from. -/
inductive Input
  | afterId (n : Int)
  | args (v : Option Bytes)
  deriving DecidableEq

def Input.bytes : Input → Option Bytes
  | .afterId n => some (snprintf 64 (ascii "\x7b\"after_id\":" ++ decimalInt n ++ ascii "\x7d"))
  | .args v => v

/-- A call of a plugin, by the name of its library. -/
structure PluginCall where
  lib : Bytes
  symbol : Bytes
  input : Input
  deriving DecidableEq

def PluginCall.result (env : Env) (p : PluginCall) : Int × Option Bytes :=
  env.call (clientPath env.fs p.lib) p.symbol p.input.bytes

/-- A call and an event at one time. -/
structure Visit where
  call : Option PluginCall
  event : Option Bytes

section Visits

variable {κ : Type u}

/-- The call that `sse_send_event` makes. -/
def sendCall (cl : SseClient κ) : Option PluginCall :=
  if cl.done then none
  else if cl.custom then
    some ⟨cl.lib, cl.symbol, .args (if cl.args = [] then none else some cl.args)⟩
  else some ⟨ascii "sse_demo", ascii "sse_next", .afterId cl.lastId⟩

def sendVisit (env : Env) (cl : SseClient κ) : Visit := ⟨sendCall cl, (sseSendEvent env cl).2⟩

/-- A poll pulls an event when the interval is over. -/
def Due (env : Env) (cl : SseClient κ) : Prop :=
  UInt64.ofInt cl.intervalMs ≤ env.now - cl.lastPollMs

instance (env : Env) (cl : SseClient κ) : Decidable (Due env cl) :=
  inferInstanceAs (Decidable (_ ≤ _))

/-- What a poll pulls before it thinks of a keepalive. -/
def pull (env : Env) (cl : SseClient κ) : SseClient κ × Option Bytes :=
  if Due env cl then sseSendEvent env { cl with lastPollMs := env.now } else (cl, none)

def pollVisit (env : Env) (cl : SseClient κ) : Visit :=
  if Due env cl then sendVisit env { cl with lastPollMs := env.now } else ⟨none, none⟩

def pollVisits : List Env → SseClient κ → List Visit
  | [], _ => []
  | env :: envs, cl => pollVisit env cl :: pollVisits envs (pollClient env cl).1

/-- The client after polls. -/
def polled (envs : List Env) (cl : SseClient κ) : SseClient κ :=
  envs.foldl (fun cl env => (pollClient env cl).1) cl

/-- The life of a connection: the event that is tried at once, and the polls. -/
def life (env : Env) (envs : List Env) (cl : SseClient κ) : List Visit :=
  sendVisit env cl :: pollVisits envs (sseSendEvent env cl).1

def calls (vs : List Visit) : List PluginCall := vs.filterMap Visit.call

def events (vs : List Visit) : List Bytes := vs.filterMap Visit.event

theorem calls_cons (v : Visit) (vs : List Visit) : calls (v :: vs) = v.call.toList ++ calls vs := by
  unfold calls
  rw [List.filterMap_cons]
  cases v.call with
  | none => rfl
  | some p => rfl

theorem events_cons (v : Visit) (vs : List Visit) :
    events (v :: vs) = v.event.toList ++ events vs := by
  unfold events
  rw [List.filterMap_cons]
  cases v.event with
  | none => rfl
  | some p => rfl

end Visits

section Calls

variable {κ : Type u} {env : Env} {cl : SseClient κ}

/-- What the client becomes and what is sent depends on the plugin through this call only. -/
theorem sendEvent_call (call : Bytes → Bytes → Option Bytes → Int × Option Bytes)
    (same : ∀ p ∈ sendCall cl, p.result { env with call := call } = p.result env) :
    sseSendEvent { env with call := call } cl = sseSendEvent env cl := by
  unfold sendCall at same
  unfold sseSendEvent
  by_cases hdone : cl.done = true
  · rw [if_pos hdone, if_pos hdone]
  · rw [if_neg hdone] at same
    rw [if_neg hdone, if_neg hdone]
    by_cases hcustom : cl.custom = true
    · rw [if_pos hcustom] at same
      have hcall : call (clientPath env.fs cl.lib) cl.symbol
          (if cl.args = [] then none else some cl.args) =
          env.call (clientPath env.fs cl.lib) cl.symbol
            (if cl.args = [] then none else some cl.args) := same _ rfl
      rw [if_pos hcustom, if_pos hcustom]
      simp only [sseSendCustom, hcall]
    · rw [if_neg hcustom] at same
      have hcall : call (clientPath env.fs (ascii "sse_demo")) (ascii "sse_next")
          (Input.afterId cl.lastId).bytes =
          env.call (clientPath env.fs (ascii "sse_demo")) (ascii "sse_next")
            (Input.afterId cl.lastId).bytes := same _ rfl
      unfold Input.bytes at hcall
      rw [if_neg hcustom, if_neg hcustom]
      simp only [sseSendNext, hcall]

theorem pull_event (env : Env) (cl : SseClient κ) :
    (pull env cl).2 = (pollVisit env cl).event := by
  unfold pull pollVisit
  split
  · rfl
  · rfl

private theorem pollClient_pull (env : Env) (cl : SseClient κ) : pollClient env cl =
    if SSE_KEEPALIVE_MS ≤ env.now - (pull env cl).1.lastPingMs then
      ({ (pull env cl).1 with lastPingMs := env.now }, (pull env cl).2.getD [] ++ keepalive)
    else ((pull env cl).1, (pull env cl).2.getD []) := rfl

/-- The bytes of a poll are its event and perhaps a keepalive. -/
theorem pollClient_bytes (env : Env) (cl : SseClient κ) :
    (pollClient env cl).2 = (pollVisit env cl).event.getD [] ∨
      (pollClient env cl).2 = (pollVisit env cl).event.getD [] ++ keepalive := by
  rw [pollClient_pull, ← pull_event]
  split
  · exact Or.inr rfl
  · exact Or.inl rfl

/-- What a poll changes beside the time of the last keepalive. -/
theorem pollClient_client (env : Env) (cl : SseClient κ) :
    ∃ ping, (pollClient env cl).1 = { (pull env cl).1 with lastPingMs := ping } := by
  rw [pollClient_pull]
  split
  · exact ⟨env.now, rfl⟩
  · exact ⟨(pull env cl).1.lastPingMs, rfl⟩

end Calls

section Sends

variable {κ : Type u} {env : Env} {cl : SseClient κ}

/-- The call of the generic mode. -/
def customCall (cl : SseClient κ) : PluginCall :=
  ⟨cl.lib, cl.symbol, .args (if cl.args = [] then none else some cl.args)⟩

/-- A call that returns zero and has an output. -/
def Succeeds (env : Env) (p : PluginCall) : Prop :=
  (p.result env).1 = 0 ∧ (p.result env).2.isSome = true

instance (env : Env) (p : PluginCall) : Decidable (Succeeds env p) :=
  inferInstanceAs (Decidable (_ ∧ _))

theorem sendCustom_fails (h : ¬Succeeds env (customCall cl)) : sseSendCustom env cl = (cl, none) := by
  rcases sendCustom_spec env cl with ⟨heq, _⟩ | ⟨out, hcall, _⟩
  · exact heq
  · have hresult : (customCall cl).result env = (0, some out) := hcall
    refine absurd ?_ h
    rw [Succeeds, hresult]
    exact ⟨rfl, rfl⟩

/-- A call that succeeds takes a number, and ends the calls of a client for once when its event is
formatted. -/
theorem sendCustom_succeeds (h : Succeeds env (customCall cl)) :
    ∃ data, data.length < SSE_DATA_MAX ∧
      ((sseFormatEvent SSE_EVENT_BUF (cl.seq + 1) (some cl.symbol) (some data) = none ∧
        sseSendCustom env cl = ({ cl with seq := cl.seq + 1 }, none)) ∨
      sseSendCustom env cl = ({ cl with seq := cl.seq + 1, done := cl.done || cl.once },
        some (eventText (cl.seq + 1) (some cl.symbol) (some data)))) := by
  rcases sendCustom_spec env cl with ⟨_, hfailed⟩ | ⟨out, _, hsent⟩
  · obtain ⟨hrc, hout⟩ := h
    obtain ⟨out, hout⟩ := Option.isSome_iff_exists.mp hout
    exact absurd (Prod.ext hrc hout) (hfailed out)
  · refine ⟨(cString out).take (SSE_DATA_MAX - 1), ?_, hsent⟩
    rw [List.length_take]
    exact Nat.lt_of_le_of_lt (Nat.min_le_left _ _) (by decide)

/-- The default mode sends nothing, or an event with a greater number. -/
theorem sendNext_cases (env : Env) (cl : SseClient κ) :
    sseSendNext env cl = (cl, none) ∨
    ∃ id name data, cl.lastId < id ∧
      sseSendNext env cl = ({ cl with lastId := id }, some (eventText id (some name) (some data))) := by
  rcases sendNext_spec env cl with heq | ⟨out, _, hgreater, heq⟩
  · exact Or.inl heq
  · exact Or.inr ⟨_, _, _, hgreater, heq⟩

theorem sendEvent_done (env : Env) (h : cl.done = true) : sseSendEvent env cl = (cl, none) := by
  rw [sseSendEvent, if_pos h]

theorem sendEvent_custom (hdone : cl.done = false) (hcustom : cl.custom = true) :
    sseSendEvent env cl = sseSendCustom env cl := by
  rw [sseSendEvent, hdone, if_neg Bool.false_ne_true, if_pos hcustom]

theorem sendEvent_next (hdone : cl.done = false) (hcustom : cl.custom = false) :
    sseSendEvent env cl = sseSendNext env cl := by
  rw [sseSendEvent, hdone, if_neg Bool.false_ne_true, hcustom, if_neg Bool.false_ne_true]

/-- What a send can change of a client. -/
theorem sendEvent_client (env : Env) (cl : SseClient κ) :
    ∃ lastId seq done, (sseSendEvent env cl).1 =
      { cl with lastId := lastId, seq := seq, done := done } := by
  unfold sseSendEvent
  split
  · exact ⟨cl.lastId, cl.seq, cl.done, rfl⟩
  · split
    · by_cases hcall : Succeeds env (customCall cl)
      · obtain ⟨_, _, ⟨_, heq⟩ | heq⟩ := sendCustom_succeeds hcall
        · exact ⟨cl.lastId, cl.seq + 1, cl.done, by rw [heq]⟩
        · exact ⟨cl.lastId, cl.seq + 1, cl.done || cl.once, by rw [heq]⟩
      · exact ⟨cl.lastId, cl.seq, cl.done, by rw [sendCustom_fails hcall]⟩
    · rcases sendNext_cases env cl with heq | ⟨id, _, _, _, heq⟩
      · exact ⟨cl.lastId, cl.seq, cl.done, by rw [heq]⟩
      · exact ⟨id, cl.seq, cl.done, by rw [heq]⟩

/-- The names, the input and the mode of a client stay as they are. -/
private theorem pollClient_keeps (env : Env) (cl : SseClient κ) :
    (pollClient env cl).1.custom = cl.custom ∧ customCall (pollClient env cl).1 = customCall cl := by
  obtain ⟨ping, hping⟩ := pollClient_client env cl
  have hpull : (pull env cl).1.custom = cl.custom ∧ customCall (pull env cl).1 = customCall cl := by
    unfold pull
    split
    · obtain ⟨lastId, seq, done, hclient⟩ := sendEvent_client env { cl with lastPollMs := env.now }
      rw [hclient]
      exact ⟨rfl, rfl⟩
    · exact ⟨rfl, rfl⟩
  rw [hping]
  exact hpull

/-- The calls that a client makes in its mode. -/
def Calls (cl : SseClient κ) (p : PluginCall) : Prop :=
  (cl.custom = true ∧ p = customCall cl) ∨
    cl.custom = false ∧ ∃ n, p = ⟨ascii "sse_demo", ascii "sse_next", .afterId n⟩

private theorem sendCall_calls {p : PluginCall} (h : sendCall cl = some p) : Calls cl p := by
  unfold sendCall at h
  split at h
  · cases h
  · split at h
    · rename_i hcustom
      exact Or.inl ⟨hcustom, (Option.some.inj h).symm⟩
    · rename_i hcustom
      exact Or.inr ⟨Bool.not_eq_true _ ▸ hcustom, cl.lastId, (Option.some.inj h).symm⟩

/-- A client that is not done calls. -/
theorem sendCall_open (h : cl.done = false) : ∃ p, sendCall cl = some p := by
  unfold sendCall
  rw [h, if_neg Bool.false_ne_true]
  split
  · exact ⟨_, rfl⟩
  · exact ⟨_, rfl⟩

private theorem pollVisits_calls (envs : List Env) (cl : SseClient κ) :
    ∀ p ∈ calls (pollVisits envs cl), Calls cl p := by
  induction envs generalizing cl with
  | nil => exact fun p hp => absurd hp List.not_mem_nil
  | cons env envs ih =>
    intro p hp
    rw [pollVisits, calls_cons, List.mem_append] at hp
    rcases hp with hp | hp
    · unfold pollVisit at hp
      split at hp
      · exact @sendCall_calls κ { cl with lastPollMs := env.now } p (Option.mem_toList.mp hp)
      · cases hp
    · obtain ⟨hcustom, hcall⟩ := pollClient_keeps env cl
      have hmore := ih (pollClient env cl).1 p hp
      unfold Calls at hmore ⊢
      rw [hcustom, hcall] at hmore
      exact hmore

theorem life_calls (env : Env) (envs : List Env) (cl : SseClient κ) :
    ∀ p ∈ calls (life env envs cl), Calls cl p := by
  intro p hp
  rw [life, calls_cons, List.mem_append] at hp
  rcases hp with hp | hp
  · exact sendCall_calls (Option.mem_toList.mp hp)
  · obtain ⟨lastId, seq, done, hclient⟩ := sendEvent_client env cl
    have hmore := pollVisits_calls envs (sseSendEvent env cl).1 p hp
    rw [hclient] at hmore
    exact hmore

end Sends

section Fields

variable {lib symbol data : Bytes}

/-- A field keeps room for its terminator. -/
theorem queryField_length {dflt : String} {size : Nat} (var : Option Bytes)
    (h : (ascii dflt).length < size) : (queryField dflt size var).length < size := by
  have hcut : ∀ v : Bytes, (snprintf size (cString v)).length < size := by
    intro v
    rw [snprintf, List.length_take]
    omega
  unfold queryField
  split
  · exact h
  · exact h
  · exact hcut _

theorem sseAccepts_fields {l f : Option Bytes} (h : sseAccepts l f = some (lib, symbol)) :
    lib = queryField "sse_demo" 64 l ∧ symbol = queryField "sse_next" 128 f := by
  unfold sseAccepts at h
  dsimp only at h
  split at h
  · obtain ⟨rfl, rfl⟩ := Prod.mk.inj (Option.some.inj h)
    exact ⟨rfl, rfl⟩
  · cases h

theorem accepted_symbol_length {l f : Option Bytes} (h : sseAccepts l f = some (lib, symbol)) :
    symbol.length < 128 := by
  rw [(sseAccepts_fields h).2]
  exact queryField_length f (by decide)

/-- The first event of the generic mode fits into its buffer. -/
theorem format_first (hsymbol : symbol.length < 128) (hdata : data.length < SSE_DATA_MAX) :
    sseFormatEvent SSE_EVENT_BUF 1 (some symbol) (some data) ≠ none := by
  have hname : (eventName (some symbol)).length < 128 := by
    cases symbol with
    | nil => decide
    | cons c symbol => exact hsymbol
  have hlength : (eventText 1 (some symbol) (some data)).length < SSE_EVENT_BUF := by
    have hid : (ascii "id: ").length = 4 := by decide
    have hone : (decimalInt 1).length = 1 := by decide
    have hevent : (ascii "\nevent: ").length = 8 := by decide
    have hline : (ascii "\ndata: ").length = 7 := by decide
    have hend : (ascii "\n\n").length = 2 := by decide
    have hvalue : eventData (some data) = data := rfl
    unfold SSE_DATA_MAX at hdata
    unfold SSE_EVENT_BUF
    rw [eventText, hvalue]
    simp only [List.length_append, hid, hone, hevent, hline, hend]
    omega
  unfold sseFormatEvent
  unfold SSE_EVENT_BUF at hlength ⊢
  rw [if_neg (by decide)]
  dsimp only
  rw [if_neg (by omega)]
  exact Option.some_ne_none _

end Fields

section Server

variable {κ : Type u} {env : Env} {t t' : Table κ} {c : κ} {hm : HttpMessage}
  {lib symbol head : Bytes} {event : Option Bytes} {w w' : World κ} {s : Finset κ} {i : Slot}
  {es : List (Report κ)}

/-- The request is accepted for this library and this symbol. -/
structure Accepted (env : Env) (t : Table κ) (hm : HttpMessage) (lib symbol : Bytes) : Prop where
  get : hm.method = ascii "GET"
  names : sseAccepts (queryVar hm "lib" SSE_ARGS_MAX) (queryVar hm "symbol" SSE_ARGS_MAX) =
    some (lib, symbol)
  readable : env.readable (clientPath env.fs lib) = true
  room : (freeSlot t).isSome = true

/-- A request whose answer is a stream is accepted, and its life begins. -/
theorem accepted_of_stream (h : evHandlerSse env t c hm = (t', .stream head event)) :
    ∃ i lib symbol, Accepted env t hm lib symbol ∧ freeSlot t = some i ∧
      t' = Function.update t i (sseSendEvent env (newClient env c hm lib symbol)).1 ∧
      event = (sendVisit env (newClient env c hm lib symbol)).event := by
  unfold evHandlerSse at h
  by_cases hget : hm.method = ascii "GET"
  · rw [if_neg (not_not.mpr hget)] at h
    cases hnames : sseAccepts (queryVar hm "lib" SSE_ARGS_MAX)
        (queryVar hm "symbol" SSE_ARGS_MAX) with
    | none =>
      rw [hnames] at h
      cases (Prod.mk.inj h).2
    | some r =>
      obtain ⟨lib, symbol⟩ := r
      rw [hnames] at h
      dsimp only at h
      by_cases hreadable : env.readable (clientPath env.fs lib) = false
      · rw [if_pos hreadable] at h
        cases (Prod.mk.inj h).2
      · rw [if_neg hreadable] at h
        cases hfree : freeSlot t with
        | none =>
          rw [hfree] at h
          cases (Prod.mk.inj h).2
        | some i =>
          rw [hfree] at h
          obtain ⟨htable, hreply⟩ := Prod.mk.inj h
          obtain ⟨_, hevent⟩ := Reply.stream.inj hreply
          exact ⟨i, lib, symbol, ⟨hget, hnames, Bool.not_eq_false _ ▸ hreadable, by rw [hfree]; rfl⟩,
            rfl, htable.symm, hevent.symm⟩
  · rw [if_pos hget] at h
    cases (Prod.mk.inj h).2

theorem stream_of_accepted (c : κ) (h : Accepted env t hm lib symbol) :
    ∃ head event, (evHandlerSse env t c hm).2 = .stream head event := by
  obtain ⟨i, hfree⟩ := Option.isSome_iff_exists.mp h.room
  unfold evHandlerSse
  rw [if_neg (not_not.mpr h.get), h.names]
  dsimp only
  rw [if_neg (by rw [h.readable]; decide), hfree]
  exact ⟨_, _, rfl⟩

/-- Another library or symbol than the ones of the default mode. -/
def Generic (lib symbol : Bytes) : Prop := ¬(lib = ascii "sse_demo" ∧ symbol = ascii "sse_next")

instance (lib symbol : Bytes) : Decidable (Generic lib symbol) :=
  inferInstanceAs (Decidable (¬_))

theorem newClient_custom (env : Env) (c : κ) (hm : HttpMessage) (lib symbol : Bytes) :
    (newClient env c hm lib symbol).custom = true ↔ Generic lib symbol := by
  unfold newClient Generic
  rw [Bool.not_eq_true', ← Bool.not_eq_true, Bool.and_eq_true, decide_eq_true_eq, decide_eq_true_eq]

private theorem polled_owns (envs : List Env) (howns : Owns t c i) :
    (polled envs (t i)).active = true ∧ (polled envs (t i)).c = some c := by
  have hsame : ∀ (envs : List Env) (cl : SseClient κ), Same cl (polled envs cl) := by
    intro envs
    induction envs with
    | nil => exact fun cl => .refl cl
    | cons env envs ih => exact fun cl => (pollClient_same env cl).trans (ih _)
  exact ⟨(hsame envs (t i)).active.trans howns.1, (hsame envs (t i)).c.trans howns.2⟩

variable [DecidableEq κ]

/-- The polls of a connection in a schedule. -/
def pollOf (c : κ) : Action κ → Option Env
  | .poll c' env => if c' = c then some env else none
  | _ => none

private theorem pollOf_poll (c c' : κ) (env : Env) :
    pollOf c (.poll c' env) = if c' = c then some env else none := rfl

/-- A step that does not close the connection polls its client or leaves it alone. -/
private theorem step_polled {a : Action κ} (h : Sound w s) (howns : Owns w.table c i)
    (stays : a ≠ .close c) (hstep : Table.step w a = some (w', es)) :
    w'.table i = polled (pollOf c a).toList (w.table i) := by
  have other : ∀ c' j, c' ≠ c → Owns w.table c' j → i ≠ j := by
    rintro c' j hne hj rfl
    exact hne (Option.some.inj (hj.2.symm.trans howns.2))
  cases a with
  | connect c' =>
    unfold Table.step at hstep
    dsimp only at hstep
    split at hstep
    · cases hstep
    · obtain ⟨rfl, _⟩ := Prod.mk.inj (Option.some.inj hstep)
      rfl
  | request c' env hm =>
    unfold Table.step at hstep
    dsimp only at hstep
    split at hstep
    · rcases evHandlerSse_cases env w.table c' hm with
        ⟨code, json, heq, _⟩ | ⟨j, cl, head, event, heq, hfree, _⟩
      · rw [heq] at hstep
        obtain ⟨rfl, _⟩ := Prod.mk.inj (Option.some.inj hstep)
        rfl
      · rw [heq] at hstep
        obtain ⟨rfl, _⟩ := Prod.mk.inj (Option.some.inj hstep)
        have hij : i ≠ j := by
          rintro rfl
          exact Bool.false_ne_true (hfree.symm.trans howns.1)
        exact Function.update_of_ne hij _ _
    · cases hstep
  | poll c' env =>
    unfold Table.step at hstep
    dsimp only at hstep
    split at hstep
    · obtain ⟨rfl, _⟩ := Prod.mk.inj (Option.some.inj hstep)
      rw [pollOf_poll]
      unfold sseOnPoll
      by_cases hc : c' = c
      · subst hc
        rw [if_pos rfl]
        cases hfind : sseFind w.table c' with
        | none => exact absurd howns (sseFind_none hfind i)
        | some j =>
          obtain rfl := h.distinct c' i j howns (sseFind_owns hfind)
          exact Function.update_self _ _ _
      · rw [if_neg hc]
        cases hfind : sseFind w.table c' with
        | none => rfl
        | some j => exact Function.update_of_ne (other c' j hc (sseFind_owns hfind)) _ _
    · cases hstep
  | close c' =>
    unfold Table.step at hstep
    dsimp only at hstep
    split at hstep
    · obtain ⟨rfl, _⟩ := Prod.mk.inj (Option.some.inj hstep)
      have hc : c' ≠ c := fun heq => stays (by rw [heq])
      dsimp only
      rw [sseOnClose_apply (h.distinct c') i, if_neg fun hi => other c' i hc hi rfl]
      rfl
    · cases hstep

/-- Between its acceptance and its close, what the server does with a connection is its life: what
happens on other connections leaves its client alone. -/
theorem exec_polled {as : List (Action κ)} {tr : List (Report κ)}
    (run : Run (server (κ := κ)) anyStep tr w) (howns : Owns w.table c i)
    (stays : ∀ a ∈ as, a ≠ .close c) (hexec : server.exec w as = some (w', es)) :
    w'.table i = polled (as.filterMap (pollOf c)) (w.table i) := by
  induction as generalizing w tr es with
  | nil =>
    obtain ⟨rfl, _⟩ := Prod.mk.inj (Option.some.inj hexec)
    rfl
  | cons a as ih =>
    obtain ⟨u, es', tr', hstep, hrest, _⟩ := System.exec_cons_some hexec
    obtain ⟨ha, hstays⟩ := List.forall_mem_cons.mp stays
    have hfirst := step_polled (sound_run run) howns ha hstep
    have hu : Owns u.table c i := by
      rw [Owns, hfirst]
      exact polled_owns _ howns
    rw [ih (run.snoc trivial hstep) hu hstays hrest, hfirst, List.filterMap_cons]
    cases pollOf c a with
    | none => rfl
    | some env => rfl

end Server

section Requests

theorem get_plain : 0 ∉ ascii "GET" := by decide

theorem uri_plain : 0 ∉ ascii "/sse" ∧ 63 ∉ ascii "/sse" := by decide

/-- A request for a stream. -/
def getRequest (query : Bytes) (headers : List (Bytes × Bytes)) (query_plain : 0 ∉ query)
    (headers_plain : ∀ h ∈ headers, 0 ∉ h.2) : HttpMessage :=
  ⟨ascii "GET", ascii "/sse", query, headers, [], get_plain, uri_plain, query_plain, headers_plain,
    size_nil⟩

end Requests

end Cyctron.Sse.Life
