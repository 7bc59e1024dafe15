/- Cyctron/Server/Ids
   digest: Every response of the server carries the id of the message that it answers. -/

import Cyctron.Call.Response
import Cyctron.Mongoose.Json
import Cyctron.Server.Control

set_option autoImplicit false
set_option relaxedAutoImplicit false

namespace Cyctron.Server.Ids

open Cyctron.Base.CString Cyctron.Call.Protocol Cyctron.Call.Response Cyctron.Json.Text
open Cyctron.Json.Build Cyctron.Json.Escape Cyctron.Server.Connections Cyctron.Server.Model
open Cyctron.Server.Inversion Cyctron.Server.Control
open Cyctron.WsWorker.Model (Pool SubmitArgs Submitting WsDone WsJob newJob pool response)
open Cyctron.WsWorker.Stage (acceptedJobs acceptedJobs_append answeredJobs pushedEntries
  deliveredEntries)
open Cyctron.WsWorker.Locals (Answers run_pushed)
open Cyctron.WsWorker.Delivery (run_push_order_of)
open Cyctron.WsWorker.Admission (run_answered)
open Cyctron.Machine.Labelled (System Path Run anyStep)
open Cyctron.Mongoose.Json (mongoose)

/-- The id that `ws_call_parse` decodes from a payload. -/
def requestId (mg : MgJson) (payload : Bytes) : Option Bytes :=
  if payload.length = 0 ∨ WS_CALL_MAX_PAYLOAD < payload.length then none
  else mg.getStr payload "$.id"

private theorem parse_id {mg : MgJson} {mem : ParseAlloc} {payload : Bytes} {size : Nat} :
    (wsCallParse mg mem (some payload) size).req.id = requestId mg payload := by
  unfold wsCallParse requestId
  dsimp only
  split
  · rfl
  · split
    · rename_i hid _ _
      split
      · rfl
      · split
        · rfl
        · split
          · rfl
          · split
            · exact hid.symm
            · rfl
    · rfl

/-- The payloads of the messages so far, by their numbers. -/
def record (payloads : List Bytes) : Action → List Bytes
  | .message _ payload _ _ _ => payloads ++ [payload]
  | _ => payloads

/-- The server, with the payloads of its messages written down beside it. -/
def recorded (mg : MgJson) : System (ServerState × List Bytes) Action Event where
  initial := (.initial, [])
  step s a := (step mg s.1 a).map fun r => ((r.1, record s.2 a), r.2)

/-- Message `n` has this id. -/
def Asked (mg : MgJson) (payloads : List Bytes) (n : Nat) (id : Option Bytes) : Prop :=
  ∃ p, payloads[n]? = some p ∧ requestId mg p = id

section Parts

variable {mg : MgJson} {s t : ServerState} {a : Action} {es : List Event} {payloads : List Bytes}
  {n : Nat} {id : Option Bytes} {json : Bytes}

theorem Asked.record (h : Asked mg payloads n id) : Asked mg (record payloads a) n id := by
  obtain ⟨p, hp, hid⟩ := h
  refine ⟨p, ?_, hid⟩
  cases a with
  | message => exact List.getElem?_append_left (List.getElem?_eq_some_iff.mp hp).1 |>.trans hp
  | _ => exact hp

/-- What `handle_call` answers itself. -/
private theorem respond_opens {conns : ConnState} {c : Nat} {mem : Bool} {code now : Int}
    {message : Bytes} :
    poolTrace (respond conns c n mem id code message now) = [] ∧
    ∀ m json, .responded m json ∈ respond conns c n mem id code message now →
      m = n ∧ OpensWith json (id.getD []) := by
  cases mem with
  | false => exact ⟨rfl, fun _ _ hmem => absurd hmem List.not_mem_nil⟩
  | true =>
    refine ⟨traces_respond.2.2, fun m json hmem => ?_⟩
    have hnone : wsCallBuildError true id code (some message) now =
        wsCallBuildError true (some (id.getD [])) code (some message) now := by
      cases id <;> rfl
    have hrc : (wsCallBuildError true id code (some message) now).1 = 0 := rfl
    obtain ⟨json', hjson⟩ : ∃ json', (wsCallBuildError true id code (some message) now).2.json =
      some json' := ⟨_, rfl⟩
    rw [respond, if_pos hrc, hjson] at hmem
    have hsame : m = n ∧ json = json' := by
      rcases List.mem_cons.mp hmem with h | h
      · exact Event.responded.inj h
      · rcases @eventPushTo_cases conns c json' with hpush | ⟨connId, hpush⟩
        · rw [hpush] at h
          exact absurd h List.not_mem_nil
        · rw [hpush] at h
          cases List.mem_singleton.mp h
    obtain ⟨rfl, rfl⟩ := hsame
    rw [hnone] at hjson
    exact ⟨rfl, opens_of_prefix (error_leads hjson)⟩

end Parts

section Runs

variable {mg : MgJson} {s t : ServerState} {a : Action} {es tr : List Event} {ps : List Bytes}

/-- Where `handle_call` gets to with a message. -/
private theorem message_cases {c : Nat} {p : Bytes} {mem : ParseAlloc} {respMem : Bool} {now : Int}
    (h : step mg s (.message c p mem respMem now) = some (t, es)) : s.main = .idle ∧
      ((∃ connId code err, t = { s with messages := s.messages + 1 } ∧
        es = .received s.messages connId ::
          respond s.conns c s.messages respMem (requestId mg p) code err now) ∨
      ∃ args i, requestId mg p = some i ∧ args.id = some i ∧ args.tag = s.messages ∧
        t = { s with messages := s.messages + 1, main := .calling c args } ∧
        es = [.received s.messages args.connId]) := by
  change handleCall mg s c p mem respMem now = some (t, es) at h
  unfold handleCall at h
  split at h
  · rename_i k idle live
    refine ⟨idle, ?_⟩
    rw [Option.ite_none_right_eq_some] at h
    obtain ⟨_, h⟩ := h
    dsimp only at h
    split at h
    · rw [parse_id] at h
      obtain ⟨rfl, rfl⟩ := Prod.mk.inj (Option.some.inj h)
      exact Or.inl ⟨k.id, _, _, rfl, rfl⟩
    · rename_i good
      have hsome := (wsCallParse_ok (not_not.mp good)).1
      rw [parse_id] at h hsome
      obtain ⟨i, hi⟩ := Option.isSome_iff_exists.mp hsome
      obtain ⟨rfl, rfl⟩ := Prod.mk.inj (Option.some.inj h)
      exact Or.inr ⟨_, i, hi, hi, rfl, rfl, rfl⟩
  · cases h

/-- The submit of the main thread is for the call that it stands in. -/
def Place (p : Pool) : Main → Prop
  | .calling _ args => p.submits 0 = none ∨ Inside args (p.submits 0)
  | _ => p.submits 0 = none

/-- The ids of the calls and of the responses are those of their messages. -/
structure Faithful (mg : MgJson) (tr : List Event) (s : ServerState) (ps : List Bytes) : Prop where
  messages : s.messages = ps.length
  place : Place s.pool s.main
  calling : ∀ c args, s.main = .calling c args → ∃ i, args.id = some i ∧ Asked mg ps args.tag (some i)
  accepted : ∀ job ∈ acceptedJobs (poolTrace tr), Asked mg ps job.tag (some job.id)
  responded : ∀ n json, .responded n json ∈ tr → ∃ id, Asked mg ps n id ∧ OpensWith json (id.getD [])

private theorem faithful_initial : Faithful mg [] .initial [] where
  messages := rfl
  place := rfl
  calling _ _ at_ := by cases at_
  accepted _ hjob := absurd hjob List.not_mem_nil
  responded _ _ hmem := absurd hmem List.not_mem_nil

/-- A step that takes no message keeps the ids when it keeps the call in the submit, accepts only
that call and answers only that call. -/
private theorem faithful_step (h : Faithful mg tr s ps) (messages : t.messages = s.messages)
    (place : Place t.pool t.main) (calling : ∀ c args, t.main = .calling c args → s.main = t.main)
    (accepted : ∀ job ∈ acceptedJobs (poolTrace es), ∃ c args now,
      s.main = .calling c args ∧ job = newJob args now)
    (responded : ∀ n json, .responded n json ∈ es → ∃ c args,
      s.main = .calling c args ∧ n = args.tag ∧ OpensWith json (args.id.getD [])) :
    Faithful mg (tr ++ es) t ps where
  messages := messages.trans h.messages
  place := place
  calling c args at_ := h.calling c args ((calling c args at_).trans at_)
  accepted job hjob := by
    rw [poolTrace_append, acceptedJobs_append] at hjob
    rcases List.mem_append.mp hjob with hjob | hjob
    · exact h.accepted job hjob
    · obtain ⟨c, args, now, at_, rfl⟩ := accepted job hjob
      obtain ⟨i, hi, hasked⟩ := h.calling c args at_
      have hid : (newJob args now).id = i := by rw [newJob, hi, Option.getD_some]
      rw [hid]
      exact hasked
  responded n json hmem := by
    rcases List.mem_append.mp hmem with hmem | hmem
    · exact h.responded n json hmem
    · obtain ⟨c, args, at_, rfl, hopens⟩ := responded n json hmem
      obtain ⟨i, hi, hasked⟩ := h.calling c args at_
      exact ⟨some i, hasked, by rwa [hi] at hopens⟩

private theorem faithful_message {c : Nat} {p : Bytes} {mem : ParseAlloc} {respMem : Bool} {now : Int}
    (h : Faithful mg tr s ps) (hstep : step mg s (.message c p mem respMem now) = some (t, es)) :
    Faithful mg (tr ++ es) t (ps ++ [p]) := by
  have hkeep : ∀ {n id}, Asked mg ps n id → Asked mg (ps ++ [p]) n id :=
    fun hasked => Asked.record (a := .message c p mem respMem now) hasked
  have hnew : ∀ {id}, requestId mg p = id → Asked mg (ps ++ [p]) s.messages id := by
    intro id hid
    refine ⟨p, ?_, hid⟩
    rw [h.messages]
    exact List.getElem?_concat_length
  have hlength : (ps ++ [p]).length = s.messages + 1 := by rw [List.length_append, ← h.messages]; rfl
  obtain ⟨idle, ⟨connId, code, err, rfl, rfl⟩ | ⟨args, i, hi, hid, htag, rfl, rfl⟩⟩ :=
    message_cases hstep
  · obtain ⟨hpool, hresp⟩ := @respond_opens s.messages (requestId mg p) s.conns c respMem code now err
    constructor
    · exact hlength.symm
    · exact h.place
    · intro c' args at_
      cases idle.symm.trans at_
    · intro job hjob
      rw [poolTrace_append, traces_received.2.2, hpool, List.append_nil] at hjob
      exact hkeep (h.accepted job hjob)
    · intro n json hmem
      rcases List.mem_append.mp hmem with hmem | hmem
      · obtain ⟨id, hasked, hopens⟩ := h.responded n json hmem
        exact ⟨id, hkeep hasked, hopens⟩
      · rcases List.mem_cons.mp hmem with hmem | hmem
        · cases hmem
        · obtain ⟨rfl, hopens⟩ := hresp n json hmem
          exact ⟨requestId mg p, hnew rfl, hopens⟩
  · have hplace := h.place
    rw [idle] at hplace
    constructor
    · exact hlength.symm
    · exact Or.inl hplace
    · rintro c' args' at_
      obtain ⟨rfl, rfl⟩ := Main.calling.inj at_
      refine ⟨i, hid, ?_⟩
      rw [htag]
      exact hnew hi
    · intro job hjob
      rw [poolTrace_append, traces_received.2.2] at hjob
      exact hkeep (h.accepted job (by simpa [poolTrace] using hjob))
    · intro n json hmem
      rcases List.mem_append.mp hmem with hmem | hmem
      · obtain ⟨id, hasked, hopens⟩ := h.responded n json hmem
        exact ⟨id, hkeep hasked, hopens⟩
      · cases List.mem_singleton.mp hmem

/-- A step of the pool that belongs to no submit leaves the place of the main thread. -/
private theorem place_of_submits {p q : Pool} {m : Main} (h : Place p m)
    (same : q.submits = p.submits) :
    Place q m := by
  cases m with
  | calling => exact h.imp (fun h => by rw [same]; exact h) fun h => by rw [same]; exact h
  | starting | idle | draining | exited =>
    change q.submits 0 = none
    rw [same]
    exact h

private theorem place_idle {p : Pool} {m : Main} (h : p.submits 0 = none) : Place p m := by
  cases m with
  | calling => exact Or.inl h
  | starting | idle | draining | exited => exact h

/-- The submit accepts no other job than the one it is for. -/
private theorem part_accepts {p q : Pool} {args : SubmitArgs} {part : SubmitPart}
    {x : List WsWorker.Model.Event} (place : p.submits 0 = none ∨ Inside args (p.submits 0))
    (move : pool.step p (part.action args) = some (q, x)) :
    ∀ job ∈ acceptedJobs x, ∃ now, job = newJob args now := by
  intro job hjob
  rcases part_events move with ⟨rfl, _⟩ | ⟨hnone, _⟩ | ⟨job', rfl, hbuilt⟩
  · exact absurd hjob List.not_mem_nil
  · rw [hnone] at hjob
    exact absurd hjob List.not_mem_nil
  · obtain rfl : job = job' := List.mem_singleton.mp hjob
    rcases place with hnone | hin | ⟨now, hin⟩
    · cases hbuilt.symm.trans hnone
    · cases Option.some.inj (hbuilt.symm.trans hin)
    · exact ⟨now, Submitting.built.inj (Option.some.inj (hbuilt.symm.trans hin))⟩

/-- Every step of the server keeps the ids. -/
private theorem faithful_keep (h : Faithful mg tr s ps) (hstep : step mg s a = some (t, es)) :
    Faithful mg (tr ++ es) t (record ps a) := by
  have hmessage : ∀ c p mem respMem now, a = .message c p mem respMem now →
      Faithful mg (tr ++ es) t (record ps a) := by
    rintro c p mem respMem now rfl
    exact faithful_message h hstep
  have hpool : ∀ {x : List WsWorker.Model.Event}, ∀ n json, .responded n json ∈ x.map Event.pool →
      ∃ c args, s.main = .calling c args ∧ n = args.tag ∧ OpensWith json (args.id.getD []) := by
    intro x n json hmem
    obtain ⟨b, _, hb⟩ := List.mem_map.mp hmem
    cases hb
  have hquiet : ∀ {x : List Event}, acceptedJobs (poolTrace x) = [] →
      ∀ job ∈ acceptedJobs (poolTrace x), ∃ c args now, s.main = .calling c args ∧
        job = newJob args now := by
    intro x hx job hjob
    rw [hx] at hjob
    exact absurd hjob List.not_mem_nil
  have hplace := h.place
  have hstep' : Step mg s a t es := Step.of hstep
  cases hstep' with
  | reject => exact hmessage _ _ _ _ _ rfl
  | call => exact hmessage _ _ _ _ _ rfl
  | @start created u x at_ move state =>
    rw [at_] at hplace
    cases WsWorker.Inversion.Step.of move with
    | init free le out =>
      have hnone : u.submits 0 = none := by
        rw [(init_frame out).1]
        exact hplace
      refine faithful_step h rfl (place_idle hnone) (fun c args hcall => ?_) (hquiet rfl) hpool
      dsimp only at hcall
      split at hcall <;> cases hcall
  | conn =>
    exact faithful_step h rfl hplace (fun _ _ _ => rfl) (hquiet rfl) (hpool (x := []))
  | @submitting c args part respMem now u x at_ move still =>
    rw [at_] at hplace
    refine faithful_step h rfl ?_ (fun _ _ _ => rfl) (fun job hjob => ?_) hpool
    · rw [at_]
      exact (part_frame hplace move).2.imp id And.right
    · rw [poolTrace_pool] at hjob
      obtain ⟨now, hjob⟩ := part_accepts hplace move job hjob
      exact ⟨c, args, now, at_, hjob⟩
  | @refused c args part respMem now rc u x at_ move result bad =>
    rw [at_] at hplace
    obtain ⟨hsilent, hresp⟩ :=
      @respond_opens args.tag args.id s.conns c respMem (-6) now (ascii "worker busy")
    have hnone : u.submits 0 = none := by
      rcases (part_frame hplace move).2 with hnone | ⟨hstill, _⟩
      · exact hnone
      · cases result.symm.trans hstill
    refine faithful_step h rfl hnone (fun _ _ hcall => by cases hcall) (fun job hjob => ?_)
      fun n json hmem => ?_
    · rw [poolTrace_append, poolTrace_pool, hsilent, List.append_nil] at hjob
      obtain ⟨now, hjob⟩ := part_accepts hplace move job hjob
      exact ⟨c, args, now, at_, hjob⟩
    · rcases List.mem_append.mp hmem with hmem | hmem
      · exact hpool n json hmem
      · obtain ⟨rfl, hopens⟩ := hresp n json hmem
        exact ⟨c, args, at_, rfl, hopens⟩
  | @accepted c args part respMem now u x at_ move result =>
    rw [at_] at hplace
    have hnone : u.submits 0 = none := by
      rcases (part_frame hplace move).2 with hnone | ⟨hstill, _⟩
      · exact hnone
      · cases result.symm.trans hstill
    refine faithful_step h rfl hnone (fun _ _ hcall => by cases hcall) (fun job hjob => ?_) hpool
    rw [poolTrace_pool] at hjob
    obtain ⟨now, hjob⟩ := part_accepts hplace move job hjob
    exact ⟨c, args, now, at_, hjob⟩
  | drain at_ move =>
    rw [at_] at hplace
    cases WsWorker.Inversion.Step.of move with
    | drainDetach =>
      exact faithful_step h rfl hplace (fun _ _ hcall => by cases hcall) (hquiet rfl) hpool
  | @deliver d u at_ move =>
    have hplace' : Place u s.main := by
      refine place_of_submits hplace ?_
      cases WsWorker.Inversion.Step.of move with
      | drainNext => rfl
    refine faithful_step h rfl hplace' (fun _ _ _ => rfl) (hquiet ?_) fun n json hmem => ?_
    · rw [traces_delivered.2.2, traces_wsCallDone.2.2]
      rfl
    · refine absurd hmem (not_responded ?_)
      rw [traces_delivered.2.1, traces_wsCallDone.2.1]
  | drained at_ move =>
    rw [at_] at hplace
    cases WsWorker.Inversion.Step.of move with
    | drainReturn =>
      exact faithful_step h rfl hplace (fun _ _ hcall => by cases hcall) (hquiet rfl) (hpool (x := []))
  | background own move =>
    obtain ⟨hsubmits, _, _, hnone⟩ := background_frame own move
    refine faithful_step h rfl (place_of_submits hplace hsubmits) (fun _ _ _ => rfl) (hquiet ?_) hpool
    rw [poolTrace_pool]
    exact hnone

private theorem run_faithful {ok : ServerState × List Bytes → Action → Prop}
    {x : ServerState × List Bytes}
    (run : Run (recorded mg) ok tr x) : Faithful mg tr x.1 x.2 := by
  refine run.invariant (fun tr x => Faithful mg tr x.1 x.2) faithful_initial ?_
  intro tr x a y es ih _ hstep
  obtain ⟨⟨t, fs⟩, hserver, heq⟩ := Option.map_eq_some_iff.mp hstep
  obtain ⟨rfl, rfl⟩ := Prod.mk.inj heq
  exact faithful_keep ih hserver

end Runs

section Answers

variable {mg : MgJson} {tr : List Event} {s : ServerState} {ps : List Bytes} {n : Nat} {json i : Bytes}
  {ok : ServerState × List Bytes → Action → Prop} {x : ServerState × List Bytes}

/-- The server never cleans its pool up. -/
def neverCleaned (_ : Pool) : WsWorker.Model.Action → Prop
  | .shutdownCleanup => False
  | _ => True

theorem run_pool (run : Run (recorded mg) ok tr x) :
    Run pool neverCleaned (poolTrace tr) x.1.pool := by
  refine run.project (fun x => x.1.pool) poolTrace rfl (fun _ _ => poolTrace_append) ?_
  intro x a y es _ hstep
  obtain ⟨⟨t, fs⟩, hserver, heq⟩ := Option.map_eq_some_iff.mp hstep
  obtain ⟨rfl, rfl⟩ := Prod.mk.inj heq
  rcases Step.pool_move (Step.of hserver) with ⟨hes, hpool⟩ | ⟨b, move, hmove⟩
  · dsimp only
    rw [hes, hpool]
    exact .refl
  · refine .single ?_ hmove
    cases move with
    | @part part => cases part <;> exact trivial
    | own own =>
      cases b with
      | shutdownCleanup => cases own
      | _ => exact trivial
    | _ => exact trivial

/-- A response to message `n`: by `handle_call` itself, or delivered from the pool. -/
def Answered (tr : List Event) (n : Nat) (json : Bytes) : Prop :=
  .responded n json ∈ tr ∨ ∃ d, .pool (.delivered d) ∈ tr ∧ d.tag = n ∧ d.json = json

/-- A delivered response is one for an accepted job. -/
private theorem delivered_job (run : Run (recorded mg) ok tr x) {d : WsDone}
    (hd : .pool (.delivered d) ∈ tr) :
    ∃ job ∈ acceptedJobs (poolTrace tr), d.tag = job.tag ∧ OpensWith d.json job.id := by
  have hrun := run_pool run
  have hmem : d ∈ deliveredEntries (poolTrace tr) :=
    List.mem_filterMap.mpr ⟨.delivered d, List.mem_filterMap.mpr ⟨_, hd, rfl⟩, rfl⟩
  have hpushed : d ∈ (pushedEntries (poolTrace tr)).map Prod.snd := by
    rw [run_push_order_of (fun _ h => h) hrun]
    exact List.mem_append_left _ hmem
  obtain ⟨⟨job, d'⟩, hentry, rfl⟩ := List.mem_map.mp hpushed
  obtain ⟨e, he, hpair⟩ := List.mem_filterMap.mp hentry
  cases e with
  | pushed job' late d'' =>
    obtain ⟨rfl, rfl⟩ := Prod.mk.inj (Option.some.inj hpair)
    obtain ⟨_, htag, mem, elapsed, rc, out, now, hjson⟩ := run_pushed hrun he
    refine ⟨job', ?_, htag, response_opens hjson⟩
    have hanswered : job' ∈ answeredJobs (poolTrace tr) := List.mem_filterMap.mpr ⟨_, he, rfl⟩
    have hall : job' ∈ (acceptedJobs (poolTrace tr) : Multiset WsJob) := by
      rw [run_answered hrun]
      simp [hanswered]
    exact Multiset.mem_coe.mp hall
  | _ => cases hpair

/-- Each response opens with the id of the message that it answers. -/
private theorem answered_opens (run : Run (recorded mg) ok tr (s, ps)) (h : Answered tr n json) :
    ∃ p, ps[n]? = some p ∧ OpensWith json ((requestId mg p).getD []) := by
  have hfaithful := run_faithful run
  rcases h with h | ⟨d, hd, rfl, rfl⟩
  · obtain ⟨id, ⟨p, hp, rfl⟩, hopens⟩ := hfaithful.responded n json h
    exact ⟨p, hp, hopens⟩
  · obtain ⟨job, hjob, htag, hopens⟩ := delivered_job run hd
    obtain ⟨p, hp, hid⟩ := hfaithful.accepted job hjob
    refine ⟨p, by rw [htag]; exact hp, ?_⟩
    rw [hid]
    exact hopens

/-- In every run each response to a message with an id opens with this id as it is escaped; read as an
object it has the id less the dropped control characters. Responses to ids that differ in more than
these never have the same id. -/
theorem responses_carry_ids (run : Run (recorded mg) anyStep tr (s, ps)) :
    (∀ n json, Answered tr n json → ∃ p, ps[n]? = some p ∧ ∀ i, requestId mg p = some i →
      OpensWith json i ∧ ∀ ms, IsObject json ms →
        ∃ v, lookup (ascii "id") ms = some v ∧ decodeString v = some (stripped i)) ∧
    ∀ n n' p p' i i' json json', ps[n]? = some p → ps[n']? = some p' → requestId mg p = some i →
      requestId mg p' = some i' → Answered tr n json → Answered tr n' json' →
        stripped i ≠ stripped i' → ∀ k, HasId json k → ¬HasId json' k := by
  have hopens : ∀ {n p i json}, ps[n]? = some p → requestId mg p = some i → Answered tr n json →
      OpensWith json i := by
    intro n p i json hp hi h
    obtain ⟨p', hp', hopens⟩ := answered_opens run h
    obtain rfl := Option.some.inj (hp.symm.trans hp')
    rwa [hi] at hopens
  constructor
  · intro n json h
    obtain ⟨p, hp, _⟩ := answered_opens run h
    exact ⟨p, hp, fun i hi => ⟨hopens hp hi h, fun ms hobject => (hopens hp hi h).reads hobject⟩⟩
  · intro n n' p p' i i' json json' hp hp' hi hi' h h' hne k hid hid'
    exact hne (((hopens hp hi h).unique hid).symm.trans ((hopens hp' hi' h').unique hid'))

/-- Two messages on connection 1 that `ws_call_parse` rejects after their ids. -/
def rejectTwo (p p' : Bytes) : List Action :=
  [.start 2, .conn (.accept 3), .conn (.upgrade 3 true), .message 3 p ⟨true, true⟩ true 0,
    .message 3 p' ⟨true, true⟩ true 0]

/-- The response to a message with this id and nothing else. -/
def missing (i : Bytes) : Bytes := compact (errorMembers i (-1) (ascii "missing id/lib/symbol") 0)

theorem a_and_b_differ : ∃ mg tr s ps, Run (recorded mg) anyStep tr (s, ps) ∧
    Answered tr 0 (missing (ascii "a")) ∧ Answered tr 1 (missing (ascii "b")) ∧
    (∃ p, ps[0]? = some p ∧ requestId mg p = some (ascii "a") ∧
      OpensWith (missing (ascii "a")) (ascii "a")) ∧
    ∀ k, HasId (missing (ascii "a")) k → ¬HasId (missing (ascii "b")) k := by
  obtain ⟨tr, ⟨s, ps⟩, run, ⟨p, hp, hi⟩, ⟨p', hp', hi'⟩, h, h'⟩ :=
    (recorded (mongoose fun _ _ d => d)).exec_reaches anyStep
      (rejectTwo (ascii "\x7b\"id\":\"a\"\x7d") (ascii "\x7b\"id\":\"b\"\x7d"))
      (fun tr x => (∃ p ∈ x.2[0]?, requestId (mongoose fun _ _ d => d) p = some (ascii "a")) ∧
        (∃ p ∈ x.2[1]?, requestId (mongoose fun _ _ d => d) p = some (ascii "b")) ∧
        .responded 0 (missing (ascii "a")) ∈ tr ∧ .responded 1 (missing (ascii "b")) ∈ tr)
      (by decide +kernel)
  have hall := responses_carry_ids run
  refine ⟨_, tr, s, ps, run, Or.inl h, Or.inl h', ⟨p, hp, hi, ?_⟩, ?_⟩
  · obtain ⟨q, hq, hopens⟩ := hall.1 0 _ (Or.inl h)
    obtain rfl := Option.some.inj (hp.symm.trans hq)
    exact (hopens _ hi).1
  · exact hall.2 0 1 p p' _ _ _ _ hp hp' hi hi' (Or.inl h) (Or.inl h') (by decide)

/-- Messages whose ids are "a" with and without a control character get the same response, whose id
is "a". -/
theorem control_id_lost : ∃ tr s ps, Run (recorded (mongoose fun _ _ d => d)) anyStep tr (s, ps) ∧
    (∃ p ∈ ps[0]?, requestId (mongoose fun _ _ d => d) p = some [97, 1]) ∧
    (∃ p ∈ ps[1]?, requestId (mongoose fun _ _ d => d) p = some [97]) ∧
    Answered tr 0 (missing [97, 1]) ∧ Answered tr 1 (missing [97, 1]) ∧
    HasId (missing [97, 1]) [97] ∧ ¬HasId (missing [97, 1]) [97, 1] := by
  obtain ⟨tr, ⟨s, ps⟩, run, hp, hp', h, h'⟩ :=
    (recorded (mongoose fun _ _ d => d)).exec_reaches anyStep
      (rejectTwo (ascii "\x7b\"id\":\"a\\u0001\"\x7d") (ascii "\x7b\"id\":\"a\"\x7d"))
      (fun tr x => (∃ p ∈ x.2[0]?, requestId (mongoose fun _ _ d => d) p = some [97, 1]) ∧
        (∃ p ∈ x.2[1]?, requestId (mongoose fun _ _ d => d) p = some [97]) ∧
        .responded 0 (missing [97, 1]) ∈ tr ∧ .responded 1 (missing [97, 1]) ∈ tr)
      (by decide +kernel)
  have hbuild : (wsCallBuildError true (some [97, 1]) (-1) (some (ascii "missing id/lib/symbol"))
      0).2.json = some (missing [97, 1]) := by
    rw [error_text (by decide) (by decide)]
    rfl
  have hopens : OpensWith (missing [97, 1]) [97, 1] := opens_of_prefix (error_leads hbuild)
  have hid := hopens.hasId ⟨0, object_compact fills_error⟩
  refine ⟨tr, s, ps, run, hp, hp', Or.inl h, Or.inl h', hid, fun hwrong => ?_⟩
  exact absurd (hopens.unique hwrong) (by decide)

end Answers

end Cyctron.Server.Ids
