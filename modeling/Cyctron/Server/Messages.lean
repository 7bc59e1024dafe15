/- Cyctron/Server/Messages
   digest: What becomes of each message that reaches handle_call, over whole runs. -/

import Cyctron.Server.Control

set_option autoImplicit false
set_option relaxedAutoImplicit false

namespace Cyctron.Server.Messages

open Cyctron.Base.CString Cyctron.Call.Protocol Cyctron.Server.Connections Cyctron.Server.Model
open Cyctron.Server.Inversion Cyctron.Server.Control
open Cyctron.WsWorker.Model (Pool SubmitArgs Submitting WsDone WsJob newJob pool)
open Cyctron.WsWorker.Stage (acceptedJobs acceptedJobs_append)
open Cyctron.Machine.Labelled (Run)

/-- The message whose submit is in progress. -/
def pendingCall : Main → List Nat
  | .calling _ a => [a.tag]
  | _ => []

section Steps

variable {mg : MgJson} {s s' : ServerState} {a : Action} {es tr : List Event}

/-- The job that the last critical section accepts is the one of the message. -/
private theorem accepted_job (h : Controlled s) {c : Nat} {args : SubmitArgs} {part : SubmitPart}
    {t : Pool}
    {es : List WsWorker.Model.Event} (at_ : s.main = .calling c args)
    (move : pool.step s.pool (part.action args) = some (t, es)) (result : submitResult es = some 0) :
    ∃ now, acceptedJobs es = [newJob args now] := by
  rcases part_events move with ⟨_, hres⟩ | ⟨_, hres⟩ | ⟨job, rfl, hplace⟩
  · cases result.symm.trans hres
  · exact absurd (Option.some.inj (result.symm.trans hres)) (by decide)
  · rw [Controlled, at_] at h
    rcases h.1 with hnone | hin | ⟨now, hin⟩
    · cases hplace.symm.trans hnone
    · cases Option.some.inj (hplace.symm.trans hin)
    · obtain rfl := Submitting.built.inj (Option.some.inj (hplace.symm.trans hin))
      exact ⟨now, rfl⟩

private theorem unaccepted {args : SubmitArgs} {part : SubmitPart} {t : Pool}
    {es : List WsWorker.Model.Event} (move : pool.step s.pool (part.action args) = some (t, es))
    (result : submitResult es ≠ some 0) : acceptedJobs es = [] := by
  rcases part_events move with ⟨rfl, _⟩ | ⟨hacc, _⟩ | ⟨job, rfl, _⟩
  · rfl
  · exact hacc
  · exact absurd rfl result

/-- Messages are numbered as they come. -/
theorem Step.received (mem : memoryHolds s a) (hstep : Step mg s a s' es) :
    List.range s'.messages = List.range s.messages ++ receivedNumbers es := by
  cases hstep with
  | @reject c k payload alloc respMem now =>
    obtain rfl : respMem = true := mem.2.2
    rw [List.range_succ, traces_received.1, traces_respond.1]
  | call =>
    rw [List.range_succ]
    rfl
  | refused =>
    obtain rfl := respMem_of_submit mem
    rw [receivedNumbers_append, receivedNumbers_pool, traces_respond.1]
    exact (List.append_nil _).symm
  | deliver =>
    rw [traces_delivered.1, traces_wsCallDone.1]
    exact (List.append_nil _).symm
  | conn | drained => exact (List.append_nil _).symm
  | start | submitting | accepted | drain | background =>
    rw [receivedNumbers_pool]
    exact (List.append_nil _).symm

/-- A message is in the submit until `handle_call` answers it or its call is accepted. -/
private theorem Step.messageFlow (h : Controlled s) (mem : memoryHolds s a)
    (hstep : Step mg s a s' es) :
    (pendingCall s.main : Multiset Nat) + ↑(receivedNumbers es) = ↑(pendingCall s'.main) +
      (↑(respondedNumbers es) + ↑((acceptedJobs (poolTrace es)).map WsJob.tag)) := by
  cases hstep with
  | @start _ _ _ at_ move =>
    cases WsWorker.Inversion.Step.of move with
    | init =>
      rw [at_]
      dsimp only
      split <;> rfl
  | conn => rfl
  | @reject c k payload alloc respMem now at_ =>
    obtain rfl : respMem = true := mem.2.2
    rw [traces_received.1, traces_received.2.1, traces_received.2.2, traces_respond.1,
      traces_respond.2.1, traces_respond.2.2, at_]
    rfl
  | call at_ _ _ _ number =>
    rw [at_, traces_received.1, ← number]
    rfl
  | submitting at_ move still =>
    rw [receivedNumbers_pool, respondedNumbers_pool, poolTrace_pool,
      unaccepted move (by simp [still])]
    rfl
  | refused at_ move result bad =>
    obtain rfl := respMem_of_submit mem
    have hnone := unaccepted move (by rw [result]; exact fun he => bad (Option.some.inj he))
    rw [receivedNumbers_append, respondedNumbers_append, poolTrace_append, receivedNumbers_pool,
      respondedNumbers_pool, poolTrace_pool, traces_respond.1, traces_respond.2.1,
      traces_respond.2.2, acceptedJobs_append, hnone, at_]
    rfl
  | accepted at_ move result =>
    obtain ⟨now, hjob⟩ := accepted_job h at_ move result
    rw [receivedNumbers_pool, respondedNumbers_pool, poolTrace_pool, hjob, at_]
    rfl
  | drain at_ move =>
    cases WsWorker.Inversion.Step.of move with
    | drainDetach => rw [at_]; rfl
  | deliver =>
    rw [traces_delivered.1, traces_delivered.2.1, traces_delivered.2.2, traces_wsCallDone.1,
      traces_wsCallDone.2.1, traces_wsCallDone.2.2]
    rfl
  | drained at_ => rw [at_]; rfl
  | background own move =>
    rw [receivedNumbers_pool, respondedNumbers_pool, poolTrace_pool,
      (background_frame own move).2.2.2]
    rfl

/-- Every message was answered by `handle_call`, or its call was accepted, or it is in the
submit; no message in two of these ways. -/
theorem run_messages (h : Run (server mg) memoryHolds tr s) :
    receivedNumbers tr = List.range s.messages ∧
    (↑(List.range s.messages) : Multiset Nat) = ↑(respondedNumbers tr) +
      ↑((acceptedJobs (poolTrace tr)).map WsJob.tag) + ↑(pendingCall s.main) := by
  have hreceived : receivedNumbers tr = List.range s.messages := by
    refine h.invariant (fun tr s => receivedNumbers tr = List.range s.messages) rfl ?_
    intro tr t a t' es ih mem hstep
    rw [receivedNumbers_append, ih, Step.received mem (Step.of hstep)]
  have hflow := h.conserved (fun s => (pendingCall s.main : Multiset Nat))
    (fun tr => ↑(receivedNumbers tr))
    (fun tr => ↑(respondedNumbers tr) + ↑((acceptedJobs (poolTrace tr)).map WsJob.tag)) rfl rfl
    (fun x y => by rw [receivedNumbers_append, Multiset.coe_add]) (fun x y => ?_)
    fun _ _ _ _ _ hp mem hstep => Step.messageFlow (run_controlled hp) mem (Step.of hstep)
  refine ⟨hreceived, ?_⟩
  rw [hreceived] at hflow
  · rw [add_comm _ (pendingCall s.main : Multiset Nat), ← hflow]
    rfl
  · simp only [respondedNumbers_append, poolTrace_append, acceptedJobs_append, List.map_append,
      ← Multiset.coe_add]
    ac_rfl

theorem conns_wsCallDone {conns : ConnState} {d : WsDone} :
    (wsCallDone conns d).1.nextid = conns.nextid ∧
      (wsCallDone conns d).1.conns = conns.conns := by
  unfold wsCallDone
  dsimp only
  split <;> exact ⟨rfl, rfl⟩

private theorem run_numbered {ok : ServerState → Action → Prop} (h : Run (server mg) ok tr s) :
    Numbered s.conns := by
  refine h.state_invariant (fun s => Numbered s.conns) numbered_initial ?_
  intro t a t' es hn _ hstep
  cases Step.of hstep with
  | conn _ move => exact hn.keep move
  | @deliver d =>
    obtain ⟨hnext, hconns⟩ := @conns_wsCallDone t.conns d
    constructor
    · rw [hnext, hconns]; exact hn.le
    · rw [hconns]; exact hn.distinct
  | _ => exact hn

/-- Only `handle_call` receives, on a WebSocket. -/
private theorem of_received (mem : memoryHolds s a) (hstep : Step mg s a s' es) {n id : Nat}
    (h : .received n id ∈ es) : s'.conns = s.conns ∧
      ∃ c k, s.conns.conns c = some k ∧ k.isWebsocket = true ∧ k.id = id := by
  cases hstep with
  | @reject c k payload alloc respMem now _ live ws =>
    obtain rfl : respMem = true := mem.2.2
    rcases List.mem_cons.mp h with h | h
    · obtain ⟨rfl, rfl⟩ := Event.received.inj h
      exact ⟨rfl, c, k, live, ws, rfl⟩
    · exact absurd h (not_received traces_respond.1)
  | @call c k _ _ _ _ _ _ live ws =>
    obtain ⟨rfl, rfl⟩ := Event.received.inj (List.mem_singleton.mp h)
    exact ⟨rfl, c, k, live, ws, rfl⟩
  | refused =>
    obtain rfl := respMem_of_submit mem
    rcases List.mem_append.mp h with h | h
    · exact absurd h (not_received receivedNumbers_pool)
    · exact absurd h (not_received traces_respond.1)
  | deliver =>
    rcases List.mem_cons.mp h with h | h
    · cases h
    · exact absurd h (not_received traces_wsCallDone.1)
  | conn | drained => cases h
  | start | submitting | accepted | drain | background =>
    exact absurd h (not_received receivedNumbers_pool)

/-- A number that has spoken belongs to a WebSocket, and is not given again. -/
theorem run_spoken (h : Run (server mg) memoryHolds tr s) {n id : Nat}
    (hmem : .received n id ∈ tr) : id ≤ s.conns.nextid ∧
      ∀ c k, s.conns.conns c = some k → k.id = id → k.isWebsocket = true := by
  revert hmem
  refine h.invariant_of (fun _ s => Numbered s.conns) (fun tr s => .received n id ∈ tr →
    id ≤ s.conns.nextid ∧ ∀ c k, s.conns.conns c = some k → k.id = id → k.isWebsocket = true)
    (fun _ _ hp => run_numbered hp) (by simp) ?_
  intro tr t a t' es numbered ih mem hstep hmem
  rcases List.mem_append.mp hmem with hmem | hmem
  · obtain ⟨hle, hws⟩ := ih hmem
    cases Step.of hstep with
    | conn _ move =>
      rcases step_conns move with ⟨p, _, hnext, hconns⟩ | ⟨hnext, hages⟩
      · refine ⟨by rw [hnext]; exact Nat.le_succ_of_le hle, fun c k hk hid => ?_⟩
        by_cases hc : c = p
        · subst hc
          rw [hconns, Function.update_self] at hk
          obtain rfl := Option.some.inj hk
          have : t.conns.nextid + 1 = id := hid
          omega
        · rw [hconns, Function.update_of_ne hc] at hk
          exact hws c k hk hid
      · refine ⟨by rw [hnext]; exact hle, fun c k' hk hid => ?_⟩
        obtain ⟨k, hk, hsame, hkeep⟩ := hages c k' hk
        exact hkeep (hws c k hk (hsame ▸ hid))
    | @deliver d =>
      obtain ⟨hnext, hconns⟩ := @conns_wsCallDone t.conns d
      refine ⟨by rw [hnext]; exact hle, fun c k hk hid => hws c k ?_ hid⟩
      rw [hconns] at hk
      exact hk
    | _ => exact ⟨hle, hws⟩
  · obtain ⟨hsame, c, k, hlive, hws, rfl⟩ := of_received mem (Step.of hstep) hmem
    rw [hsame]
    refine ⟨numbered.le c k hlive, fun d l hl hid => ?_⟩
    obtain rfl := numbered.distinct d c l k hl hlive hid
    rw [hlive] at hl
    obtain rfl := Option.some.inj hl
    exact hws

/-- Only the submit in progress accepts. -/
private theorem of_accepted (h : Controlled s) (mem : memoryHolds s a) (hstep : Step mg s a s' es)
    {job : WsJob} (hjob : job ∈ acceptedJobs (poolTrace es)) :
    ∃ c args now, s.main = .calling c args ∧ job = newJob args now := by
  cases hstep with
  | @accepted c args part _ _ t es at_ move result =>
    obtain ⟨now, hone⟩ := accepted_job h at_ move result
    rw [poolTrace_pool, hone] at hjob
    exact ⟨c, args, now, at_, List.mem_singleton.mp hjob⟩
  | @reject c k payload alloc respMem =>
    obtain rfl : respMem = true := mem.2.2
    rw [traces_received.2.2, traces_respond.2.2] at hjob
    cases hjob
  | submitting _ move still =>
    rw [poolTrace_pool, unaccepted move (by simp [still])] at hjob
    cases hjob
  | refused _ move result bad =>
    obtain rfl := respMem_of_submit mem
    have hnone := unaccepted move (by rw [result]; exact fun he => bad (Option.some.inj he))
    rw [poolTrace_append, poolTrace_pool, acceptedJobs_append, hnone, traces_respond.2.2] at hjob
    cases hjob
  | deliver =>
    rw [traces_delivered.2.2, traces_wsCallDone.2.2] at hjob
    cases hjob
  | start _ move =>
    cases WsWorker.Inversion.Step.of move with
    | init => cases hjob
  | drain _ move =>
    cases WsWorker.Inversion.Step.of move with
    | drainDetach => cases hjob
  | background own move =>
    rw [poolTrace_pool, (background_frame own move).2.2.2] at hjob
    cases hjob
  | conn | call | drained => cases hjob

/-- The accepted calls, and the one in the submit, came from the connections they name. -/
theorem run_submitters (h : Run (server mg) memoryHolds tr s) :
    (∀ c args, s.main = .calling c args → .received args.tag args.connId ∈ tr) ∧
    ∀ job ∈ acceptedJobs (poolTrace tr), .received job.tag job.connId ∈ tr := by
  refine h.invariant_of (fun _ s => Controlled s)
    (fun tr s => (∀ c args, s.main = .calling c args → .received args.tag args.connId ∈ tr) ∧
      ∀ job ∈ acceptedJobs (poolTrace tr), .received job.tag job.connId ∈ tr)
    (fun _ _ hp => run_controlled hp)
    ⟨fun _ _ at_ => (by cases at_), fun _ hjob => (by cases hjob)⟩ ?_
  rintro tr t a t' es control ⟨hcall, hjobs⟩ mem hstep
  constructor
  · intro c args at_
    cases Step.of hstep with
    | call _ _ _ from_ number =>
      obtain ⟨rfl, rfl⟩ := Main.calling.inj at_
      rw [from_, number]
      exact List.mem_append_right _ List.mem_cons_self
    | conn | reject | submitting | background => exact List.mem_append_left _ (hcall c args at_)
    | deliver at' => cases at'.symm.trans at_
    | start =>
      dsimp only at at_
      split at at_ <;> cases at_
    | refused | accepted | drain | drained => cases at_
  · intro job hjob
    rw [poolTrace_append, acceptedJobs_append] at hjob
    rcases List.mem_append.mp hjob with hjob | hjob
    · exact List.mem_append_left _ (hjobs job hjob)
    · obtain ⟨c, args, now, at_, rfl⟩ := of_accepted control mem (Step.of hstep) hjob
      exact List.mem_append_left _ (hcall c args at_)

/-- What `handle_call` answers itself is a call response, sent to where the message came from. -/
theorem run_responded (h : Run (server mg) memoryHolds tr s) {n : Nat} {json : Bytes}
    (hmem : .responded n json ∈ tr) : IsCallResponse json ∧
      ∃ id, .received n id ∈ tr ∧ .sent id json ∈ tr := by
  revert hmem
  refine h.invariant_of (fun tr s => Controlled s ∧
      ∀ c args, s.main = .calling c args → .received args.tag args.connId ∈ tr)
    (fun tr _ => .responded n json ∈ tr → IsCallResponse json ∧
      ∃ id, .received n id ∈ tr ∧ .sent id json ∈ tr)
    (fun _ _ hp => ⟨run_controlled hp, (run_submitters hp).1⟩) (by simp) ?_
  rintro tr t a t' es ⟨control, hcall⟩ ih mem hstep hmem
  rcases List.mem_append.mp hmem with hmem | hmem
  · obtain ⟨hresp, id, hrec, hsent⟩ := ih hmem
    exact ⟨hresp, id, List.mem_append_left _ hrec, List.mem_append_left _ hsent⟩
  cases Step.of hstep with
  | @reject c k payload alloc respMem now _ live ws =>
    obtain rfl : respMem = true := mem.2.2
    obtain ⟨json', hresp, hrespond⟩ := @respond_eq t.conns c t.messages
      (wsCallParse mg alloc (some payload) errSize).req.id
      (wsCallParse mg alloc (some payload) errSize).code now
      (wsCallParse mg alloc (some payload) errSize).err
    rw [hrespond, eventPushTo_live live ws] at hmem ⊢
    obtain ⟨rfl, rfl⟩ : n = t.messages ∧ json = json' := by simpa using hmem
    refine ⟨hresp, k.id, ?_, ?_⟩
    · simp
    · simp
  | @refused c args part respMem now _ _ _ at_ =>
    obtain rfl := respMem_of_submit mem
    rw [Controlled, at_] at control
    obtain ⟨_, _, _, k, live, hid, ws⟩ := control
    obtain ⟨json', hresp, hrespond⟩ := @respond_eq t.conns c args.tag args.id (-6) now
      (ascii "worker busy")
    have hrec := hcall c args at_
    rw [hrespond, eventPushTo_live live ws, hid] at hmem ⊢
    obtain ⟨rfl, rfl⟩ : n = args.tag ∧ json = json' := by simpa using hmem
    exact ⟨hresp, args.connId, List.mem_append_left _ hrec, by simp⟩
  | call => exact absurd hmem (not_responded rfl)
  | deliver =>
    rcases List.mem_cons.mp hmem with hmem | hmem
    · cases hmem
    · exact absurd hmem (not_responded traces_wsCallDone.2.1)
  | conn | drained => cases hmem
  | start | submitting | accepted | drain | background =>
    exact absurd hmem (not_responded respondedNumbers_pool)

end Steps

end Cyctron.Server.Messages
