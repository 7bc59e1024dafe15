/- Cyctron/Server/Answers
   digest: Every message that reaches handle_call is answered exactly once, where it came from. -/

import Cyctron.Server.Progress

set_option autoImplicit false
set_option relaxedAutoImplicit false

namespace Cyctron.Server.Answers

open Cyctron.Base.CString Cyctron.Call.Protocol Cyctron.Server.Connections Cyctron.Server.Model
open Cyctron.Server.Inversion Cyctron.Server.Control Cyctron.Server.Messages
open Cyctron.Server.Progress
open Cyctron.WsWorker.Model (Worker WsDone WsJob pool)
open Cyctron.WsWorker.Stage (acceptedJobs pushedEntries deliveredEntries unanswered
  deliveredEntries_append)
open Cyctron.WsWorker.Flow (undelivered)
open Cyctron.WsWorker.Admission (awaiting)
open Cyctron.WsWorker.Delivery
open Cyctron.Machine.Labelled (Path Run)
open Cyctron.Machine.Holdings (held)

/-- The connection is in the table. -/
def Registered (s : ConnState) (c : Nat) (k : MgConnection) : Prop :=
  some c ∈ s.gWsConns ∧ s.conns c = some k

/-- The entry goes out on a registered connection with the number of its job, and only there, or
it is dropped because no registered connection has this number. -/
def Routed (s : ConnState) (d : WsDone) (es : List Event) : Prop :=
  (∃ c k, Registered s c k ∧ k.id = d.connId ∧ es = [.pool (.delivered d), .sent d.connId d.json]) ∨
  (∀ c k, Registered s c k → k.id ≠ d.connId) ∧ es = [.pool (.delivered d), .dropped d]

section Steps

variable {mg : MgJson} {s t : ServerState} {a : Action} {es tr : List Event}

/-- An entry goes to a WebSocket with its number when one is in the table. -/
private theorem wsCallDone_routed {conns : ConnState} {d : WsDone}
    (ws : ∀ c k, conns.conns c = some k →
    k.id = d.connId → k.isWebsocket = true) :
    Routed (wsCallDone conns d).1 d (.pool (.delivered d) :: (wsCallDone conns d).2) := by
  unfold wsCallDone
  dsimp only
  split
  · rename_i c found
    obtain ⟨hmem, k, hlive, hid, _⟩ := findSlot_found found
    refine Or.inl ⟨c, k, ⟨hmem, hlive⟩, hid, ?_⟩
    have hpush : eventPushTo (wsConnFind conns d.connId).1 c d.json = [.sent k.id d.json] :=
      eventPushTo_live hlive (ws c k hlive hid)
    rw [hpush, hid]
  · rename_i missed
    exact Or.inr ⟨fun c k hk => findSlot_missed missed hk.1 hk.2, rfl⟩

/-- Only the drain delivers. -/
private theorem not_delivered {p q : WsWorker.Model.Pool} {b : WsWorker.Model.Action}
    {es : List WsWorker.Model.Event} {d : WsDone} (move : pool.step p b = some (q, es))
    (other : b ≠ .drainNext) : .delivered d ∉ es := by
  intro hd
  cases WsWorker.Inversion.Step.of move with
  | drainNext | drainReturn => exact other rfl
  | _ => simp at hd

/-- A callback is about an entry of an accepted call, so its number has spoken. -/
private theorem delivery_routed (h : Run (server mg) memoryHolds tr s) {d : WsDone}
    (hstep : (server mg).step s a = some (t, es)) (mem : memoryHolds s a)
    (hd : .pool (.delivered d) ∈ es) : Routed t.conns d es := by
  have hrun := h.snoc mem hstep
  have hmem : .delivered d ∈ poolTrace es := List.mem_filterMap.mpr ⟨_, hd, rfl⟩
  have hdelivered : d ∈ deliveredEntries (poolTrace (tr ++ es)) := by
    rw [poolTrace_append, deliveredEntries_append]
    exact List.mem_append_right _ (List.mem_filterMap.mpr ⟨_, hmem, rfl⟩)
  obtain ⟨job, hjob, answer⟩ := run_delivered (run_pool hrun) hdelivered
  have hreceived := (run_submitters hrun).2 job hjob
  rw [← answer.connId] at hreceived
  have hws := (run_spoken hrun hreceived).2
  cases Step.of hstep with
  | @deliver d' =>
    obtain rfl : d = d' := by
      rw [traces_delivered.2.2, traces_wsCallDone.2.2] at hmem
      simpa using hmem
    apply wsCallDone_routed
    intro c k hk
    apply hws c k
    change (wsCallDone s.conns d).1.conns c = some k
    rw [conns_wsCallDone.2]
    exact hk
  | start _ move | drain _ move =>
    rw [poolTrace_pool] at hmem
    exact absurd hmem (not_delivered move (by simp))
  | @submitting _ _ part _ _ _ _ _ move | @accepted _ _ part _ _ _ _ _ move =>
    rw [poolTrace_pool] at hmem
    exact absurd hmem (not_delivered move (by cases part <;> simp [SubmitPart.action]))
  | @refused _ _ part _ _ _ _ _ _ move =>
    obtain rfl := respMem_of_submit mem
    rw [poolTrace_append, poolTrace_pool, traces_respond.2.2, List.append_nil] at hmem
    exact absurd hmem (not_delivered move (by cases part <;> simp [SubmitPart.action]))
  | background own move =>
    rw [poolTrace_pool] at hmem
    exact absurd hmem (not_delivered move (by rintro rfl; cases own))
  | @reject _ _ _ _ respMem =>
    obtain rfl : respMem = true := mem.2.2
    rw [traces_received.2.2, traces_respond.2.2] at hmem
    cases hmem
  | conn | call | drained => cases hmem

/-- The server comes to rest after a bounded number of steps, and then every message has its
one response: that of `handle_call` or the entry that was delivered for it. -/
private theorem answered_at_rest (h : Run (server mg) memoryHolds tr s)
    (stuck : ∀ a, moves s a → ¬(server mg).Enabled s a) :
    (↑(List.range s.messages) : Multiset Nat) =
      ↑(respondedNumbers tr) + ↑((deliveredEntries (poolTrace tr)).map WsDone.tag) := by
  obtain ⟨waiting, out, hjobs, hwaiting, hout⟩ := run_partition (run_pool h)
  have hmessages := (run_messages h).2
  rw [← tags_eq hout]
  rcases settled h stuck with hzero | ⟨hidle, hnone, hawait⟩
  · rw [hzero, List.range_zero, Multiset.coe_nil] at hmessages ⊢
    obtain ⟨hsum, _⟩ := add_eq_zero.mp hmessages.symm
    obtain ⟨hresp, hacc⟩ := add_eq_zero.mp hsum
    have hempty : acceptedJobs (poolTrace tr) = [] := by simpa using hacc
    rw [hempty] at hjobs
    obtain rfl : out = [] := by
      have hall := (add_eq_zero.mp hjobs.symm).2
      simpa using hall
    rw [hresp]
    rfl
  · rw [hnone] at hwaiting
    obtain rfl := List.forall₂_nil_right_iff.mp hwaiting
    rw [hawait, Multiset.coe_nil, zero_add, zero_add] at hjobs
    rw [hidle, Multiset.coe_nil, add_zero] at hmessages
    have htags : ((acceptedJobs (poolTrace tr)).map WsJob.tag : Multiset Nat) =
        ↑(out.map WsJob.tag) := by
      rw [← Multiset.map_coe, hjobs, Multiset.map_coe]
    rw [hmessages, htags]

end Steps

/-- A call whose three names are all the letter a. -/
def callPayload : Bytes := ascii "\x7b\"id\":\"a\",\"lib\":\"a\",\"symbol\":\"a\"\x7d"

/-- What a JSON reader finds in `callPayload`, and in an empty object. -/
def callReader : MgJson where
  getStr json _ := if json = callPayload then some (ascii "a") else none
  getTok _ _ := []
  getLong _ _ dflt := dflt

/-- A message that is not a call, and one that is accepted, executed by `w` and delivered. -/
def rejectAndCall (w : Worker) : List Action :=
  [.start 2, .conn (.accept 3), .conn (.upgrade 3 true),
    .message 3 (ascii "\x7b\x7d") ⟨true, true⟩ true 0, .message 3 callPayload ⟨true, true⟩ true 0,
    .submit (.init 0) true 0, .submit (.build true) true 0,
    .submit (.enqueue 7 fun _ => true) true 0] ++
  ([.lock w, .dequeue w, .check w, .lockConn w, .finish w 0 none, .unlockConn w,
    .build w true true 0, .lock w, .pushDone w 9] : List WsWorker.Model.Action).map .background ++
  [.drain, .drainNext, .drainNext]

end Cyctron.Server.Answers
