/- Cyctron/Realtime/Frames
   digest: Which events of the scheduler are JSON objects, and which broadcasts carry their data. -/

import Cyctron.Event.Unicode
import Cyctron.Json.Seams

set_option autoImplicit false
set_option relaxedAutoImplicit false

namespace Cyctron.Realtime.Frames

open Cyctron.Base.CString Cyctron.Event.Format Cyctron.Event.Unicode Cyctron.Json.Text
open Cyctron.Json.Build Cyctron.Json.Escape Cyctron.Json.Acceptor Cyctron.Json.Seams
open Cyctron.Realtime.Model Cyctron.Realtime.Messages
open Cyctron.Ws.Replies (eventMembers withType_text now_length)

def IsFrame (text : Bytes) : Prop := ∃ ms, IsObject text ms

def AllFrames (es : List Event) : Prop := ∀ text, Event.push text ∈ es → IsFrame text

/-- The start of a broadcast's data, with the name of the task. -/
def broadcastHead (uuid : Bytes) : Bytes :=
  ascii "\x7b\"target\":\"" ++ uuid ++ ascii "\",\"data\":"

/-- Behind the name of the task, the frame has the data in full. -/
def Carries (uuid data : Bytes) (now : Int) (text : Bytes) : Prop := ∃ rest,
  text = compact (eventMembers (ascii "broadcast") (broadcastHead uuid ++ (data ++ rest)) now)

/-- The name of the task and the data fit into the buffer of a broadcast, and the name, which is not
escaped, leads to the same place in the text: behind it a quote and two braces end an object, or a
single brace when the buffer has no room for the other one. -/
def Fitting (uuid data : Bytes) : Prop :=
  (uuid.length + data.length ≤ 490 ∧
    IsText (ascii "\x7b\"data\":\x7b\"target\":\"" ++ uuid ++ ascii "\"\x7d\x7d")) ∨
  (uuid.length + data.length = 491 ∧
    IsText (ascii "\x7b\"data\":\x7b\"target\":\"" ++ uuid ++ ascii "\"\x7d"))

/-- The escaped texts of a message fit into its buffer. -/
def Roomy (uuid data : Bytes) : Prop :=
  (escaped uuid).length + (escaped (front 1023 data)).length ≤ 1128

instance (uuid data : Bytes) : Decidable (Fitting uuid data) := inferInstanceAs (Decidable (_ ∨ _))

instance (uuid data : Bytes) : Decidable (Roomy uuid data) := Nat.decLe _ _

variable {fmt : FormatEnv} {type data uuid x e : Bytes} {now : Int} {a st : String} {τ : List Bool}

section Events

/-- What follows the data of an event. -/
def stamp (now : Int) : Bytes := 44 :: 34 :: (ascii "timestamp" ++ 34 :: 58 :: (decimalInt now ++ [125]))

private theorem event_text (type data : Bytes) (now : Int) : compact (eventMembers type data now) =
    123 :: 34 :: (ascii "type" ++ 34 :: 58 :: 34 :: (type ++ 34 :: 44 :: 34 :: (ascii "data" ++
      34 :: 58 :: (data ++ stamp now)))) := by
  simp [eventMembers, compact, joined, memberText, quoted, stamp]

/-- An event is an object exactly when its data is read to an end where it stands. -/
private theorem event_iff (now : Int) (htype : Body type) :
    IsFrame (compact (eventMembers type data now)) ↔
    Done [true] (run ⟨.value, [true]⟩ data) := by
  have hword : Body (ascii "type") ∧ Body (ascii "data") :=
    ⟨body_plain (by decide), body_plain (by decide)⟩
  have hlead : ∀ r, Accepts ⟨.brace, [true]⟩ (34 :: (ascii "type" ++ 34 :: 58 :: 34 :: (type ++
      34 :: 44 :: 34 :: (ascii "data" ++ 34 :: 58 :: r)))) ↔ Accepts ⟨.value, [true]⟩ r := by
    intro r
    unfold Accepts
    rw [run_cons ⟨.string true, [true]⟩ rfl, run_quoted hword.1,
      run_cons ⟨.value, [true]⟩ rfl, run_cons ⟨.string false, [true]⟩ rfl,
      run_quoted htype, run_cons ⟨.name, [true]⟩ rfl,
      run_cons ⟨.string true, [true]⟩ rfl, run_quoted hword.2,
      run_cons ⟨.value, [true]⟩ rfl]
  have htail : ∀ s, Lettered s → (Accepts s (stamp now) ↔ ended s.mode = true ∧ s.stack = [true]) :=
    fun s hs => accepts_tail hs (body_plain (by decide)) (by decide) (number_decimalInt now)
  have hstart : Lettered ⟨.value, [true]⟩ := lettered_value [true]
  rw [IsFrame, event_text, object_iff_accepts, hlead]
  constructor
  · rintro ⟨m, hrun, hm⟩
    rw [run_append] at hrun
    obtain ⟨⟨m', σ⟩, hdata, hrest⟩ := Option.bind_eq_some_iff.mp hrun
    obtain ⟨hended, rfl⟩ := (htail _ (run_lettered hdata hstart)).mp ⟨m, hrest, hm⟩
    exact ⟨m', hdata, hended⟩
  · rintro ⟨m, hdata, hm⟩
    exact (accepts_append hdata).mpr ((htail _ (run_lettered hdata hstart)).mpr ⟨hm, rfl⟩)

/-- The text that is pushed, if there is memory for it. -/
private theorem pushed_iff {P : Bytes → Prop} (hnow : fmt.now.natAbs ≤ 2 ^ 63)
    (htype : eventEscapeJson (some type) (type.length * 2 + 1) = type) :
    (∀ text, Event.push text ∈ eventPushWithType fmt type data → P text) ↔
      (fmt.mem = true → P (compact (eventMembers type data fmt.now))) := by
  cases hmem : fmt.mem with
  | false =>
    refine iff_of_true (fun text h => ?_) (fun h => Bool.noConfusion h)
    simp [eventPushWithType, eventFormatWithType, eventEscapeAlloc, hmem] at h
  | true =>
    rw [eventPushWithType, withType_text hnow hmem, htype]
    simp

private theorem allFrames_append {es es' : List Event} (h : AllFrames es) (h' : AllFrames es') :
    AllFrames (es ++ es') := by
  intro text htext
  rcases List.mem_append.mp htext with htext | htext
  · exact h text htext
  · exact h' text htext

/-- A call that pushes nothing. -/
private theorem allFrames_quiet {es : List Event} (h : ∀ text, Event.push text ∉ es) : AllFrames es :=
  fun text htext => absurd htext (h text)

/-- The events of the scheduler fit their buffer for every name of a task. -/
private theorem rtEvent_frames (hnow : fmt.now.natAbs ≤ 2 ^ 63) (hwords : (a, st) ∈ rtWords)
    (uuid : Bytes) :
    AllFrames (sendRtEvent fmt a uuid st) := by
  have hplain : ∀ w ∈ rtWords, Plain (ascii w.1) ∧ Plain (ascii w.2) ∧
      (ascii w.1).length + (ascii w.2).length ≤ 14 := by decide
  obtain ⟨ha, hst, hshort⟩ : Plain (ascii a) ∧ Plain (ascii st) ∧
      (ascii a).length + (ascii st).length ≤ 14 := hplain _ hwords
  obtain ⟨p, _, hp⟩ := eventEscapeJson_escaped uuid 128
  have hlength := eventEscapeJson_length (s := uuid) (show 0 < 128 by decide)
  rw [hp] at hlength
  have hlengths : (ascii "\x7b\"action\":\"").length = 11 ∧ (ascii "\",\"uuid\":\"").length = 10 ∧
      (ascii "\",\"status\":\"").length = 12 ∧ (ascii "\"\x7d").length = 2 := by decide
  have htext : snprintf 256 (ascii "\x7b\"action\":\"" ++ ascii a ++ ascii "\",\"uuid\":\"" ++
      escaped p ++ ascii "\",\"status\":\"" ++ ascii st ++ ascii "\"\x7d") =
      compact (Ws.Replies.sendEventMembers a (escaped p) st) := by
    rw [snprintf_fits, ← Ws.Replies.sendEventText_compact, Ws.Replies.sendEventText]
    simp only [List.length_append, hlengths]
    omega
  have hvalue : Value (compact (Ws.Replies.sendEventMembers a (escaped p) st)) :=
    ⟨1, .object (Ws.Replies.fills_sendEvent ha (body_escaped p) hst).derives⟩
  have hframe := (event_iff fmt.now (show Body (ascii "realtime") from body_plain (by decide))).mpr
    (value_reads hvalue [true])
  rw [sendRtEvent, hp, htext]
  exact (pushed_iff hnow (by decide)).mpr fun _ => hframe

end Events

section Messages

/-- What stands before the string of a message is read to that string. -/
private theorem target_run (r : Bytes) : run ⟨.value, [true]⟩ (ascii "\x7b\"target\":\"" ++ r) =
    run ⟨.string false, [true, true]⟩ r :=
  run_then (by decide)

/-- A message that does not fit ends in its string, or before its brace. -/
private theorem cut_message {u d : Bytes} (hu : Body u) (k : Nat) (hk : k ≤ (escaped d).length + 1) :
    ¬Done [true] (run ⟨.value, [true]⟩ (ascii "\x7b\"target\":\"" ++ (u ++
      (ascii "\",\"data\":\"" ++ (escaped d ++ ascii "\"\x7d").take k)))) := by
  have hmid : run ⟨.string false, [true, true]⟩ (ascii "\",\"data\":\"") =
      some ⟨.string false, [true, true]⟩ := by decide
  rw [target_run, run_then (run_body hu), run_then hmid]
  by_cases hquote : k = (escaped d).length + 1
  · have htake : (escaped d ++ ascii "\"\x7d").take k = escaped d ++ [34] := by
      rw [hquote, List.take_length_add_append]
      rfl
    rw [htake, run_quoted (body_escaped d)]
    rintro ⟨m, hrun, _⟩
    cases hrun
  · rw [List.take_append_of_le_length (by omega)]
    obtain ⟨h, htake, hhalf⟩ := take_escaped k d
    rw [htake, run_then (run_body (body_escaped _))]
    rintro ⟨m, hrun, hm⟩
    rcases hhalf with rfl | rfl
    · cases hrun
    · cases hrun

private theorem message_iff (huuid : uuid.length ≤ 63) :
    IsFrame (compact (eventMembers (ascii "msg") (msgText uuid data) now)) ↔ Roomy uuid data := by
  have hwhole : eventEscapeJson (some uuid) 128 = escaped uuid := escapeLoop_whole (by omega)
  have hfront : eventEscapeJson (some data) 1024 = escaped (front 1023 data) :=
    escapeLoop_front (by decide)
  have hshort := eventEscapeJson_length (s := uuid) (show 0 < 128 by decide)
  have hlengths : (ascii "\x7b\"target\":\"").length = 11 ∧ (ascii "\",\"data\":\"").length = 10 ∧
      (ascii "\"\x7d").length = 2 := by decide
  rw [hwhole] at hshort
  rw [event_iff _ (body_plain (by decide)), msgText, hwhole, hfront]
  constructor
  · intro h
    by_contra hlong
    rw [Roomy, Nat.not_le] at hlong
    have hcut := cut_message (body_escaped uuid) (d := front 1023 data) (1130 - (escaped uuid).length)
      (by omega)
    refine hcut ?_
    have htake : snprintf 1152 (ascii "\x7b\"target\":\"" ++ escaped uuid ++ ascii "\",\"data\":\"" ++
        escaped (front 1023 data) ++ ascii "\"\x7d") = ascii "\x7b\"target\":\"" ++ (escaped uuid ++
          (ascii "\",\"data\":\"" ++ (escaped (front 1023 data) ++ ascii "\"\x7d").take
            (1130 - (escaped uuid).length))) := by
      rw [snprintf, List.append_assoc, List.append_assoc, List.append_assoc, List.take_append,
        List.take_of_length_le (by omega), List.take_append, List.take_of_length_le (by omega),
        List.take_append, List.take_of_length_le (by omega), hlengths.1, hlengths.2.1]
      congr 4
      omega
    rwa [htake] at h
  · intro hroom
    rw [Roomy] at hroom
    rw [snprintf_fits (by simp only [List.length_append, hlengths]; omega)]
    simp only [List.append_assoc]
    have hmid : run ⟨.string false, [true, true]⟩ (ascii "\",\"data\":\"") =
        some ⟨.string false, [true, true]⟩ := by decide
    have hend : ascii "\"\x7d" = 34 :: [125] := by decide
    rw [target_run, run_then (run_body (body_escaped uuid)), run_then hmid, hend,
      run_quoted (body_escaped _)]
    exact ⟨.after, rfl, rfl⟩

end Messages

section Broadcasts

/-- Behind a name that is not escaped, the data is read to an end only where the name leads back into
a string of an object. -/
private theorem broadcast_run
    (hend : ∀ σ, Done [true] (run ⟨.value, true :: σ⟩ (data ++ e)) ↔ true :: σ = τ)
    (hτ : τ.head? = some true) :
    Done [true] (run ⟨.value, [true]⟩ (broadcastHead uuid ++ (data ++ e))) ↔
      run ⟨.string false, [true, true]⟩ uuid = some ⟨.string false, τ⟩ := by
  have hmid : ascii "\",\"data\":" = 34 :: 44 :: 34 :: (100 :: ascii "ata" ++ 34 :: [58]) := by decide
  have hname : Body (100 :: ascii "ata") := body_plain (by decide)
  have hstart : Lettered ⟨.string false, [true, true]⟩ := lettered_string false [true, true]
  rw [broadcastHead, List.append_assoc, List.append_assoc, target_run, run_append]
  constructor
  · rintro ⟨m, hrun, hm⟩
    obtain ⟨⟨m', σ⟩, huuid, hrest⟩ := Option.bind_eq_some_iff.mp hrun
    rw [run_append, hmid] at hrest
    obtain ⟨s', hmember, hdata⟩ := Option.bind_eq_some_iff.mp hrest
    obtain ⟨rfl, σ', rfl, rfl⟩ :=
      (quoted_member (run_lettered huuid hstart) hname (by decide)).mp hmember
    rw [huuid, (hend σ').mp ⟨m, hdata, hm⟩]
  · intro huuid
    obtain ⟨σ', rfl⟩ := List.head?_eq_some_iff.mp hτ
    have hmember := (quoted_member (lettered_string false (true :: σ')) hname (by decide)).mpr
      ⟨rfl, σ', rfl, rfl⟩
    rw [huuid, Option.bind_some, hmid, run_then hmember]
    exact (hend σ').mpr rfl

private theorem done_inj {o : Option State} {σ σ' : List Bool} (h : Done σ o) (h' : Done σ' o) :
    σ = σ' := by
  obtain ⟨m, rfl, _⟩ := h
  obtain ⟨m', heq, _⟩ := h'
  exact congrArg State.stack (Option.some.inj heq)

/-- Data with a brace behind it, and data alone. -/
private theorem closed_data (hdata : IsText data) (σ : List Bool) :
    Done [true] (run ⟨.value, true :: σ⟩ (data ++ [125])) ↔ true :: σ = [true, true] := by
  have hrun : run ⟨.value, true :: σ⟩ (data ++ [125]) = some ⟨.after, σ⟩ :=
    (text_reads hdata (true :: σ)).step (by decide)
  rw [hrun]
  constructor
  · intro h
    rw [done_inj h done_after]
  · intro h
    obtain rfl := List.tail_eq_of_cons_eq h
    exact done_after

private theorem open_data (hdata : IsText data) (σ : List Bool) :
    Done [true] (run ⟨.value, true :: σ⟩ (data ++ [])) ↔ true :: σ = [true] := by
  rw [List.append_nil]
  have hdone := text_reads hdata (true :: σ)
  constructor
  · intro h
    exact done_inj hdone h
  · intro h
    rwa [h] at hdone ⊢

/-- Where a name leads, told by a text that holds nothing else. -/
private theorem name_text (n : Nat) (hn : 0 < n) :
    IsText (ascii "\x7b\"data\":\x7b\"target\":\"" ++ uuid ++
      34 :: List.replicate n 125) ↔
    run ⟨.string false, [true, true]⟩ uuid = some ⟨.string false, List.replicate n true⟩ := by
  have hlead : run start (ascii "\x7b\"data\":\x7b\"target\":\"") =
      some ⟨.string false, [true, true]⟩ := by decide
  have hstart : Lettered ⟨.string false, [true, true]⟩ := lettered_string false [true, true]
  rw [← accepts_iff_text, List.append_assoc, accepts_append hlead]
  constructor
  · rintro ⟨m, hrun, hm⟩
    rw [run_append] at hrun
    obtain ⟨s, huuid, hrest⟩ := Option.bind_eq_some_iff.mp hrun
    rw [huuid, (accepts_closing (run_lettered huuid hstart) hn).mp ⟨m, hrest, hm⟩]
  · intro huuid
    exact (accepts_append huuid).mpr ((accepts_closing (lettered_string false _) hn).mpr rfl)

private theorem fitting_iff : Fitting uuid data ↔
    (uuid.length + data.length ≤ 490 ∧
      run ⟨.string false, [true, true]⟩ uuid = some ⟨.string false, [true, true]⟩) ∨
    (uuid.length + data.length = 491 ∧
      run ⟨.string false, [true, true]⟩ uuid = some ⟨.string false, [true]⟩) :=
  or_congr (and_congr_right' (name_text 2 (by decide))) (and_congr_right' (name_text 1 (by decide)))

private theorem event_data {d d' : Bytes}
    (h : compact (eventMembers type d now) = compact (eventMembers type d' now)) : d = d' := by
  rw [event_text, event_text] at h
  simpa using h

private theorem broadcastHead_length (uuid : Bytes) :
    (broadcastHead uuid).length = 20 + uuid.length := by
  have hlengths : (ascii "\x7b\"target\":\"").length = 11 ∧ (ascii "\",\"data\":").length = 9 := by
    decide
  simp only [broadcastHead, List.length_append, hlengths]
  omega

/-- Data that fits the buffer is printed whole. -/
private theorem precision_self (h : data.length < 2 ^ 31) : precision data.length data = data := by
  have hmod : data.length % 2 ^ 32 = data.length := Nat.mod_eq_of_lt (by omega)
  rw [precision, hmod, if_pos h, List.take_length]

private theorem broadcast_iff (hdata : IsText data) :
    (IsFrame (compact (eventMembers (ascii "broadcast") (broadcastText uuid data data.length) now)) ∧
      Carries uuid data now
        (compact (eventMembers (ascii "broadcast") (broadcastText uuid data data.length) now))) ↔
      Fitting uuid data := by
  have hhead := broadcastHead_length uuid
  have htext : data.length < 2 ^ 31 → broadcastText uuid data data.length =
      snprintf 512 (broadcastHead uuid ++ (data ++ [125])) := by
    intro hshort
    rw [broadcastText, precision_self hshort, close_text, broadcastHead]
    simp only [List.append_assoc]
  -- without room for its brace, the text ends with the data
  have hcut : uuid.length + data.length = 491 → snprintf 512 (broadcastHead uuid ++ (data ++ [125])) =
      broadcastHead uuid ++ (data ++ []) := by
    intro hfull
    rw [snprintf, ← List.append_assoc, List.take_append_of_le_length
      (by rw [List.length_append]; omega), List.take_of_length_le (by rw [List.length_append]; omega),
      List.append_nil]
  rw [event_iff _ (body_plain (by decide)), fitting_iff]
  constructor
  · rintro ⟨hdone, rest, hrest⟩
    have hcarried := event_data hrest
    have hlength : (broadcastText uuid data data.length).length ≤ 511 := by
      rw [broadcastText, snprintf, List.length_take]
      exact Nat.min_le_left _ _
    rw [hcarried, List.length_append, List.length_append, hhead] at hlength
    have hfits : uuid.length + data.length ≤ 491 := by omega
    rw [htext (by omega)] at hdone
    by_cases hbrace : uuid.length + data.length = 491
    · right
      rw [hcut hbrace] at hdone
      exact ⟨hbrace, (broadcast_run (open_data hdata) rfl).mp hdone⟩
    · left
      rw [snprintf_fits (by simp only [List.length_append, List.length_singleton]; omega)] at hdone
      exact ⟨by omega, (broadcast_run (closed_data hdata) rfl).mp hdone⟩
  · rintro (⟨hfits, hname⟩ | ⟨hfits, hname⟩)
    · rw [htext (by omega),
        snprintf_fits (by simp only [List.length_append, List.length_singleton]; omega)]
      exact ⟨(broadcast_run (closed_data hdata) rfl).mpr hname, [125], rfl⟩
    · rw [htext (by omega), hcut hfits]
      exact ⟨(broadcast_run (open_data hdata) rfl).mpr hname, [], rfl⟩

end Broadcasts

section Calls

variable {s : Scheduler} {p : Nat} {node : RtTaskNode}

private theorem create_frames (uuid : Option Bytes) (env : CreateEnv)
    (hnow : env.format.now.natAbs ≤ 2 ^ 63) :
    AllFrames (rtCreateTask s uuid env).2.2 := by
  have hquiet : AllFrames [] := allFrames_quiet fun text => List.not_mem_nil
  unfold rtCreateTask
  split
  · exact hquiet
  · rename_i uuid
    split
    · exact hquiet
    · split
      · exact hquiet
      · exact allFrames_append (show AllFrames [.created _ uuid] from
          allFrames_quiet (by simp)) (rtEvent_frames hnow (by decide) uuid)

private theorem start_frames (libName : Option Bytes) (env : StartEnv)
    (hnow : env.format.now.natAbs ≤ 2 ^ 63) : AllFrames (rtStartTask s p node libName env).2.2 := by
  have hquiet : AllFrames [] := allFrames_quiet fun text => List.not_mem_nil
  have hlisten : AllFrames (startListening s p node env).2.2 := by
    unfold startListening
    split
    · exact hquiet
    · split
      · exact hquiet
      · split
        · exact allFrames_quiet (by simp)
        · exact allFrames_quiet (by simp)
  have hplugin : ∀ t : Scheduler, AllFrames (startPlugin t p node libName env).2.2 := by
    intro t
    unfold startPlugin
    dsimp only
    split
    · exact allFrames_append (show AllFrames [.load _ _] from allFrames_quiet (by simp))
        (rtEvent_frames hnow (by decide) node.task.uuid)
    · exact allFrames_quiet (by simp)
  unfold rtStartTask
  split
  · exact hquiet
  · dsimp only
    split
    · exact allFrames_append hlisten (hplugin _)
    · exact hlisten

private theorem stop_frames (env : FormatEnv) (hnow : env.now.natAbs ≤ 2 ^ 63) :
    AllFrames (rtStopTask s p node env).2 := by
  unfold rtStopTask
  split
  · exact allFrames_quiet fun text => List.not_mem_nil
  · exact rtEvent_frames hnow (by decide) node.task.uuid

private theorem remove_frames (env : FormatEnv) (hnow : env.now.natAbs ≤ 2 ^ 63) :
    AllFrames (rtRemoveTask s p node env).2.2 := by
  unfold rtRemoveTask
  split
  · exact allFrames_quiet fun text => List.not_mem_nil
  · have hclose : AllFrames (closeSocket node) := by
      unfold closeSocket
      split
      · exact allFrames_quiet (by simp)
      · exact allFrames_quiet fun text => List.not_mem_nil
    have hcleanup : AllFrames (runCleanup p node) := allFrames_quiet (by simp [runCleanup])
    exact allFrames_append (allFrames_append (allFrames_append hclose
      (rtEvent_frames hnow (by decide) node.task.uuid)) hcleanup) (allFrames_quiet (by simp))

private theorem send_frames_iff (task : Option RtTask) (data : Option Bytes)
    (huuid : ∀ t ∈ task, t.uuid.length ≤ 63) (hnow : fmt.now.natAbs ≤ 2 ^ 63) :
    AllFrames (rtSendMsg task data fmt).2 ↔
      ∀ t ∈ task, ∀ d ∈ data, t.status = .running → fmt.mem = true → Roomy t.uuid d := by
  have hquiet : ∀ rc : Int, AllFrames ((rc, []) : Int × List Event).2 :=
    fun _ => allFrames_quiet fun text => List.not_mem_nil
  cases task with
  | none => exact iff_of_true (hquiet (-1)) fun t ht => absurd ht (Option.not_mem_none t)
  | some task =>
    cases data with
    | none => exact iff_of_true (hquiet (-1)) fun t ht d hd => absurd hd (Option.not_mem_none d)
    | some data =>
      have hsome : (∀ t ∈ some task, ∀ d ∈ some data, t.status = .running → fmt.mem = true →
          Roomy t.uuid d) ↔ (task.status = .running → fmt.mem = true → Roomy task.uuid data) := by
        simp
      rw [hsome, rtSendMsg]
      by_cases hrunning : task.status = .running
      · rw [if_neg (not_not.mpr hrunning), AllFrames, pushed_iff hnow (by decide),
          message_iff (huuid task rfl)]
        exact ⟨fun h _ => h, fun h => h hrunning⟩
      · rw [if_pos hrunning]
        exact iff_of_true (hquiet (-2)) fun h => absurd h hrunning

private theorem node_frames_iff (hdata : IsText data) (hnow : fmt.now.natAbs ≤ 2 ^ 63) :
    (∀ text, Event.push text ∈ broadcastNode data data.length fmt node →
      IsFrame text ∧ Carries node.task.uuid data fmt.now text) ↔
      (node.task.status = .running → fmt.mem = true → Fitting node.task.uuid data) := by
  rw [broadcastNode]
  by_cases hrunning : node.task.status = .running
  · rw [if_pos hrunning, pushed_iff hnow (by decide), broadcast_iff hdata]
    exact ⟨fun h _ => h, fun h => h hrunning⟩
  · rw [if_neg hrunning]
    exact iff_of_true (fun text htext => absurd htext List.not_mem_nil) fun h => absurd h hrunning

/-- The events of the four calls on tasks are objects. Those of a message are exactly when its escaped
texts fit; those of a broadcast are, and carry the data in full, exactly when each of its tasks has a
name that fits together with the data and leads to the same place in the text. -/
theorem frames_wellFormed_iff (s : Scheduler) :
    (∀ uuid env, env.format.now.natAbs ≤ 2 ^ 63 → AllFrames (rtCreateTask s uuid env).2.2) ∧
    (∀ p node libName env, env.format.now.natAbs ≤ 2 ^ 63 →
      AllFrames (rtStartTask s p node libName env).2.2) ∧
    (∀ p node env, env.now.natAbs ≤ 2 ^ 63 → AllFrames (rtStopTask s p node env).2) ∧
    (∀ p node env, env.now.natAbs ≤ 2 ^ 63 → AllFrames (rtRemoveTask s p node env).2.2) ∧
    (∀ task data env, (∀ t ∈ task, t.uuid.length ≤ 63) → env.now.natAbs ≤ 2 ^ 63 →
      (AllFrames (rtSendMsg task data env).2 ↔
        ∀ t ∈ task, ∀ d ∈ data, t.status = .running → env.mem = true → Roomy t.uuid d)) ∧
    (∀ data (env : Nat → FormatEnv), IsText data →
      (∀ c ∈ s.listed, (env c.1).now.natAbs ≤ 2 ^ 63) →
      ((∀ c ∈ s.listed, ∀ text, Event.push text ∈ broadcastNode data data.length (env c.1) c.2 →
          IsFrame text ∧ Carries c.2.task.uuid data (env c.1).now text) ↔
        ∀ c ∈ s.listed, c.2.task.status = .running → (env c.1).mem = true →
          Fitting c.2.task.uuid data)) ∧
    (∀ data len env e, e ∈ rtBroadcast s (some data) len env ↔
      ∃ c ∈ s.listed, e ∈ broadcastNode data len (env c.1) c.2) :=
  ⟨fun uuid env hnow => create_frames uuid env hnow,
    fun _ _ libName env hnow => start_frames libName env hnow,
    fun _ _ env hnow => stop_frames env hnow, fun _ _ env hnow => remove_frames env hnow,
    fun task data _ huuid hnow => send_frames_iff task data huuid hnow,
    fun _ _ hdata hnow => forall₂_congr fun c hc => node_frames_iff hdata (hnow c hc),
    fun _ _ _ _ => List.mem_flatMap⟩

/-- A task that runs, alone in the list. -/
def runningNode (uuid : Bytes) : RtTaskNode := ⟨⟨[], [], uuid, .running, none, 0, none⟩, 0, false⟩

def oneTask (uuid : Bytes) : Scheduler :=
  { Scheduler.initial with tasks := some 0, count := 1, store := [(0, ⟨runningNode uuid, none⟩)] }

def clock : FormatEnv := ⟨true, 0⟩

/-- With a short name and short data, every event is sound. -/
theorem short_frames : AllFrames (rtCreateTask .initial (some (ascii "u1")) ⟨some 0, 0, clock⟩).2.2 ∧
    AllFrames (rtStartTask .initial 0 (runningNode (ascii "u1")) none ⟨none, true, 0, clock⟩).2.2 ∧
    AllFrames (rtStopTask .initial 0 (runningNode (ascii "u1")) clock).2 ∧
    AllFrames (rtRemoveTask (oneTask (ascii "u1")) 0 (runningNode (ascii "u1")) clock).2.2 ∧
    AllFrames (rtSendMsg (some (runningNode (ascii "u1")).task) (some (ascii "say \"hi\"")) clock).2 ∧
    ∀ c ∈ (oneTask (ascii "u1")).listed, ∀ text,
      Event.push text ∈ broadcastNode (ascii "[1, 2]") (ascii "[1, 2]").length clock c.2 →
        IsFrame text ∧ Carries c.2.task.uuid (ascii "[1, 2]") 0 text := by
  obtain ⟨hcreate, hstart, hstop, _, hsend, _, _⟩ := frames_wellFormed_iff .initial
  obtain ⟨_, _, _, hremove, _, hbroadcast, _⟩ := frames_wellFormed_iff (oneTask (ascii "u1"))
  have hnow : clock.now.natAbs ≤ 2 ^ 63 := Nat.zero_le _
  refine ⟨hcreate _ _ hnow, hstart _ _ _ _ hnow, hstop _ _ _ hnow, hremove _ _ _ hnow,
    (hsend _ _ _ (by decide) hnow).mpr (by decide), ?_⟩
  exact (hbroadcast (ascii "[1, 2]") (fun _ => clock) (by decide) fun _ _ => hnow).mpr (by decide)

def longText : Bytes := 34 :: (List.replicate 500 97 ++ [34])

def quotes : Bytes := List.replicate 63 34

private theorem one_broadcast (h : ¬IsText (compact (eventMembers (ascii "broadcast")
    (broadcastText uuid data data.length) 0))) :
    ¬AllFrames (rtBroadcast (oneTask uuid) (some data) data.length fun _ => clock) := by
  have hone : rtBroadcast (oneTask uuid) (some data) data.length (fun _ => clock) =
      eventPushWithType clock (ascii "broadcast") (broadcastText uuid data data.length) :=
    List.flatMap_singleton _ _
  intro hall
  rw [AllFrames, hone, pushed_iff (Nat.zero_le _) (by decide)] at hall
  obtain ⟨ms, hms⟩ := hall rfl
  exact h (object_text hms)

/-- Long data is cut, a quote in the name of a task ends its string, and a long message to a task
with such a name is cut. -/
theorem broken_frames :
    (IsText longText ∧ ¬AllFrames (rtBroadcast (oneTask (ascii "u1")) (some longText) longText.length
      fun _ => clock)) ∧
    (IsText (ascii "1") ∧ ¬AllFrames (rtBroadcast (oneTask (ascii "u\"1")) (some (ascii "1"))
      (ascii "1").length fun _ => clock)) ∧
    ¬AllFrames (rtSendMsg (some (runningNode quotes).task) (some (List.replicate 1023 97)) clock).2 := by
  refine ⟨⟨by decide +kernel, one_broadcast (by decide +kernel)⟩,
    ⟨by decide, one_broadcast (by decide)⟩, fun hall => ?_⟩
  have hroom := (send_frames_iff _ _ (by decide) (Nat.zero_le _)).mp hall _ rfl _ rfl rfl rfl
  exact absurd hroom (by decide +kernel)

end Calls

end Cyctron.Realtime.Frames
