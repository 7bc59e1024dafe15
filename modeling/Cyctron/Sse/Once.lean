/- Cyctron/Sse/Once
   digest: How often a stream that is opened for once calls its plugin. -/

import Cyctron.Sse.Life

set_option autoImplicit false
set_option relaxedAutoImplicit false

namespace Cyctron.Sse.Once

open Cyctron.Base.CString Cyctron.Http.Message Cyctron.Plugin.Path
open Cyctron.Sse.Format Cyctron.Sse.Life Cyctron.Sse.Model Cyctron.Sse.Table

universe u

variable {κ : Type u} {env : Env} {envs : List Env} {cl : SseClient κ}

section Calls

/-- A client that is done calls nothing any more. -/
private theorem calls_done (envs : List Env) (h : cl.done = true) :
    calls (pollVisits envs cl) = [] := by
  induction envs generalizing cl with
  | nil => rfl
  | cons env envs ih =>
    have hcall : (pollVisit env cl).call = none := by
      unfold pollVisit
      split
      · exact if_pos h
      · rfl
    have hnext : (pollClient env cl).1.done = true := by
      obtain ⟨ping, hping⟩ := pollClient_client env cl
      have hpull : (pull env cl).1.done = true := by
        unfold pull
        split
        · have hpolled : ({ cl with lastPollMs := env.now } : SseClient κ).done = true := h
          rw [sendEvent_done env hpolled]
          exact h
        · exact h
      rw [hping]
      exact hpull
    rw [pollVisits, calls_cons, hcall, ih hnext]
    rfl

/-- A client that is not done calls its plugin with the first poll that is due. -/
private theorem calls_open (envs : List Env) (h : cl.done = false) :
    calls (pollVisits envs cl) = [] ↔ ∀ env ∈ envs, ¬Due env cl := by
  induction envs generalizing cl with
  | nil => exact iff_of_true rfl fun _ hmem => absurd hmem List.not_mem_nil
  | cons env envs ih =>
    rw [pollVisits, calls_cons, List.append_eq_nil_iff, List.forall_mem_cons]
    by_cases hdue : Due env cl
    · refine iff_of_false ?_ fun hnone => hnone.1 hdue
      rintro ⟨hcall, _⟩
      have hopen : ({ cl with lastPollMs := env.now } : SseClient κ).done = false := h
      obtain ⟨p, hp⟩ := sendCall_open hopen
      rw [pollVisit, if_pos hdue, sendVisit, hp] at hcall
      cases hcall
    · obtain ⟨ping, hping⟩ := pollClient_client env cl
      have hcall : (pollVisit env cl).call.toList = [] := by
        rw [pollVisit, if_neg hdue]
        rfl
      have hpull : (pull env cl).1 = cl := by rw [pull, if_neg hdue]
      rw [hpull] at hping
      have hrest := @ih (pollClient env cl).1 (by rw [hping]; exact h)
      rw [hping] at hrest ⊢
      rw [and_iff_right hcall, and_iff_right hdue]
      exact hrest

end Calls

section Once

variable {t : Table κ} {c : κ} {hm : HttpMessage} {lib symbol : Bytes}

/-- The request asks for one call. -/
def ForOnce (hm : HttpMessage) : Prop := queryVar hm "once" 8 = some (ascii "1")

instance (hm : HttpMessage) : Decidable (ForOnce hm) := inferInstanceAs (Decidable (_ = _))

private theorem newClient_once (env : Env) (c : κ) (lib symbol : Bytes) (h : ForOnce hm) :
    (newClient env c hm lib symbol).once = true := by
  have hvar : queryVar hm "once" 8 = some (ascii "1") := h
  have hone : (some (ascii "1")).any (fun q => decide (Base.Number.atoi (cString q) ≠ 0)) = true := by
    decide
  rw [← hvar] at hone
  exact hone

/-- After the first send a client for once is done when its plugin has given an output. -/
private theorem first_done (accepted : Accepted env t hm lib symbol) (once : ForOnce hm) :
    (sseSendEvent env (newClient env c hm lib symbol)).1.done = true ↔
      Generic lib symbol ∧ Succeeds env (customCall (newClient env c hm lib symbol)) := by
  have hdone : (newClient env c hm lib symbol).done = false := rfl
  cases hcustom : (newClient env c hm lib symbol).custom with
  | false =>
    have hplain : ¬Generic lib symbol := by
      rw [← newClient_custom env c hm lib symbol, hcustom]
      exact Bool.false_ne_true
    rw [sendEvent_next hdone hcustom]
    refine iff_of_false ?_ fun h => hplain h.1
    rcases sendNext_cases env (newClient env c hm lib symbol) with heq | ⟨id, name, data, _, heq⟩
    · rw [heq]
      exact Bool.false_ne_true
    · rw [heq]
      exact Bool.false_ne_true
  | true =>
    rw [sendEvent_custom hdone hcustom, and_iff_right ((newClient_custom env c hm lib symbol).mp hcustom)]
    by_cases hcall : Succeeds env (customCall (newClient env c hm lib symbol))
    · refine iff_of_true ?_ hcall
      obtain ⟨data, hdata, ⟨hnone, _⟩ | heq⟩ := sendCustom_succeeds hcall
      · exact absurd hnone (format_first (accepted_symbol_length accepted.names) hdata)
      · rw [heq]
        dsimp only
        rw [newClient_once env c lib symbol once, Bool.or_true]
    · refine iff_of_false ?_ hcall
      rw [sendCustom_fails hcall]
      exact Bool.false_ne_true

/-- A stream for once calls its plugin once exactly when this is in the generic mode and the first
call gives an output, or no poll is due. -/
theorem once_iff (accepted : Accepted env t hm lib symbol) (once : ForOnce hm) (envs : List Env) :
    (calls (life env envs (newClient env c hm lib symbol))).length ≤ 1 ↔
      (Generic lib symbol ∧ Succeeds env (customCall (newClient env c hm lib symbol))) ∨
        ∀ e ∈ envs, ¬UInt64.ofInt (intervalOf hm) ≤ e.now - env.now := by
  obtain ⟨p, hp⟩ := sendCall_open (rfl : (newClient env c hm lib symbol).done = false)
  have hcalls : (calls (life env envs (newClient env c hm lib symbol))).length ≤ 1 ↔
      calls (pollVisits envs (sseSendEvent env (newClient env c hm lib symbol)).1) = [] := by
    rw [life, calls_cons, sendVisit, hp, ← List.length_eq_zero_iff, Option.toList_some, List.length_append,
      List.length_singleton]
    omega
  rw [hcalls, ← first_done accepted once]
  cases hdone : (sseSendEvent env (newClient env c hm lib symbol)).1.done with
  | true => exact iff_of_true (calls_done envs hdone) (Or.inl rfl)
  | false =>
    rw [calls_open envs hdone, or_iff_right Bool.false_ne_true]
    obtain ⟨lastId, seq, done, hclient⟩ := sendEvent_client env (newClient env c hm lib symbol)
    rw [hclient]
    exact Iff.rfl

end Once

section Dialogs

def dialogQuery : Bytes := ascii "lib=sys_info&symbol=post_choose_file&once=1"

theorem dialogQuery_plain : 0 ∉ dialogQuery := by decide

/-- A dialog is asked for, as the documentation does it. -/
def dialogRequest : HttpMessage :=
  getRequest dialogQuery [] dialogQuery_plain headers_nil

/-- The user picks a file or cancels the dialog. -/
def dialogEnv (now : UInt64) (picked : Bool) : Env :=
  { sampleEnv with now := now, call := fun _ _ _ => (if picked then 0 else 1, some (ascii "null")) }

private theorem dialog_accepted (now : UInt64) (picked : Bool) :
    Accepted (dialogEnv now picked) (fun _ => (SseClient.zero : SseClient Nat)) dialogRequest
      (ascii "sys_info") (ascii "post_choose_file") :=
  ⟨by decide, by decide +kernel, rfl, by decide⟩

private theorem dialog_once : ForOnce dialogRequest := by decide +kernel

/-- A file that is picked at once ends the calls. -/
theorem once_iff_picked : (calls (life (dialogEnv 0 true) [dialogEnv 200 true, dialogEnv 300 true]
    (newClient (dialogEnv 0 true) 0 dialogRequest (ascii "sys_info")
      (ascii "post_choose_file")))).length ≤ 1 :=
  (once_iff (dialog_accepted 0 true) dialog_once _).mpr (Or.inl ⟨by decide, by decide +kernel⟩)

/-- A dialog that is cancelled comes again with the next poll. -/
theorem cancelled_dialog_again :
    ∃ (env : Env) (t : Table Nat) (hm : HttpMessage) (lib symbol : Bytes) (envs : List Env),
      Accepted env t hm lib symbol ∧ ForOnce hm ∧
      (calls (life env envs (newClient env (0 : Nat) hm lib symbol))).length = 3 :=
  ⟨dialogEnv 0 false, fun _ => SseClient.zero, dialogRequest, ascii "sys_info",
    ascii "post_choose_file", [dialogEnv 200 false, dialogEnv 300 false, dialogEnv 400 false],
    dialog_accepted 0 false, dialog_once, by decide +kernel⟩

end Dialogs

end Cyctron.Sse.Once
