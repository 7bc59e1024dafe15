/- Cyctron/Server/Inversion
   digest: What each step of the server can do, and its runs as runs of the pool. -/

import Cyctron.Server.Model
import Cyctron.WsWorker.Progress
import Cyctron.WsWorker.Locals

set_option autoImplicit false
set_option relaxedAutoImplicit false

namespace Cyctron.Server.Inversion

open Cyctron.Base.CString Cyctron.Call.Protocol Cyctron.Server.Connections Cyctron.Server.Model
open Cyctron.WsWorker.Model (Pool SubmitArgs WsDone WsJob Worker newJob wsWorkerInit pool)
open Cyctron.Machine.Labelled (Path Run)

/-- Everything that a step can do, one constructor for each outcome. -/
inductive Step (mg : MgJson) (s : ServerState) : Action → ServerState → List Event → Prop
  | start {created : Nat} {t : Pool} {es : List WsWorker.Model.Event} (at_ : s.main = .starting)
      (move : pool.step s.pool (.init created) = some (t, es))
      (state : t = (wsWorkerInit s.pool created).1) :
      Step mg s (.start created)
        { s with
          pool := t
          main := if (wsWorkerInit s.pool created).2 = 0 then .idle else .exited }
        (es.map .pool)
  | conn {a : ConnAction} {t : ConnState} (free : s.main = .idle ∨ isMark a = true)
      (move : s.conns.step a = some t) : Step mg s (.conn a) { s with conns := t } []
  | reject {c : Nat} {k : MgConnection} {payload : Bytes} {mem : ParseAlloc} {respMem : Bool}
      {now : Int} (at_ : s.main = .idle) (live : s.conns.conns c = some k)
      (ws : k.isWebsocket = true)
      (bad : (wsCallParse mg mem (some payload) errSize).code ≠ WS_CALL_OK) :
      Step mg s (.message c payload mem respMem now) { s with messages := s.messages + 1 }
        (.received s.messages k.id ::
          respond s.conns c s.messages respMem (wsCallParse mg mem (some payload) errSize).req.id
            (wsCallParse mg mem (some payload) errSize).code
            (wsCallParse mg mem (some payload) errSize).err now)
  | call {c : Nat} {k : MgConnection} {payload : Bytes} {mem : ParseAlloc} {respMem : Bool}
      {now : Int} {a : SubmitArgs} (at_ : s.main = .idle) (live : s.conns.conns c = some k)
      (ws : k.isWebsocket = true) (from_ : a.connId = k.id) (number : a.tag = s.messages) :
      Step mg s (.message c payload mem respMem now)
        { s with messages := s.messages + 1, main := .calling c a } [.received s.messages k.id]
  | submitting {c : Nat} {a : SubmitArgs} {part : SubmitPart} {respMem : Bool} {now : Int}
      {t : Pool} {es : List WsWorker.Model.Event} (at_ : s.main = .calling c a)
      (move : pool.step s.pool (part.action a) = some (t, es)) (still : submitResult es = none) :
      Step mg s (.submit part respMem now) { s with pool := t } (es.map .pool)
  | refused {c : Nat} {a : SubmitArgs} {part : SubmitPart} {respMem : Bool} {now rc : Int}
      {t : Pool} {es : List WsWorker.Model.Event} (at_ : s.main = .calling c a)
      (move : pool.step s.pool (part.action a) = some (t, es)) (result : submitResult es = some rc)
      (bad : rc ≠ 0) :
      Step mg s (.submit part respMem now) { s with pool := t, main := .idle }
        (es.map .pool ++ respond s.conns c a.tag respMem a.id (-6) (ascii "worker busy") now)
  | accepted {c : Nat} {a : SubmitArgs} {part : SubmitPart} {respMem : Bool} {now : Int}
      {t : Pool} {es : List WsWorker.Model.Event} (at_ : s.main = .calling c a)
      (move : pool.step s.pool (part.action a) = some (t, es)) (result : submitResult es = some 0) :
      Step mg s (.submit part respMem now) { s with pool := t, main := .idle } (es.map .pool)
  | drain {t : Pool} {es : List WsWorker.Model.Event} (at_ : s.main = .idle)
      (move : pool.step s.pool .drainDetach = some (t, es)) :
      Step mg s .drain { s with pool := t, main := .draining } (es.map .pool)
  | deliver {d : WsDone} {t : Pool} (at_ : s.main = .draining)
      (move : pool.step s.pool .drainNext = some (t, [.delivered d])) :
      Step mg s .drainNext { s with pool := t, conns := (wsCallDone s.conns d).1 }
        (.pool (.delivered d) :: (wsCallDone s.conns d).2)
  | drained {t : Pool} (at_ : s.main = .draining) (move : pool.step s.pool .drainNext = some (t, [])) :
      Step mg s .drainNext { s with pool := t, main := .idle } []
  | background {a : WsWorker.Model.Action} {t : Pool} {es : List WsWorker.Model.Event}
      (own : isBackground a = true) (move : pool.step s.pool a = some (t, es)) :
      Step mg s (.background a) { s with pool := t } (es.map .pool)

section Inversion

variable {mg : MgJson} {s s' : ServerState} {es : List Event}

private theorem of_handleCall {c : Nat} {payload : Bytes} {mem : ParseAlloc} {respMem : Bool}
    {now : Int} (h : handleCall mg s c payload mem respMem now = some (s', es)) :
    Step mg s (.message c payload mem respMem now) s' es := by
  unfold handleCall at h
  split at h
  · rename_i k idle live
    rw [Option.ite_none_right_eq_some] at h
    obtain ⟨⟨_, ws⟩, h⟩ := h
    dsimp only at h
    split at h
    · rename_i bad
      cases h
      exact .reject idle live ws bad
    · cases h
      exact .call idle live ws rfl rfl
  · cases h

private theorem of_handleCallSubmit {part : SubmitPart} {respMem : Bool} {now : Int}
    (h : handleCallSubmit s part respMem now = some (s', es)) :
    Step mg s (.submit part respMem now) s' es := by
  unfold handleCallSubmit at h
  split at h
  · rename_i c a at_
    obtain ⟨⟨t, es'⟩, move, h⟩ := Option.map_eq_some_iff.mp h
    dsimp only at h
    split at h
    · rename_i still
      cases h
      exact .submitting at_ move still
    · rename_i rc result
      split at h
      · rename_i bad
        cases h
        exact .refused at_ move result bad
      · rename_i good
        cases h
        obtain rfl : rc = 0 := by simpa using good
        exact .accepted at_ move result
  · cases h

/-- A round of the drain calls the callback once, or is the last one. -/
private theorem drainNext_events {t t' : Pool} {es : List WsWorker.Model.Event}
    (h : pool.step t .drainNext = some (t', es)) : es = [] ∨ ∃ d, es = [.delivered d] := by
  cases WsWorker.Inversion.Step.of h with
  | drainNext => exact Or.inr ⟨_, rfl⟩
  | drainReturn => exact Or.inl rfl

private theorem of_drainNext (h : drainNext s = some (s', es)) : Step mg s .drainNext s' es := by
  unfold drainNext at h
  split at h
  · rename_i at_
    obtain ⟨⟨t, es'⟩, move, h⟩ := Option.map_eq_some_iff.mp h
    rcases drainNext_events move with rfl | ⟨d, rfl⟩
    · cases h
      exact .drained at_ move
    · cases h
      exact .deliver at_ move
  · cases h

theorem Step.of {a : Action} (h : (server mg).step s a = some (s', es)) : Step mg s a s' es := by
  cases a with
  | start created =>
    change Model.start s created = some (s', es) at h
    unfold Model.start at h
    split at h
    · rename_i at_
      obtain ⟨⟨t, es'⟩, move, h⟩ := Option.map_eq_some_iff.mp h
      have hstate : t = (wsWorkerInit s.pool created).1 := by
        rw [WsWorker.Model.wsWorkerInitCall, Option.ite_none_right_eq_some] at move
        obtain ⟨_, hmove⟩ := move
        cases hmove
        rfl
      cases h
      exact .start at_ move hstate
    · cases h
  | conn a =>
    change connStep s a = some (s', es) at h
    rw [connStep, Option.ite_none_right_eq_some] at h
    obtain ⟨free, h⟩ := h
    obtain ⟨t, move, h⟩ := Option.map_eq_some_iff.mp h
    cases h
    exact .conn free move
  | message c payload mem respMem now => exact of_handleCall h
  | submit part respMem now => exact of_handleCallSubmit h
  | drain =>
    change Model.drain s = some (s', es) at h
    unfold Model.drain at h
    split at h
    · rename_i at_
      obtain ⟨⟨t, es'⟩, move, h⟩ := Option.map_eq_some_iff.mp h
      cases h
      exact .drain at_ move
    · cases h
  | drainNext => exact of_drainNext h
  | background a =>
    change Model.background s a = some (s', es) at h
    rw [Model.background, Option.ite_none_right_eq_some] at h
    obtain ⟨own, h⟩ := h
    obtain ⟨⟨t, es'⟩, move, h⟩ := Option.map_eq_some_iff.mp h
    cases h
    exact .background own move

end Inversion

end Cyctron.Server.Inversion
