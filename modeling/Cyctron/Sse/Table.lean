/- Cyctron/Sse/Table
   digest: Over any run of requests, polls and closes, the streams that are open own the slots. -/

import Cyctron.Machine.Labelled
import Cyctron.Sse.Model
import Mathlib.Data.Finset.Card
import Mathlib.Data.Fintype.Card
import Mathlib.Logic.Function.Basic

set_option autoImplicit false
set_option relaxedAutoImplicit false

namespace Cyctron.Sse.Table

open Cyctron.Base.CString Cyctron.Base.Number Cyctron.Http.Message Cyctron.Plugin.Path Cyctron.Sse.Model
open Cyctron.Machine.Labelled (System Run Path anyStep)
open Cyctron.Mongoose.Json (mgJsonGetStr mgJsonGetTok)
open Cyctron.Sse.Format (sseFormatEvent eventText format_text)

universe u

/-- The table, the connections, and those of them whose response is not finished. -/
structure World (κ : Type u) where
  table : Table κ
  connections : Finset κ
  responding : Finset κ

/-- What mongoose does with a connection; the handlers find the given environments. -/
inductive Action (κ : Type u)
  | connect (c : κ)
  | request (c : κ) (env : Env) (hm : HttpMessage)
  | poll (c : κ) (env : Env)
  | close (c : κ)

inductive Report (κ : Type u)
  | accepted (c : κ)
  | refused (c : κ) (code : Nat)
  | closed (c : κ)
  deriving DecidableEq

section Steps

variable {κ : Type u} [DecidableEq κ]

/-- A connection that has a stream gets no further request, and one that is closed is gone until it
comes as a new one. -/
def step (w : World κ) : Action κ → Option (World κ × List (Report κ))
  | .connect c =>
    if c ∈ w.connections then none
    else some ({ w with connections := insert c w.connections }, [])
  | .request c env hm =>
    if c ∈ w.connections ∧ c ∉ w.responding then
      let r := evHandlerSse env w.table c hm
      match r.2 with
      | .refused code _ => some ({ w with table := r.1 }, [.refused c code])
      | .stream _ _ =>
        some ({ w with table := r.1, responding := insert c w.responding }, [.accepted c])
    else none
  | .poll c env =>
    if c ∈ w.connections then some ({ w with table := (sseOnPoll env w.table c).1 }, []) else none
  | .close c =>
    if c ∈ w.connections then
      some (⟨sseOnClose w.table c, w.connections.erase c, w.responding.erase c⟩, [.closed c])
    else none

def server : System (World κ) (Action κ) (Report κ) :=
  ⟨⟨fun _ => .zero, ∅, ∅⟩, step⟩

/-- The connections whose request is accepted and that are not closed yet. -/
def streams (tr : List (Report κ)) : Finset κ :=
  tr.foldl (fun s r =>
    match r with
    | .accepted c => insert c s
    | .refused _ _ => s
    | .closed c => s.erase c) ∅

/-- An active slot of a connection. -/
def Owns (t : Table κ) (c : κ) (i : Slot) : Prop := (t i).active = true ∧ (t i).c = some c

instance (t : Table κ) (c : κ) (i : Slot) : Decidable (Owns t c i) :=
  inferInstanceAs (Decidable (_ ∧ _))

/-- A name of letters, digits, underscores and hyphens. -/
def Name (s : Bytes) : Prop := s ≠ [] ∧ ∀ b ∈ s, isalnum b = true ∨ b = 95 ∨ b = 45

/-- The library of a request, and its symbol. -/
def libOf (hm : HttpMessage) : Bytes :=
  (queryVar hm "lib" SSE_ARGS_MAX).elim (ascii "sse_demo") cString

def symbolOf (hm : HttpMessage) : Bytes :=
  (queryVar hm "symbol" SSE_ARGS_MAX).elim (ascii "sse_next") cString

/-- A request that the handler has no reason to refuse but a full table. -/
structure Admissible (env : Env) (hm : HttpMessage) : Prop where
  get : hm.method = ascii "GET"
  lib : Name (libOf hm)
  lib_short : (libOf hm).length ≤ 63
  symbol : Name (symbolOf hm)
  symbol_short : (symbolOf hm).length ≤ 127
  readable : env.readable (clientPath env.fs (libOf hm)) = true

/-- What an active slot holds. -/
structure Formed (cl : SseClient κ) : Prop where
  linked : ∃ c, cl.c = some c
  lib : Name cl.lib
  symbol : Name cl.symbol
  interval : SSE_MIN_INTERVAL_MS ≤ cl.intervalMs ∧ cl.intervalMs ≤ SSE_MAX_INTERVAL_MS

/-- The table over the streams that are open. -/
structure Sound (w : World κ) (s : Finset κ) : Prop where
  owners : ∀ c, c ∈ s ↔ ∃ i, Owns w.table c i
  distinct : ∀ c i j, Owns w.table c i → Owns w.table c j → i = j
  formed : ∀ i, (w.table i).active = true → Formed (w.table i)
  responding : w.responding = s

end Steps

section Clients

variable {κ : Type u}

/-- What the events of a client leave as it is. -/
structure Same (cl cl' : SseClient κ) : Prop where
  c : cl'.c = cl.c
  active : cl'.active = cl.active
  lib : cl'.lib = cl.lib
  symbol : cl'.symbol = cl.symbol
  intervalMs : cl'.intervalMs = cl.intervalMs
  custom : cl'.custom = cl.custom

theorem Same.refl (cl : SseClient κ) : Same cl cl := ⟨rfl, rfl, rfl, rfl, rfl, rfl⟩

theorem Same.trans {cl cl' cl'' : SseClient κ} (h : Same cl cl') (h' : Same cl' cl'') :
    Same cl cl'' :=
  ⟨h'.c.trans h.c, h'.active.trans h.active, h'.lib.trans h.lib, h'.symbol.trans h.symbol,
    h'.intervalMs.trans h.intervalMs, h'.custom.trans h.custom⟩

/-- What the plugin of a client in the generic mode answers. -/
def customResult (env : Env) (cl : SseClient κ) : Int × Option Bytes :=
  env.call (clientPath env.fs cl.lib) cl.symbol (if cl.args = [] then none else some cl.args)

/-- What the plugin of the default mode answers. -/
def nextResult (env : Env) (cl : SseClient κ) : Int × Option Bytes :=
  env.call (clientPath env.fs (ascii "sse_demo")) (ascii "sse_next")
    (some (snprintf 64 (ascii "\x7b\"after_id\":" ++ decimalInt cl.lastId ++ ascii "\x7d")))

/-- The generic mode sends nothing after a call that fails. Otherwise it takes a number, and ends the
calls of a client for once when its event is formatted. -/
theorem sendCustom_spec (env : Env) (cl : SseClient κ) :
    (sseSendCustom env cl = (cl, none) ∧ ∀ out, customResult env cl ≠ (0, some out)) ∨
    ∃ out, customResult env cl = (0, some out) ∧
      ((sseFormatEvent SSE_EVENT_BUF (cl.seq + 1) (some cl.symbol)
          (some ((cString out).take (SSE_DATA_MAX - 1))) = none ∧
        sseSendCustom env cl = ({ cl with seq := cl.seq + 1 }, none)) ∨
      sseSendCustom env cl = ({ cl with seq := cl.seq + 1, done := cl.done || cl.once },
        some (eventText (cl.seq + 1) (some cl.symbol)
          (some ((cString out).take (SSE_DATA_MAX - 1)))))) := by
  unfold sseSendCustom customResult
  dsimp only
  generalize env.call _ _ _ = r
  obtain ⟨rc, out⟩ := r
  cases out with
  | none => exact Or.inl ⟨rfl, fun out h => Option.some_ne_none out (Prod.mk.inj h).2.symm⟩
  | some out =>
    dsimp only
    split
    · rename_i hrc
      exact Or.inl ⟨rfl, fun _ h => hrc (Prod.mk.inj h).1⟩
    · rename_i hrc
      refine Or.inr ⟨out, by rw [not_not.mp hrc], ?_⟩
      cases htext : sseFormatEvent SSE_EVENT_BUF (cl.seq + 1) (some cl.symbol)
          (some ((cString out).take (SSE_DATA_MAX - 1))) with
      | none => exact Or.inl ⟨rfl, rfl⟩
      | some text =>
        rw [← format_text htext]
        exact Or.inr rfl

/-- The default mode sends nothing, or an event with a greater number. -/
theorem sendNext_spec (env : Env) (cl : SseClient κ) :
    sseSendNext env cl = (cl, none) ∨
    ∃ out, nextResult env cl = (0, some out) ∧ cl.lastId < env.getLong (cString out) "$.id" 0 ∧
      sseSendNext env cl = ({ cl with lastId := env.getLong (cString out) "$.id" 0 },
        some (eventText (env.getLong (cString out) "$.id" 0)
          (some ((mgJsonGetStr (cString out) "$.event").getD (ascii "message")))
          (some (if (mgJsonGetTok (cString out) "$.data").take (SSE_DATA_MAX - 1) = [] then
            ascii "null" else (mgJsonGetTok (cString out) "$.data").take (SSE_DATA_MAX - 1))))) := by
  unfold sseSendNext nextResult
  dsimp only
  generalize env.call _ _ _ = r
  obtain ⟨rc, out⟩ := r
  cases out with
  | none => exact Or.inl rfl
  | some out =>
    dsimp only
    split
    · exact Or.inl rfl
    · rename_i hrc
      split
      · exact Or.inl rfl
      · rename_i hgreater
        cases htext : sseFormatEvent SSE_EVENT_BUF (env.getLong (cString out) "$.id" 0)
            (some ((mgJsonGetStr (cString out) "$.event").getD (ascii "message")))
            (some (if (mgJsonGetTok (cString out) "$.data").take (SSE_DATA_MAX - 1) = [] then
              ascii "null" else (mgJsonGetTok (cString out) "$.data").take (SSE_DATA_MAX - 1))) with
        | none => exact Or.inl rfl
        | some text =>
          refine Or.inr ⟨out, by rw [not_not.mp hrc], Int.not_le.mp hgreater, ?_⟩
          rw [← format_text htext]

private theorem sendCustom_same (env : Env) (cl : SseClient κ) : Same cl (sseSendCustom env cl).1 := by
  rcases sendCustom_spec env cl with ⟨heq, _⟩ | ⟨_, _, ⟨_, heq⟩ | heq⟩
  · rw [heq]
    exact .refl cl
  · rw [heq]
    exact ⟨rfl, rfl, rfl, rfl, rfl, rfl⟩
  · rw [heq]
    exact ⟨rfl, rfl, rfl, rfl, rfl, rfl⟩

private theorem sendNext_same (env : Env) (cl : SseClient κ) : Same cl (sseSendNext env cl).1 := by
  rcases sendNext_spec env cl with heq | ⟨_, _, _, heq⟩
  · rw [heq]
    exact .refl cl
  · rw [heq]
    exact ⟨rfl, rfl, rfl, rfl, rfl, rfl⟩

theorem sendEvent_same (env : Env) (cl : SseClient κ) : Same cl (sseSendEvent env cl).1 := by
  unfold sseSendEvent
  split
  · exact .refl cl
  · split
    · exact sendCustom_same env cl
    · exact sendNext_same env cl

theorem pollClient_same (env : Env) (cl : SseClient κ) : Same cl (pollClient env cl).1 := by
  have hpoll : Same cl (if UInt64.ofInt cl.intervalMs ≤ env.now - cl.lastPollMs then
      sseSendEvent env { cl with lastPollMs := env.now } else (cl, none)).1 := by
    split
    · have htime : Same cl { cl with lastPollMs := env.now } := ⟨rfl, rfl, rfl, rfl, rfl, rfl⟩
      exact htime.trans (sendEvent_same env _)
    · exact .refl cl
  unfold pollClient
  dsimp only
  generalize (if UInt64.ofInt cl.intervalMs ≤ env.now - cl.lastPollMs then
    sseSendEvent env { cl with lastPollMs := env.now } else (cl, none)) = r at hpoll ⊢
  split
  · have hping : Same r.1 { r.1 with lastPingMs := env.now } := ⟨rfl, rfl, rfl, rfl, rfl, rfl⟩
    exact hpoll.trans hping
  · exact hpoll

private theorem Same.formed {cl cl' : SseClient κ} (h : Same cl cl') (hcl : Formed cl) :
    Formed cl' := by
  obtain ⟨linked, lib, symbol, interval⟩ := hcl
  refine ⟨?_, ?_, ?_, ?_⟩
  · rw [h.c]
    exact linked
  · rw [h.lib]
    exact lib
  · rw [h.symbol]
    exact symbol
  · rw [h.intervalMs]
    exact interval

section Free

variable {t : Table κ} {i : Slot}

private theorem freeSlot_free (h : freeSlot t = some i) : (t i).active = false := by
  have hfound := List.find?_some h
  rwa [Bool.not_eq_true'] at hfound

private theorem freeSlot_none (h : freeSlot t = none) (i : Slot) : (t i).active = true := by
  have hi := List.find?_eq_none.mp h i (List.mem_finRange i)
  rwa [Bool.not_eq_true', Bool.not_eq_false] at hi

end Free

end Clients

section Slots

variable {κ : Type u} {t t' : Table κ} {c c' : κ} {i j : Slot} {w w' : World κ} {s : Finset κ}

private theorem owns_same (h : Same (t i) (t' i)) : Owns t' c i ↔ Owns t c i := by
  unfold Owns
  rw [h.active, h.c]

private theorem owns_update {cl : SseClient κ} (hactive : cl.active = true) (hc : cl.c = some c) :
    Owns (Function.update t i cl) c' j ↔ if j = i then c = c' else Owns t c' j := by
  unfold Owns
  by_cases hij : j = i
  · subst hij
    rw [Function.update_self, if_pos rfl, hc, Option.some_inj, and_iff_right hactive]
  · rw [Function.update_of_ne hij, if_neg hij]

/-- What leaves the owners as they are. -/
theorem Sound.same (h : Sound w s) (hsame : ∀ i, Same (w.table i) (w'.table i))
    (hresponding : w'.responding = w.responding) : Sound w' s := by
  obtain ⟨owners, distinct, formed, responding⟩ := h
  refine ⟨?_, ?_, ?_, hresponding.trans responding⟩
  · intro c
    rw [owners]
    exact exists_congr fun i => (owns_same (hsame i)).symm
  · intro c i j hi hj
    exact distinct c i j ((owns_same (hsame i)).mp hi) ((owns_same (hsame j)).mp hj)
  · intro i hi
    rw [(hsame i).active] at hi
    exact (hsame i).formed (formed i hi)

variable [DecidableEq κ]

theorem sseFind_owns (h : sseFind t c = some i) : Owns t c i := by
  have hfound := List.find?_some h
  rw [Bool.and_eq_true, decide_eq_true_eq] at hfound
  exact hfound

theorem sseFind_none (h : sseFind t c = none) (i : Slot) : ¬Owns t c i := by
  intro hi
  apply List.find?_eq_none.mp h i (List.mem_finRange i)
  rw [Bool.and_eq_true, decide_eq_true_eq]
  exact hi

/-- A poll changes no owner. -/
private theorem sseOnPoll_same (env : Env) (t : Table κ) (c : κ) (i : Slot) :
    Same (t i) ((sseOnPoll env t c).1 i) := by
  unfold sseOnPoll
  cases sseFind t c with
  | none => exact .refl (t i)
  | some j =>
    dsimp only
    by_cases hij : i = j
    · subst hij
      rw [Function.update_self]
      exact pollClient_same env (t i)
    · rw [Function.update_of_ne hij]
      exact .refl (t i)

/-- A close frees the slot of its connection. -/
theorem sseOnClose_apply (distinct : ∀ i j, Owns t c i → Owns t c j → i = j) (i : Slot) :
    sseOnClose t c i = if Owns t c i then .zero else t i := by
  unfold sseOnClose
  cases hfind : sseFind t c with
  | none => rw [if_neg (sseFind_none hfind i)]
  | some j =>
    dsimp only
    have hj := sseFind_owns hfind
    by_cases hij : i = j
    · subst hij
      rw [Function.update_self, if_pos hj]
    · have hi : ¬Owns t c i := fun hi => hij (distinct i j hi hj)
      rw [Function.update_of_ne hij, if_neg hi]

/-- A slot that was free, for a connection without a stream. -/
theorem Sound.accept (h : Sound w s) {cl : SseClient κ} (hfree : (w.table i).active = false)
    (hfresh : c ∉ s) (hactive : cl.active = true) (hc : cl.c = some c) (hcl : Formed cl) :
    Sound ⟨Function.update w.table i cl, w.connections, insert c w.responding⟩ (insert c s) := by
  obtain ⟨owners, distinct, formed, responding⟩ := h
  have hnone : ∀ c', ¬Owns w.table c' i := fun c' hi => Bool.false_ne_true (hfree.symm.trans hi.1)
  refine ⟨?_, ?_, ?_, congrArg (insert c) responding⟩
  · intro c'
    rw [Finset.mem_insert, owners]
    constructor
    · rintro (rfl | ⟨j, hj⟩)
      · exact ⟨i, (owns_update hactive hc).mpr (by rw [if_pos rfl])⟩
      · have hji : j ≠ i := fun heq => hnone c' (heq ▸ hj)
        exact ⟨j, (owns_update hactive hc).mpr (by rwa [if_neg hji])⟩
    · rintro ⟨j, hj⟩
      have hj := (owns_update hactive hc).mp hj
      split_ifs at hj with hji
      · exact Or.inl hj.symm
      · exact Or.inr ⟨j, hj⟩
  · intro c' j k hj hk
    have hj := (owns_update hactive hc).mp hj
    have hk := (owns_update hactive hc).mp hk
    split_ifs at hj hk with hji hki hki
    · exact hji.trans hki.symm
    · exact absurd ((owners c).mpr ⟨k, hj ▸ hk⟩) hfresh
    · exact absurd ((owners c).mpr ⟨j, hk ▸ hj⟩) hfresh
    · exact distinct c' j k hj hk
  · intro j hj
    by_cases hji : j = i
    · subst hji
      change Formed (Function.update w.table j cl j)
      rw [Function.update_self]
      exact hcl
    · change Formed (Function.update w.table i cl j)
      change (Function.update w.table i cl j).active = true at hj
      rw [Function.update_of_ne hji] at hj ⊢
      exact formed j hj

theorem Sound.close (h : Sound w s) (c : κ) :
    Sound ⟨sseOnClose w.table c, w.connections.erase c, w.responding.erase c⟩ (s.erase c) := by
  obtain ⟨owners, distinct, formed, responding⟩ := h
  have happly := sseOnClose_apply (distinct c)
  have howns : ∀ c' i, Owns (sseOnClose w.table c) c' i ↔ c' ≠ c ∧ Owns w.table c' i := by
    intro c' i
    unfold Owns
    rw [happly i]
    by_cases hi : Owns w.table c i
    · rw [if_pos hi]
      refine iff_of_false (fun hz => Bool.false_ne_true hz.1) ?_
      rintro ⟨hne, _, hc'⟩
      exact hne (Option.some.inj (hc'.symm.trans hi.2))
    · rw [if_neg hi]
      refine ⟨fun hc' => ⟨?_, hc'⟩, fun hc' => hc'.2⟩
      rintro rfl
      exact hi hc'
  refine ⟨?_, ?_, ?_, congrArg (Finset.erase · c) responding⟩
  · intro c'
    rw [Finset.mem_erase, owners, ← exists_and_left]
    exact exists_congr fun i => (howns c' i).symm
  · intro c' i j hi hj
    exact distinct c' i j ((howns c' i).mp hi).2 ((howns c' j).mp hj).2
  · intro i hi
    change Formed (sseOnClose w.table c i)
    change (sseOnClose w.table c i).active = true at hi
    rw [happly i] at hi ⊢
    split_ifs at hi ⊢ with hc
    · cases hi
    · exact formed i hi

/-- When no slot is free, each is the one of another stream. -/
theorem Sound.full (h : Sound w s) (hfull : ∀ i, (w.table i).active = true) :
    s.card = SSE_MAX_CLIENTS := by
  choose f hf using fun i => (h.formed i (hfull i)).linked
  have hinjective : Function.Injective f := by
    intro i j hij
    apply h.distinct (f i) i j ⟨hfull i, hf i⟩
    rw [hij]
    exact ⟨hfull j, hf j⟩
  have himage : s = Finset.univ.image f := by
    ext c
    rw [h.owners, Finset.mem_image]
    constructor
    · rintro ⟨i, hi⟩
      exact ⟨i, Finset.mem_univ i, Option.some.inj ((hf i).symm.trans hi.2)⟩
    · rintro ⟨i, _, rfl⟩
      exact ⟨i, hfull i, hf i⟩
  rw [himage, Finset.card_image_of_injective _ hinjective, Finset.card_univ, Fintype.card_fin]

end Slots

section Requests

variable {κ : Type u} {env : Env} {t : Table κ} {c : κ} {hm : HttpMessage}

theorem name_iff {s : Bytes} : sseSafeName s = true ↔ Name s := by
  simp only [sseSafeName, Cyctron.Call.Protocol.wsSafeName, Name, Bool.and_eq_true,
    Bool.or_eq_true, decide_eq_true_eq, List.all_eq_true, or_assoc]

private theorem intervalOf_bounds (hm : HttpMessage) :
    SSE_MIN_INTERVAL_MS ≤ intervalOf hm ∧ intervalOf hm ≤ SSE_MAX_INTERVAL_MS := by
  unfold intervalOf
  cases queryVar hm "interval_ms" 32 with
  | none => decide
  | some q =>
    unfold SSE_MIN_INTERVAL_MS SSE_MAX_INTERVAL_MS
    dsimp only
    split_ifs <;> omega

theorem sseAccepts_some {lib symbol : Option Bytes} {l f : Bytes}
    (h : sseAccepts lib symbol = some (l, f)) : Name l ∧ Name f := by
  unfold sseAccepts at h
  dsimp only at h
  split at h
  · rename_i hsafe
    obtain ⟨rfl, rfl⟩ := Prod.mk.inj (Option.some.inj h)
    rw [Bool.and_eq_true] at hsafe
    exact ⟨name_iff.mp hsafe.1, name_iff.mp hsafe.2⟩
  · cases h

/-- A parameter that fits is taken as it is. -/
private theorem queryField_short {dflt : String} {size : Nat} {name : String} {len : Nat}
    (h : ((queryVar hm name len).elim (ascii dflt) cString).length < size) :
    queryField dflt size (queryVar hm name len) =
      (queryVar hm name len).elim (ascii dflt) cString := by
  cases hvar : queryVar hm name len with
  | none => rfl
  | some v =>
    have hne : v ≠ [] := by
      have hfilter := (Option.filter_eq_some_iff.mp hvar).2
      exact of_decide_eq_true hfilter
    rw [hvar] at h
    obtain ⟨b, bs, rfl⟩ := List.exists_cons_of_ne_nil hne
    exact snprintf_fits h

theorem Admissible.accepts (h : Admissible env hm) :
    sseAccepts (queryVar hm "lib" SSE_ARGS_MAX) (queryVar hm "symbol" SSE_ARGS_MAX) =
      some (libOf hm, symbolOf hm) := by
  have hlib : queryField "sse_demo" 64 (queryVar hm "lib" SSE_ARGS_MAX) = libOf hm :=
    queryField_short (Nat.lt_succ_of_le h.lib_short)
  have hsymbol : queryField "sse_next" 128 (queryVar hm "symbol" SSE_ARGS_MAX) = symbolOf hm :=
    queryField_short (Nat.lt_succ_of_le h.symbol_short)
  unfold sseAccepts
  dsimp only
  rw [hlib, hsymbol, name_iff.mpr h.lib, name_iff.mpr h.symbol]
  rfl

/-- Either the request is refused and the table stays, or a free slot is filled for it. -/
theorem evHandlerSse_cases (env : Env) (t : Table κ) (c : κ) (hm : HttpMessage) :
    (∃ code json, evHandlerSse env t c hm = (t, .refused code json) ∧
      (code = 405 ∨ code = 400 ∨ code = 503) ∧
      (Admissible env hm → ∀ i, (t i).active = true)) ∨
    (∃ i cl head event, evHandlerSse env t c hm = (Function.update t i cl, .stream head event) ∧
      (t i).active = false ∧ cl.active = true ∧ cl.c = some c ∧ Formed cl) := by
  unfold evHandlerSse
  by_cases hget : hm.method = ascii "GET"
  · rw [if_neg (not_not.mpr hget)]
    cases haccepts : sseAccepts (queryVar hm "lib" SSE_ARGS_MAX)
        (queryVar hm "symbol" SSE_ARGS_MAX) with
    | none =>
      refine Or.inl ⟨400, _, rfl, Or.inr (Or.inl rfl), fun h => ?_⟩
      cases haccepts.symm.trans h.accepts
    | some r =>
      obtain ⟨lib, symbol⟩ := r
      obtain ⟨hlib, hsymbol⟩ := sseAccepts_some haccepts
      dsimp only
      by_cases hreadable : env.readable (clientPath env.fs lib) = false
      · rw [if_pos hreadable]
        refine Or.inl ⟨503, _, rfl, Or.inr (Or.inr rfl), fun h => ?_⟩
        obtain ⟨rfl, _⟩ := Prod.mk.inj (Option.some.inj (haccepts.symm.trans h.accepts))
        exact absurd (hreadable.symm.trans h.readable) Bool.false_ne_true
      · rw [if_neg hreadable]
        cases hfree : freeSlot t with
        | none => exact Or.inl ⟨503, _, rfl, Or.inr (Or.inr rfl), fun _ => freeSlot_none hfree⟩
        | some i =>
          have hsame := sendEvent_same env (newClient env c hm lib symbol)
          have hformed : Formed (newClient env c hm lib symbol) :=
            ⟨⟨c, rfl⟩, hlib, hsymbol, intervalOf_bounds hm⟩
          exact Or.inr ⟨i, _, _, _, rfl, freeSlot_free hfree, hsame.active, hsame.c,
            hsame.formed hformed⟩
  · rw [if_pos hget]
    exact Or.inl ⟨405, _, rfl, Or.inl rfl, fun h => absurd h.get hget⟩

end Requests

section Runs

variable {κ : Type u} [DecidableEq κ] {w w' : World κ} {s : Finset κ} {tr es : List (Report κ)}
  {a : Action κ}

private theorem streams_append (tr : List (Report κ)) (r : Report κ) : streams (tr ++ [r]) =
    match r with
    | .accepted c => insert c (streams tr)
    | .refused _ _ => streams tr
    | .closed c => (streams tr).erase c := by
  unfold streams
  rw [List.foldl_append]
  rfl

theorem Sound.step (h : Sound w (streams tr)) (hstep : step w a = some (w', es)) :
    Sound w' (streams (tr ++ es)) := by
  cases a with
  | connect c =>
    unfold Table.step at hstep
    dsimp only at hstep
    split at hstep
    · cases hstep
    · obtain ⟨rfl, rfl⟩ := Prod.mk.inj (Option.some.inj hstep)
      rw [List.append_nil]
      exact h.same (fun i => .refl _) rfl
  | request c env hm =>
    unfold Table.step at hstep
    dsimp only at hstep
    split at hstep
    · rename_i hallowed
      rcases evHandlerSse_cases env w.table c hm with
        ⟨code, json, heq, _, _⟩ | ⟨i, cl, head, event, heq, hfree, hactive, hc, hcl⟩
      · rw [heq] at hstep
        obtain ⟨rfl, rfl⟩ := Prod.mk.inj (Option.some.inj hstep)
        rw [streams_append]
        exact h.same (fun i => .refl _) rfl
      · rw [heq] at hstep
        obtain ⟨rfl, rfl⟩ := Prod.mk.inj (Option.some.inj hstep)
        rw [streams_append]
        exact h.accept hfree (h.responding ▸ hallowed.2) hactive hc hcl
    · cases hstep
  | poll c env =>
    unfold Table.step at hstep
    dsimp only at hstep
    split at hstep
    · obtain ⟨rfl, rfl⟩ := Prod.mk.inj (Option.some.inj hstep)
      rw [List.append_nil]
      exact h.same (sseOnPoll_same env w.table c) rfl
    · cases hstep
  | close c =>
    unfold Table.step at hstep
    dsimp only at hstep
    split at hstep
    · obtain ⟨rfl, rfl⟩ := Prod.mk.inj (Option.some.inj hstep)
      rw [streams_append]
      exact h.close c
    · cases hstep

theorem sound_run (run : Run (server (κ := κ)) anyStep tr w) : Sound w (streams tr) := by
  refine run.invariant (fun tr w => Sound w (streams tr)) ?_ fun _ _ _ _ _ h _ hstep => h.step hstep
  refine ⟨fun c => ?_, fun c i j hi => ?_, fun i hi => ?_, rfl⟩
  · refine iff_of_false (Finset.notMem_empty c) ?_
    rintro ⟨i, hi, _⟩
    exact Bool.false_ne_true hi
  · exact absurd hi.1 Bool.false_ne_true
  · exact absurd hi Bool.false_ne_true

/-- In every run each open stream has one slot, whose names and interval are in bounds, and nobody
else has any; a close frees the slot of its connection alone, a refused request changes none, and
one that is admissible is refused for a full table only. -/
theorem one_slot_each (run : Run (server (κ := κ)) anyStep tr w) :
    (∀ c ∈ streams tr, ∃! i, Owns w.table c i) ∧
    (∀ c, c ∉ streams tr → ∀ i, ¬Owns w.table c i) ∧
    (∀ i, (w.table i).active = true → Formed (w.table i)) ∧
    (∀ c w' es, step w (.close c) = some (w', es) →
      ∀ i, w'.table i = if Owns w.table c i then .zero else w.table i) ∧
    (∀ c env hm w' es, step w (.request c env hm) = some (w', es) →
      ∀ code, .refused c code ∈ es → w'.table = w.table ∧
        (code = 405 ∨ code = 400 ∨ code = 503) ∧
        (Admissible env hm → (streams tr).card = SSE_MAX_CLIENTS)) := by
  have hs := sound_run run
  refine ⟨?_, ?_, hs.formed, ?_, ?_⟩
  · intro c hc
    obtain ⟨i, hi⟩ := (hs.owners c).mp hc
    exact ⟨i, hi, fun j hj => hs.distinct c j i hj hi⟩
  · intro c hc i hi
    exact hc ((hs.owners c).mpr ⟨i, hi⟩)
  · intro c w' es hstep
    unfold step at hstep
    dsimp only at hstep
    split at hstep
    · obtain ⟨rfl, rfl⟩ := Prod.mk.inj (Option.some.inj hstep)
      exact sseOnClose_apply (hs.distinct c)
    · cases hstep
  · intro c env hm w' es hstep code hcode
    unfold step at hstep
    dsimp only at hstep
    split at hstep
    · rcases evHandlerSse_cases env w.table c hm with
        ⟨code', json, heq, hkind, hfull⟩ | ⟨i, cl, head, event, heq, _⟩
      · rw [heq] at hstep
        obtain ⟨rfl, rfl⟩ := Prod.mk.inj (Option.some.inj hstep)
        cases List.mem_singleton.mp hcode
        exact ⟨rfl, hkind, fun h => hs.full (hfull h)⟩
      · rw [heq] at hstep
        obtain ⟨rfl, rfl⟩ := Prod.mk.inj (Option.some.inj hstep)
        cases List.mem_singleton.mp hcode
    · cases hstep

def sampleEnv : Env :=
  ⟨⟨fun _ => false, fun _ => none⟩, fun _ => true, 1000, fun _ _ _ => (-1, none), fun _ _ _ => 0⟩

def sampleRequest (method : Bytes) (plain : 0 ∉ method) : HttpMessage :=
  ⟨method, ascii "/sse", [], [], [], plain, by decide, plain_nil, headers_nil, size_nil⟩

/-- One connection has a stream, one is refused, and one is closed. -/
theorem one_slot_sample : ∃ tr w, Run (server (κ := Nat)) anyStep tr w ∧
    streams tr = {1} ∧ .refused 2 405 ∈ tr ∧ (∃! i, Owns w.table 1 i) ∧
    ∀ i, ¬Owns w.table 3 i := by
  obtain ⟨tr, w, run, hstreams, hrefused⟩ := server.exec_reaches anyStep
    [.connect 3, .connect 1, .connect 2,
      .request 3 sampleEnv (sampleRequest (ascii "GET") (by decide)),
      .request 1 sampleEnv (sampleRequest (ascii "GET") (by decide)),
      .request 2 sampleEnv (sampleRequest (ascii "POST") (by decide)),
      .poll 2 sampleEnv, .poll 3 sampleEnv, .close 3]
    (fun tr _ => streams tr = {1} ∧ .refused 2 405 ∈ tr) (by decide +kernel)
  obtain ⟨hone, hnone, _⟩ := one_slot_each run
  refine ⟨tr, w, run, hstreams, hrefused, hone 1 ?_, hnone 3 ?_⟩
  · rw [hstreams]
    decide
  · rw [hstreams]
    decide

end Runs

end Cyctron.Sse.Table
